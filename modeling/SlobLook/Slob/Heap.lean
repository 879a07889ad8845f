import SlobLook.Slob.Carve

/-!
# The heap invariant

The heap is well formed (`HeapInv`) when every slob page is (`PageInv`, with the free blocks its
chain reads and the blocks handed out on it), a page is on `free_slob_small`, once, exactly when
its `PageSlobFree` flag is set, exactly when it has free units, and the two other lists are
empty.  The blocks handed out are ghost state, page by page.

This module proves what the two ways `slob_alloc` changes a page keep the invariant: setting up
a new page (`HeapInv.newPage`), and carving a block of a listed page followed by
`clear_slob_page_free` when the page is full (`HeapInv.carveAt`).
-/

namespace SlobLook.Slob

/-- The slob heap is well formed, with `live pid` the blocks (offset, units) handed out on the
page `pid` and not given back. -/
structure HeapInv (c : Config) (h : SlobHeap) (live : ℕ → List (ℤ × ℤ)) : Prop where
  page : ∀ pid sp, h.pages pid = some sp → PageInv c sp (c.freeBlocks sp) (live pid)
  noPage : ∀ pid, h.pages pid = none → live pid = []
  flag : ∀ pid sp, h.pages pid = some sp → (sp.slobFree = true ↔ 0 < sp.units)
  listed : ∀ pid, pid ∈ h.freeSlobSmall ↔ ∃ sp, h.pages pid = some sp ∧ sp.slobFree = true
  nodup : h.freeSlobSmall.Nodup
  medium : h.freeSlobMedium = []
  large : h.freeSlobLarge = []

/-- The heap before the first `slob_alloc`. -/
def SlobHeap.empty : SlobHeap := ⟨fun _ => none, [], [], [], 0⟩

theorem HeapInv.empty (c : Config) : HeapInv c SlobHeap.empty fun _ => [] where
  page _ _ h := by cases h
  noPage _ _ := rfl
  flag _ _ h := by cases h
  listed _ := by simp [SlobHeap.empty]
  nodup := List.nodup_nil
  medium := rfl
  large := rfl

section Flag

variable {c : Config} {sp : SlobPage} {fb live : List (ℤ × ℤ)}

/-- The flag is not part of a page's layout. -/
theorem PageInv.setFlag (h : PageInv c sp fb live) (b : Bool) :
    PageInv c { sp with slobFree := b } fb live :=
  ⟨h.links, h.head, h.gaps, h.units, h.tiles, h.livePos, h.total⟩

@[simp] theorem freeBlocks_setFlag (b : Bool) :
    c.freeBlocks { sp with slobFree := b } = c.freeBlocks sp := rfl

end Flag

/-- The page `slob_alloc` sets up has one free block, the whole page, and nothing live. -/
theorem PageInv.newPage (c : Config) (nid : ℕ) :
    PageInv c (c.newPage nid) [(0, (c.pageUnits : ℤ))] [] := by
  have hN : (0 : ℤ) < c.pageUnits := by exact_mod_cast c.pageUnits_pos
  have hunits : (c.newPage nid).units = c.pageUnits := c.toSlobidx_eq (by omega) le_rfl
  refine ⟨⟨holds_setSlob hN le_rfl hN.le le_rfl, trivial⟩, rfl, by simp [Gaps], hunits.trans ?_,
    ⟨by simp, fun x hx₀ hx => ?_⟩, by simp, by simp [hunits]⟩
  · simp
  · simp [Tiling.coverCount, Tiling.Covers, hx₀, hx]

namespace HeapInv

variable {c : Config} {h : SlobHeap} {live : ℕ → List (ℤ × ℤ)}

theorem mem_freeSlobSmall (hinv : HeapInv c h live) {pid : ℕ} (hp : pid ∈ h.freeSlobSmall) :
    ∃ sp, h.pages pid = some sp ∧ 0 < sp.units := by
  obtain ⟨sp, hsp, hf⟩ := (hinv.listed pid).1 hp
  exact ⟨sp, hsp, (hinv.flag pid sp hsp).1 hf⟩

/-- **Frame rule for the heap invariant.**  A heap that differs from a well-formed one only at
the page `pid` (its entry, its place on `free_slob_small` and its live blocks `L`) is well formed
when that page is. -/
theorem update (hinv : HeapInv c h live) {h' : SlobHeap} {pid : ℕ} {L : List (ℤ × ℤ)}
    (hpages : ∀ q, q ≠ pid → h'.pages q = h.pages q)
    (hsmall : ∀ q, q ≠ pid → (q ∈ h'.freeSlobSmall ↔ q ∈ h.freeSlobSmall))
    (hnodup : h'.freeSlobSmall.Nodup) (hmedium : h'.freeSlobMedium = [])
    (hlarge : h'.freeSlobLarge = [])
    (hpage : ∀ sp, h'.pages pid = some sp → PageInv c sp (c.freeBlocks sp) L ∧
      (sp.slobFree = true ↔ 0 < sp.units) ∧ (pid ∈ h'.freeSlobSmall ↔ sp.slobFree = true))
    (hnone : h'.pages pid = none → L = [] ∧ pid ∉ h'.freeSlobSmall) :
    HeapInv c h' (Function.update live pid L) := by
  refine ⟨fun q sp hq => ?_, fun q hq => ?_, fun q sp hq => ?_, fun q => ?_, hnodup, hmedium,
    hlarge⟩
  · by_cases hqp : q = pid
    · subst hqp
      rw [Function.update_self]
      exact (hpage sp hq).1
    · rw [hpages q hqp] at hq
      rw [Function.update_of_ne hqp]
      exact hinv.page q sp hq
  · by_cases hqp : q = pid
    · subst hqp
      rw [Function.update_self]
      exact (hnone hq).1
    · rw [hpages q hqp] at hq
      rw [Function.update_of_ne hqp]
      exact hinv.noPage q hq
  · by_cases hqp : q = pid
    · subst hqp
      exact (hpage sp hq).2.1
    · rw [hpages q hqp] at hq
      exact hinv.flag q sp hq
  · by_cases hqp : q = pid
    · subst hqp
      cases hq : h'.pages q with
      | none => simpa [hq] using (hnone hq).2
      | some sp => simpa [hq] using (hpage sp hq).2.2
    · rw [hsmall q hqp, hinv.listed q, hpages q hqp]

/-- **A new page** set up by `slob_alloc` on a frame that holds no slob page, and put on
`free_slob_small`, keeps the heap well formed: it has one free block, the whole page. -/
theorem newPage (hinv : HeapInv c h live) {pid : ℕ} (hp : h.pages pid = none) (nid : ℕ) :
    HeapInv c (c.withNewPage h pid nid) live := by
  have hpage := PageInv.newPage c nid
  have hnotin : pid ∉ h.freeSlobSmall := fun hin => by
    obtain ⟨sp, hsp, -⟩ := (hinv.listed pid).1 hin
    simp [hp] at hsp
  -- the page had no live blocks
  rw [show live = Function.update live pid [] by rw [← hinv.noPage pid hp, Function.update_eq_self]]
  refine hinv.update (fun q hq => by simp [Config.withNewPage, hq])
    (fun q hq => by simp [Config.withNewPage, hq])
    (by simpa [Config.withNewPage] using ⟨hnotin, hinv.nodup⟩) hinv.medium hinv.large
    (fun sp hsp => ?_) (by simp [Config.withNewPage])
  rw [c.withNewPage_pages, Option.some.injEq] at hsp
  subst hsp
  rw [freeBlocks_setFlag, hpage.freeBlocks_eq]
  refine ⟨hpage.setFlag true, ?_, by simp [Config.withNewPage]⟩
  rw [hpage.units]
  simp [c.pageUnits_pos]

/-- **A carving from a listed page** keeps the heap well formed, the carved units now live on
the page; the page leaves `free_slob_small` when it is full. -/
theorem carveAt (hinv : HeapInv c h live) {pid : ℕ} {sp : SlobPage} (hp : h.pages pid = some sp)
    (hfree : sp.slobFree = true) {pre post : List (ℤ × ℤ)} {prev : Option ℤ} {o k d u : ℤ}
    (hfb : c.freeBlocks sp = pre ++ (o, k) :: post) (hprev : prev = pre.getLast?.map Prod.fst)
    (hd : 0 ≤ d) (hu : 0 < u) (hdu : d + u ≤ k) :
    (c.carve sp prev o k d u).2 = o + d ∧
      HeapInv c (h.afterCarve pid (c.carve sp prev o k d u).1)
        (Function.update live pid ((o + d, u) :: live pid)) := by
  obtain ⟨hb, hpage, hunits, -, hflag⟩ := (hinv.page pid sp hp).carve hfb hprev hd hu hdu
  set sp' := (c.carve sp prev o k d u).1
  have hfb' := hpage.freeBlocks_eq
  have hnn := hpage.units_nonneg
  have hlisted : pid ∈ h.freeSlobSmall := (hinv.listed pid).2 ⟨sp, hp, hfree⟩
  refine ⟨hb, ?_⟩
  unfold SlobHeap.afterCarve
  by_cases h0 : sp'.units = 0
  · -- the page is full: `clear_slob_page_free(sp)`
    rw [if_pos h0]
    refine hinv.update (fun q hq => by simp [hq]) (fun q hq => by simp [List.mem_erase_of_ne hq])
      (by simpa using hinv.nodup.erase pid) (by simp [hinv.medium]) (by simp [hinv.large])
      (fun sq hsq => ?_) (by simp)
    simp only [SlobHeap.clearSlobPageFree_pages, SlobHeap.setPage_pages, Function.update_self,
      Option.map_some, Option.some.injEq] at hsq
    subst hsq
    rw [freeBlocks_setFlag, hfb']
    exact ⟨hpage.setFlag false, by simp [h0], by simp [List.Nodup.mem_erase_iff hinv.nodup]⟩
  · -- the page keeps free units and stays listed
    rw [if_neg h0]
    refine hinv.update (fun q hq => by simp [hq]) (fun q _ => by simp) (by simpa using hinv.nodup)
      hinv.medium hinv.large (fun sq hsq => ?_) (by simp)
    simp only [SlobHeap.setPage_pages, Function.update_self, Option.some.injEq] at hsq
    subst hsq
    rw [hfb']
    refine ⟨hpage, ?_, by simp [hlisted, hflag, hfree]⟩
    rw [hflag, hfree]
    simp only [true_iff]
    omega

end HeapInv

end SlobLook.Slob
