import SlobLook.Slob.Scan

/-!
# `slob_alloc` keeps the heap well formed

A request of `SLOB_UNITS(size)` units, at least one and at most a page, with an alignment its
callers pass, on a well-formed heap: `slob_alloc` returns, and either hands out a block or
returns `NULL` only when the page allocator has nothing.  The block is aligned and the heap stays
well formed with the block live on its page (`HeapInv.slobAlloc`); in particular the block lies
in its page and overlaps no block live before (`HeapInv.live_disjoint`).

The scan records a block only with room for the aligned request (`BestOk`); the carving then
goes through `HeapInv.carveAt`, on a listed page or on the new one.
-/

namespace SlobLook.Slob

namespace Config

variable (c : Config)

/-- The sizes the callers of `slob_alloc` ask for: at least one unit and at most a page. -/
def ReqOk (size : ℕ) : Prop := 1 ≤ c.SLOB_UNITS size ∧ c.SLOB_UNITS size ≤ c.pageUnits

end Config

variable {c : Config} {h : SlobHeap} {live : ℕ → List (ℤ × ℤ)} {size align : ℕ}

/-- What the scan may return: nothing recorded, or a free block of a page with free units, with
room for the aligned request, and the block before it. -/
def BestOk (c : Config) (h : SlobHeap) (size align : ℕ) (best : BestBlock) : Prop :=
  best.cur = none ∨ ∃ pid sp pre o k post, h.pages pid = some sp ∧ 0 < sp.units ∧
    c.freeBlocks sp = pre ++ (o, k) :: post ∧ best.cur = some o ∧ best.page = some pid ∧
    best.prev = pre.getLast?.map Prod.fst ∧ best.blockSize = k ∧
    (c.SLOB_UNITS size : ℤ) + c.alignDelta pid align o ≤ k

/-- The loop body of `find_best_fit_block` records only blocks with room. -/
theorem bestOk_step (hinv : HeapInv c h live) {pid : ℕ} {sp : SlobPage} {pre post} {o k : ℤ}
    {best : BestBlock} (hsp : h.pages pid = some sp) (hpos : 0 < sp.units)
    (hfb : c.freeBlocks sp = pre ++ (o, k) :: post) (hbest : BestOk c h size align best) :
    BestOk c h size align
      (c.bestStep pid sp.mem size align best (pre.getLast?.map Prod.fst) o) := by
  have hat := (hinv.page pid sp hsp).at hfb rfl
  have hunits : slobUnits sp.mem o = k := hat.slobUnits_cur
  -- the block recorded when the loop body replaces the best one
  have hfound : BestOk c h size align
      ⟨c.SLOB_UNITS size, k, pre.getLast?.map Prod.fst, some o,
        some (c.slobNext sp.mem o), some pid⟩ ∨
      ¬ ((c.SLOB_UNITS size : ℤ) + c.alignDelta pid align o ≤ k) := by
    by_cases hfit : (c.SLOB_UNITS size : ℤ) + c.alignDelta pid align o ≤ k
    · exact .inl (.inr ⟨pid, sp, pre, o, k, post, hsp, hpos, hfb, rfl, rfl, rfl, rfl, hfit⟩)
    · exact .inr hfit
  unfold Config.bestStep
  simp only [hunits]
  split_ifs with hfit <;> first | exact hbest | exact hfound.resolve_right (not_not.2 hfit)

/-- The scan of `slob_alloc` returns, with nothing recorded or a block with room. -/
theorem HeapInv.scan (hinv : HeapInv c h live) (size align : ℕ) (node : ℤ) :
    ∃ best, c.scanPages h size align node (c.initBest size) h.freeSlobSmall = some best ∧
      BestOk c h size align best := by
  obtain ⟨best, hrun, hbest⟩ := scanPages_rule hinv (fun _ best => BestOk c h size align best)
    (fun _ _ _ _ _ _ _ _ hsp hpos _ hfb hbest => bestOk_step hinv hsp hpos hfb hbest)
    (fun _ hp => hp) [] (show BestOk c h size align (c.initBest size) from .inl rfl)
  exact ⟨best, hrun, hbest⟩

/-- The blocks live on a page of a well-formed heap lie in the page and do not overlap. -/
theorem HeapInv.live_disjoint (hinv : HeapInv c h live) {pid : ℕ} {sp : SlobPage}
    (hsp : h.pages pid = some sp) {b b' : ℤ × ℤ} (hb : b ∈ live pid)
    (hb' : b' ∈ (live pid).erase b) :
    0 ≤ b.1 ∧ b.1 + b.2 ≤ c.pageUnits ∧ (b.1 + b.2 ≤ b'.1 ∨ b'.1 + b'.2 ≤ b.1) := by
  have hpage := hinv.page pid sp hsp
  refine ⟨(hpage.liveInside b hb).1, (hpage.liveInside b hb).2, ?_⟩
  have hmem : b ∈ c.freeBlocks sp ++ live pid := List.mem_append_right _ hb
  have hmem' : b' ∈ (c.freeBlocks sp ++ live pid).erase b := by
    by_cases hbf : b ∈ c.freeBlocks sp
    · rw [List.erase_append_left _ hbf]
      exact List.mem_append_right _ (List.mem_of_mem_erase hb')
    · rw [List.erase_append_right _ hbf]
      exact List.mem_append_right _ hb'
  exact hpage.tiles.disjoint hmem hmem' (hpage.livePos b hb)
    (hpage.livePos b' (List.mem_of_mem_erase hb'))

/-- On a new page `slob_page_alloc` carves the request from the start of the page. -/
theorem slobPageAlloc_newPage (halign : c.AlignOk align) (hreq : c.ReqOk size) (hh : SlobHeap)
    (pid nid : ℕ) :
    c.slobPageAlloc hh pid { c.newPage nid with slobFree := true } size align =
      some (hh.afterCarve pid (c.carve { c.newPage nid with slobFree := true } none 0
          c.pageUnits 0 (c.SLOB_UNITS size)).1,
        some (c.carve { c.newPage nid with slobFree := true } none 0 c.pageUnits 0
          (c.SLOB_UNITS size)).2) := by
  have hpage := (PageInv.newPage c nid).setFlag true
  have hat := hpage.at (show [(0, (c.pageUnits : ℤ))] = [] ++ (0, (c.pageUnits : ℤ)) :: [] from rfl)
    rfl
  rw [hpage.slobPageAlloc_eq (by simp)]
  have hunits : slobUnits { c.newPage nid with slobFree := true }.mem 0 = c.pageUnits :=
    hat.slobUnits_cur
  simp [LinkWalk.findPrev, Config.pageAllocTest, hunits, Config.alignDelta_start halign, hreq.2]

/-- **`slob_alloc` on a well-formed heap**, for a request its callers make and a frame from the
page allocator that holds no slob page: it returns; it returns `NULL` only when the page
allocator had nothing, leaving the heap as it was; otherwise it hands out an aligned block, and
the heap stays well formed with the block live on its page. -/
theorem HeapInv.slobAlloc (hinv : HeapInv c h live) (hreq : c.ReqOk size)
    (halign : c.AlignOk align) (node : ℤ) {grant : Option (ℕ × ℕ)}
    (hgrant : ∀ pid nid, grant = some (pid, nid) → h.pages pid = none) :
    ∃ h' r, c.slobAlloc h size align node grant = some (h', r) ∧
      ((r = none ∧ h' = h ∧ grant = none) ∨
        ∃ pid b, r = some (pid, b) ∧ (h'.pages pid).isSome ∧
          HeapInv c h' (Function.update live pid ((b, (c.SLOB_UNITS size : ℤ)) :: live pid)) ∧
          (align ≠ 0 → ((pid * c.PAGE_SIZE : ℤ) + b * c.SLOB_UNIT) % align = 0)) := by
  have hu0 : (0 : ℤ) < c.SLOB_UNITS size := by exact_mod_cast hreq.1
  have huN : (c.SLOB_UNITS size : ℤ) ≤ c.pageUnits := by exact_mod_cast hreq.2
  obtain ⟨best, hscan, hbest⟩ := hinv.scan size align node
  rcases hbest with hnone | ⟨pid, sp, pre, o, k, post, hsp, hpos, hfb, hcur, hpid, hprev, hbs, hfit⟩
  · -- nothing recorded: `NULL`, or a new page
    cases grant with
    | none => exact ⟨h, none, Config.slobAlloc_of_null hscan hnone, .inl ⟨rfl, rfl, rfl⟩⟩
    | some g =>
      obtain ⟨pid, nid⟩ := g
      have hinv₁ := hinv.newPage (hgrant pid nid rfl) nid
      have hsp₁ := c.withNewPage_pages h pid nid
      have hfb₁ : c.freeBlocks { c.newPage nid with slobFree := true } =
          [] ++ (0, (c.pageUnits : ℤ)) :: [] := by
        rw [freeBlocks_setFlag, (PageInv.newPage c nid).freeBlocks_eq]
        rfl
      obtain ⟨hb, hinv'⟩ := hinv₁.carveAt hsp₁ rfl hfb₁ rfl le_rfl hu0 (by simpa using huN)
      simp only [List.getLast?_nil, Option.map_none, add_zero] at hb hinv'
      refine ⟨_, some (pid, 0), ?_, .inr ⟨pid, 0, rfl, ?_, hinv', ?_⟩⟩
      · rw [Config.slobAlloc_of_new hscan hnone, slobPageAlloc_newPage halign hreq, hb]
        rfl
      · unfold SlobHeap.afterCarve
        split_ifs <;> simp
      · intro h0
        have := Config.alignDelta_aligned halign h0 pid 0
        rwa [Config.alignDelta_start halign] at this
  · -- the best fit: carve from the recorded block
    have hfree : sp.slobFree = true := (hinv.flag pid sp hsp).2 hpos
    have hd := Config.alignDelta_nonneg (c := c) pid align o
    obtain ⟨hb, hinv'⟩ := hinv.carveAt hsp hfree hfb hprev hd hu0 (by omega)
    refine ⟨_, _, Config.slobAlloc_of_found hscan hcur hpid hsp grant, .inr ⟨pid, _, rfl, ?_, ?_, ?_⟩⟩
    · unfold SlobHeap.afterCarve
      split_ifs <;> simp
    · rw [hbs, hb]
      exact hinv'
    · intro h0
      rw [hbs, hb]
      exact Config.alignDelta_aligned halign h0 pid o

end SlobLook.Slob
