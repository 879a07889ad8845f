import SlobLook.Slob.Run

/-!
# What `slob_alloc` and `slob_free` write

The allocator keeps its bookkeeping in the cells of free blocks: `set_slob` of a block writes its
first cell, and its second when the block has more than one unit.  Every block that
`slob_alloc` and `slob_free` hand to `set_slob` lies in blocks that were free before, or in the
block `slob_free` gives back.  So on a well-formed heap they leave every cell of every block
still live as it was (`HeapInv.slobAlloc_keeps_live`, `HeapInv.slobFree_keeps_live`): what a
caller keeps in a block it holds, such as the size `kmalloc` stores in front of an object,
survives every other call.
-/

namespace SlobLook.Slob

open Tiling

/-- `set_slob` writes the first cell of its block, and the second only for a block of more than
one unit. -/
theorem setSlob_apply_ne {c : Config} {mem : ℤ → ℤ} {s k n x : ℤ} (hx : x ≠ s)
    (hx₁ : 1 < c.toSlobidx k → x ≠ s + 1) : c.setSlob mem s k n x = mem x := by
  unfold Config.setSlob
  split_ifs with h1
  · rw [Function.update_apply, if_neg (hx₁ h1), Function.update_apply, if_neg hx]
  · rw [Function.update_apply, if_neg hx]

/-! ## The carving -/

namespace Carving.At

variable {c : Config} {k : Carving} {pre post : List (ℤ × ℤ)}

/-- `relink` writes only the block before the cursor. -/
theorem relink_apply (h : k.At c pre post) (t : ℤ) {x : ℤ} (hx : ∀ I ∈ pre, ¬ Covers I x) :
    (c.relink k t).mem x = k.mem x := by
  rcases List.eq_nil_or_concat' pre with rfl | ⟨pre', ⟨p, kp⟩, rfl⟩
  · have hprev : k.prev = none := by simpa using h.prev
    rw [c.relink_of_none hprev]
  · have hprev : k.prev = some p := by simpa using h.prev
    rw [c.relink_of_some hprev]
    have hp : Holds k.mem p kp k.cur := by simpa using (links_append.1 h.links_pre).2
    have hpin := h.pre_inside (p, kp) (by simp)
    have hpcur := h.before (p, kp) (by simp)
    have hcur := h.cur_inside
    have havail := h.holds_cur.1
    have hxp := hx (p, kp) (by simp)
    simp only [Covers] at hpin hpcur hxp
    have hkp := hp.1
    rw [(hp.decode (c := c) (by omega) (by omega)).1]
    exact setSlob_apply hkp (by omega) (by omega)

/-- `alignHead` writes only the block at the cursor. -/
theorem alignHead_apply (h : k.At c pre post) {d : ℤ} (hd : 0 < d) (hdk : d < k.avail) {x : ℤ}
    (hx : ¬ Covers (k.cur, k.avail) x) : (c.alignHead k d).mem x = k.mem x := by
  have hcur := h.cur_inside
  simp only [Covers] at hx
  simp only [Config.alignHead, ne_eq, hd.ne', not_false_eq_true, if_true]
  rw [setSlob_apply hd (by omega) (by omega), setSlob_apply (by omega) (by omega) (by omega)]

/-- `unlink` writes only the block at the cursor and the one before it. -/
theorem unlink_apply (h : k.At c pre post) {u : ℤ} (hu : 0 < u) (hua : u ≤ k.avail) {x : ℤ}
    (hpre : ∀ I ∈ pre, ¬ Covers I x) (hx : ¬ Covers (k.cur, k.avail) x) :
    (c.unlink k u).mem x = k.mem x := by
  unfold Config.unlink
  split_ifs with hexact
  · exact h.relink_apply _ hpre
  · -- the tail of the block stays free
    have hcur := h.cur_inside
    simp only [Covers] at hx
    simp only [Config.relink_cur, Config.relink_avail]
    rw [setSlob_apply (by omega) (by omega) (by omega), h.relink_apply _ hpre]

end Carving.At

variable {c : Config} {sp : SlobPage} {fb live pre post : List (ℤ × ℤ)}

/-- **The carving writes only the free block it carves from and the free block before it.** -/
theorem PageInv.carve_apply {prev : Option ℤ} {o k d u : ℤ} (h : PageInv c sp fb live)
    (hfb : fb = pre ++ (o, k) :: post) (hprev : prev = pre.getLast?.map Prod.fst) (hd : 0 ≤ d)
    (hu : 0 < u) (hdu : d + u ≤ k) {x : ℤ} (hx : ∀ I ∈ fb, ¬ Covers I x) :
    (c.carve sp prev o k d u).1.mem x = sp.mem x := by
  have hat := h.at hfb hprev
  have hpre : ∀ I ∈ pre, ¬ Covers I x := fun I hI => hx I (by simp [hfb, hI])
  have hcur : ¬ Covers (o, k) x := hx (o, k) (by simp [hfb])
  show (c.unlink (c.alignHead ⟨sp.mem, sp.free, prev, o, k⟩ d) u).mem x = sp.mem x
  by_cases hd0 : d = 0
  · -- no head fragment
    subst hd0
    have hk : c.alignHead ⟨sp.mem, sp.free, prev, o, k⟩ 0 = ⟨sp.mem, sp.free, prev, o, k⟩ := by
      simp [Config.alignHead]
    rw [hk]
    exact hat.unlink_apply hu (by show u ≤ k; omega) hpre hcur
  · -- the head fragment joins the blocks before the cursor
    have hstrict : ∀ b ∈ pre, b.1 + b.2 < o := fun b hb =>
      (Gaps.append_iff.1 (hfb ▸ h.gaps)).2.2 b hb (o, k) (by simp)
    have hd' : 0 < d := lt_of_le_of_ne hd (Ne.symm hd0)
    obtain ⟨hat', hcur', havail⟩ := hat.alignHead hstrict hd' (by show d < k; omega)
    simp only at hcur' havail
    simp only [Covers] at hcur
    have hpre' : ∀ I ∈ pre ++ [(o, d)], ¬ Covers I x := by
      intro I hI
      rcases List.mem_append.1 hI with hI | hI
      · exact hpre I hI
      · rw [List.mem_singleton.1 hI]
        simp only [Covers]
        omega
    have hx' : ¬ Covers ((c.alignHead ⟨sp.mem, sp.free, prev, o, k⟩ d).cur,
        (c.alignHead ⟨sp.mem, sp.free, prev, o, k⟩ d).avail) x := by
      rw [hcur', havail]
      simp only [Covers]
      omega
    rw [hat'.unlink_apply hu (by rw [havail]; omega) hpre' hx',
      hat.alignHead_apply hd' (by show d < k; omega) (by simp only [Covers]; omega)]

/-! ## The insertion of `slob_free` -/

/-- **The insertion of `slob_free` writes only the block given back and free blocks.** -/
theorem PageInv.insertFree_apply {b u : ℤ} (h : PageInv c sp fb live) (hb : (b, u) ∈ live)
    (hne : fb ≠ []) {sp₀ sp' : SlobPage} (hmem : sp₀.mem = sp.mem) (hfree : sp₀.free = sp.free)
    (hrun : c.insertFree sp₀ b u = some sp') {x : ℤ} (hx : ∀ I ∈ fb, ¬ Covers I x)
    (hxb : ¬ Covers (b, u) x) : sp'.mem x = sp.mem x := by
  have hu := h.livePos _ hb
  have hbin := h.liveInside _ hb
  simp only [Covers] at hu hbin hxb
  have hu' : c.toSlobidx u = u := c.toSlobidx_eq (by omega) (by omega)
  unfold Config.insertFree at hrun
  rw [hfree, hmem] at hrun
  by_cases hlt : b < sp.free
  · -- in front of the first free block, merged with it when they touch
    rw [if_pos hlt, Option.some.injEq] at hrun
    subst hrun
    obtain ⟨⟨q, kq⟩, rest, rfl⟩ := List.exists_cons_of_ne_nil hne
    have hq : sp.free = q := h.head
    have hkq := h.links.pos (q, kq) (by simp)
    have hxq := hx (q, kq) (by simp)
    simp only [Covers] at hkq hxq
    rw [hq]
    refine setSlob_apply_ne (by omega) fun h1 => ?_
    by_cases htouch : b + u = q
    · omega
    · simp only [htouch, decide_false, Bool.false_eq_true, if_false, hu'] at h1
      omega
  · -- after the free block `(y, k)` the search stops at
    rw [if_neg hlt] at hrun
    obtain ⟨pre, y, k, post, rfl, hyk, hbu, hwalk⟩ := h.search hb hne (not_lt.1 hlt)
    rw [hwalk] at hrun
    simp only [Option.bind_eq_bind, Option.bind_some, Option.some.injEq] at hrun
    subst hrun
    have hat := h.at rfl rfl
    have hk := hat.holds_cur.1
    have hyin := hat.cur_inside
    have hxy := hx (y, k) (by simp)
    simp only [Covers] at hk hyin hxy
    have hk' : c.toSlobidx k = k := c.toSlobidx_eq (by omega) (by omega)
    have hnext : c.slobNext sp.mem y = nextStart c.pageUnits post := hat.slobNext_cur
    -- `b` merges only with a free block after `y`, which starts right after it
    have hmerge : c.slobLast sp.mem y = false → b + u = c.slobNext sp.mem y → x ≠ b + u := by
      intro hlast hbn
      rw [hnext] at hbn
      cases post with
      | nil =>
        -- the last free block points at the end of the page
        have hdvd : (c.PAGE_SIZE : ℤ) ∣ c.pageUnits * c.SLOB_UNIT :=
          ⟨1, by rw [mul_one]; exact_mod_cast c.pageUnits_mul⟩
        simp [Config.slobLast, hnext] at hlast
        exact absurd hdvd hlast
      | cons a post' =>
        have ha := hx a (by simp)
        have hapos := h.links.pos a (by simp)
        simp only [nextStart_cons] at hbn
        simp only [Covers] at ha hapos
        omega
    -- the first store leaves `y`, before `b`
    have hy₁ : ∀ K N, slobUnits (c.setSlob sp.mem b K N) y = k := fun K N =>
      (slobUnits_congr (setSlob_apply_lt (by omega) K N)).trans hat.slobUnits_cur
    dsimp only
    split_ifs with h₁ h₂ h₂
    · simp only [Bool.and_eq_true, Bool.not_eq_eq_eq_not, Bool.not_true, decide_eq_true_eq] at h₁
      rw [hy₁] at h₂ ⊢
      rw [setSlob_apply_ne (by omega) fun _ => by omega,
        setSlob_apply_ne (by omega) fun _ => by have := hmerge h₁.1 h₁.2; omega]
    · simp only [Bool.and_eq_true, Bool.not_eq_eq_eq_not, Bool.not_true, decide_eq_true_eq] at h₁
      rw [hy₁] at h₂ ⊢
      rw [setSlob_apply_ne (by omega) fun h1 => by rw [hk'] at h1; omega,
        setSlob_apply_ne (by omega) fun _ => by have := hmerge h₁.1 h₁.2; omega]
    · rw [hy₁] at h₂ ⊢
      rw [setSlob_apply_ne (by omega) fun _ => by omega,
        setSlob_apply_ne (by omega) fun h1 => by rw [hu'] at h1; omega]
    · rw [hy₁] at h₂ ⊢
      rw [setSlob_apply_ne (by omega) fun h1 => by rw [hk'] at h1; omega,
        setSlob_apply_ne (by omega) fun h1 => by rw [hu'] at h1; omega]

/-! ## The heap -/

/-- A cell of a live block lies in no free block of its page. -/
theorem PageInv.not_covers_free (h : PageInv c sp fb live) {a : ℤ × ℤ} (ha : a ∈ live) {x : ℤ}
    (hx : Covers a x) : ∀ I ∈ fb, ¬ Covers I x := by
  intro I hI hIx
  have := h.apart hI (show (a.1, a.2) ∈ live from ha)
  simp only [Covers] at hx hIx
  omega

section Heap

variable {h h' : SlobHeap} {live : ℕ → List (ℤ × ℤ)} {size align : ℕ} {node : ℤ}
  {grant : Option (ℕ × ℕ)}

/-- A page after `afterCarve` is the carved page, or one the heap held. -/
theorem SlobHeap.afterCarve_mem {pid q : ℕ} {sp' sq : SlobPage}
    (hq : (h.afterCarve pid sp').pages q = some sq) :
    (q = pid ∧ sq.mem = sp'.mem) ∨ (q ≠ pid ∧ h.pages q = some sq) := by
  unfold SlobHeap.afterCarve at hq
  by_cases hqp : q = pid
  · subst hqp
    refine .inl ⟨rfl, ?_⟩
    split_ifs at hq <;> simp at hq <;> rw [← hq]
  · refine .inr ⟨hqp, ?_⟩
    split_ifs at hq <;> simpa [hqp] using hq

theorem slobPageAlloc_heap {hh h'' : SlobHeap} {pid : ℕ} {sp : SlobPage} {r : Option ℤ}
    (hrun : c.slobPageAlloc hh pid sp size align = some (h'', r)) :
    h'' = hh ∨ ∃ sp', h'' = hh.afterCarve pid sp' := by
  unfold Config.slobPageAlloc at hrun
  obtain ⟨x, -, hx⟩ := Option.map_eq_some_iff.1 hrun
  rcases x with _ | ⟨sp', b⟩
  · exact .inl (congrArg Prod.fst hx).symm
  · exact .inr ⟨sp', (congrArg Prod.fst hx).symm⟩

theorem SlobHeap.afterCarve_pages_isSome (h : SlobHeap) (pid : ℕ) (sp : SlobPage) (q : ℕ) :
    ((h.afterCarve pid sp).pages q).isSome = (q == pid || (h.pages q).isSome) := by
  unfold SlobHeap.afterCarve
  split_ifs <;> by_cases hq : q = pid <;> simp [hq]

/-- The slob pages after a `slob_alloc` that hands out a block: those before and the block's. -/
theorem slobAlloc_pages_isSome {pid : ℕ} {b : ℤ}
    (hrun : c.slobAlloc h size align node grant = some (h', some (pid, b))) (q : ℕ) :
    (h'.pages q).isSome = (q == pid || (h.pages q).isSome) := by
  obtain ⟨best, hscan⟩ : ∃ best,
      c.scanPages h size align node (c.initBest size) h.freeSlobSmall = some best := by
    cases hs : c.scanPages h size align node (c.initBest size) h.freeSlobSmall with
    | none => simp [Config.slobAlloc, hs] at hrun
    | some best => exact ⟨best, rfl⟩
  cases hcur : best.cur with
  | some cur =>
    -- carved from a page the heap holds
    obtain ⟨pid', hpid⟩ : ∃ pid', best.page = some pid' := by
      cases hp : best.page with
      | none => simp [Config.slobAlloc, hscan, hcur, hp] at hrun
      | some pid' => exact ⟨pid', rfl⟩
    obtain ⟨sp, hsp⟩ : ∃ sp, h.pages pid' = some sp := by
      cases hp : h.pages pid' with
      | none => simp [Config.slobAlloc, hscan, hcur, hpid, hp] at hrun
      | some sp => exact ⟨sp, rfl⟩
    rw [Config.slobAlloc_of_found hscan hcur hpid hsp, Option.some.injEq, Prod.mk.injEq,
      Option.some.injEq, Prod.mk.injEq] at hrun
    obtain ⟨rfl, rfl, -⟩ := hrun
    rw [SlobHeap.afterCarve_pages_isSome]
  | none =>
    rcases grant with _ | ⟨pid', nid⟩
    · simp [Config.slobAlloc_of_null hscan hcur] at hrun
    · -- a new page from the page allocator, where the block is
      rw [Config.slobAlloc_of_new hscan hcur] at hrun
      obtain ⟨⟨h'', r''⟩, hpa, hr⟩ := Option.bind_eq_some_iff.1 hrun
      obtain ⟨b', -, hb⟩ := Option.map_eq_some_iff.1 hr
      simp only [Prod.mk.injEq, Option.some.injEq] at hb
      obtain ⟨rfl, rfl, -⟩ := hb
      rcases slobPageAlloc_heap hpa with rfl | ⟨sp', rfl⟩
      · by_cases hq : q = pid' <;> simp [Config.withNewPage, hq]
      · rw [SlobHeap.afterCarve_pages_isSome]
        by_cases hq : q = pid' <;> simp [Config.withNewPage, hq]

/-- **`slob_alloc` writes only cells of free blocks**: on every page the heap held, a cell in no
free block keeps its value. -/
theorem HeapInv.slobAlloc_apply (hinv : HeapInv c h live) (hreq : c.ReqOk size)
    (hgrant : GrantFresh h grant) {r : Option (ℕ × ℤ)}
    (hrun : c.slobAlloc h size align node grant = some (h', r)) {q : ℕ} {sp sp' : SlobPage}
    (hsp : h.pages q = some sp) (hsp' : h'.pages q = some sp') {x : ℤ}
    (hx : ∀ I ∈ c.freeBlocks sp, ¬ Covers I x) : sp'.mem x = sp.mem x := by
  obtain ⟨best, hscan, hbest⟩ := hinv.scan size align node
  rcases hbest with hnone | ⟨pid, sp₀, pre, o, k, post, hsp₀, -, hfb, hcur, hpid, hprev, hbs, hfit⟩
  · cases grant with
    | none =>
      rw [Config.slobAlloc_of_null hscan hnone, Option.some.injEq, Prod.mk.injEq] at hrun
      obtain ⟨rfl, -⟩ := hrun
      rw [hsp, Option.some.injEq] at hsp'
      rw [hsp']
    | some g =>
      -- the new page is on a frame that held none; the others are as they were
      obtain ⟨pid, nid⟩ := g
      have hqp : q ≠ pid := fun hq => by rw [hq, hgrant pid nid rfl] at hsp; cases hsp
      have hnew : (c.withNewPage h pid nid).pages q = h.pages q := by
        simp [Config.withNewPage, hqp]
      rw [Config.slobAlloc_of_new hscan hnone] at hrun
      obtain ⟨⟨h'', r''⟩, hpa, hr⟩ := Option.bind_eq_some_iff.1 hrun
      obtain ⟨b, -, hb⟩ := Option.map_eq_some_iff.1 hr
      obtain rfl : h'' = h' := congrArg Prod.fst hb
      rcases slobPageAlloc_heap hpa with rfl | ⟨sp'', rfl⟩
      · rw [hnew, hsp, Option.some.injEq] at hsp'
        rw [hsp']
      · rcases SlobHeap.afterCarve_mem hsp' with ⟨hq, -⟩ | ⟨-, hq⟩
        · exact absurd hq hqp
        · rw [hnew, hsp, Option.some.injEq] at hq
          rw [hq]
  · -- the carving from the recorded block
    have hd := Config.alignDelta_nonneg (c := c) pid align o
    have hu : (0 : ℤ) < c.SLOB_UNITS size := by exact_mod_cast hreq.1
    rw [Config.slobAlloc_of_found hscan hcur hpid hsp₀ grant, Option.some.injEq,
      Prod.mk.injEq] at hrun
    obtain ⟨rfl, -⟩ := hrun
    rcases SlobHeap.afterCarve_mem hsp' with ⟨rfl, hmem⟩ | ⟨-, hq⟩
    · rw [hsp₀, Option.some.injEq] at hsp
      subst hsp
      rw [hmem, hbs]
      exact (hinv.page q sp₀ hsp₀).carve_apply hfb hprev hd hu (by omega) hx
    · rw [hsp, Option.some.injEq] at hq
      rw [hq]

/-- `slob_alloc` leaves every cell of every block live before as it was. -/
theorem HeapInv.slobAlloc_keeps_live (hinv : HeapInv c h live) (hreq : c.ReqOk size)
    (hgrant : GrantFresh h grant) {r : Option (ℕ × ℤ)}
    (hrun : c.slobAlloc h size align node grant = some (h', r)) {q : ℕ} {sp sp' : SlobPage}
    (hsp : h.pages q = some sp) (hsp' : h'.pages q = some sp') {a : ℤ × ℤ} (ha : a ∈ live q)
    {x : ℤ} (hx : Covers a x) : sp'.mem x = sp.mem x :=
  hinv.slobAlloc_apply hreq hgrant hrun hsp hsp' ((hinv.page q sp hsp).not_covers_free ha hx)

/-- The pages other than the block's are as they were after `slob_free`. -/
theorem slobFree_pages_ne {pid q : ℕ} {b : ℤ} (hrun : c.slobFree h (some (pid, b)) size = some h')
    (hq : q ≠ pid) : h'.pages q = h.pages q := by
  unfold Config.slobFree at hrun
  split_ifs at hrun with hsize
  cases hsp : h.pages pid with
  | none => simp [hsp] at hrun
  | some sp =>
    simp only [hsp, Option.bind_eq_bind, Option.bind_some] at hrun
    split_ifs at hrun with hwhole hflag hflag'
    · cases hrun
      simp [hq]
    · cases hrun
      simp [hq]
    · cases hrun
      simp [hq]
    · obtain ⟨sp', -, hsp'⟩ := Option.bind_eq_some_iff.1 hrun
      cases hsp'
      simp [hq]

/-- **`slob_free` writes only cells of free blocks and of the block it gives back.** -/
theorem HeapInv.slobFree_apply (hinv : HeapInv c h live) {pid : ℕ} {b : ℤ}
    (hlive : (b, (c.SLOB_UNITS size : ℤ)) ∈ live pid)
    (hrun : c.slobFree h (some (pid, b)) size = some h') {q : ℕ} {sp sp' : SlobPage}
    (hsp : h.pages q = some sp) (hsp' : h'.pages q = some sp') {x : ℤ}
    (hx : ∀ I ∈ c.freeBlocks sp, ¬ Covers I x)
    (hxb : q = pid → ¬ Covers (b, (c.SLOB_UNITS size : ℤ)) x) : sp'.mem x = sp.mem x := by
  by_cases hqp : q = pid
  · subst hqp
    have hpage := hinv.page q sp hsp
    have hu := hpage.livePos _ hlive
    have hbin := hpage.liveInside _ hlive
    have hxb' := hxb rfl
    simp only [Covers] at hu hbin hxb'
    have hunits : c.toSlobidx (c.SLOB_UNITS size) = c.SLOB_UNITS size :=
      c.toSlobidx_eq (by omega) (by omega)
    unfold Config.slobFree at hrun
    split_ifs at hrun with hsize
    simp only [hsp, hunits, Option.bind_eq_bind, Option.bind_some] at hrun
    split_ifs at hrun with hwhole hflag hflag'
    · -- the page went back to the page allocator
      cases hrun
      simp at hsp'
    · cases hrun
      simp at hsp'
    · -- a full page: the block becomes its one free block
      cases hrun
      simp only [SlobHeap.setSlobPageFree_pages, SlobHeap.setPage_pages, Function.update_self,
        Option.map_some, Option.some.injEq] at hsp'
      rw [← hsp']
      exact setSlob_apply hu (by omega) (by omega)
    · obtain ⟨sp'', hins, hsp''⟩ := Option.bind_eq_some_iff.1 hrun
      cases hsp''
      simp only [SlobHeap.setPage_pages, Function.update_self, Option.some.injEq] at hsp'
      subst hsp'
      have hfree : sp.slobFree = true := by simpa using hflag'
      have hne : c.freeBlocks sp ≠ [] := hpage.units_pos_iff.1 ((hinv.flag q sp hsp).1 hfree)
      exact hpage.insertFree_apply hlive hne (by rfl) (by rfl) hins hx (hxb rfl)
  · rw [slobFree_pages_ne hrun hqp, hsp, Option.some.injEq] at hsp'
    rw [hsp']

/-- `slob_free` leaves every cell of every block still live as it was. -/
theorem HeapInv.slobFree_keeps_live (hinv : HeapInv c h live) {pid : ℕ} {b : ℤ}
    (hlive : (b, (c.SLOB_UNITS size : ℤ)) ∈ live pid)
    (hrun : c.slobFree h (some (pid, b)) size = some h') {q : ℕ} {sp sp' : SlobPage}
    (hsp : h.pages q = some sp) (hsp' : h'.pages q = some sp') {a : ℤ × ℤ}
    (ha : a ∈ Function.update live pid ((live pid).erase (b, (c.SLOB_UNITS size : ℤ))) q)
    {x : ℤ} (hx : Covers a x) : sp'.mem x = sp.mem x := by
  by_cases hqp : q = pid
  · subst hqp
    rw [Function.update_self] at ha
    -- a block still live lies apart from the one given back
    have hapart := (hinv.live_disjoint hsp hlive ha).2.2
    refine hinv.slobFree_apply hlive hrun hsp hsp'
      ((hinv.page q sp hsp).not_covers_free (List.mem_of_mem_erase ha) hx) fun _ hxb => ?_
    simp only [Covers] at hx hxb
    omega
  · rw [Function.update_of_ne hqp] at ha
    exact hinv.slobFree_apply hlive hrun hsp hsp'
      ((hinv.page q sp hsp).not_covers_free ha hx) fun h => absurd h hqp

end Heap

end SlobLook.Slob
