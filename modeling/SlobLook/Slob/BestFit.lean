import SlobLook.Slob.Run

/-!
# How good the best fit of `slob_alloc` is

The scan of `slob_alloc` is meant to find, over the free blocks of the pages of
`free_slob_small`, one that can hold the aligned request (`Fits`) and leaves the fewest units
of itself free (`leftover`).  The loop body of `find_best_fit_block` records a block on an
exact fit, or when its leftover is below `best->block_size - best->object_size`
(`bestStep_spec`).  Two slips keep it from that:

* `best.block_size = PAGE_SIZE + 1` is stored in a `slobidx_t`.  With 32 KB pages it is `-32767`
  and the fragment test fails for every block: `slob_alloc` takes a new page although a listed
  page has room (`slobAlloc_grows_heap_32k`).  For the other page sizes the first fitting block
  is recorded (`HeapInv.scan_records_fit`), and `slob_alloc` asks the page allocator for nothing
  while a listed page has room (`slobAlloc_of_fit`).
* The stored difference `block_size - object_size` leaves out the alignment padding of the
  stored block, so with an alignment a block that leaves more free can replace one that leaves
  less (`slobAlloc_not_best_fit`).  Without alignment, or with one that divides `SLOB_UNIT`,
  the pick is a best fit (`HeapInv.scan_best_fit`, `slobAlloc_best_fit`).
-/

namespace SlobLook.Slob

namespace Config

variable (c : Config)

/-- The free block `(o, k)` of page `pid` can hold `SLOB_UNITS(size)` units from an
`align`-aligned start. -/
def Fits (pid size align : ℕ) (o k : ℤ) : Prop :=
  (c.SLOB_UNITS size : ℤ) + c.alignDelta pid align o ≤ k

instance (pid size align : ℕ) (o k : ℤ) : Decidable (c.Fits pid size align o k) :=
  inferInstanceAs (Decidable (_ ≤ _))

/-- The units of the free block `(o, k)` of page `pid` that stay free when the aligned request
is carved from it: `avail - delta - units`. -/
def leftover (pid size align : ℕ) (o k : ℤ) : ℤ :=
  k - c.alignDelta pid align o - c.SLOB_UNITS size

/-- The scan does not skip the page `sp` for its node. -/
def nodeMatch (sp : SlobPage) (node : ℤ) : Bool :=
  !(c.numa && node != -1 && (sp.nid : ℤ) != node)

@[simp] theorem fits_zero (pid size : ℕ) (o k : ℤ) :
    c.Fits pid size 0 o k ↔ (c.SLOB_UNITS size : ℤ) ≤ k := by
  simp [Fits]

@[simp] theorem leftover_zero (pid size : ℕ) (o k : ℤ) :
    c.leftover pid size 0 o k = k - c.SLOB_UNITS size := by
  simp [leftover]

theorem skipPage_eq (sp : SlobPage) (size : ℕ) (node : ℤ) :
    c.skipPage sp size node =
      (!c.nodeMatch sp node || decide (toULong sp.units < c.SLOB_UNITS size)) := by
  simp [skipPage, nodeMatch]

/-- Without a head fragment the carving hands out the block it carves from. -/
@[simp] theorem carve_snd_zero (sp : SlobPage) (prev : Option ℤ) (cur avail units : ℤ) :
    (c.carve sp prev cur avail 0 units).2 = cur := by
  simp only [carve, alignHead, ne_eq, not_true_eq_false, if_false, unlink]
  split_ifs <;> simp

/-- The initial best block leaves room for every leftover of a page, except with 32 KB
pages. -/
theorem initBest_gap (h15 : c.pageShift ≠ 15) (size : ℕ) :
    (c.initBest size).blockSize - (c.initBest size).objectSize =
      c.PAGE_SIZE + 1 - c.SLOB_UNITS size := by
  simp [initBest, c.toSlobidx_sentinel, h15]

/-- A block of a listed page that the scan does not skip is one it visits. -/
theorem mem_scanned {h : SlobHeap} {size : ℕ} {node : ℤ} {pids : List ℕ} {pid : ℕ}
    {sp : SlobPage} {b : ℤ × ℤ} (hpid : pid ∈ pids) (hsp : h.pages pid = some sp)
    (hskip : c.skipPage sp size node = false) (hb : b ∈ c.freeBlocks sp) :
    (pid, b) ∈ c.scanned h size node pids := by
  induction pids with
  | nil => simp at hpid
  | cons q rest ih =>
    rcases List.mem_cons.1 hpid with rfl | hrest
    · simp [scanned, hsp, hskip, hb]
    · simp only [scanned, List.mem_append]
      exact .inr (ih hrest)

end Config

theorem toULong_of_nonneg {x : ℤ} (h0 : 0 ≤ x) (h1 : x < 2 ^ 64) : (toULong x : ℤ) = x := by
  unfold toULong
  rw [Int.emod_eq_of_lt h0 h1, Int.toNat_of_nonneg h0]

/-! ## The loop body -/

section Step

variable {c : Config} {mem : ℤ → ℤ} {cur k : ℤ}

/-- **The loop body of `find_best_fit_block`** at a block of `k` units records it when the
aligned request fits it exactly or leaves fewer units than `best->block_size -
best->object_size`, and keeps `best` otherwise. -/
theorem bestStep_spec (pid size align : ℕ) (best : BestBlock) (prev : Option ℤ)
    (hk : slobUnits mem cur = k) :
    (c.Fits pid size align cur k ∧
        (c.leftover pid size align cur k = 0 ∨
          c.leftover pid size align cur k < best.blockSize - best.objectSize) ∧
        c.bestStep pid mem size align best prev cur =
          ⟨c.SLOB_UNITS size, k, prev, some cur, some (c.slobNext mem cur), some pid⟩) ∨
      (c.bestStep pid mem size align best prev cur = best ∧
        (c.Fits pid size align cur k → c.leftover pid size align cur k ≠ 0 ∧
          best.blockSize - best.objectSize ≤ c.leftover pid size align cur k)) := by
  subst hk
  simp only [Config.bestStep, Config.Fits, Config.leftover]
  split_ifs with hfit hexact hfrag
  · exact .inl ⟨hfit, .inl (by omega), rfl⟩
  · exact .inl ⟨hfit, .inr (by omega), rfl⟩
  · exact .inr ⟨rfl, fun _ => ⟨by omega, by omega⟩⟩
  · exact .inr ⟨rfl, fun hfit' => absurd hfit' hfit⟩

end Step

/-! ## What the scan records -/

section Scan

variable {c : Config} {h : SlobHeap} {live : ℕ → List (ℤ × ℤ)} {size align : ℕ} {node : ℤ}

/-- A page with a free block that holds the request is skipped only for its node. -/
theorem HeapInv.skipPage_eq_false (hinv : HeapInv c h live) {pid : ℕ} {sp : SlobPage} {o k : ℤ}
    (hsp : h.pages pid = some sp) (hnode : c.nodeMatch sp node = true)
    (hmem : (o, k) ∈ c.freeBlocks sp) (hfit : c.Fits pid size align o k) :
    c.skipPage sp size node = false := by
  have hpage := hinv.page pid sp hsp
  have hk := hpage.le_units hmem
  have hN := hpage.units_le
  have hd := c.alignDelta_nonneg pid align o
  have hPU : (c.pageUnits : ℤ) ≤ c.PAGE_SIZE := by exact_mod_cast c.pageUnits_le_PAGE_SIZE
  have hP : (c.PAGE_SIZE : ℤ) ≤ 2 ^ 18 := by
    exact_mod_cast Nat.pow_le_pow_right (by norm_num) c.pageShift_le
  have hu := toULong_of_nonneg hpage.units_nonneg (by omega)
  have hlt : ¬ toULong sp.units < c.SLOB_UNITS size := by
    unfold Config.Fits at hfit
    simp only at hk
    omega
  rw [Config.skipPage_eq, hnode]
  simpa using hlt

/-- A free block of a page of `free_slob_small` of the node that holds the request is one the
scan visits. -/
theorem HeapInv.mem_scanned (hinv : HeapInv c h live) {pid : ℕ} {sp : SlobPage} {o k : ℤ}
    (hpid : pid ∈ h.freeSlobSmall) (hsp : h.pages pid = some sp)
    (hnode : c.nodeMatch sp node = true) (hmem : (o, k) ∈ c.freeBlocks sp)
    (hfit : c.Fits pid size align o k) :
    (pid, (o, k)) ∈ c.scanned h size node h.freeSlobSmall :=
  c.mem_scanned hpid hsp (hinv.skipPage_eq_false hsp hnode hmem hfit) hmem

/-- A free block leaves fewer than `PAGE_SIZE + 1 - SLOB_UNITS(size)` units. -/
theorem HeapInv.leftover_lt (hinv : HeapInv c h live) (size align : ℕ) {pid : ℕ}
    {sp : SlobPage} {o k : ℤ} (hsp : h.pages pid = some sp) (hmem : (o, k) ∈ c.freeBlocks sp) :
    c.leftover pid size align o k < c.PAGE_SIZE + 1 - c.SLOB_UNITS size := by
  have hin := (hinv.page pid sp hsp).inside _ hmem
  have hd := c.alignDelta_nonneg pid align o
  have hPU : (c.pageUnits : ℤ) ≤ c.PAGE_SIZE := by exact_mod_cast c.pageUnits_le_PAGE_SIZE
  simp only at hin
  unfold Config.leftover
  omega

/-- The invariant of the scan behind `HeapInv.scan_records_fit`: while nothing is recorded, the
best block is the initial one and no block visited holds the request. -/
def NoneFits (c : Config) (size align : ℕ) (seen : List (ℕ × (ℤ × ℤ))) (best : BestBlock) :
    Prop :=
  best.cur = none → best = c.initBest size ∧ ∀ q ∈ seen, ¬ c.Fits q.1 size align q.2.1 q.2.2

/-- The invariant of the scan behind `HeapInv.scan_best_fit`: `object_size` is the request, and
`block_size` is at most the size of every visited block that holds it. -/
def BestSoFar (c : Config) (size : ℕ) (seen : List (ℕ × (ℤ × ℤ))) (best : BestBlock) : Prop :=
  best.objectSize = c.SLOB_UNITS size ∧
    ∀ q ∈ seen, c.Fits q.1 size 0 q.2.1 q.2.2 → best.blockSize ≤ q.2.2

/-- Except with 32 KB pages, the loop body keeps `NoneFits`: the initial
`block_size - object_size` is above every leftover, so a block that holds the request is
recorded. -/
theorem noneFits_step (hinv : HeapInv c h live) (h15 : c.pageShift ≠ 15) {seen pid sp pre post}
    {o k : ℤ} {best : BestBlock} (hsp : h.pages pid = some sp)
    (hfb : c.freeBlocks sp = pre ++ (o, k) :: post) (hI : NoneFits c size align seen best) :
    NoneFits c size align (seen ++ [(pid, (o, k))])
      (c.bestStep pid sp.mem size align best (pre.getLast?.map Prod.fst) o) := by
  have hk : slobUnits sp.mem o = k := ((hinv.page pid sp hsp).at hfb rfl).slobUnits_cur
  rcases bestStep_spec pid size align best (pre.getLast?.map Prod.fst) hk
    with ⟨-, -, hfound⟩ | ⟨hkeep, hgap⟩
  · intro hnone
    rw [hfound] at hnone
    cases hnone
  · rw [hkeep]
    intro hnone
    obtain ⟨hinit, hseen⟩ := hI hnone
    refine ⟨hinit, fun q hq hfit => ?_⟩
    rcases List.mem_append.1 hq with hq | hq
    · exact hseen q hq hfit
    · rw [List.mem_singleton] at hq
      subst hq
      have hlt := hinv.leftover_lt size align hsp (show (o, k) ∈ c.freeBlocks sp by simp [hfb])
      have hle := (hgap hfit).2
      rw [hinit, c.initBest_gap h15] at hle
      omega

/-- Without alignment, the loop body keeps `BestSoFar`: a block replaces the best one only when
it fits exactly or is smaller. -/
theorem bestSoFar_step (hinv : HeapInv c h live) {seen pid sp pre post} {o k : ℤ}
    {best : BestBlock} (hsp : h.pages pid = some sp)
    (hfb : c.freeBlocks sp = pre ++ (o, k) :: post) (hI : BestSoFar c size seen best) :
    BestSoFar c size (seen ++ [(pid, (o, k))])
      (c.bestStep pid sp.mem size 0 best (pre.getLast?.map Prod.fst) o) := by
  obtain ⟨hobj, hseen⟩ := hI
  have hk : slobUnits sp.mem o = k := ((hinv.page pid sp hsp).at hfb rfl).slobUnits_cur
  rcases bestStep_spec pid size 0 best (pre.getLast?.map Prod.fst) hk
    with ⟨hfit, hbetter, hfound⟩ | ⟨hkeep, hgap⟩
  · rw [hfound]
    refine ⟨rfl, fun q hq hqfit => ?_⟩
    simp only [Config.fits_zero, Config.leftover_zero] at hfit hbetter
    show k ≤ q.2.2
    rcases List.mem_append.1 hq with hq | hq
    · have hle := hseen q hq hqfit
      simp only [Config.fits_zero] at hqfit
      omega
    · rw [List.mem_singleton] at hq
      subst hq
      exact le_rfl
  · rw [hkeep]
    refine ⟨hobj, fun q hq hqfit => ?_⟩
    rcases List.mem_append.1 hq with hq | hq
    · exact hseen q hq hqfit
    · rw [List.mem_singleton] at hq
      subst hq
      have hle := (hgap hqfit).2
      simp only [Config.leftover_zero] at hle
      show best.blockSize ≤ k
      omega

/-- **Except with 32 KB pages the scan records a block once it has visited one that holds the
request.** -/
theorem HeapInv.scan_records_fit (hinv : HeapInv c h live) (h15 : c.pageShift ≠ 15)
    (size align : ℕ) (node : ℤ) :
    ∃ best, c.scanPages h size align node (c.initBest size) h.freeSlobSmall = some best ∧
      ((∃ q ∈ c.scanned h size node h.freeSlobSmall, c.Fits q.1 size align q.2.1 q.2.2) →
        best.cur ≠ none) := by
  obtain ⟨best, hrun, hI⟩ := scanPages_rule hinv (NoneFits c size align)
    (fun _ _ _ _ _ _ _ _ hsp _ _ hfb hI => noneFits_step hinv h15 hsp hfb hI) (fun _ hp => hp) []
    (show NoneFits c size align [] (c.initBest size) from fun _ => ⟨rfl, by simp⟩)
  refine ⟨best, hrun, ?_⟩
  rintro ⟨q, hq, hfit⟩ hnone
  exact (hI hnone).2 q (by simpa using hq) hfit

/-- **Without alignment the scan records a best fit** of the blocks it visits. -/
theorem HeapInv.scan_best_fit (hinv : HeapInv c h live) (size : ℕ) (node : ℤ) :
    ∃ best, c.scanPages h size 0 node (c.initBest size) h.freeSlobSmall = some best ∧
      ∀ q ∈ c.scanned h size node h.freeSlobSmall, c.Fits q.1 size 0 q.2.1 q.2.2 →
        best.blockSize ≤ q.2.2 := by
  obtain ⟨best, hrun, -, hI⟩ := scanPages_rule hinv (BestSoFar c size)
    (fun _ _ _ _ _ _ _ _ hsp _ _ hfb hI => bestSoFar_step hinv hsp hfb hI) (fun _ hp => hp) []
    (show BestSoFar c size [] (c.initBest size) from ⟨rfl, by simp⟩)
  exact ⟨best, hrun, by simpa using hI⟩

end Scan

/-! ## Alignments within a unit -/

section Unit

variable {c : Config} {align : ℕ}

/-- With an alignment that divides `SLOB_UNIT` the loop body is the one without alignment. -/
theorem bestStep_of_dvd (h : align ∣ c.SLOB_UNIT) (pid : ℕ) (mem : ℤ → ℤ) (size : ℕ) :
    c.bestStep pid mem size align = c.bestStep pid mem size 0 := by
  funext best prev cur
  simp only [Config.bestStep, Config.alignDelta_of_dvd h, Config.alignDelta_zero]

theorem scanPages_of_dvd (h : align ∣ c.SLOB_UNIT) (hp : SlobHeap) (size : ℕ) (node : ℤ)
    (best : BestBlock) (pids : List ℕ) :
    c.scanPages hp size align node best pids = c.scanPages hp size 0 node best pids := by
  induction pids generalizing best with
  | nil => rfl
  | cons pid rest ih =>
    simp only [Config.scanPages, Config.findBestFitBlock, bestStep_of_dvd h, ih]

theorem fits_of_dvd (h : align ∣ c.SLOB_UNIT) (pid size : ℕ) (o k : ℤ) :
    c.Fits pid size align o k ↔ c.Fits pid size 0 o k := by
  simp only [Config.Fits, Config.alignDelta_of_dvd h, Config.alignDelta_zero]

theorem leftover_of_dvd (h : align ∣ c.SLOB_UNIT) (pid size : ℕ) (o k : ℤ) :
    c.leftover pid size align o k = c.leftover pid size 0 o k := by
  simp only [Config.leftover, Config.alignDelta_of_dvd h, Config.alignDelta_zero]

end Unit

/-! ## What `slob_alloc` carves from -/

section Alloc

variable {c : Config} {h : SlobHeap} {live : ℕ → List (ℤ × ℤ)} {size align : ℕ} {node : ℤ}

/-- **Except with 32 KB pages, `slob_alloc` takes no new page while a page of `free_slob_small`
of the node asked for has a free block that holds the aligned request.**  In every reachable
heap it then carves from a listed page, whatever the page allocator would give, and
`pages_alloc` does not change. -/
theorem slobAlloc_of_fit (hr : SlobReachable c (h, live)) (h15 : c.pageShift ≠ 15) {pid : ℕ}
    {sp : SlobPage} {o k : ℤ} (hpid : pid ∈ h.freeSlobSmall) (hsp : h.pages pid = some sp)
    (hnode : c.nodeMatch sp node = true) (hmem : (o, k) ∈ c.freeBlocks sp)
    (hfit : c.Fits pid size align o k) :
    ∃ h' pid' b, pid' ∈ h.freeSlobSmall ∧ h'.pagesAlloc = h.pagesAlloc ∧
      ∀ grant, c.slobAlloc h size align node grant = some (h', some (pid', b)) := by
  have hinv := HeapInv.of_reachable hr
  obtain ⟨best, hrun, hrec⟩ := hinv.scan_records_fit h15 size align node
  obtain ⟨best', hrun', hok⟩ := hinv.scan size align node
  obtain rfl : best = best' := Option.some.inj (hrun.symm.trans hrun')
  rcases hok with hnone | ⟨pid', sp', -, o', -, -, hsp', hpos, -, hcur, hpage, -⟩
  · exact absurd hnone (hrec ⟨_, hinv.mem_scanned hpid hsp hnode hmem hfit, hfit⟩)
  · refine ⟨_, pid', _, (hinv.listed pid').2 ⟨sp', hsp', (hinv.flag pid' sp' hsp').2 hpos⟩,
      by simp, fun grant => Config.slobAlloc_of_found hrun hcur hpage hsp' grant⟩

/-- After `slob_alloc(2)` took page 7 with 4 KB pages, page 7 is listed with the free block
`(1, 2047)`, which holds `slob_alloc(4, align 8)`: that request is carved from a listed page. -/
theorem slobAlloc_of_fit_listed_page :
    ∃ s : SlobHeap × (ℕ → List (ℤ × ℤ)), SlobReachable Config.page4k s ∧
      7 ∈ s.1.freeSlobSmall ∧ ∃ h' pid' b, pid' ∈ s.1.freeSlobSmall ∧
        h'.pagesAlloc = s.1.pagesAlloc ∧
        ∀ grant, Config.page4k.slobAlloc s.1 4 8 (-1) grant = some (h', some (pid', b)) := by
  obtain ⟨s, hs⟩ : ∃ s, Config.page4k.runCalls (SlobHeap.empty, fun _ => [])
      [.alloc 2 0 (-1) (some (7, 0))] = some s := Option.isSome_iff_exists.1 (by decide)
  obtain ⟨sp, hsp⟩ := Option.isSome_iff_exists.1
    (runCalls_read hs (fun s => (s.1.pages 7).isSome) (b := true) (by decide))
  have hfb := runCalls_read hs (fun s => (s.1.pages 7).map Config.page4k.freeBlocks)
    (b := some [(1, 2047)]) (by decide)
  have hnode := runCalls_read hs (fun s => (s.1.pages 7).map (Config.page4k.nodeMatch · (-1)))
    (b := some true) (by decide)
  rw [hsp, Option.map_some, Option.some.injEq] at hfb hnode
  have hpid : 7 ∈ s.1.freeSlobSmall := of_decide_eq_true
    (runCalls_read hs (fun s => decide (7 ∈ s.1.freeSlobSmall)) (b := true) (by decide))
  have hmem : ((1 : ℤ), (2047 : ℤ)) ∈ Config.page4k.freeBlocks sp := by simp [hfb]
  have hr := runCalls_reachable .refl hs
  exact ⟨s, hr, hpid, slobAlloc_of_fit hr (by decide) hpid hsp hnode hmem (by decide)⟩

/-- **For alignments within a unit, `slob_alloc` carves from a best fit.**  Except with 32 KB
pages, in every reachable heap, when `align` divides `SLOB_UNIT`, so that no block needs a head
fragment: the scan of `slob_alloc(size, align, node)` records a block whenever a page of
`free_slob_small` of the node holds the request; `slob_alloc` then hands out the start of the
recorded block, whatever the page allocator would give; and no free block of such a page that
holds the request leaves fewer units free. -/
theorem slobAlloc_best_fit (hr : SlobReachable c (h, live)) (h15 : c.pageShift ≠ 15)
    (halign : align ∣ c.SLOB_UNIT) (size : ℕ) (node : ℤ) :
    ∃ best, c.scanPages h size align node (c.initBest size) h.freeSlobSmall = some best ∧
      ((∃ pid ∈ h.freeSlobSmall, ∃ sp, h.pages pid = some sp ∧ c.nodeMatch sp node = true ∧
          ∃ b ∈ c.freeBlocks sp, c.Fits pid size align b.1 b.2) → best.cur ≠ none) ∧
      ∀ pid o, best.page = some pid → best.cur = some o →
        ∃ sp k, h.pages pid = some sp ∧ (o, k) ∈ c.freeBlocks sp ∧ c.Fits pid size align o k ∧
          (∀ grant, (c.slobAlloc h size align node grant).map Prod.snd = some (some (pid, o))) ∧
          ∀ pid' ∈ h.freeSlobSmall, ∀ sp', h.pages pid' = some sp' →
            c.nodeMatch sp' node = true → ∀ b ∈ c.freeBlocks sp', c.Fits pid' size align b.1 b.2 →
              c.leftover pid size align o k ≤ c.leftover pid' size align b.1 b.2 := by
  have hinv := HeapInv.of_reachable hr
  -- the scan with `align` is the scan without alignment
  obtain ⟨best, hrun, hbest⟩ := hinv.scan_best_fit size node
  have hrun₀ : c.scanPages h size align node (c.initBest size) h.freeSlobSmall = some best := by
    rw [scanPages_of_dvd halign]
    exact hrun
  obtain ⟨best', hrun', hrec⟩ := hinv.scan_records_fit h15 size align node
  obtain ⟨best'', hrun'', hok⟩ := hinv.scan size align node
  obtain rfl : best' = best := Option.some.inj (hrun'.symm.trans hrun₀)
  obtain rfl : best'' = best' := Option.some.inj (hrun''.symm.trans hrun₀)
  refine ⟨best'', hrun₀, ?_, fun pid o hpage hcur => ?_⟩
  · rintro ⟨pid, hpid, sp, hsp, hnode, ⟨o, k⟩, hb, hfit⟩
    exact hrec ⟨_, hinv.mem_scanned hpid hsp hnode hb hfit, hfit⟩
  rcases hok with hnone | ⟨pid₁, sp, pre, o₁, k, post, hsp, -, hfb, hcur₁, hpage₁, -, hbs, hfit⟩
  · rw [hcur] at hnone
    cases hnone
  obtain rfl : o₁ = o := Option.some.inj (hcur₁.symm.trans hcur)
  obtain rfl : pid₁ = pid := Option.some.inj (hpage₁.symm.trans hpage)
  refine ⟨sp, k, hsp, by simp [hfb], hfit, fun grant => ?_, ?_⟩
  · rw [Config.slobAlloc_of_found hrun₀ hcur hpage hsp grant]
    simp [Config.alignDelta_of_dvd halign]
  · rintro pid' hpid' sp' hsp' hnode ⟨o', k'⟩ hb hbfit
    rw [fits_of_dvd halign] at hbfit
    have hle := hbest _ (hinv.mem_scanned hpid' hsp' hnode hb hbfit) hbfit
    rw [leftover_of_dvd halign, leftover_of_dvd halign]
    simp only [Config.leftover_zero]
    simp only at hle
    omega

/-- On page 7 with the free blocks `(1, 10)` and `(12, 9)` (the run of the next theorem),
`slob_alloc(4)` aligned to `SLOB_UNIT = 2` bytes records the block at 12, which leaves the
fewest units free, and carves from it. -/
theorem slobAlloc_best_fit_two_blocks :
    ∃ s : SlobHeap × (ℕ → List (ℤ × ℤ)), SlobReachable Config.page4k s ∧
      (s.1.pages 7).map Config.page4k.freeBlocks = some [(1, 10), (12, 9)] ∧
      ∃ best, Config.page4k.scanPages s.1 4 2 (-1) (Config.page4k.initBest 4)
          s.1.freeSlobSmall = some best ∧ best.page = some 7 ∧ best.cur = some 12 ∧
        ∃ sp k, s.1.pages 7 = some sp ∧ (12, k) ∈ Config.page4k.freeBlocks sp ∧
          ∀ grant, (Config.page4k.slobAlloc s.1 4 2 (-1) grant).map Prod.snd =
            some (some (7, 12)) := by
  obtain ⟨s, hs⟩ : ∃ s, Config.page4k.runCalls (SlobHeap.empty, fun _ => [])
      [.alloc 2 0 (-1) (some (7, 0)), .alloc 20 0 (-1) none, .alloc 2 0 (-1) none,
        .alloc 18 0 (-1) none, .alloc 4054 0 (-1) none, .free 7 1 20, .free 7 12 18] = some s :=
    Option.isSome_iff_exists.1 (by decide)
  have hr := runCalls_reachable .refl hs
  obtain ⟨best, hscan, -, hbest⟩ :=
    slobAlloc_best_fit hr (by decide) (show 2 ∣ Config.page4k.SLOB_UNIT by decide) 4 (-1)
  have hpage := runCalls_read hs (fun s => (Config.page4k.scanPages s.1 4 2 (-1)
    (Config.page4k.initBest 4) s.1.freeSlobSmall).map BestBlock.page) (b := some (some 7))
    (by decide)
  have hcur := runCalls_read hs (fun s => (Config.page4k.scanPages s.1 4 2 (-1)
    (Config.page4k.initBest 4) s.1.freeSlobSmall).map BestBlock.cur) (b := some (some 12))
    (by decide)
  simp only [hscan, Option.map_some, Option.some.injEq] at hpage hcur
  obtain ⟨sp, k, hsp, hmem, -, halloc, -⟩ := hbest 7 12 hpage hcur
  exact ⟨s, hr, runCalls_read hs (fun s => (s.1.pages 7).map Config.page4k.freeBlocks)
    (b := some [(1, 10), (12, 9)]) (by decide), best, hscan, hpage, hcur, sp, k, hsp, hmem,
    halloc⟩

end Alloc

/-! ## The node of the page a block comes from -/

namespace Config

variable (c : Config)

/-- The loop body of `find_best_fit_block` keeps the page recorded or records its own. -/
theorem bestStep_page (pid : ℕ) (mem : ℤ → ℤ) (size align : ℕ) (best : BestBlock)
    (prev : Option ℤ) (cur : ℤ) :
    (c.bestStep pid mem size align best prev cur).page = best.page ∨
      (c.bestStep pid mem size align best prev cur).page = some pid := by
  unfold bestStep
  dsimp only
  split_ifs <;> simp

end Config

/-- The carving leaves the page's node as it was. -/
@[simp] theorem Config.carve_nid (c : Config) (sp : SlobPage) (prev : Option ℤ)
    (cur avail delta units : ℤ) : (c.carve sp prev cur avail delta units).1.nid = sp.nid := rfl

/-- The page `afterCarve` stores is the carved one, flag apart. -/
theorem SlobHeap.afterCarve_page (h : SlobHeap) (pid : ℕ) (sp' : SlobPage) :
    ∃ sp'', (h.afterCarve pid sp').pages pid = some sp'' ∧ sp''.nid = sp'.nid := by
  unfold SlobHeap.afterCarve
  split_ifs
  · exact ⟨{ sp' with slobFree := false }, by simp [SlobHeap.clearSlobPageFree,
      SlobHeap.modifyPage], rfl⟩
  · exact ⟨sp', by simp, rfl⟩

section Node

variable {c : Config} {h h' : SlobHeap} {live : ℕ → List (ℤ × ℤ)} {size align : ℕ} {node : ℤ}
  {grant : Option (ℕ × ℕ)}

/-- `slob_page_alloc` leaves the page it carves from on its node. -/
theorem slobPageAlloc_nid {hh : SlobHeap} {pid : ℕ} {sp : SlobPage} {b : ℤ}
    (hrun : c.slobPageAlloc hh pid sp size align = some (h', some b)) :
    ∃ sp', h'.pages pid = some sp' ∧ sp'.nid = sp.nid := by
  unfold Config.slobPageAlloc at hrun
  obtain ⟨x, hx, heq⟩ := Option.map_eq_some_iff.1 hrun
  rcases x with _ | ⟨sp', b'⟩
  · simp at heq
  · -- the search carved `sp'` out of `sp` at some block
    obtain ⟨p, y, htest⟩ := LinkWalk.findWalk_eq_some _ hx
    have hnid : sp'.nid = sp.nid := by
      unfold Config.pageAllocTest at htest
      dsimp only at htest
      split_ifs at htest
      have hsp' := congrArg Prod.fst (Option.some.inj htest)
      dsimp only at hsp'
      rw [← hsp', Config.carve_nid]
    obtain ⟨sp'', hsp'', hnid''⟩ := hh.afterCarve_page pid sp'
    dsimp only at heq
    rw [← (Prod.mk.inj heq).1]
    exact ⟨sp'', hsp'', hnid''.trans hnid⟩

/-- The page the scan of `slob_alloc` records is a page of the heap that its node test
passes. -/
theorem HeapInv.scan_node (hinv : HeapInv c h live) (size align : ℕ) (node : ℤ) :
    ∃ best, c.scanPages h size align node (c.initBest size) h.freeSlobSmall = some best ∧
      ∀ pid, best.page = some pid → ∃ sp, h.pages pid = some sp ∧ c.nodeMatch sp node = true := by
  obtain ⟨best, hrun, hI⟩ := scanPages_rule hinv
    (fun _ best => ∀ pid, best.page = some pid → ∃ sp, h.pages pid = some sp ∧
      c.nodeMatch sp node = true)
    (fun _ pid sp pre o _ _ best hsp _ hskip _ hbest q hq => by
      rcases c.bestStep_page pid sp.mem size align best (pre.getLast?.map Prod.fst) o with
        he | he <;> rw [he] at hq
      · exact hbest q hq
      · -- the block recorded is on `pid`, which the scan did not skip
        cases hq
        rw [Config.skipPage_eq, Bool.or_eq_false_iff, Bool.not_eq_false'] at hskip
        exact ⟨sp, hsp, hskip.1⟩)
    (fun _ hp => hp) [] (fun q (hq : (c.initBest size).page = some q) => by
      simp [Config.initBest] at hq)
  exact ⟨best, hrun, hI⟩

/-- **Under `CONFIG_NUMA`, `slob_alloc` carves only from pages of the node asked for.**  In every
reachable heap, when `slob_alloc(size, align, node)` for a node other than `-1` hands out a
block, the block lies on a page the heap held, which is on `node`, or on the frame the page
allocator gave, set up on the node the page allocator took it from. -/
theorem slobAlloc_node (hr : SlobReachable c (h, live)) (hnuma : c.numa = true) (hnode : node ≠ -1)
    {pid : ℕ} {b : ℤ} (hrun : c.slobAlloc h size align node grant = some (h', some (pid, b))) :
    ∃ sp', h'.pages pid = some sp' ∧
      (((h.pages pid).isSome ∧ (sp'.nid : ℤ) = node) ∨ grant = some (pid, sp'.nid)) := by
  obtain ⟨best, hscan, hnodes⟩ := (HeapInv.of_reachable hr).scan_node size align node
  cases hcur : best.cur with
  | some cur =>
    -- carved from the page the scan recorded
    obtain ⟨pid', hpid⟩ : ∃ pid', best.page = some pid' := by
      cases hp : best.page with
      | none => simp [Config.slobAlloc, hscan, hcur, hp] at hrun
      | some pid' => exact ⟨pid', rfl⟩
    obtain ⟨sp, hsp, hmatch⟩ := hnodes pid' hpid
    rw [Config.slobAlloc_of_found hscan hcur hpid hsp, Option.some.injEq, Prod.mk.injEq,
      Option.some.injEq, Prod.mk.injEq] at hrun
    obtain ⟨rfl, rfl, -⟩ := hrun
    obtain ⟨sp'', hsp'', hnid⟩ := SlobHeap.afterCarve_page h pid' _
    have hnid' : (sp.nid : ℤ) = node := by simpa [Config.nodeMatch, hnuma, hnode] using hmatch
    refine ⟨sp'', hsp'', .inl ⟨Option.isSome_iff_exists.2 ⟨sp, hsp⟩, ?_⟩⟩
    rw [hnid, Config.carve_nid, hnid']
  | none =>
    -- nothing recorded: the block is on the page set up on the frame the page allocator gave
    rcases grant with _ | ⟨p, nid⟩
    · rw [Config.slobAlloc_of_null hscan hcur] at hrun
      simp at hrun
    · rw [Config.slobAlloc_of_new hscan hcur] at hrun
      obtain ⟨r, hr₁, hr₂⟩ := Option.bind_eq_some_iff.1 hrun
      obtain ⟨b', hb', heq⟩ := Option.map_eq_some_iff.1 hr₂
      obtain ⟨rfl, rfl, rfl⟩ : r.1 = h' ∧ p = pid ∧ b' = b := by simpa using heq
      obtain ⟨sp', hsp', hnid⟩ := slobPageAlloc_nid (show _ = some (r.1, some b') by
        rw [hr₁, ← hb'])
      exact ⟨sp', hsp', .inr (by simp [hnid, Config.newPage])⟩

end Node

/-- With 4 KB pages and `CONFIG_NUMA`, after `slob_alloc(2)` on node 0 took frame 7 and
`slob_alloc(2)` on node 1 took frame 8, `slob_alloc(2)` on node 1 carves from page 8 and not
from page 7, which is on node 0. -/
theorem slobAlloc_node_two_nodes :
    ∃ s : SlobHeap × (ℕ → List (ℤ × ℤ)), SlobReachable Config.page4kNuma s ∧
      (s.1.pages 7).map SlobPage.nid = some 0 ∧ ∃ h' b,
        Config.page4kNuma.slobAlloc s.1 2 0 1 (some (9, 1)) = some (h', some (8, b)) ∧
        ∃ sp', h'.pages 8 = some sp' ∧
          (((s.1.pages 8).isSome ∧ (sp'.nid : ℤ) = 1) ∨ some (9, 1) = some (8, sp'.nid)) := by
  obtain ⟨s, hs⟩ : ∃ s, Config.page4kNuma.runCalls (SlobHeap.empty, fun _ => [])
      [.alloc 2 0 0 (some (7, 0)), .alloc 2 0 1 (some (8, 1))] = some s :=
    Option.isSome_iff_exists.1 (by decide)
  have hr := runCalls_reachable .refl hs
  have hnid := runCalls_read hs (fun s => (s.1.pages 7).map SlobPage.nid) (b := some 0) (by decide)
  have hpage := runCalls_read hs (fun s => (Config.page4kNuma.slobAlloc s.1 2 0 1
    (some (9, 1))).map fun r => r.2.map Prod.fst) (b := some (some 8)) (by decide)
  obtain ⟨⟨h', r⟩, hrun, hr'⟩ := Option.map_eq_some_iff.1 hpage
  obtain ⟨⟨pid, b⟩, rfl, rfl⟩ := Option.map_eq_some_iff.1 hr'
  exact ⟨s, hr, hnid, h', b, hrun, slobAlloc_node hr (by decide) (by decide) hrun⟩

/-! ## Failing runs -/

/-- **With 32 KB pages `slob_alloc` takes a new page although a listed page has room.**  After
one `slob_alloc(16, align 8)` (the request of `kmalloc(8)`) on the empty heap, page 7 is the one
page of `free_slob_small`, with the free block of 16376 units at offset 8; the scan of a second
`slob_alloc(16, align 8)` records no block, and `slob_alloc` hands out a block of the new
page 8. -/
theorem slobAlloc_grows_heap_32k :
    ∃ s, SlobReachable Config.page32k s ∧ s.1.freeSlobSmall = [7] ∧
      (s.1.pages 7).map Config.page32k.freeBlocks = some [(8, 16376)] ∧
      Config.page32k.Fits 7 16 8 8 16376 ∧
      (Config.page32k.scanPages s.1 16 8 (-1) (Config.page32k.initBest 16)
        s.1.freeSlobSmall).map BestBlock.cur = some none ∧
      (Config.page32k.slobAlloc s.1 16 8 (-1) (some (8, 0))).map Prod.snd =
        some (some (8, 0)) := by
  obtain ⟨s, hs⟩ : ∃ s, Config.page32k.runCalls (SlobHeap.empty, fun _ => [])
      [.alloc 16 8 (-1) (some (7, 0))] = some s := Option.isSome_iff_exists.1 (by decide)
  have h₁ := runCalls_read hs (fun s => s.1.freeSlobSmall) (b := [7]) (by decide)
  have h₂ := runCalls_read hs (fun s => (s.1.pages 7).map Config.page32k.freeBlocks)
    (b := some [(8, 16376)]) (by decide)
  have h₃ := runCalls_read hs (fun s => (Config.page32k.scanPages s.1 16 8 (-1)
    (Config.page32k.initBest 16) s.1.freeSlobSmall).map BestBlock.cur) (b := some none)
    (by decide)
  have h₄ := runCalls_read hs (fun s => (Config.page32k.slobAlloc s.1 16 8 (-1)
    (some (8, 0))).map Prod.snd) (b := some (some (8, 0))) (by decide)
  exact ⟨s, runCalls_reachable .refl hs, h₁, h₂, by decide, h₃, h₄⟩

/-- **With an alignment `slob_alloc` does not carve from the best fit.**  A run of five
allocations and two frees on the empty heap with 4 KB pages leaves page 7 with the free blocks
`(1, 10)` and `(12, 9)`.  For `slob_alloc(4, align 8)` the first needs 3 units of padding and
would leave 5 units free, the second none and would leave 7; the scan replaces the first by the
second, as `7 < 10 - 2`, and `slob_alloc` carves from the second. -/
theorem slobAlloc_not_best_fit :
    ∃ s, SlobReachable Config.page4k s ∧ s.1.freeSlobSmall = [7] ∧
      (s.1.pages 7).map Config.page4k.freeBlocks = some [(1, 10), (12, 9)] ∧
      Config.page4k.Fits 7 4 8 1 10 ∧ Config.page4k.leftover 7 4 8 1 10 = 5 ∧
      Config.page4k.Fits 7 4 8 12 9 ∧ Config.page4k.leftover 7 4 8 12 9 = 7 ∧
      (Config.page4k.scanPages s.1 4 8 (-1) (Config.page4k.initBest 4)
        s.1.freeSlobSmall).map BestBlock.cur = some (some 12) ∧
      (Config.page4k.slobAlloc s.1 4 8 (-1) none).map Prod.snd = some (some (7, 12)) := by
  obtain ⟨s, hs⟩ : ∃ s, Config.page4k.runCalls (SlobHeap.empty, fun _ => [])
      [.alloc 2 0 (-1) (some (7, 0)), .alloc 20 0 (-1) none, .alloc 2 0 (-1) none,
        .alloc 18 0 (-1) none, .alloc 4054 0 (-1) none, .free 7 1 20, .free 7 12 18] = some s :=
    Option.isSome_iff_exists.1 (by decide)
  have h₁ := runCalls_read hs (fun s => s.1.freeSlobSmall) (b := [7]) (by decide)
  have h₂ := runCalls_read hs (fun s => (s.1.pages 7).map Config.page4k.freeBlocks)
    (b := some [(1, 10), (12, 9)]) (by decide)
  have h₃ := runCalls_read hs (fun s => (Config.page4k.scanPages s.1 4 8 (-1)
    (Config.page4k.initBest 4) s.1.freeSlobSmall).map BestBlock.cur) (b := some (some 12))
    (by decide)
  have h₄ := runCalls_read hs (fun s => (Config.page4k.slobAlloc s.1 4 8 (-1) none).map Prod.snd)
    (b := some (some (7, 12))) (by decide)
  exact ⟨s, runCalls_reachable .refl hs, h₁, h₂, by decide, by decide, by decide, by decide,
    h₃, h₄⟩

end SlobLook.Slob
