import SlobLook.Slob.Kmalloc

/-!
# The layout of a slob page is determined by its live blocks

`slob_free` merges a freed block with the free blocks next to it, and `slob_page_alloc` leaves a
fragment only where a block is split, so the free chain of a well-formed page has a live unit
between each two of its blocks (`PageInv.gaps`).  With the tiling of the page by the free and
the live blocks, this determines the chain: its blocks are the maximal runs of units that no
live block covers (`PageInv.mem_iff_maxRun`).  So two states of the heap with the same live
blocks on a page lay it out the same way, whatever calls led to them
(`slob_layout_of_live`), and the chain the allocator walks has at most one block more than the
page has live blocks (`slob_free_blocks_le_live`).

Every slob page of a reachable heap holds a live block: `slob_free` gives a page back to the
page allocator when its last block is freed (`slob_pages_occupied`).  Together, `slob_free` of
the block `slob_alloc` has just handed out returns the heap to the state it was in, up to the
contents of free units and the order of `free_slob_small` (`slobFree_slobAlloc`).
-/

namespace SlobLook.Slob

/-! ## Pages -/

section Page

variable {c : Config} {sp sp' : SlobPage} {fb fb' live live' : List (ℤ × ℤ)}

/-- **The free blocks of a well-formed page are the maximal runs of units that no live block
covers.** -/
theorem PageInv.mem_iff_maxRun (h : PageInv c sp fb live) (I : ℤ × ℤ) :
    I ∈ fb ↔ Tiling.MaxRun live c.pageUnits I :=
  h.tiles.mem_iff_maxRun h.gaps h.links.pos I

/-- Two well-formed pages whose live blocks cover the same units have the same free chain, free
units and first free block. -/
theorem PageInv.eq_of_live (h : PageInv c sp fb live) (h' : PageInv c sp' fb' live')
    (hlive : ∀ x, Tiling.coverCount live x = Tiling.coverCount live' x) :
    fb = fb' ∧ sp.units = sp'.units ∧ sp.free = sp'.free := by
  obtain rfl : fb = fb' :=
    h.tiles.eq_of_separated h'.tiles hlive h.gaps h'.gaps h.links.pos h'.links.pos
  exact ⟨rfl, by rw [h.units, h'.units], by rw [h.head, h'.head]⟩

end Page

/-! ## Heaps -/

section Heap

variable {c : Config} {h h' : SlobHeap} {live live' : ℕ → List (ℤ × ℤ)}

/-- In two well-formed heaps with the same live blocks on a page, in any order, the page has the
same free chain, free units, first free block and flag. -/
theorem HeapInv.page_eq_of_live (hinv : HeapInv c h live) (hinv' : HeapInv c h' live')
    {pid : ℕ} {sp sp' : SlobPage} (hp : h.pages pid = some sp) (hp' : h'.pages pid = some sp')
    (hperm : (live pid).Perm (live' pid)) :
    c.freeBlocks sp = c.freeBlocks sp' ∧ sp.units = sp'.units ∧ sp.free = sp'.free ∧
      sp.slobFree = sp'.slobFree := by
  obtain ⟨hfb, hunits, hfree⟩ :=
    (hinv.page pid sp hp).eq_of_live (hinv'.page pid sp' hp') (Tiling.coverCount_perm hperm)
  refine ⟨hfb, hunits, hfree, ?_⟩
  -- the flag is set exactly when the page has free units
  rw [Bool.eq_iff_iff, hinv.flag pid sp hp, hinv'.flag pid sp' hp', hunits]

/-- Two well-formed heaps that hold the same slob pages, with the same live blocks on each,
put the same pages on `free_slob_small`. -/
theorem HeapInv.mem_freeSlobSmall_iff (hinv : HeapInv c h live) (hinv' : HeapInv c h' live')
    (hpages : ∀ q, (h.pages q).isSome = (h'.pages q).isSome)
    (hperm : ∀ q, (live q).Perm (live' q)) (q : ℕ) :
    q ∈ h.freeSlobSmall ↔ q ∈ h'.freeSlobSmall := by
  rw [hinv.listed, hinv'.listed]
  cases hp : h.pages q with
  | none =>
    have hp' : h'.pages q = none := by simpa [hp] using (hpages q).symm
    simp [hp']
  | some sp =>
    obtain ⟨sp', hp'⟩ := Option.isSome_iff_exists.1 (by simpa [hp] using hpages q)
    have hflag := (hinv.page_eq_of_live hinv' hp hp' (hperm q)).2.2.2
    simp [hp', hflag]

end Heap

/-- **The layout of a slob page depends only on its live blocks.**  Any two states that runs
reach, along any calls, with the same blocks live on a slob page, in any order, have the same
free chain there, with the same free units, first free block and flag. -/
theorem slob_layout_of_live {c : Config} {h h' : SlobHeap} {live live' : ℕ → List (ℤ × ℤ)}
    (hr : SlobReachable c (h, live)) (hr' : SlobReachable c (h', live')) {pid : ℕ}
    {sp sp' : SlobPage} (hp : h.pages pid = some sp) (hp' : h'.pages pid = some sp')
    (hperm : (live pid).Perm (live' pid)) :
    c.freeBlocks sp = c.freeBlocks sp' ∧ sp.units = sp'.units ∧ sp.free = sp'.free ∧
      sp.slobFree = sp'.slobFree :=
  (HeapInv.of_reachable hr).page_eq_of_live (HeapInv.of_reachable hr') hp hp' hperm

/-- Two runs with 4 KB pages that leave the block `(1, 1)` live on page 7: one frees the block
at `0` after two allocations, the other also splits the rest of the page at `2` and merges it
back. -/
theorem slob_layout_of_live_two_runs :
    ∃ s s' : SlobHeap × (ℕ → List (ℤ × ℤ)), ∃ sp sp',
      SlobReachable Config.page4k s ∧ SlobReachable Config.page4k s' ∧
      s.1.pages 7 = some sp ∧ s'.1.pages 7 = some sp' ∧ s.2 7 = [(1, 1)] ∧ s'.2 7 = [(1, 1)] ∧
      (Config.page4k.freeBlocks sp = Config.page4k.freeBlocks sp' ∧ sp.units = sp'.units ∧
        sp.free = sp'.free ∧ sp.slobFree = sp'.slobFree) := by
  obtain ⟨s, hs⟩ : ∃ s, Config.page4k.runCalls (SlobHeap.empty, fun _ => [])
      [.alloc 2 0 (-1) (some (7, 0)), .alloc 2 0 (-1) none, .free 7 0 2] = some s :=
    Option.isSome_iff_exists.1 (by decide)
  obtain ⟨s', hs'⟩ : ∃ s, Config.page4k.runCalls (SlobHeap.empty, fun _ => [])
      [.alloc 2 0 (-1) (some (7, 0)), .alloc 2 0 (-1) none, .alloc 2 0 (-1) none, .free 7 2 2,
        .free 7 0 2] = some s :=
    Option.isSome_iff_exists.1 (by decide)
  obtain ⟨sp, hsp⟩ := Option.isSome_iff_exists.1
    (runCalls_read hs (fun s => (s.1.pages 7).isSome) (b := true) (by decide))
  obtain ⟨sp', hsp'⟩ := Option.isSome_iff_exists.1
    (runCalls_read hs' (fun s => (s.1.pages 7).isSome) (b := true) (by decide))
  have hlive := runCalls_read hs (fun s => s.2 7) (b := [(1, 1)]) (by decide)
  have hlive' := runCalls_read hs' (fun s => s.2 7) (b := [(1, 1)]) (by decide)
  have hr := runCalls_reachable .refl hs
  have hr' := runCalls_reachable .refl hs'
  refine ⟨s, s', sp, sp', hr, hr', hsp, hsp', hlive, hlive', ?_⟩
  exact slob_layout_of_live hr hr' hsp hsp' (by rw [hlive, hlive'])

/-! ## No slob page is empty -/

/-- Every slob page of the heap holds a live block. -/
def Occupied (h : SlobHeap) (live : ℕ → List (ℤ × ℤ)) : Prop :=
  ∀ pid, (h.pages pid).isSome → live pid ≠ []

section Occupied

variable {c : Config} {h h' : SlobHeap} {live : ℕ → List (ℤ × ℤ)} {size align : ℕ} {node : ℤ}
  {grant : Option (ℕ × ℕ)}

/-- **`slob_free` gives a page back exactly when its last live block is freed**: the slob
pages after it are those before, less the block's page if no other block is live there. -/
theorem HeapInv.slobFree_pages_isSome (hinv : HeapInv c h live) {pid : ℕ} {b : ℤ}
    (hlive : (b, (c.SLOB_UNITS size : ℤ)) ∈ live pid)
    (hrun : c.slobFree h (some (pid, b)) size = some h') (q : ℕ) :
    (h'.pages q).isSome ↔
      (h.pages q).isSome ∧ (q = pid → (live pid).erase (b, c.SLOB_UNITS size) ≠ []) := by
  unfold Config.slobFree at hrun
  split_ifs at hrun with hsize
  obtain ⟨sp, hp, hrun⟩ := Option.bind_eq_some_iff.1 hrun
  have hpage := hinv.page pid sp hp
  have hu := hpage.livePos _ hlive
  have hbin := hpage.liveInside _ hlive
  simp only at hu hbin
  have hunits : c.toSlobidx (c.SLOB_UNITS size) = c.SLOB_UNITS size :=
    c.toSlobidx_eq (by omega) (by omega)
  rw [hunits] at hrun
  -- the page is whole again exactly when the block was its last live one
  have hwhole_iff : sp.units + c.SLOB_UNITS size = c.pageUnits ↔
      (live pid).erase (b, c.SLOB_UNITS size) = [] := by
    refine ⟨hpage.erase_eq_nil hlive, fun hnil => ?_⟩
    have hsum := ((List.perm_cons_erase hlive).map Prod.snd).sum_eq
    rw [hnil] at hsum
    have htot := hpage.total
    simp only [List.map_cons, List.map_nil, List.sum_cons, List.sum_nil] at hsum
    omega
  by_cases hwhole : sp.units + c.SLOB_UNITS size = c.pageUnits
  · -- the page goes back to the page allocator
    rw [if_pos hwhole] at hrun
    cases hrun
    by_cases hq : q = pid <;> by_cases hflag : sp.slobFree <;>
      simp [hq, hflag, hwhole_iff.1 hwhole]
  · -- the page stays, with the block freed in it
    have hne : (live pid).erase (b, c.SLOB_UNITS size) ≠ [] := mt hwhole_iff.2 hwhole
    rw [if_neg hwhole] at hrun
    split_ifs at hrun
    · cases hrun
      by_cases hq : q = pid <;> simp [hq, hp, hne]
    · obtain ⟨sp', -, hsp'⟩ := Option.bind_eq_some_iff.1 hrun
      cases hsp'
      by_cases hq : q = pid <;> simp [hq, hp, hne]

/-- The page of a block `slob_alloc` hands out is a slob page before, or the frame the page
allocator gave. -/
theorem slobAlloc_new_page {pid : ℕ} {b : ℤ}
    (hrun : c.slobAlloc h size align node grant = some (h', some (pid, b))) :
    (h.pages pid).isSome ∨ ∃ nid, grant = some (pid, nid) := by
  by_cases hp : (h.pages pid).isSome
  · exact .inl hp
  rcases slobAlloc_frames hrun with ⟨hsame, -⟩ | ⟨p, nid, rfl, hpages, -⟩
  · rw [← hsame, slobAlloc_pages_isSome hrun] at hp
    simp at hp
  · have hpid := slobAlloc_pages_isSome hrun pid
    rw [hpages pid] at hpid
    simp only [beq_self_eq_true, Bool.true_or, Bool.or_eq_true, beq_iff_eq] at hpid
    obtain rfl : pid = p := by simpa [hp] using hpid.symm
    exact .inr ⟨nid, rfl⟩

/-- `slob_alloc` counts `pages_alloc` up exactly when the block is on a new page. -/
theorem slobAlloc_pagesAlloc {pid : ℕ} {b : ℤ} (hgrant : GrantFresh h grant)
    (hrun : c.slobAlloc h size align node grant = some (h', some (pid, b))) :
    h'.pagesAlloc = if (h.pages pid).isSome then h.pagesAlloc else h.pagesAlloc + 1 := by
  rcases slobAlloc_frames hrun with ⟨hsame, heq⟩ | ⟨p, nid, rfl, hpages, heq⟩
  · have hp : (h.pages pid).isSome := by
      rw [← hsame, slobAlloc_pages_isSome hrun]
      simp
    rw [if_pos hp, heq]
  · -- the frame the page allocator gave is the block's page
    have hfresh := hgrant p nid rfl
    have hp : p = pid := by
      have := slobAlloc_pages_isSome hrun p
      rw [hpages p, hfresh] at this
      simpa using this
    subst hp
    rw [hfresh, Option.isSome_none, if_neg Bool.false_ne_true, heq]

/-- `slob_free` of a live block counts `pages_alloc` down exactly when it gives the page back. -/
theorem HeapInv.slobFree_pagesAlloc (hinv : HeapInv c h live) {pid : ℕ} {b : ℤ}
    (hlive : (b, (c.SLOB_UNITS size : ℤ)) ∈ live pid)
    (hrun : c.slobFree h (some (pid, b)) size = some h') :
    h'.pagesAlloc = if (h'.pages pid).isSome then h.pagesAlloc else h.pagesAlloc - 1 := by
  rcases slobFree_frames hrun with ⟨hsame, heq⟩ | ⟨p, b', hblock, -, hpages, heq⟩
  · have hp : (h.pages pid).isSome := by
      cases hnone : h.pages pid with
      | none =>
        rw [hinv.noPage pid hnone] at hlive
        simp at hlive
      | some sp => rfl
    rw [if_pos ((hsame pid).trans hp), heq]
  · simp only [Option.some.injEq, Prod.mk.injEq] at hblock
    obtain ⟨rfl, rfl⟩ := hblock
    rw [if_neg (by simp [hpages]), heq]

theorem Occupied.empty : Occupied SlobHeap.empty fun _ => [] := fun _ h => by
  simp [SlobHeap.empty] at h

/-- **Step lemma**: every call keeps every slob page occupied. -/
theorem Occupied.step {s s' : SlobHeap × (ℕ → List (ℤ × ℤ))} (hinv : HeapInv c s.1 s.2)
    (hocc : Occupied s.1 s.2) (hstep : SlobStep c s s') : Occupied s'.1 s'.2 := by
  cases hstep with
  | @alloc h h' live size align node grant pid b hreq halign hgrant hrun =>
    intro q hq
    rw [slobAlloc_pages_isSome hrun] at hq
    by_cases hqp : q = pid
    · subst hqp
      simp
    · dsimp only
      rw [Function.update_of_ne hqp]
      exact hocc q (by simpa [hqp] using hq)
  | @allocNull h h' live size align node grant hreq halign hgrant hrun =>
    -- `NULL` leaves the heap as it was
    obtain ⟨h'', r, hrun', hr⟩ := hinv.slobAlloc hreq halign node hgrant
    rw [hrun, Option.some.injEq, Prod.mk.injEq] at hrun'
    obtain ⟨rfl, rfl⟩ := hrun'
    rcases hr with ⟨-, rfl, -⟩ | ⟨pid, b, hr, -⟩
    · exact hocc
    · cases hr
  | @free h h' live pid b size hlive hrun =>
    intro q hq
    obtain ⟨hq', hne⟩ := (hinv.slobFree_pages_isSome hlive hrun q).1 hq
    by_cases hqp : q = pid
    · subst hqp
      simpa using hne rfl
    · dsimp only
      rw [Function.update_of_ne hqp]
      exact hocc q hq'
  | freeNull hrun =>
    simp only [Config.slobFree, Option.some.injEq] at hrun
    subst hrun
    exact hocc
  | @write h live pid sp a x v hp ha hx₁ hx₂ =>
    intro q hq
    by_cases hqp : q = pid
    · subst hqp
      exact hocc q (by simp [hp])
    · exact hocc q (by simpa [hqp] using hq)

/-- On a well-formed heap whose pages are occupied, a frame holds a slob page exactly when a
block is live on it. -/
theorem Occupied.isSome_iff (hocc : Occupied h live) (hinv : HeapInv c h live) (pid : ℕ) :
    (h.pages pid).isSome ↔ live pid ≠ [] := by
  refine ⟨hocc pid, fun hne => ?_⟩
  cases hp : h.pages pid with
  | none => exact absurd (hinv.noPage pid hp) hne
  | some sp => rfl

/-- **Run lemma**: every state a run reaches has its slob pages occupied. -/
theorem Occupied.of_reachable {s : SlobHeap × (ℕ → List (ℤ × ℤ))} (hr : SlobReachable c s) :
    Occupied s.1 s.2 := by
  induction hr with
  | refl => exact Occupied.empty
  | tail hprev hstep ih => exact ih.step (HeapInv.of_reachable hprev) hstep

end Occupied

/-- **No slob page is kept empty.**  In every state a run reaches, a frame holds a slob page
exactly when a block is live on it, so each slob page has fewer free units than
`SLOB_UNITS(PAGE_SIZE)`: `slob_free` gives a page back to the page allocator when it frees the
page's last live block, and `slob_alloc` takes a page only to carve a block from it. -/
theorem slob_pages_occupied {c : Config} {h : SlobHeap} {live : ℕ → List (ℤ × ℤ)}
    (hr : SlobReachable c (h, live)) :
    (∀ pid, (h.pages pid).isSome ↔ live pid ≠ []) ∧
      ∀ pid sp, h.pages pid = some sp → sp.units < c.pageUnits := by
  have hocc : Occupied h live := Occupied.of_reachable hr
  have hinv := HeapInv.of_reachable hr
  refine ⟨hocc.isSome_iff hinv, fun pid sp hp => ?_⟩
  exact (hinv.page pid sp hp).units_lt (hocc pid (by simp [hp]))

/-- With 4 KB pages, after two allocations of one unit and the free of the first, page 7 holds
the second block and 2047 free units. -/
theorem slob_pages_occupied_one_block :
    ∃ s : SlobHeap × (ℕ → List (ℤ × ℤ)), ∃ sp, SlobReachable Config.page4k s ∧
      s.1.pages 7 = some sp ∧ s.2 7 = [(1, 1)] ∧ sp.units = 2047 ∧
      ((s.1.pages 7).isSome ↔ s.2 7 ≠ []) ∧ sp.units < Config.page4k.pageUnits := by
  obtain ⟨s, hs⟩ : ∃ s, Config.page4k.runCalls (SlobHeap.empty, fun _ => [])
      [.alloc 2 0 (-1) (some (7, 0)), .alloc 2 0 (-1) none, .free 7 0 2] = some s :=
    Option.isSome_iff_exists.1 (by decide)
  obtain ⟨sp, hsp⟩ := Option.isSome_iff_exists.1
    (runCalls_read hs (fun s => (s.1.pages 7).isSome) (b := true) (by decide))
  have hunits := runCalls_read hs (fun s => (s.1.pages 7).map SlobPage.units) (b := some 2047)
    (by decide)
  rw [hsp, Option.map_some, Option.some.injEq] at hunits
  have hr := runCalls_reachable .refl hs
  obtain ⟨hiff, hlt⟩ := slob_pages_occupied hr
  exact ⟨s, sp, hr, hsp, runCalls_read hs (fun s => s.2 7) (b := [(1, 1)]) (by decide), hunits,
    hiff 7, hlt 7 sp hsp⟩

/-! ## The free chain is no longer than the live blocks -/

/-- **A slob page has at most one free block more than live blocks.**  In every state a run
reaches, the chain that `find_best_fit_block`, `slob_page_alloc` and `slob_free` walk from
`sp->free` visits the page's free blocks, and there is at most one more of them than of blocks
live on the page: `slob_free` merges a freed block with the free blocks beside it, so a live
block stands between each two free ones. -/
theorem slob_free_blocks_le_live {c : Config} {h : SlobHeap} {live : ℕ → List (ℤ × ℤ)}
    (hr : SlobReachable c (h, live)) {pid : ℕ} {sp : SlobPage} (hp : h.pages pid = some sp) :
    (c.freeBlocks sp ≠ [] → LinkWalk.IsWalk (c.slobNext sp.mem) (c.slobLast sp.mem) sp.free
        ((c.freeBlocks sp).map Prod.fst)) ∧
      (c.freeBlocks sp).length ≤ (live pid).length + 1 := by
  have hpage := (HeapInv.of_reachable hr).page pid sp hp
  exact ⟨hpage.isWalk, hpage.length_le⟩

/-- With 4 KB pages, after two allocations of one unit and the free of the first, page 7 holds
one live block and two free blocks, one on each side of it. -/
theorem slob_free_blocks_le_live_split :
    ∃ s : SlobHeap × (ℕ → List (ℤ × ℤ)), ∃ sp, SlobReachable Config.page4k s ∧
      s.1.pages 7 = some sp ∧ s.2 7 = [(1, 1)] ∧ Config.page4k.freeBlocks sp = [(0, 1), (2, 2046)] ∧
      (Config.page4k.freeBlocks sp ≠ [] → LinkWalk.IsWalk (Config.page4k.slobNext sp.mem)
        (Config.page4k.slobLast sp.mem) sp.free ((Config.page4k.freeBlocks sp).map Prod.fst)) ∧
      (Config.page4k.freeBlocks sp).length ≤ (s.2 7).length + 1 := by
  obtain ⟨s, hs⟩ : ∃ s, Config.page4k.runCalls (SlobHeap.empty, fun _ => [])
      [.alloc 2 0 (-1) (some (7, 0)), .alloc 2 0 (-1) none, .free 7 0 2] = some s :=
    Option.isSome_iff_exists.1 (by decide)
  obtain ⟨sp, hsp⟩ := Option.isSome_iff_exists.1
    (runCalls_read hs (fun s => (s.1.pages 7).isSome) (b := true) (by decide))
  have hfb := runCalls_read hs (fun s => (s.1.pages 7).map Config.page4k.freeBlocks)
    (b := some [(0, 1), (2, 2046)]) (by decide)
  rw [hsp, Option.map_some, Option.some.injEq] at hfb
  have hr := runCalls_reachable .refl hs
  exact ⟨s, sp, hr, hsp, runCalls_read hs (fun s => s.2 7) (b := [(1, 1)]) (by decide), hfb,
    slob_free_blocks_le_live hr hsp⟩

/-! ## `slob_free` undoes `slob_alloc` -/

/-- **`slob_free` undoes `slob_alloc`.**  In every state a run reaches, when `slob_alloc` hands
out a block for a request its callers make, `slob_free` of that block with the same size
returns.  It leaves the heap with the slob pages it had before, each with the free chain, free
units, first free block and flag it had, the same pages on `free_slob_small` and the same
`pages_alloc`; only the contents of free units and the order of `free_slob_small` may differ. -/
theorem slobFree_slobAlloc {c : Config} {h h' : SlobHeap} {live : ℕ → List (ℤ × ℤ)}
    {size align : ℕ} {node : ℤ} {grant : Option (ℕ × ℕ)} {pid : ℕ} {b : ℤ}
    (hr : SlobReachable c (h, live)) (hreq : c.ReqOk size) (halign : c.AlignOk align)
    (hgrant : GrantFresh h grant)
    (hrun : c.slobAlloc h size align node grant = some (h', some (pid, b))) :
    ∃ h'', c.slobFree h' (some (pid, b)) size = some h'' ∧
      (∀ q, (h''.pages q).isSome = (h.pages q).isSome) ∧
      (∀ q sp sp'', h.pages q = some sp → h''.pages q = some sp'' →
        c.freeBlocks sp'' = c.freeBlocks sp ∧ sp''.units = sp.units ∧ sp''.free = sp.free ∧
          sp''.slobFree = sp.slobFree) ∧
      (∀ q, q ∈ h''.freeSlobSmall ↔ q ∈ h.freeSlobSmall) ∧
      h''.pagesAlloc = h.pagesAlloc := by
  have hinv := HeapInv.of_reachable hr
  have hocc : Occupied h live := Occupied.of_reachable hr
  obtain ⟨h₁, r, hrun₁, hr₁⟩ := hinv.slobAlloc hreq halign node hgrant
  rw [hrun, Option.some.injEq, Prod.mk.injEq] at hrun₁
  obtain ⟨rfl, rfl⟩ := hrun₁
  obtain ⟨pid', b', hpb, -, hinv', -⟩ := hr₁.resolve_left fun hnone => by cases hnone.1
  simp only [Option.some.injEq, Prod.mk.injEq] at hpb
  obtain ⟨rfl, rfl⟩ := hpb
  have hlive : (b, (c.SLOB_UNITS size : ℤ)) ∈
      Function.update live pid ((b, (c.SLOB_UNITS size : ℤ)) :: live pid) pid := by simp
  obtain ⟨h'', hfree, hinv''⟩ := hinv'.slobFree hlive
  -- the blocks live after the two calls are those live before
  have hback : Function.update (Function.update live pid ((b, (c.SLOB_UNITS size : ℤ)) :: live pid))
      pid ((Function.update live pid ((b, (c.SLOB_UNITS size : ℤ)) :: live pid) pid).erase
        (b, (c.SLOB_UNITS size : ℤ))) = live := by
    simp
  rw [hback] at hinv''
  -- a page is there after the two calls exactly when it was before: the block's page is one
  -- exactly when another block is live on it
  have hpages : ∀ q, (h''.pages q).isSome = (h.pages q).isSome := by
    intro q
    rw [Bool.eq_iff_iff, hinv'.slobFree_pages_isSome hlive hfree q, slobAlloc_pages_isSome hrun q]
    by_cases hq : q = pid
    · subst hq
      simp [hocc.isSome_iff hinv q]
    · simp [hq]
  refine ⟨h'', hfree, hpages, fun q sp sp'' hp hp'' => ?_,
    hinv''.mem_freeSlobSmall_iff hinv hpages fun q => .refl _, ?_⟩
  · exact hinv''.page_eq_of_live hinv hp'' hp (.refl _)
  · -- `pages_alloc` counts a new page up and back down
    rw [hinv'.slobFree_pagesAlloc hlive hfree, slobAlloc_pagesAlloc hgrant hrun, hpages pid]
    by_cases hp : (h.pages pid).isSome
    · rw [if_pos hp, if_pos hp]
    · rw [if_neg hp, if_neg hp, add_sub_cancel_right]

/-- With 4 KB pages, after `slob_alloc(2)` on the empty heap, `slob_alloc(2, align 8)` splits
off the head `(1, 3)` to align its block at `4`; `slob_free` of the block merges both back. -/
theorem slobFree_slobAlloc_aligned :
    ∃ s : SlobHeap × (ℕ → List (ℤ × ℤ)), ∃ h', SlobReachable Config.page4k s ∧
      Config.page4k.slobAlloc s.1 2 8 (-1) none = some (h', some (7, 4)) ∧
      (h'.pages 7).map Config.page4k.freeBlocks = some [(1, 3), (5, 2043)] ∧
      ∃ h'', Config.page4k.slobFree h' (some (7, 4)) 2 = some h'' ∧
        (∀ q, (h''.pages q).isSome = (s.1.pages q).isSome) ∧
        (∀ q sp sp'', s.1.pages q = some sp → h''.pages q = some sp'' →
          Config.page4k.freeBlocks sp'' = Config.page4k.freeBlocks sp ∧ sp''.units = sp.units ∧
            sp''.free = sp.free ∧ sp''.slobFree = sp.slobFree) ∧
        (∀ q, q ∈ h''.freeSlobSmall ↔ q ∈ s.1.freeSlobSmall) ∧
        h''.pagesAlloc = s.1.pagesAlloc := by
  obtain ⟨s, hs⟩ : ∃ s, Config.page4k.runCalls (SlobHeap.empty, fun _ => [])
      [.alloc 2 0 (-1) (some (7, 0))] = some s :=
    Option.isSome_iff_exists.1 (by decide)
  obtain ⟨⟨h', r⟩, hrun⟩ := Option.isSome_iff_exists.1 (runCalls_read hs
    (fun s => (Config.page4k.slobAlloc s.1 2 8 (-1) none).isSome) (b := true) (by decide))
  have hr := runCalls_read hs (fun s => (Config.page4k.slobAlloc s.1 2 8 (-1) none).map Prod.snd)
    (b := some (some (7, 4))) (by decide)
  have hfb := runCalls_read hs (fun s => (Config.page4k.slobAlloc s.1 2 8 (-1) none).map
    fun p => (p.1.pages 7).map Config.page4k.freeBlocks) (b := some (some [(1, 3), (5, 2043)]))
    (by decide)
  simp only [hrun, Option.map_some, Option.some.injEq] at hr hfb
  subst hr
  have hreach := runCalls_reachable .refl hs
  exact ⟨s, h', hreach, hrun, hfb, slobFree_slobAlloc hreach ⟨by decide, by decide⟩
    (.inr ⟨⟨3, rfl⟩, by decide⟩) (fun _ _ h => by cases h) hrun⟩

end SlobLook.Slob
