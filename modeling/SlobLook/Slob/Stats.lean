import SlobLook.Slob.Run

/-!
# What the two system calls report

`sys_get_slob_amt_claimed` returns `pages_alloc * PAGE_SIZE`, and `sys_get_slob_amt_free` adds
`UNSLOB_UNITS(sp->units)` over the pages of the three free lists, both in `unsigned int`.  The
lists hold the partially free pages, and a page's `units` are the units of its free blocks
(`HeapInv.listedUnits_eq`), so `SLOB_UNIT` times their sum is the number of free bytes of the
heap.

`UNSLOB_UNITS(u) = SLOB_UNIT * (u - SLOB_UNIT + 1)` is not `SLOB_UNIT * u`.  On a well-formed heap
the free bytes are reported short by `SLOB_UNIT * (SLOB_UNIT - 1)` for every page of
`free_slob_small` (`HeapInv.sysGetSlobAmtFree_eq`): 2 bytes a page with a 16-bit `slobidx_t`,
12 with a 32-bit one.  In the units the free chains hold, that is what it reports in every
reachable heap (`sysGetSlobAmtFree_reports`).  The report is wrong whenever a page is partially free
(`HeapInv.sysGetSlobAmtFree_ne`), from the first `slob_alloc` on
(`sysGetSlobAmtFree_one_alloc`).
-/

namespace SlobLook.Slob

namespace Config

variable (c : Config)

/-- `list_for_each_entry(sp, slob_list, list) free_bytes += UNSLOB_UNITS(sp->units);`.  The
entries of the lists are slob pages; a frame with no page adds nothing. -/
def addUnslobUnits (h : SlobHeap) (freeBytes : UInt32) : List ℕ → UInt32
  | [] => freeBytes
  | pid :: rest =>
    let freeBytes := match h.pages pid with
      | some sp => freeBytes + UInt32.ofInt (c.UNSLOB_UNITS sp.units)
      | none => freeBytes
    addUnslobUnits h freeBytes rest

/-- `sys_get_slob_amt_free()`. -/
def sysGetSlobAmtFree (h : SlobHeap) : UInt32 :=
  let freeBytes := c.addUnslobUnits h 0 h.freeSlobSmall
  let freeBytes := c.addUnslobUnits h freeBytes h.freeSlobMedium
  c.addUnslobUnits h freeBytes h.freeSlobLarge

/-- `sys_get_slob_amt_claimed()`: `pages_alloc * (unsigned int)PAGE_SIZE`. -/
def sysGetSlobAmtClaimed (h : SlobHeap) : UInt32 := h.pagesAlloc * UInt32.ofNat c.PAGE_SIZE

/-- `UNSLOB_UNITS(sp->units)` of the page `pid`, as an integer; zero for a frame with no page. -/
def unslobOf (h : SlobHeap) (pid : ℕ) : ℤ := ((h.pages pid).map fun sp => c.UNSLOB_UNITS sp.units).getD 0

end Config

/-- `sp->units` of the page `pid`; zero for a frame with no page. -/
def SlobHeap.unitsOf (h : SlobHeap) (pid : ℕ) : ℤ := ((h.pages pid).map SlobPage.units).getD 0

/-- The units of the pages of the three free lists. -/
def SlobHeap.listedUnits (h : SlobHeap) : ℤ :=
  ((h.freeSlobSmall ++ h.freeSlobMedium ++ h.freeSlobLarge).map h.unitsOf).sum

/-- The units of the free blocks of the pages of `free_slob_small`, as their chains read. -/
def Config.freeUnits (c : Config) (h : SlobHeap) : ℤ :=
  (h.freeSlobSmall.map fun pid => ((h.pages pid).map fun sp => ((c.freeBlocks sp).map Prod.snd).sum).getD 0).sum

@[simp] theorem uInt32_ofInt_zero : UInt32.ofInt 0 = 0 := rfl

theorem emod_eq_of_uInt32_ofInt_eq {a b : ℤ} (h : UInt32.ofInt a = UInt32.ofInt b) :
    a % 2 ^ 32 = b % 2 ^ 32 := by
  have h' := congrArg UInt32.toNat h
  simp only [UInt32.ofInt, UInt32.toNat_ofNat'] at h'
  omega

/-- Taking a positive `d` below `2 ^ 32` off changes the residue. -/
theorem emod_sub_ne {x d : ℤ} (hd : 0 < d) (hdM : d < 2 ^ 32) : (x - d) % 2 ^ 32 ≠ x % 2 ^ 32 := by
  intro hmod
  have hdvd : (2 ^ 32 : ℤ) ∣ d := by
    simpa using Int.ModEq.dvd hmod
  have := Int.le_of_dvd hd hdvd
  omega

namespace Config

variable {c : Config} {h : SlobHeap}

/-- The loop adds, in `unsigned int`, the integer sum of what it adds. -/
theorem addUnslobUnits_eq (freeBytes : UInt32) (l : List ℕ) :
    c.addUnslobUnits h freeBytes l = freeBytes + UInt32.ofInt (l.map (c.unslobOf h)).sum := by
  induction l generalizing freeBytes with
  | nil => simp [addUnslobUnits]
  | cons pid rest ih =>
    simp only [addUnslobUnits, ih, List.map_cons, List.sum_cons, UInt32.ofInt_add, unslobOf]
    cases h.pages pid <;> simp [add_assoc]

/-- Over pages that exist, `UNSLOB_UNITS` adds up to `SLOB_UNIT` times the units, less
`SLOB_UNIT * (SLOB_UNIT - 1)` a page. -/
theorem sum_unslobOf {l : List ℕ} (hl : ∀ pid ∈ l, (h.pages pid).isSome) :
    (l.map (c.unslobOf h)).sum =
      c.SLOB_UNIT * (l.map h.unitsOf).sum - c.SLOB_UNIT * (c.SLOB_UNIT - 1) * l.length := by
  induction l with
  | nil => simp
  | cons pid rest ih =>
    obtain ⟨sp, hsp⟩ := Option.isSome_iff_exists.1 (hl pid (by simp))
    rw [List.map_cons, List.sum_cons, ih fun q hq => hl q (by simp [hq]), List.map_cons,
      List.sum_cons, List.length_cons]
    simp only [unslobOf, SlobHeap.unitsOf, hsp, Option.map_some, Option.getD_some, UNSLOB_UNITS]
    push_cast
    ring

end Config

namespace HeapInv

variable {c : Config} {h : SlobHeap} {live : ℕ → List (ℤ × ℤ)}

/-- **The pages on the free lists have as many units as their free blocks.** -/
theorem listedUnits_eq (hinv : HeapInv c h live) : h.listedUnits = c.freeUnits h := by
  unfold SlobHeap.listedUnits Config.freeUnits
  rw [hinv.medium, hinv.large, List.append_nil, List.append_nil]
  congr 1
  refine List.map_congr_left fun pid hpid => ?_
  obtain ⟨sp, hsp, -⟩ := hinv.mem_freeSlobSmall hpid
  simp [SlobHeap.unitsOf, hsp, (hinv.page pid sp hsp).units]

/-- **What `sys_get_slob_amt_free` returns** on a well-formed heap: `SLOB_UNIT` times the units
of the listed pages, less `SLOB_UNIT * (SLOB_UNIT - 1)` for each page of `free_slob_small`,
modulo `2 ^ 32`. -/
theorem sysGetSlobAmtFree_eq (hinv : HeapInv c h live) :
    c.sysGetSlobAmtFree h = UInt32.ofInt (c.SLOB_UNIT * h.listedUnits -
      c.SLOB_UNIT * (c.SLOB_UNIT - 1) * h.freeSlobSmall.length) := by
  have hsome : ∀ pid ∈ h.freeSlobSmall, (h.pages pid).isSome := fun pid hpid => by
    obtain ⟨sp, hsp, -⟩ := hinv.mem_freeSlobSmall hpid
    simp [hsp]
  unfold Config.sysGetSlobAmtFree SlobHeap.listedUnits
  rw [hinv.medium, hinv.large, List.append_nil, List.append_nil]
  simp only [Config.addUnslobUnits, Config.addUnslobUnits_eq, zero_add]
  rw [Config.sum_unslobOf hsome]

/-- **`sys_get_slob_amt_free` misreports the free bytes whenever a page is partially free**
(and fewer than `2 ^ 28` are, so that the shortfall does not wrap to zero). -/
theorem sysGetSlobAmtFree_ne (hinv : HeapInv c h live) (hne : h.freeSlobSmall ≠ [])
    (hlen : h.freeSlobSmall.length < 2 ^ 28) :
    c.sysGetSlobAmtFree h ≠ UInt32.ofInt (c.SLOB_UNIT * h.listedUnits) := by
  rw [hinv.sysGetSlobAmtFree_eq]
  intro heq
  have hpos : 0 < h.freeSlobSmall.length := List.length_pos_iff.2 hne
  -- the shortfall is `2 n` or `12 n`, strictly between `0` and `2 ^ 32`
  have hU : (c.SLOB_UNIT : ℤ) = 2 ∨ (c.SLOB_UNIT : ℤ) = 4 := by
    rw [c.SLOB_UNIT_eq]
    split_ifs <;> simp
  refine emod_sub_ne ?_ ?_ (emod_eq_of_uInt32_ofInt_eq heq) <;>
    rcases hU with hU | hU <;> rw [hU] <;> omega

end HeapInv

/-- **What `sys_get_slob_amt_free` reports.**  In every heap that runs of `slob_alloc` and
`slob_free` reach, it is `SLOB_UNIT` times the units of the free blocks of the partially free
pages, as their chains read, less `SLOB_UNIT * (SLOB_UNIT - 1)` for each such page, modulo
`2 ^ 32`. -/
theorem sysGetSlobAmtFree_reports {c : Config} {h : SlobHeap} {live : ℕ → List (ℤ × ℤ)}
    (hr : SlobReachable c (h, live)) :
    c.sysGetSlobAmtFree h = UInt32.ofInt (c.SLOB_UNIT * c.freeUnits h -
      c.SLOB_UNIT * (c.SLOB_UNIT - 1) * h.freeSlobSmall.length) := by
  have hinv := HeapInv.of_reachable hr
  rw [hinv.sysGetSlobAmtFree_eq, hinv.listedUnits_eq]

/-- Two `slob_alloc(4000)` calls on the empty heap with 4 KB pages, the second on a new page 8:
two pages with 48 free units each, reported as `2 * 96 - 2 * 2 = 188` bytes. -/
theorem sysGetSlobAmtFree_reports_two_pages :
    ∃ s, SlobReachable Config.page4k s ∧ s.1.freeSlobSmall.length = 2 ∧
      Config.page4k.freeUnits s.1 = 96 ∧
      Config.page4k.sysGetSlobAmtFree s.1 = UInt32.ofInt (Config.page4k.SLOB_UNIT *
        Config.page4k.freeUnits s.1 - Config.page4k.SLOB_UNIT * (Config.page4k.SLOB_UNIT - 1) *
          s.1.freeSlobSmall.length) := by
  obtain ⟨s, hs⟩ : ∃ s, Config.page4k.runCalls (SlobHeap.empty, fun _ => [])
      [.alloc 4000 0 (-1) (some (7, 0)), .alloc 4000 0 (-1) (some (8, 0))] = some s :=
    Option.isSome_iff_exists.1 (by decide)
  have hr := runCalls_reachable .refl hs
  exact ⟨s, hr, runCalls_read hs (fun s => s.1.freeSlobSmall.length) (b := 2) (by decide),
    runCalls_read hs (fun s => Config.page4k.freeUnits s.1) (b := 96) (by decide),
    sysGetSlobAmtFree_reports hr⟩

/-- **After one `slob_alloc(2)` on the empty heap with 4 KB pages, `sys_get_slob_amt_free`
reports 4092 bytes free**, where the page has 2047 free units, 4094 bytes. -/
theorem sysGetSlobAmtFree_one_alloc :
    ∃ s, SlobReachable Config.page4k s ∧ s.1.freeSlobSmall = [7] ∧
      Config.page4k.freeUnits s.1 = 2047 ∧ Config.page4k.sysGetSlobAmtFree s.1 = 4092 ∧
      UInt32.ofInt (Config.page4k.SLOB_UNIT * s.1.listedUnits) = 4094 := by
  obtain ⟨s, hs⟩ : ∃ s, Config.page4k.runCalls (SlobHeap.empty, fun _ => [])
      [.alloc 2 0 (-1) (some (7, 0))] = some s := Option.isSome_iff_exists.1 (by decide)
  have h₁ := runCalls_read hs (fun s => s.1.freeSlobSmall) (b := [7]) (by decide)
  have h₂ := runCalls_read hs (fun s => Config.page4k.freeUnits s.1) (b := 2047) (by decide)
  have h₃ := runCalls_read hs (fun s => Config.page4k.sysGetSlobAmtFree s.1) (b := 4092)
    (by decide +kernel)
  have h₄ := runCalls_read hs (fun s => UInt32.ofInt (Config.page4k.SLOB_UNIT * s.1.listedUnits))
    (b := 4094) (by decide +kernel)
  exact ⟨s, runCalls_reachable .refl hs, h₁, h₂, h₃, h₄⟩

end SlobLook.Slob
