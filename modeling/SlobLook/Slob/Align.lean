import SlobLook.Slob.Alloc

/-!
# Alignment

`slob_alloc` and `slob_page_alloc` align the block they hand out with `ALIGN`, on the address of
the block: the page frame times `PAGE_SIZE` plus the offset in bytes.  For the alignments the
callers pass (none, or a power of two up to a page: `ARCH_KMALLOC_MINALIGN`, `SLOB_ALIGN`, a
cache's `align`) the head fragment `delta` is a whole number of units, zero at the start of a
page, and the block after it is aligned.
-/

namespace SlobLook.Slob

/-- `ALIGN` rounds up to a multiple of the alignment. -/
theorem ALIGN_sub_nonneg (x : ℤ) {a : ℕ} (ha : 0 < a) : 0 ≤ ALIGN x a - x := by
  have := Int.emod_lt_of_pos (x + (a - 1)) (by exact_mod_cast ha : (0 : ℤ) < a)
  unfold ALIGN
  omega

theorem ALIGN_dvd (x : ℤ) (a : ℕ) : (a : ℤ) ∣ ALIGN x a := by
  unfold ALIGN
  rw [Int.emod_def]
  exact ⟨(x + (a - 1)) / a, by ring⟩

theorem ALIGN_of_dvd {x : ℤ} {a : ℕ} (ha : 0 < a) (hx : (a : ℤ) ∣ x) : ALIGN x a = x := by
  have ha' : (0 : ℤ) < a := by exact_mod_cast ha
  have hmod : (x + (a - 1)) % a = a - 1 := by
    rw [Int.add_emod, Int.emod_eq_zero_of_dvd hx, zero_add, Int.emod_emod_of_dvd _ dvd_rfl,
      Int.emod_eq_of_lt (by omega) (by omega)]
  unfold ALIGN
  omega

namespace Config

variable (c : Config)

/-- The alignments the callers of `slob_alloc` pass: none, or a power of two no larger than a
page. -/
def AlignOk (align : ℕ) : Prop := align = 0 ∨ (∃ j, align = 2 ^ j) ∧ align ≤ c.PAGE_SIZE

variable {c}

theorem AlignOk.dvd {align : ℕ} (h : c.AlignOk align) (h0 : align ≠ 0) : align ∣ c.PAGE_SIZE := by
  rcases h with h | ⟨⟨j, rfl⟩, hle⟩
  · exact absurd h h0
  · have hj : j ≤ c.pageShift := (Nat.pow_le_pow_iff_right (by norm_num)).1 hle
    exact Nat.pow_dvd_pow 2 hj

variable (c)

theorem SLOB_UNIT_dvd : c.SLOB_UNIT ∣ c.PAGE_SIZE := ⟨c.pageUnits, by rw [mul_comm, c.pageUnits_mul]⟩

theorem SLOB_UNIT_pow : ∃ i, c.SLOB_UNIT = 2 ^ i := by
  rw [SLOB_UNIT_eq]
  split_ifs
  · exact ⟨1, rfl⟩
  · exact ⟨2, rfl⟩

variable {c}

theorem alignDelta_nonneg (pid align : ℕ) (cur : ℤ) : 0 ≤ c.alignDelta pid align cur := by
  unfold alignDelta
  split_ifs with h0
  · exact Int.ediv_nonneg (ALIGN_sub_nonneg _ (Nat.pos_of_ne_zero h0))
      (by exact_mod_cast c.SLOB_UNIT_pos.le)
  · exact le_rfl

@[simp] theorem alignDelta_zero (pid : ℕ) (cur : ℤ) : c.alignDelta pid 0 cur = 0 := by
  simp [alignDelta]

/-- The address of a page is aligned, so its first block needs no head fragment. -/
theorem alignDelta_start {align : ℕ} (h : c.AlignOk align) (pid : ℕ) :
    c.alignDelta pid align 0 = 0 := by
  unfold alignDelta
  split_ifs with h0
  · have hdvd : (align : ℤ) ∣ (pid * c.PAGE_SIZE : ℤ) + 0 * c.SLOB_UNIT := by
      rw [zero_mul, add_zero]
      exact Dvd.dvd.mul_left (by exact_mod_cast h.dvd h0) _
    simp only
    rw [ALIGN_of_dvd (Nat.pos_of_ne_zero h0) hdvd, sub_self, Int.zero_ediv]
  · rfl

/-- An alignment that divides `SLOB_UNIT` needs no head fragment: every block is aligned. -/
theorem alignDelta_of_dvd {align : ℕ} (h : align ∣ c.SLOB_UNIT) (pid : ℕ) (cur : ℤ) :
    c.alignDelta pid align cur = 0 := by
  unfold alignDelta
  split_ifs with h0
  · have hU : (align : ℤ) ∣ c.SLOB_UNIT := by exact_mod_cast h
    have hdvd : (align : ℤ) ∣ (pid * c.PAGE_SIZE : ℤ) + cur * c.SLOB_UNIT :=
      dvd_add (Dvd.dvd.mul_left (hU.trans (by exact_mod_cast c.SLOB_UNIT_dvd)) _)
        (Dvd.dvd.mul_left hU _)
    simp only
    rw [ALIGN_of_dvd (Nat.pos_of_ne_zero h0) hdvd, sub_self, Int.zero_ediv]
  · rfl

/-- **The block after the head fragment is aligned.** -/
theorem alignDelta_aligned {align : ℕ} (h : c.AlignOk align) (h0 : align ≠ 0) (pid : ℕ)
    (cur : ℤ) :
    ((pid * c.PAGE_SIZE : ℤ) + (cur + c.alignDelta pid align cur) * c.SLOB_UNIT) % align = 0 := by
  have hU : (0 : ℤ) < c.SLOB_UNIT := by exact_mod_cast c.SLOB_UNIT_pos
  set A : ℤ := pid * c.PAGE_SIZE + cur * c.SLOB_UNIT with hA
  -- the address is a whole number of units
  have hUA : (c.SLOB_UNIT : ℤ) ∣ A :=
    dvd_add (Dvd.dvd.mul_left (by exact_mod_cast c.SLOB_UNIT_dvd) _) (dvd_mul_left _ _)
  have hdelta : c.alignDelta pid align cur = (ALIGN A align - A) / c.SLOB_UNIT := by
    simp [alignDelta, h0, hA]
  -- the unit and the alignment are powers of two: one divides the other
  obtain ⟨i, hi⟩ := c.SLOB_UNIT_pow
  obtain ⟨j, hj⟩ : ∃ j, align = 2 ^ j := by
    rcases h with h | ⟨hj, -⟩
    · exact absurd h h0
    · exact hj
  rcases le_total j i with hji | hij
  · -- the alignment divides the unit: the address is aligned already
    have hdvd : (align : ℤ) ∣ A := (by exact_mod_cast (hj ▸ hi ▸ Nat.pow_dvd_pow 2 hji) :
      (align : ℤ) ∣ c.SLOB_UNIT).trans hUA
    rw [hdelta, ALIGN_of_dvd (Nat.pos_of_ne_zero h0) hdvd, sub_self, Int.zero_ediv, add_zero]
    exact Int.emod_eq_zero_of_dvd hdvd
  · -- the unit divides the alignment: the head fragment is a whole number of units
    have hUa : (c.SLOB_UNIT : ℤ) ∣ align := by exact_mod_cast (hj ▸ hi ▸ Nat.pow_dvd_pow 2 hij)
    have hdiff : (c.SLOB_UNIT : ℤ) ∣ ALIGN A align - A :=
      dvd_sub (hUa.trans (ALIGN_dvd A align)) hUA
    have hsum : (pid * c.PAGE_SIZE : ℤ) + (cur + c.alignDelta pid align cur) * c.SLOB_UNIT =
        ALIGN A align := by
      rw [hdelta, add_mul, Int.ediv_mul_cancel hdiff, hA]
      ring
    rw [hsum]
    exact Int.emod_eq_zero_of_dvd (ALIGN_dvd A align)

end Config

end SlobLook.Slob
