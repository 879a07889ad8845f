import Mathlib

/-!
# The configuration SLOB is built for

`mm/slob.c` depends on the build through `PAGE_SIZE` and `CONFIG_NUMA`.  `PAGE_SHIFT` runs from
`12` to `18` across the architectures of this tree (MIPS offers `15`, pages of 32 KB).
`PAGE_SIZE` fixes `slobidx_t`, the type of block sizes and offsets: `s16` when
`PAGE_SIZE <= 32767 * 2`, `s32` above, and with it `SLOB_UNIT = sizeof(slob_t)`, 2 or 4 bytes.

A page holds `pageUnits = SLOB_UNITS(PAGE_SIZE)` units, at most 65536, so every size and
offset the allocator stores fits its `slobidx_t` (`toSlobidx_eq`), with one exception: the
initial `best.block_size = PAGE_SIZE + 1` of `slob_alloc`, which wraps to `-32767` for 32 KB
pages (`toSlobidx_sentinel`).
-/

namespace SlobLook.Slob

/-- The build: `PAGE_SHIFT`, and whether `CONFIG_NUMA` is set. -/
structure Config where
  pageShift : ℕ
  pageShift_ge : 12 ≤ pageShift
  pageShift_le : pageShift ≤ 18
  numa : Bool

namespace Config

variable (c : Config)

/-- `PAGE_SIZE`, in bytes. -/
def PAGE_SIZE : ℕ := 2 ^ c.pageShift

/-- The width of `slobidx_t`: `s16` when `PAGE_SIZE <= 32767 * 2`, else `s32`. -/
def slobidxBits : ℕ := if c.PAGE_SIZE ≤ 32767 * 2 then 16 else 32

/-- The value an `int` takes when stored in a `slobidx_t`: two's complement wrap to its width. -/
def toSlobidx (x : ℤ) : ℤ := x.bmod (2 ^ c.slobidxBits)

/-- `SLOB_UNIT`, that is `sizeof(slob_t)`. -/
def SLOB_UNIT : ℕ := c.slobidxBits / 8

/-- `SLOB_UNITS(size)`: the units a block of `size` bytes takes. -/
def SLOB_UNITS (size : ℕ) : ℕ := (size + c.SLOB_UNIT - 1) / c.SLOB_UNIT

/-- `UNSLOB_UNITS(size)`, as the macro is written: `SLOB_UNIT*((size) - SLOB_UNIT + 1)`. -/
def UNSLOB_UNITS (size : ℤ) : ℤ := c.SLOB_UNIT * (size - c.SLOB_UNIT + 1)

/-- `SLOB_UNITS(PAGE_SIZE)`: the units of a page. -/
def pageUnits : ℕ := c.SLOB_UNITS c.PAGE_SIZE

/-! ## The sizes of each configuration -/

theorem slobidxBits_eq : c.slobidxBits = if c.pageShift ≤ 15 then 16 else 32 := by
  have h1 := c.pageShift_ge
  have h2 := c.pageShift_le
  unfold slobidxBits PAGE_SIZE
  -- `2 ^ 15 ≤ 65534 < 2 ^ 16`
  by_cases h : c.pageShift ≤ 15
  · rw [if_pos h, if_pos (le_trans (Nat.pow_le_pow_right (by norm_num) h) (by norm_num))]
  · rw [if_neg h, if_neg (not_le.2 (lt_of_lt_of_le (by norm_num)
      (Nat.pow_le_pow_right (by norm_num) (show 16 ≤ c.pageShift by omega))))]

theorem SLOB_UNIT_eq : c.SLOB_UNIT = if c.pageShift ≤ 15 then 2 else 4 := by
  unfold SLOB_UNIT
  rw [slobidxBits_eq]
  split_ifs <;> rfl

theorem SLOB_UNIT_pos : 0 < c.SLOB_UNIT := by
  rw [SLOB_UNIT_eq]
  split_ifs <;> norm_num

/-- A page is a whole number of units. -/
theorem pageUnits_mul : c.pageUnits * c.SLOB_UNIT = c.PAGE_SIZE := by
  have h1 := c.pageShift_ge
  have hdvd : c.SLOB_UNIT ∣ c.PAGE_SIZE := by
    rw [SLOB_UNIT_eq, PAGE_SIZE]
    split_ifs
    · exact ⟨2 ^ (c.pageShift - 1), by rw [← pow_succ']; congr 1; omega⟩
    · exact ⟨2 ^ (c.pageShift - 2), by
        rw [show (4 : ℕ) = 2 ^ 2 by norm_num, ← pow_add]; congr 1; omega⟩
  unfold pageUnits SLOB_UNITS
  have hpos := c.SLOB_UNIT_pos
  rw [Nat.add_sub_assoc (by omega), Nat.add_div_of_dvd_right hdvd,
    Nat.div_eq_of_lt (show c.SLOB_UNIT - 1 < c.SLOB_UNIT by omega), add_zero,
    Nat.div_mul_cancel hdvd]

theorem pageUnits_pos : 0 < c.pageUnits := by
  have hm := c.pageUnits_mul
  have hP : 0 < c.PAGE_SIZE := Nat.two_pow_pos _
  rcases Nat.eq_zero_or_pos c.pageUnits with h0 | h0
  · rw [h0, zero_mul] at hm
    omega
  · exact h0

theorem pageUnits_le_PAGE_SIZE : c.pageUnits ≤ c.PAGE_SIZE := by
  rw [← c.pageUnits_mul]
  exact Nat.le_mul_of_pos_right _ c.SLOB_UNIT_pos

theorem pageUnits_eq : c.pageUnits = if c.pageShift ≤ 15 then 2 ^ (c.pageShift - 1)
    else 2 ^ (c.pageShift - 2) := by
  have h1 := c.pageShift_ge
  have hm := c.pageUnits_mul
  rw [SLOB_UNIT_eq, PAGE_SIZE] at hm
  split_ifs at hm ⊢
  · apply Nat.eq_of_mul_eq_mul_right (show 0 < 2 by norm_num)
    rw [hm, ← pow_succ]
    congr 1
    omega
  · apply Nat.eq_of_mul_eq_mul_right (show 0 < 4 by norm_num)
    rw [hm, show (4 : ℕ) = 2 ^ 2 by norm_num, ← pow_add]
    congr 1
    omega

/-- A page has at most a quarter of the range of its `slobidx_t` in units. -/
theorem pageUnits_le : c.pageUnits ≤ 2 ^ (c.slobidxBits - 2) := by
  have hs2 := c.pageShift_le
  rw [pageUnits_eq, slobidxBits_eq]
  split_ifs <;> exact Nat.pow_le_pow_right (by norm_num) (by omega)

/-- Every size and offset within a page fits in a `slobidx_t`. -/
theorem toSlobidx_eq {x : ℤ} (h1 : -(c.pageUnits : ℤ) ≤ x) (h2 : x ≤ c.pageUnits) :
    c.toSlobidx x = x := by
  have hb := c.pageUnits_le
  obtain ⟨k, hk⟩ : ∃ k, c.slobidxBits = k + 2 := ⟨c.slobidxBits - 2, by
    rw [slobidxBits_eq]; split_ifs <;> rfl⟩
  unfold toSlobidx
  rw [hk, Nat.add_sub_cancel] at hb
  rw [hk, pow_succ, pow_succ]
  have hm : 0 < 2 ^ k := Nat.two_pow_pos k
  generalize 2 ^ k = m at *
  apply Int.bmod_eq_of_le <;> push_cast <;> omega

/-- **The sentinel `PAGE_SIZE + 1`** fits its `slobidx_t` except for 32 KB pages, where it
wraps to `-32767`. -/
theorem toSlobidx_sentinel :
    c.toSlobidx (c.PAGE_SIZE + 1) =
      if c.pageShift = 15 then (-32767 : ℤ) else (c.PAGE_SIZE : ℤ) + 1 := by
  have hs1 := c.pageShift_ge
  have hs2 := c.pageShift_le
  unfold toSlobidx
  rw [slobidxBits_eq]
  by_cases h15 : c.pageShift = 15
  · rw [if_pos h15, if_pos (by omega), PAGE_SIZE, h15]
    decide
  · rw [if_neg h15]
    have hp : c.PAGE_SIZE ≤ 2 ^ c.pageShift := le_rfl
    split_ifs with h
    · have : c.PAGE_SIZE ≤ 2 ^ 14 := hp.trans (Nat.pow_le_pow_right (by norm_num) (by omega))
      apply Int.bmod_eq_of_le <;> norm_num <;> omega
    · have : c.PAGE_SIZE ≤ 2 ^ 18 := hp.trans (Nat.pow_le_pow_right (by norm_num) hs2)
      apply Int.bmod_eq_of_le <;> norm_num <;> omega

/-! ## `SLOB_UNITS` rounds up to whole units -/

theorem le_SLOB_UNITS_mul (size : ℕ) : size ≤ c.SLOB_UNITS size * c.SLOB_UNIT := by
  have hU := c.SLOB_UNIT_pos
  have hdiv := Nat.div_add_mod (size + c.SLOB_UNIT - 1) c.SLOB_UNIT
  have hmod := Nat.mod_lt (size + c.SLOB_UNIT - 1) hU
  rw [mul_comm] at hdiv
  unfold SLOB_UNITS
  omega

theorem SLOB_UNITS_pos {size : ℕ} (h : 0 < size) : 0 < c.SLOB_UNITS size := by
  have hle := c.le_SLOB_UNITS_mul size
  rcases Nat.eq_zero_or_pos (c.SLOB_UNITS size) with h0 | h0
  · rw [h0, zero_mul] at hle
    omega
  · exact h0

theorem SLOB_UNITS_mono {a b : ℕ} (h : a ≤ b) : c.SLOB_UNITS a ≤ c.SLOB_UNITS b :=
  Nat.div_le_div_right (by omega)

/-- A whole number of units added to a size adds as many units. -/
theorem SLOB_UNITS_add_of_dvd (size : ℕ) {a : ℕ} (ha : c.SLOB_UNIT ∣ a) :
    c.SLOB_UNITS (size + a) = c.SLOB_UNITS size + a / c.SLOB_UNIT := by
  have hU := c.SLOB_UNIT_pos
  unfold SLOB_UNITS
  rw [show size + a + c.SLOB_UNIT - 1 = size + c.SLOB_UNIT - 1 + a by omega,
    Nat.add_div_of_dvd_left ha]

/-- Otherwise a byte and `a` take less room, in whole units, than a unit and `a`. -/
theorem SLOB_UNITS_one_add_mul_lt {a : ℕ} (ha : ¬ c.SLOB_UNIT ∣ a) :
    c.SLOB_UNITS (1 + a) * c.SLOB_UNIT < a + c.SLOB_UNIT := by
  have hU := c.SLOB_UNIT_pos
  have hmod : 0 < a % c.SLOB_UNIT := Nat.pos_of_ne_zero fun h => ha (Nat.dvd_of_mod_eq_zero h)
  have hdiv := Nat.div_add_mod a c.SLOB_UNIT
  unfold SLOB_UNITS
  rw [show 1 + a + c.SLOB_UNIT - 1 = a + c.SLOB_UNIT by omega, Nat.add_div_right _ hU, add_mul,
    one_mul, mul_comm]
  omega

/-- 4 KB pages (`PAGE_SHIFT` 12, as on x86), without `CONFIG_NUMA`. -/
def page4k : Config := ⟨12, le_rfl, by norm_num, false⟩

/-- 8 KB pages (`PAGE_SHIFT` 13, as on CRIS), without `CONFIG_NUMA`. -/
def page8k : Config := ⟨13, by norm_num, by norm_num, false⟩

/-- 32 KB pages (`PAGE_SHIFT` 15, one of the page sizes of MIPS), without `CONFIG_NUMA`. -/
def page32k : Config := ⟨15, by norm_num, by norm_num, false⟩

/-- 4 KB pages with `CONFIG_NUMA`. -/
def page4kNuma : Config := ⟨12, le_rfl, by norm_num, true⟩

end Config

/-- The value of an `int` converted to `unsigned long`, as in a comparison with a `size_t`. -/
def toULong (x : ℤ) : ℕ := (x % 2 ^ 64).toNat

/-- `ALIGN(x, a)` of `include/linux/kernel.h`, `((x) + (a - 1)) & ~(a - 1)`, for a power of two
`a`: the mask clears the residue of `x + (a - 1)` modulo `a`. -/
def ALIGN (x : ℤ) (a : ℕ) : ℤ := x + (a - 1) - (x + (a - 1)) % a

end SlobLook.Slob
