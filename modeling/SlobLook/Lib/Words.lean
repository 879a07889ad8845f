import Mathlib

/-!
# Words in a memory of digit cells

A memory maps addresses to cells, each of which holds one digit in some base (`Digits`): a byte,
or a signed machine integer read as the unsigned number its bits spell.  A `w`-cell word is kept
least significant digit first (`store`) and read back so (`load`).

A word reads back what was stored when it fits (`load_store`).  A store changes only the cells of
its word (`store_apply`), a load reads only them (`load_congr`), and a write that changes the
digit of one of them changes the word (`load_update_ne`).
-/

namespace Words

/-- Cells of type `α` that hold a digit in base `base`: `enc v` is the cell holding `v % base`,
and `dec` reads the digit of a cell. -/
structure Digits (α : Type*) where
  base : ℕ
  enc : ℕ → α
  dec : α → ℕ
  dec_enc : ∀ v, dec (enc v) = v % base
  dec_lt : ∀ x, dec x < base

variable {α : Type*} (D : Digits α)

/-- The `w`-cell word at `a`, least significant digit first. -/
def load : ℕ → (ℤ → α) → ℤ → ℕ
  | 0, _, _ => 0
  | w + 1, mem, a => D.dec (mem a) + D.base * load w mem (a + 1)

/-- `v` stored as the `w`-cell word at `a`, least significant digit first; what does not fit is
dropped. -/
def store : ℕ → (ℤ → α) → ℤ → ℕ → (ℤ → α)
  | 0, mem, _, _ => mem
  | w + 1, mem, a, v => store w (Function.update mem a (D.enc v)) (a + 1) (v / D.base)

variable {D} {mem mem' : ℤ → α}

/-- A store changes only the cells of its word. -/
theorem store_apply (w : ℕ) (a : ℤ) (v : ℕ) {x : ℤ} (hx : x < a ∨ a + w ≤ x) :
    store D w mem a v x = mem x := by
  induction w generalizing mem a v with
  | zero => rfl
  | succ w ih =>
    rw [store, ih (a + 1) (v / D.base) (by push_cast at hx; omega), Function.update_apply,
      if_neg (by push_cast at hx; omega)]

/-- A load reads only the cells of its word. -/
theorem load_congr (w : ℕ) (a : ℤ) (hagree : ∀ x, a ≤ x → x < a + w → mem' x = mem x) :
    load D w mem' a = load D w mem a := by
  induction w generalizing a with
  | zero => rfl
  | succ w ih =>
    rw [load, load, hagree a le_rfl (by omega), ih (a + 1) fun x hx hx' => hagree x (by omega)
      (by omega)]

/-- **A word reads back what was stored**, when it fits. -/
theorem load_store (w : ℕ) (a : ℤ) {v : ℕ} (hv : v < D.base ^ w) :
    load D w (store D w mem a v) a = v := by
  induction w generalizing mem a v with
  | zero =>
    rw [pow_zero, Nat.lt_one_iff] at hv
    subst hv
    rfl
  | succ w ih =>
    have hdiv : v / D.base < D.base ^ w := Nat.div_lt_of_lt_mul (by rwa [← pow_succ'])
    -- the first cell holds the residue, the rest the quotient
    have hfirst : store D w (Function.update mem a (D.enc v)) (a + 1) (v / D.base) a = D.enc v := by
      rw [store_apply w (a + 1) _ (by omega), Function.update_self]
    rw [store, load, hfirst, ih (a + 1) hdiv, D.dec_enc, Nat.mod_add_div]

/-- **A write that changes the digit of a cell of a word changes the word.** -/
theorem load_update_ne (w : ℕ) (a : ℤ) {x : ℤ} (hx : a ≤ x) (hx' : x < a + w) {v : α}
    (hv : D.dec v ≠ D.dec (mem x)) : load D w (Function.update mem x v) a ≠ load D w mem a := by
  induction w generalizing a with
  | zero => omega
  | succ w ih =>
    rw [load, load]
    by_cases hxa : x = a
    · -- the first digit differs and the rest agree
      subst hxa
      have hrest : load D w (Function.update mem x v) (x + 1) = load D w mem (x + 1) :=
        load_congr w (x + 1) fun y hy _ => by rw [Function.update_apply, if_neg (by omega)]
      rw [Function.update_self, hrest]
      omega
    · -- the first digit agrees and the rest differ
      have hne := ih (a + 1) (by omega) (by omega)
      have hbase : 0 < D.base := lt_of_le_of_lt (Nat.zero_le _) (D.dec_lt v)
      rw [Function.update_apply, if_neg (Ne.symm hxa)]
      intro heq
      exact hne (Nat.eq_of_mul_eq_mul_left hbase (by omega))

end Words
