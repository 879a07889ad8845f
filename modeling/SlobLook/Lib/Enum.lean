import Mathlib

/-!
# Counting the entries of a partial map

A partial map `f : ℕ → Option α` with finitely many entries is enumerated by a duplicate-free
list of its keys (`Enumerates`).  All its enumerations have the same length, the number of its
entries (`Enumerates.length_eq`).  An entry added at a free key adds one to the count
(`Enumerates.insert`), an entry removed takes one away (`Enumerates.erase`), and a change that
keeps the keys keeps the count (`Enumerates.congr`).

A list whose keys are distinct is such a map too; replacing the entry with a given key is taking
it out and putting the new one in (`perm_map_replace`).
-/

namespace Enum

variable {α β : Type*} {f : ℕ → Option α} {g : ℕ → Option β} {l l' : List ℕ}

/-- The duplicate-free list `l` lists the keys of `f`. -/
structure Enumerates (f : ℕ → Option α) (l : List ℕ) : Prop where
  nodup : l.Nodup
  mem_iff : ∀ x, x ∈ l ↔ (f x).isSome

namespace Enumerates

theorem empty : Enumerates (fun _ => (none : Option α)) [] := ⟨List.nodup_nil, by simp⟩

/-- A map with the same keys has the same enumerations. -/
theorem congr (h : Enumerates f l) (hg : ∀ x, (g x).isSome = (f x).isSome) : Enumerates g l :=
  ⟨h.nodup, fun x => (h.mem_iff x).trans (by rw [hg])⟩

theorem perm (h : Enumerates f l) (h' : Enumerates f l') : l.Perm l' :=
  (List.perm_ext_iff_of_nodup h.nodup h'.nodup).2 fun x =>
    (h.mem_iff x).trans (h'.mem_iff x).symm

/-- **The count of entries does not depend on the enumeration.** -/
theorem length_eq (h : Enumerates f l) (h' : Enumerates f l') : l.length = l'.length :=
  (h.perm h').length_eq

/-- An entry at a free key `x`. -/
theorem insert (h : Enumerates f l) {x : ℕ} (hx : f x = none)
    (hg : ∀ y, (g y).isSome = (y == x || (f y).isSome)) : Enumerates g (x :: l) := by
  refine ⟨List.nodup_cons.2 ⟨fun hmem => ?_, h.nodup⟩, fun y => ?_⟩
  · simpa [hx] using (h.mem_iff x).1 hmem
  · rw [List.mem_cons, h.mem_iff, hg]
    simp

/-- The entry at the key `x` removed. -/
theorem erase (h : Enumerates f l) {x : ℕ}
    (hg : ∀ y, (g y).isSome = (y != x && (f y).isSome)) : Enumerates g (l.erase x) := by
  refine ⟨h.nodup.erase x, fun y => ?_⟩
  rw [h.nodup.mem_erase_iff, h.mem_iff, hg]
  simp

theorem length_erase (h : Enumerates f l) {x : ℕ} (hx : (f x).isSome) :
    (l.erase x).length + 1 = l.length :=
  List.length_erase_add_one ((h.mem_iff x).2 hx)

end Enumerates

/-! ## Lists with distinct keys -/

section Keyed

variable {γ κ : Type*} [DecidableEq γ] [DecidableEq κ] (key : γ → κ)

/-- In a list whose keys are distinct, putting `x` in place of the entry with its key takes
that entry out and `x` in. -/
theorem perm_map_replace {l : List γ} (hnd : (l.map key).Nodup) {a x : γ} (ha : a ∈ l)
    (hk : key a = key x) :
    (l.map fun r => if key r = key x then x else r).Perm (x :: l.erase a) := by
  induction l with
  | nil => cases ha
  | cons c l ih =>
    rw [List.map_cons, List.nodup_cons] at hnd
    by_cases hca : c = a
    · subst hca
      -- no later entry has `c`'s key, so only the head is replaced
      have hrest : (l.map fun r => if key r = key x then x else r) = l := by
        conv_rhs => rw [← List.map_id l]
        refine List.map_congr_left fun r hr => if_neg fun he => hnd.1 ?_
        rw [hk, ← he]
        exact List.mem_map_of_mem hr
      rw [List.map_cons, if_pos hk, hrest, List.erase_cons_head]
    · have ha' : a ∈ l := (List.mem_cons.1 ha).resolve_left (Ne.symm hca)
      have hck : key c ≠ key x := fun he => hnd.1 (by rw [he, ← hk]; exact List.mem_map_of_mem ha')
      rw [List.map_cons, if_neg hck, List.erase_cons_tail (by simpa using hca)]
      exact ((ih hnd.2 ha').cons c).trans (List.Perm.swap x c _)

end Keyed

end Enum
