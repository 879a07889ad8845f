import Mathlib

/-!
# Walking a linked list stored in memory

A linked list is kept in memory when each cell gives the position of the next (`next x`) and
tells whether it is the last one (`last x`).  Three loop shapes walk such a list:

* `foldWalk`: `for (prev = p, cur = x; ; prev = cur, cur = next(cur)) { … if (last(cur)) break; }`,
  a body run on every cell together with the cell before it;
* `findWalk`: the same loop left early by the first cell that passes a test;
* `whileWalk`: `prev = x; while (go(next(prev))) prev = next(prev);`, which stops before the
  first successor that `go` rejects and does not look at `last`.

`collect` lists the cells a walk visits.

The loops run on fuel and return `none` when it runs out.  `IsWalk next last x l` says that `l`
lists the cells a walk from `x` visits, and over such a list each loop computes a plain list
function: `foldWalk_eq`, `findWalk_eq` and `whileWalk_eq`, given fuel at least the length of
`l`.
-/

namespace LinkWalk

variable {α β γ : Type*} (next : α → α) (last : α → Bool)

/-- `l` lists the cells a walk from `x` visits: `x` first, each cell followed by its `next`, and
only the final one marked `last`. -/
def IsWalk : α → List α → Prop
  | _, [] => False
  | x, [y] => y = x ∧ last y = true
  | x, y :: z :: l => y = x ∧ last y = false ∧ IsWalk (next y) (z :: l)

variable {next last}

theorem IsWalk.head_eq {x y : α} {l : List α} (h : IsWalk next last x (y :: l)) : y = x := by
  cases l with
  | nil => exact h.1
  | cons z l => exact h.1

theorem IsWalk.tail {x y z : α} {l : List α} (h : IsWalk next last x (y :: z :: l)) :
    IsWalk next last (next y) (z :: l) :=
  h.2.2

/-- Along a walk each cell is followed by its `next`. -/
theorem IsWalk.next_eq {x y z : α} {l₁ l₂ : List α} (h : IsWalk next last x (l₁ ++ y :: z :: l₂)) :
    next y = z := by
  induction l₁ generalizing x with
  | nil => exact h.tail.head_eq.symm
  | cons w l₁ ih =>
    cases l₁ with
    | nil => exact ih h.tail
    | cons v l₁ => exact ih h.tail

/-- Fuel for a walk over a cell and the cells `l` after it is one step and fuel for `l`. -/
theorem fuel_succ {y : α} {l : List α} {n : ℕ} (hn : (y :: l).length ≤ n) :
    ∃ m, n = m + 1 ∧ l.length ≤ m := by
  rw [List.length_cons] at hn
  exact ⟨n - 1, by omega, by omega⟩

variable (next last)

/-- The cells a walk from `x` visits, up to the first one marked `last`, within `fuel` cells. -/
def collect : ℕ → α → List α
  | 0, _ => []
  | n + 1, x => x :: if last x then [] else collect n (next x)

variable {next last}

/-- A walk is what `collect` reads, given fuel for its length: the cells a walk visits are
determined by where it starts. -/
theorem IsWalk.collect_eq {x : α} {l : List α} (h : IsWalk next last x l) {n : ℕ}
    (hn : l.length ≤ n) : collect next last n x = l := by
  induction l generalizing x n with
  | nil => exact h.elim
  | cons y l ih =>
    obtain ⟨n, rfl, hlen⟩ := fuel_succ hn
    cases l with
    | nil =>
      obtain ⟨rfl, hlast⟩ := h
      simp [collect, hlast]
    | cons z l =>
      obtain ⟨rfl, hlast, hrest⟩ := h
      simp only [collect, hlast, Bool.false_eq_true, if_false]
      rw [ih hrest hlen]

variable (next last)

/-! ## Folding over every cell -/

/-- `step` folded over the cells `l`, each with the cell before it (`prev`, `none` before the
first cell when the walk starts without one). -/
def foldPrev (step : β → Option α → α → β) : β → Option α → List α → β
  | b, _, [] => b
  | b, prev, y :: l => foldPrev step (step b prev y) (some y) l

/-- The loop `for (prev = p, cur = x; ; prev = cur, cur = next(cur)) { b = step(b, prev, cur);
if (last(cur)) break; }`, for at most `fuel` iterations. -/
def foldWalk (step : β → Option α → α → β) : ℕ → β → Option α → α → Option β
  | 0, _, _, _ => none
  | n + 1, b, prev, x =>
    if last x then some (step b prev x) else foldWalk step n (step b prev x) (some x) (next x)

variable {next last}

/-- **The fold loop** over a walk computes `foldPrev`. -/
theorem foldWalk_eq (step : β → Option α → α → β) {x : α} {l : List α}
    (h : IsWalk next last x l) {n : ℕ} (hn : l.length ≤ n) (b : β) (prev : Option α) :
    foldWalk next last step n b prev x = some (foldPrev step b prev l) := by
  induction l generalizing x n b prev with
  | nil => exact h.elim
  | cons y l ih =>
    obtain ⟨n, rfl, hlen⟩ := fuel_succ hn
    cases l with
    | nil =>
      obtain ⟨rfl, hlast⟩ := h
      simp [foldWalk, hlast, foldPrev]
    | cons z l =>
      obtain ⟨rfl, hlast, hrest⟩ := h
      simp only [foldWalk, hlast, Bool.false_eq_true, if_false]
      rw [ih hrest hlen]
      rfl

/-- **Invariant rule for the fold.**  `I pre b` is a property of the value `b` after the cells
`pre`; if it holds at the start and each step keeps it, it holds of the result. -/
theorem foldPrev_invariant (step : β → Option α → α → β) (I : List α → β → Prop)
    {p : Option α} {l : List α}
    (hstep : ∀ pre y post b, l = pre ++ y :: post → I pre b →
      I (pre ++ [y]) (step b (pre.getLast?.or p) y))
    {b : β} (h0 : I [] b) : I l (foldPrev step b p l) := by
  -- the fold over the cells still to come, after the cells `acc` already seen
  suffices key : ∀ acc rest, l = acc ++ rest → ∀ b, I acc b →
      I l (foldPrev step b (acc.getLast?.or p) rest) from key [] l rfl b h0
  intro acc rest
  induction rest generalizing acc with
  | nil =>
    intro hl b hb
    simpa [hl, foldPrev] using hb
  | cons y rest ih =>
    intro hl b hb
    have hb' := hstep acc y rest b hl hb
    have := ih (acc ++ [y]) (by simp [hl]) _ hb'
    rwa [List.getLast?_concat, Option.some_or] at this

variable (next last)

/-! ## Searching for the first cell that passes a test -/

/-- What `test` returns at the first cell of `l` (with the cell before it) that it accepts. -/
def findPrev (test : Option α → α → Option γ) : Option α → List α → Option γ
  | _, [] => none
  | prev, y :: l =>
    match test prev y with
    | some g => some g
    | none => findPrev test (some y) l

/-- The loop `for (prev = p, cur = x; ; prev = cur, cur = next(cur)) { if (test(prev, cur))
return …; if (last(cur)) return NULL; }`, for at most `fuel` iterations: `some none` is the
`NULL` return. -/
def findWalk (test : Option α → α → Option γ) : ℕ → Option α → α → Option (Option γ)
  | 0, _, _ => none
  | n + 1, prev, x =>
    match test prev x with
    | some g => some (some g)
    | none => if last x then some none else findWalk test n (some x) (next x)

variable {next last}

/-- **The search loop** over a walk computes `findPrev`. -/
theorem findWalk_eq (test : Option α → α → Option γ) {x : α} {l : List α}
    (h : IsWalk next last x l) {n : ℕ} (hn : l.length ≤ n) (prev : Option α) :
    findWalk next last test n prev x = some (findPrev test prev l) := by
  induction l generalizing x n prev with
  | nil => exact h.elim
  | cons y l ih =>
    obtain ⟨n, rfl, hlen⟩ := fuel_succ hn
    cases l with
    | nil =>
      obtain ⟨rfl, hlast⟩ := h
      cases ht : test prev y <;> simp [findWalk, ht, hlast, findPrev]
    | cons z l =>
      obtain ⟨rfl, hlast, hrest⟩ := h
      cases ht : test prev y with
      | some g => simp [findWalk, ht, findPrev]
      | none =>
        simp only [findWalk, ht, hlast, Bool.false_eq_true, if_false, findPrev]
        exact ih hrest hlen (some y)

/-- Whatever the search loop returns, on any fuel, is what the test gave at some cell. -/
theorem findWalk_eq_some (test : Option α → α → Option γ) {n : ℕ} {prev : Option α} {x : α}
    {g : γ} (h : findWalk next last test n prev x = some (some g)) : ∃ p y, test p y = some g := by
  induction n generalizing prev x with
  | zero => simp [findWalk] at h
  | succ n ih =>
    simp only [findWalk] at h
    split at h
    · rename_i g' htest
      cases h
      exact ⟨prev, x, htest⟩
    · -- the test failed here: `NULL` at the last cell, or on to the next one
      split_ifs at h
      · cases h
      · exact ih h

variable (next last)

/-! ## Walking while the successor passes a test -/

/-- The first cell of `l` whose successor `go` rejects. -/
def firstStop (go : α → Bool) : List α → Option α
  | [] => none
  | y :: l => if go (next y) then firstStop go l else some y

/-- The loop `prev = x; while (go(next(prev))) prev = next(prev);`, for at most `fuel`
iterations. -/
def whileWalk (go : α → Bool) : ℕ → α → Option α
  | 0, _ => none
  | n + 1, x => if go (next x) then whileWalk go n (next x) else some x

variable {next last}

/-- **The while loop** over a walk computes `firstStop`, when the successor of the last cell
stops it. -/
theorem whileWalk_eq (go : α → Bool) {x : α} {l : List α} (h : IsWalk next last x l) {n : ℕ}
    (hn : l.length ≤ n) (hstop : ∀ y ∈ l, last y = true → go (next y) = false) :
    whileWalk next go n x = firstStop next go l := by
  induction l generalizing x n with
  | nil => exact h.elim
  | cons y l ih =>
    obtain ⟨n, rfl, hlen⟩ := fuel_succ hn
    cases l with
    | nil =>
      obtain ⟨rfl, hlast⟩ := h
      simp [whileWalk, firstStop, hstop y (by simp) hlast]
    | cons z l =>
      obtain ⟨rfl, -, hrest⟩ := h
      simp only [whileWalk, firstStop]
      split
      · -- the walk moves on to the next cell
        exact ih hrest hlen
          (fun w hw hl => hstop w (List.mem_cons_of_mem _ hw) hl)
      · rfl

/-- The walk stops at a cell whose successor `go` rejects, after cells whose successors it
accepts. -/
theorem firstStop_eq_some (go : α → Bool) {l : List α} {y : α}
    (h : firstStop next go l = some y) :
    ∃ pre post, l = pre ++ y :: post ∧ (∀ z ∈ pre, go (next z) = true) ∧ go (next y) = false := by
  induction l with
  | nil => simp [firstStop] at h
  | cons z l ih =>
    by_cases hgo : go (next z) = true
    · simp only [firstStop, hgo, if_true] at h
      obtain ⟨pre, post, rfl, hpre, hy⟩ := ih h
      refine ⟨z :: pre, post, rfl, ?_, hy⟩
      intro w hw
      rcases List.mem_cons.1 hw with rfl | hw
      · exact hgo
      · exact hpre w hw
    · -- the walk stops at `z`
      simp only [firstStop, hgo, Bool.false_eq_true, if_false, Option.some.injEq] at h
      subst h
      exact ⟨[], l, rfl, by simp, by simpa using hgo⟩

/-- The walk stops somewhere when the successor of the last cell stops it. -/
theorem firstStop_isSome (go : α → Bool) {x : α} {l : List α} (h : IsWalk next last x l)
    (hstop : ∀ y ∈ l, last y = true → go (next y) = false) : (firstStop next go l).isSome := by
  induction l generalizing x with
  | nil => exact h.elim
  | cons y l ih =>
    cases l with
    | nil => simp [firstStop, hstop y (by simp) h.2]
    | cons z l =>
      simp only [firstStop]
      split
      · exact ih h.tail fun w hw hl => hstop w (List.mem_cons_of_mem _ hw) hl
      · rfl

end LinkWalk
