import Mathlib

/-!
# Tilings of a range by intervals

An interval is a pair `(start, length)` of integers, standing for `[start, start + length)`.  A
list of intervals *tiles* `[0, n)` when each lies inside the range and each point of the range
lies in exactly one of them (`Tiles`), counted with `coverCount`.

Tilings change by replacing some intervals with others that cover every point as often: a
split of one interval in two (`coverCount_split`), and its converse, a merge.  `Tiles.congr`
carries a tiling across such a change, and `Tiles.disjoint` gives what a tiling is used for: two
of its non-empty intervals do not overlap.

A part of a tiling whose intervals are non-empty and *separated*, in increasing order with a
point between each two, is determined by the rest: its intervals are exactly the maximal runs of
points that the rest leaves uncovered (`Tiles.mem_iff_maxRun`), so two such parts beside
intervals that cover the same points are equal (`Tiles.eq_of_separated`), and it has at most one
interval more than the rest (`Tiles.length_le`).
-/

namespace Tiling

/-- The interval `[I.1, I.1 + I.2)` contains `x`. -/
def Covers (I : ℤ × ℤ) (x : ℤ) : Prop := I.1 ≤ x ∧ x < I.1 + I.2

instance (I : ℤ × ℤ) (x : ℤ) : Decidable (Covers I x) :=
  inferInstanceAs (Decidable (I.1 ≤ x ∧ x < I.1 + I.2))

/-- How many intervals of `l` contain `x`. -/
def coverCount (l : List (ℤ × ℤ)) (x : ℤ) : ℕ := l.countP fun I => decide (Covers I x)

section CoverCount

variable {l l₁ l₂ : List (ℤ × ℤ)} {I : ℤ × ℤ} {x : ℤ}

@[simp] theorem coverCount_nil (x : ℤ) : coverCount [] x = 0 := rfl

@[simp] theorem coverCount_cons :
    coverCount (I :: l) x = coverCount l x + if Covers I x then 1 else 0 := by
  simp [coverCount, List.countP_cons]

@[simp] theorem coverCount_append : coverCount (l₁ ++ l₂) x = coverCount l₁ x + coverCount l₂ x :=
  List.countP_append ..

theorem coverCount_perm (h : l₁.Perm l₂) (x : ℤ) : coverCount l₁ x = coverCount l₂ x :=
  h.countP_eq _

/-- An empty interval covers nothing. -/
theorem coverCount_cons_zero (a : ℤ) : coverCount ((a, 0) :: l) x = coverCount l x := by
  simp [Covers]

/-- Splitting `[a, a + k + m)` at `a + k` leaves every point covered as often. -/
theorem coverCount_split {k m : ℤ} (hk : 0 ≤ k) (hm : 0 ≤ m) (a x : ℤ) :
    coverCount [(a, k + m)] x = coverCount [(a, k), (a + k, m)] x := by
  simp only [coverCount_cons, coverCount_nil, zero_add]
  -- each of the three tests is an interval comparison
  split_ifs <;> simp only [Covers] at * <;> omega

end CoverCount

/-- An interval of non-negative length is at most as long as all the intervals of its list
together. -/
theorem snd_le_sum {l : List (ℤ × ℤ)} (hpos : ∀ I ∈ l, 0 ≤ I.2) {I : ℤ × ℤ} (hI : I ∈ l) :
    I.2 ≤ (l.map Prod.snd).sum :=
  List.single_le_sum (fun x hx => by
    obtain ⟨J, hJ, rfl⟩ := List.mem_map.1 hx
    exact hpos J hJ) _ (List.mem_map_of_mem hI)

/-- `l` tiles `[0, n)`: its intervals lie inside the range, and each point of the range lies in
exactly one of them. -/
structure Tiles (l : List (ℤ × ℤ)) (n : ℤ) : Prop where
  inside : ∀ I ∈ l, 0 ≤ I.1 ∧ I.1 + I.2 ≤ n
  once : ∀ x, 0 ≤ x → x < n → coverCount l x = 1

namespace Tiles

variable {l l' : List (ℤ × ℤ)} {n : ℤ}

/-- A tiling stays one when its intervals are replaced by others inside the range that cover
each point as often. -/
theorem congr (h : Tiles l n) (hin : ∀ I ∈ l', 0 ≤ I.1 ∧ I.1 + I.2 ≤ n)
    (hc : ∀ x, coverCount l' x = coverCount l x) : Tiles l' n :=
  ⟨hin, fun x hx₀ hx => (hc x).trans (h.once x hx₀ hx)⟩

theorem perm (h : Tiles l n) (hp : l.Perm l') : Tiles l' n :=
  h.congr (fun I hI => h.inside I (hp.mem_iff.2 hI)) fun x => (coverCount_perm hp x).symm

/-- A point of an interval of a tiling lies in no other of its intervals. -/
theorem not_covers {I J : ℤ × ℤ} (h : Tiles l n) (hI : I ∈ l) (hJ : J ∈ l.erase I) {x : ℤ}
    (hxI : Covers I x) : ¬ Covers J x := by
  intro hxJ
  have hx₀ : 0 ≤ x := le_trans (h.inside I hI).1 hxI.1
  have hx : x < n := lt_of_lt_of_le hxI.2 (h.inside I hI).2
  have hp : l.Perm (I :: J :: (l.erase I).erase J) :=
    (List.perm_cons_erase hI).trans ((List.perm_cons_erase hJ).cons I)
  have hcount := h.once x hx₀ hx
  rw [coverCount_perm hp] at hcount
  simp only [coverCount_cons, if_pos hxI, if_pos hxJ] at hcount
  omega

/-- **Two non-empty intervals of a tiling do not overlap.** -/
theorem disjoint {I J : ℤ × ℤ} (h : Tiles l n) (hI : I ∈ l) (hJ : J ∈ l.erase I)
    (hIpos : 0 < I.2) (hJpos : 0 < J.2) : I.1 + I.2 ≤ J.1 ∨ J.1 + J.2 ≤ I.1 := by
  by_contra hover
  push Not at hover
  -- the later of the two starts lies in both
  have hx : Covers I (max I.1 J.1) := ⟨le_max_left _ _, by omega⟩
  exact h.not_covers hI hJ hx ⟨le_max_right _ _, by omega⟩

/-- **The non-empty intervals of a tiling are pairwise apart**, as they stand in its list. -/
theorem pairwise_disjoint (h : Tiles l n) (hpos : ∀ I ∈ l, 0 < I.2) :
    l.Pairwise fun I J => I.1 + I.2 ≤ J.1 ∨ J.1 + J.2 ≤ I.1 := by
  refine List.pairwise_iff_forall_sublist.2 fun {I J} hsub => ?_
  have hI : I ∈ l := hsub.subset (by simp)
  -- `J` stands after the first `I`, so it stays once that `I` is taken out
  have hJ : J ∈ l.erase I := (by simpa using hsub.erase I : List.Sublist [J] (l.erase I)).subset (by simp)
  exact h.disjoint hI hJ (hpos I hI) (hpos J (List.mem_of_mem_erase hJ))

end Tiles

/-! ## A separated part of a tiling is determined by the rest -/

section Separated

/-- `x` is a point of `[0, n)` that no interval of `m` covers. -/
def Uncovered (m : List (ℤ × ℤ)) (n x : ℤ) : Prop := 0 ≤ x ∧ x < n ∧ coverCount m x = 0

/-- `I` is a maximal run of points of `[0, n)` that `m` leaves uncovered. -/
def MaxRun (m : List (ℤ × ℤ)) (n : ℤ) (I : ℤ × ℤ) : Prop :=
  0 < I.2 ∧ (∀ x, Covers I x → Uncovered m n x) ∧ ¬ Uncovered m n (I.1 - 1) ∧
    ¬ Uncovered m n (I.1 + I.2)

variable {l l' m m' : List (ℤ × ℤ)} {n : ℤ}

theorem maxRun_congr (hm : ∀ x, coverCount m x = coverCount m' x) (I : ℤ × ℤ) :
    MaxRun m n I ↔ MaxRun m' n I := by
  simp only [MaxRun, Uncovered, hm]

/-- Two distinct members of a list in order are in order one way or the other. -/
theorem rel_or_rel {α : Type*} {R : α → α → Prop} {l : List α} (h : l.Pairwise R) {a b : α}
    (ha : a ∈ l) (hb : b ∈ l) (hne : a ≠ b) : R a b ∨ R b a :=
  @List.Pairwise.forall _ _ _ ⟨fun _ _ => Or.symm⟩ (h.imp .inl) _ ha _ hb hne

/-- A separated list of non-empty intervals has no interval twice. -/
theorem nodup_of_separated (hsep : l.Pairwise fun a b => a.1 + a.2 < b.1)
    (hpos : ∀ I ∈ l, 0 < I.2) : l.Nodup :=
  hsep.imp_of_mem fun ha _ hab heq => by
    subst heq
    have := hpos _ ha
    omega

/-- In a separated list `l` of non-empty intervals, if the point after each interval that
another follows lies in an interval of `m`, and no interval of `m` holds the first point of an
interval of `l`, then `l` has at most one interval more than `m`: no interval of `m` holds two
of those points, since an interval of `l` starts between them. -/
theorem length_le_of_gap_covers (hsep : l.Pairwise fun a b => a.1 + a.2 < b.1)
    (hpos : ∀ I ∈ l, 0 < I.2) (hstart : ∀ J ∈ m, ∀ b ∈ l, ¬ Covers J b.1)
    (hgap : ∀ a ∈ l, ∀ b ∈ l, a.1 + a.2 < b.1 → ∃ J ∈ m, Covers J (a.1 + a.2)) :
    l.length ≤ m.length + 1 := by
  induction l generalizing m with
  | nil => simp
  | cons a l ih =>
    rw [List.pairwise_cons] at hsep
    cases l with
    | nil => simp
    | cons b l =>
      -- the point after `a` lies in an interval `J` of `m`, which the rest of `l` does not need
      obtain ⟨J, hJ, hJa⟩ := hgap a List.mem_cons_self b (by simp) (hsep.1 b List.mem_cons_self)
      have hrest : ∀ a' ∈ b :: l, ∀ b' ∈ b :: l, a'.1 + a'.2 < b'.1 →
          ∃ J' ∈ m.erase J, Covers J' (a'.1 + a'.2) := by
        intro a' ha' b' hb' hlt
        obtain ⟨J', hJ', hJ'a⟩ :=
          hgap a' (List.mem_cons_of_mem _ ha') b' (List.mem_cons_of_mem _ hb') hlt
        refine ⟨J', (List.mem_erase_of_ne ?_).2 hJ', hJ'a⟩
        rintro rfl
        -- `b` starts after `a` and no later than the point after `a'`
        have hab := hsep.1 b List.mem_cons_self
        have hba' : b.1 < a'.1 + a'.2 := by
          have := hpos a' (List.mem_cons_of_mem _ ha')
          rcases List.mem_cons.1 ha' with rfl | ha'
          · omega
          · have := (List.pairwise_cons.1 hsep.2).1 a' ha'
            have := hpos b (by simp)
            omega
        simp only [Covers] at hJa hJ'a
        exact hstart J' hJ' b (by simp) ⟨by omega, by omega⟩
      have hlen : (b :: l).length ≤ (m.erase J).length + 1 :=
        ih hsep.2 (fun I hI => hpos I (List.mem_cons_of_mem _ hI)) (fun J' hJ' b' hb' =>
          hstart J' (List.mem_of_mem_erase hJ') b' (List.mem_cons_of_mem _ hb')) hrest
      rw [List.length_erase_of_mem hJ] at hlen
      have := List.length_pos_of_mem hJ
      simp only [List.length_cons] at hlen ⊢
      omega

namespace Tiles

/-- A point of an interval of `l` is one that `m` leaves uncovered. -/
theorem uncovered_of_covers (h : Tiles (l ++ m) n) {I : ℤ × ℤ} (hI : I ∈ l) {x : ℤ}
    (hx : Covers I x) : Uncovered m n x := by
  have hin := h.inside I (List.mem_append_left m hI)
  have hx₀ : 0 ≤ x := le_trans hin.1 hx.1
  have hxn : x < n := lt_of_lt_of_le hx.2 hin.2
  have hl : 0 < coverCount l x := List.countP_pos_iff.2 ⟨I, hI, decide_eq_true hx⟩
  have hone := h.once x hx₀ hxn
  rw [coverCount_append] at hone
  exact ⟨hx₀, hxn, by omega⟩

/-- A point that `m` leaves uncovered lies in an interval of `l`. -/
theorem exists_covers (h : Tiles (l ++ m) n) {x : ℤ} (hx : Uncovered m n x) :
    ∃ I ∈ l, Covers I x := by
  have hone := h.once x hx.1 hx.2.1
  rw [coverCount_append, hx.2.2, add_zero] at hone
  obtain ⟨I, hI, hc⟩ := List.countP_pos_iff.1 (show 0 < coverCount l x by omega)
  exact ⟨I, hI, of_decide_eq_true hc⟩

variable (hsep : l.Pairwise fun a b => a.1 + a.2 < b.1) (hpos : ∀ I ∈ l, 0 < I.2)
include hsep hpos

/-- The points next to an interval of a separated `l`, just before or just after it, are
covered by `m`: another interval of `l` there would leave no point between the two. -/
theorem not_uncovered_near (h : Tiles (l ++ m) n) {I : ℤ × ℤ} (hI : I ∈ l) {x : ℤ}
    (hxI : ¬ Covers I x) (hnear : I.1 - 1 ≤ x ∧ x ≤ I.1 + I.2) : ¬ Uncovered m n x := by
  intro hx
  obtain ⟨J, hJ, hcov⟩ := h.exists_covers hx
  have hne : I ≠ J := by
    rintro rfl
    exact hxI hcov
  have hI₂ := hpos I hI
  simp only [Covers] at hxI hcov
  rcases rel_or_rel hsep hI hJ hne with hIJ | hJI <;> omega

theorem maxRun_of_mem (h : Tiles (l ++ m) n) {I : ℤ × ℤ} (hI : I ∈ l) : MaxRun m n I := by
  have hI₂ := hpos I hI
  refine ⟨hI₂, fun x hx => h.uncovered_of_covers hI hx, ?_, ?_⟩
  · exact h.not_uncovered_near hsep hpos hI (by simp [Covers]) ⟨le_rfl, by omega⟩
  · exact h.not_uncovered_near hsep hpos hI (by simp [Covers]) ⟨by omega, le_rfl⟩

theorem mem_of_maxRun (h : Tiles (l ++ m) n) {I : ℤ × ℤ} (hI : MaxRun m n I) : I ∈ l := by
  obtain ⟨hI₂, hfree, hbefore, hafter⟩ := hI
  -- the first point of `I` lies in an interval `J` of `l`
  obtain ⟨J, hJ, hcov⟩ := h.exists_covers (hfree I.1 ⟨le_rfl, by omega⟩)
  have hJ₂ := hpos J hJ
  simp only [Covers] at hcov
  -- `J` starts where `I` does, or the point before `I` would lie in `J`
  have hstart : J.1 = I.1 := by
    by_contra hne
    exact hbefore (h.uncovered_of_covers hJ ⟨by omega, by omega⟩)
  -- `J` is no longer than `I`, or the point after `I` would lie in `J`
  have hle : J.2 ≤ I.2 := by
    by_contra hlt
    exact hafter (h.uncovered_of_covers hJ ⟨by omega, by omega⟩)
  -- and no shorter, or the point after `J`, inside `I`, would be uncovered next to `J`
  have hge : I.2 ≤ J.2 := by
    by_contra hlt
    exact h.not_uncovered_near hsep hpos hJ (x := J.1 + J.2) (by simp [Covers])
      ⟨by omega, le_rfl⟩ (hfree _ ⟨by omega, by omega⟩)
  obtain rfl : J = I := Prod.ext hstart (by omega)
  exact hJ

/-- **The intervals of a separated part of a tiling are the maximal runs of points the rest
leaves uncovered.** -/
theorem mem_iff_maxRun (h : Tiles (l ++ m) n) (I : ℤ × ℤ) : I ∈ l ↔ MaxRun m n I :=
  ⟨h.maxRun_of_mem hsep hpos, h.mem_of_maxRun hsep hpos⟩

/-- **A separated part of a tiling has at most one interval more than the rest**: the point
after each of its intervals but the last is covered by the rest, and the first points of its
intervals are not. -/
theorem length_le (h : Tiles (l ++ m) n) : l.length ≤ m.length + 1 := by
  refine length_le_of_gap_covers hsep hpos (fun J hJ b hb hcov => ?_) (fun a ha b hb hlt => ?_)
  · have hfree := h.uncovered_of_covers hb (I := b) ⟨le_rfl, by have := hpos b hb; omega⟩
    have hJ : 0 < coverCount m b.1 := List.countP_pos_iff.2 ⟨J, hJ, decide_eq_true hcov⟩
    exact absurd hfree.2.2 hJ.ne'
  · -- the point after `a` is in the range, and not left uncovered next to `a`
    have ha₀ := (h.inside a (List.mem_append_left m ha)).1
    have hbn := (h.inside b (List.mem_append_left m hb)).2
    have := hpos a ha
    have := hpos b hb
    have hcnt : coverCount m (a.1 + a.2) ≠ 0 := fun h0 =>
      (h.maxRun_of_mem hsep hpos ha).2.2.2 ⟨by omega, by omega, h0⟩
    obtain ⟨J, hJ, hc⟩ := List.countP_pos_iff.1 (Nat.pos_of_ne_zero hcnt)
    exact ⟨J, hJ, of_decide_eq_true hc⟩

omit hsep hpos

/-- **A separated part of a tiling is determined by the rest**: beside intervals that cover the
same points, two such parts are equal. -/
theorem eq_of_separated (h : Tiles (l ++ m) n) (h' : Tiles (l' ++ m') n)
    (hm : ∀ x, coverCount m x = coverCount m' x)
    (hsep : l.Pairwise fun a b => a.1 + a.2 < b.1) (hsep' : l'.Pairwise fun a b => a.1 + a.2 < b.1)
    (hpos : ∀ I ∈ l, 0 < I.2) (hpos' : ∀ I ∈ l', 0 < I.2) : l = l' := by
  have hmem : ∀ I, I ∈ l ↔ I ∈ l' := fun I => by
    rw [h.mem_iff_maxRun hsep hpos, h'.mem_iff_maxRun hsep' hpos', maxRun_congr hm]
  -- both lists are free of duplicates, so they are permutations of each other
  have hperm : l.Perm l' := (List.perm_ext_iff_of_nodup (nodup_of_separated hsep hpos)
    (nodup_of_separated hsep' hpos')).2 hmem
  refine List.Perm.eq_of_pairwise (fun a b ha hb hab hba => ?_) hsep hsep' hperm
  have := hpos a ha
  have := hpos' b hb
  omega

end Tiles

end Separated

/-! ## Pieces back to back -/

section Abut

variable {α : Type*} (start len : α → ℕ)

/-- The pieces `l` lie back to back from `p` to `e`: the first starts at `p`, each next one
where the one before it ends, and the last ends at `e`.  A piece `a` stands for
`[start a, start a + len a)`. -/
def Abut : ℕ → List α → ℕ → Prop
  | p, [], e => p = e
  | p, a :: l, e => start a = p ∧ Abut (p + len a) l e

variable {start len}

@[simp] theorem abut_nil {p e : ℕ} : Abut start len p [] e ↔ p = e := Iff.rfl

@[simp] theorem abut_cons {p e : ℕ} {a : α} {l : List α} :
    Abut start len p (a :: l) e ↔ start a = p ∧ Abut start len (p + len a) l e := Iff.rfl

/-- Two runs of pieces back to back, the second starting where the first ends, make one. -/
theorem abut_append {p e : ℕ} {l₁ l₂ : List α} :
    Abut start len p (l₁ ++ l₂) e ↔ ∃ m, Abut start len p l₁ m ∧ Abut start len m l₂ e := by
  induction l₁ generalizing p with
  | nil => simp
  | cons a l₁ ih => simp [ih, and_assoc]

/-- Pieces back to back end at the start plus their lengths. -/
theorem Abut.end_eq {p e : ℕ} {l : List α} (h : Abut start len p l e) :
    e = p + (l.map len).sum := by
  induction l generalizing p with
  | nil => simpa using h.symm
  | cons a l ih =>
    rw [ih h.2, List.map_cons, List.sum_cons, Nat.add_assoc]

end Abut

end Tiling
