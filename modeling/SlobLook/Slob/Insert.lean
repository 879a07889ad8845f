import SlobLook.Slob.Free
import SlobLook.Slob.Scan

/-!
# Putting a block back on a partially free page

The last branch of `slob_free` links the block `(b, u)` back into the chain of its page, which is
partially free, at its place by offset, and merges it with the free block after it and the one
before it when they touch.  In terms of the free blocks (`mergeFront`): the free blocks `fb`
become `mergeFront (b, u) fb` when `b` comes before `sp->free`, and otherwise, for the free block
`(y, k)` the search stops at, `pre ++ (y, k) :: post` becomes
`pre ++ mergeFront (y, k) (mergeFront (b, u) post)`.

A `Chain` is a list of free blocks stored to the end of the page, in order, with gaps, inside the
page.  Each store of `slob_free` puts a block in front of a stored chain, merged with its first
block or not (`Chain.cons`, `Chain.merge`), and writes nothing before the block.  The page stays
well formed (`PageInv.insertFree`) with the block no longer live: `PageInv.release` assembles
the invariant from a chain that covers what the old one and the block did.
-/

namespace SlobLook.Slob

open Tiling

/-! ## Merging a block with the one after it -/

/-- The free block `b` in front of the free blocks `l`, merged with the first of them when the
two touch. -/
def mergeFront (b : ℤ × ℤ) : List (ℤ × ℤ) → List (ℤ × ℤ)
  | [] => [b]
  | a :: l => if b.1 + b.2 = a.1 then (b.1, b.2 + a.2) :: l else b :: a :: l

section MergeFront

variable {b : ℤ × ℤ} {l : List (ℤ × ℤ)}

theorem mergeFront_eq_cons : ∃ k l', mergeFront b l = (b.1, k) :: l' := by
  cases l with
  | nil => exact ⟨b.2, [], rfl⟩
  | cons a l =>
    simp only [mergeFront]
    split_ifs
    · exact ⟨_, _, rfl⟩
    · exact ⟨b.2, a :: l, rfl⟩

@[simp] theorem nextStart_mergeFront (t : ℤ) : nextStart t (mergeFront b l) = b.1 := by
  obtain ⟨k, l', hl⟩ := mergeFront_eq_cons (b := b) (l := l)
  rw [hl, nextStart_cons]

theorem sum_mergeFront : ((mergeFront b l).map Prod.snd).sum = b.2 + (l.map Prod.snd).sum := by
  cases l with
  | nil => simp [mergeFront]
  | cons a l =>
    simp only [mergeFront]
    split_ifs
    · simp only [List.map_cons, List.sum_cons]
      ring
    · simp

/-- Merging leaves every point covered as often. -/
theorem coverCount_mergeFront (hb : 0 ≤ b.2) (hl : ∀ a ∈ l, 0 ≤ a.2) (x : ℤ) :
    coverCount (mergeFront b l) x = coverCount (b :: l) x := by
  cases l with
  | nil => rfl
  | cons a l =>
    obtain ⟨b₁, b₂⟩ := b
    obtain ⟨a₁, a₂⟩ := a
    simp only [mergeFront]
    split_ifs with htouch
    · have hsplit := coverCount_split hb (hl (a₁, a₂) (by simp)) b₁ x
      rw [htouch] at hsplit
      simp only [coverCount_cons, coverCount_nil] at hsplit ⊢
      omega
    · rfl

end MergeFront

/-- Every block of a list with gaps starts at or after the first one. -/
theorem Gaps.nextStart_le {l : List (ℤ × ℤ)} (hg : Gaps l) (hpos : ∀ a ∈ l, 0 < a.2) (t : ℤ) :
    ∀ a ∈ l, nextStart t l ≤ a.1 := by
  cases l with
  | nil => simp
  | cons a₀ l =>
    intro a ha
    rcases List.mem_cons.1 ha with rfl | ha
    · exact le_rfl
    · have := (Gaps.cons_iff.1 hg).1 a ha
      have := hpos a₀ (by simp)
      simp only [nextStart_cons]
      omega

/-! ## Stored chains -/

/-- The blocks `l` are stored as a chain to the end of the page, in order and with gaps, inside
the page. -/
structure Chain (c : Config) (mem : ℤ → ℤ) (l : List (ℤ × ℤ)) : Prop where
  links : Links mem c.pageUnits l
  gaps : Gaps l
  inside : ∀ a ∈ l, 0 ≤ a.1 ∧ a.1 + a.2 ≤ c.pageUnits

section Store

variable {c : Config} {mem : ℤ → ℤ}

theorem PageInv.chain {sp : SlobPage} {fb live : List (ℤ × ℤ)} (h : PageInv c sp fb live) :
    Chain c sp.mem fb :=
  ⟨h.links, h.gaps, h.inside⟩

namespace Chain

variable {l : List (ℤ × ℤ)}

theorem pos (h : Chain c mem l) : ∀ a ∈ l, 0 < a.2 := h.links.pos

/-- The first block of a chain, or the end of the page, lies inside the page. -/
theorem nextStart_le (h : Chain c mem l) : nextStart c.pageUnits l ≤ c.pageUnits := by
  cases l with
  | nil => exact le_rfl
  | cons a l =>
    have := h.inside a (by simp)
    have := h.pos a (by simp)
    simp only [nextStart_cons]
    omega

theorem tail {a : ℤ × ℤ} (h : Chain c mem (a :: l)) : Chain c mem l :=
  ⟨h.links.2, (Gaps.cons_iff.1 h.gaps).2, fun a' ha' => h.inside a' (List.mem_cons_of_mem _ ha')⟩

theorem right {pre : List (ℤ × ℤ)} (h : Chain c mem (pre ++ l)) : Chain c mem l :=
  ⟨(links_append.1 h.links).2, (Gaps.append_iff.1 h.gaps).2.1,
    fun a ha => h.inside a (List.mem_append_right _ ha)⟩

/-- The first block of a chain ends before the next block, or the end of the page, starts. -/
theorem end_le {a : ℤ × ℤ} (h : Chain c mem (a :: l)) :
    a.1 + a.2 ≤ nextStart c.pageUnits l := by
  cases l with
  | nil => exact (h.inside a (by simp)).2
  | cons a' l => exact ((Gaps.cons_iff.1 h.gaps).1 a' (by simp)).le

/-- The first block of a chain reads back through `slob_units` and `slob_next`. -/
theorem decode_head {q kq : ℤ} (h : Chain c mem ((q, kq) :: l)) :
    slobUnits mem q = kq ∧ c.slobNext mem q = nextStart c.pageUnits l := by
  have hkq := h.pos (q, kq) (by simp)
  have hq := (h.inside (q, kq) (by simp)).1
  have hend := h.end_le
  simp only at hkq hq hend
  exact h.links.1.decode (by omega) h.tail.nextStart_le

/-- A store before the first block of a chain keeps it. -/
theorem congr {mem' : ℤ → ℤ} (h : Chain c mem l)
    (hagree : ∀ x, nextStart c.pageUnits l ≤ x → mem' x = mem x) : Chain c mem' l := by
  refine ⟨h.links.congr fun a ha x hx _ => hagree x ?_, h.gaps, h.inside⟩
  exact le_trans (h.gaps.nextStart_le h.pos _ a ha) hx

/-- **Storing a block in front of a chain** that it ends before and does not touch. -/
theorem cons {s k : ℤ} (h : Chain c mem l) (hs : 0 ≤ s) (hk : 0 < k)
    (hsk : s + k ≤ nextStart c.pageUnits l) (hapart : l ≠ [] → s + k ≠ nextStart c.pageUnits l) :
    Chain c (c.setSlob mem s k (nextStart c.pageUnits l)) (mergeFront (s, k) l) := by
  have hnext := h.nextStart_le
  have hkN : k ≤ c.pageUnits := by omega
  have hrest : Chain c (c.setSlob mem s k (nextStart c.pageUnits l)) l :=
    h.congr fun x hx => setSlob_apply hk hkN (.inr (by omega))
  have hfront : mergeFront (s, k) l = (s, k) :: l := by
    cases l with
    | nil => rfl
    | cons a l => simpa [mergeFront] using hapart (List.cons_ne_nil a l)
  rw [hfront]
  refine ⟨⟨holds_setSlob hk hkN (by omega) hnext, hrest.links⟩, ?_, ?_⟩
  · refine Gaps.cons_iff.2 ⟨fun a ha => ?_, h.gaps⟩
    have := h.gaps.nextStart_le h.pos c.pageUnits a ha
    have := hapart (List.ne_nil_of_mem ha)
    simp only
    omega
  · intro a ha
    rcases List.mem_cons.1 ha with rfl | ha
    · exact ⟨hs, by simp only; omega⟩
    · exact h.inside a ha

/-- **Storing a block merged with the first block of a chain** that it touches: the block takes
the first block's units and its next. -/
theorem merge {q kq s k : ℤ} (h : Chain c mem ((q, kq) :: l)) (hs : 0 ≤ s) (hk : 0 < k)
    (hsq : s + k = q) :
    Chain c (c.setSlob mem s (k + kq) (c.slobNext mem q)) (mergeFront (s, k) ((q, kq) :: l)) := by
  have hkq : 0 < kq := h.pos (q, kq) (by simp)
  have hend := h.end_le
  have hnext := h.tail.nextStart_le
  simp only at hend
  have hdec := h.decode_head.2
  have hmerged : mergeFront (s, k) ((q, kq) :: l) = (s, k + kq) :: l := by
    simp [mergeFront, hsq]
  rw [hdec, hmerged]
  have hrest : Chain c (c.setSlob mem s (k + kq) (nextStart c.pageUnits l)) l :=
    h.tail.congr fun x hx => setSlob_apply (by omega) (by omega) (.inr (by omega))
  refine ⟨⟨holds_setSlob (by omega) (by omega) (by omega) hnext, hrest.links⟩, ?_, ?_⟩
  · -- the merged block ends where the first block did
    refine Gaps.cons_iff.2 ⟨fun a ha => ?_, hrest.gaps⟩
    have := (Gaps.cons_iff.1 h.gaps).1 a ha
    simp only
    omega
  · intro a ha
    rcases List.mem_cons.1 ha with rfl | ha
    · exact ⟨hs, by simp only; omega⟩
    · exact hrest.inside a ha

/-- A chain after blocks that end before it starts. -/
theorem append {pre : List (ℤ × ℤ)} (hpre : Links mem (nextStart c.pageUnits l) pre)
    (hg : Gaps pre) (hin : ∀ a ∈ pre, 0 ≤ a.1 ∧ a.1 + a.2 ≤ c.pageUnits) (h : Chain c mem l)
    (hsep : ∀ a ∈ pre, a.1 + a.2 < nextStart c.pageUnits l) : Chain c mem (pre ++ l) := by
  refine ⟨links_append.2 ⟨hpre, h.links⟩, Gaps.append_iff.2 ⟨hg, h.gaps, fun a ha a' ha' => ?_⟩,
    fun a ha => ?_⟩
  · exact lt_of_lt_of_le (hsep a ha) (h.gaps.nextStart_le h.pos _ a' ha')
  · rcases List.mem_append.1 ha with ha | ha
    · exact hin a ha
    · exact h.inside a ha

end Chain

/-- `set_slob` writes nothing before its block. -/
theorem setSlob_apply_lt {s x : ℤ} (hx : x < s) (k n : ℤ) : c.setSlob mem s k n x = mem x := by
  unfold Config.setSlob
  split_ifs
  · rw [Function.update_apply, if_neg (by omega), Function.update_apply, if_neg (by omega)]
  · rw [Function.update_apply, if_neg (by omega)]

/-- `slob_units` reads only the first cell of a block. -/
theorem slobUnits_congr {mem' : ℤ → ℤ} {s : ℤ} (h : mem' s = mem s) :
    slobUnits mem' s = slobUnits mem s := by
  unfold slobUnits
  rw [h]

end Store

/-! ## The two stores of the walk -/

section Walk

variable {c : Config} {mem : ℤ → ℤ}

/-- The first store after the search: `b` goes in front of the free blocks after `prev`, merged
with the first of them when they touch, unless `prev` is the last free block. -/
theorem Chain.storeNext {post : List (ℤ × ℤ)} (h : Chain c mem post) {y b u : ℤ}
    (hnext : c.slobNext mem y = nextStart c.pageUnits post) (hb : 0 ≤ b) (hu : 0 < u)
    (hbu : b + u ≤ nextStart c.pageUnits post) :
    Chain c (if (!c.slobLast mem y && decide (b + u = c.slobNext mem y)) = true then
        c.setSlob mem b (c.toSlobidx (u + slobUnits mem (c.slobNext mem y)))
          (c.slobNext mem (c.slobNext mem y))
      else c.setSlob mem b u (c.slobNext mem y)) (mergeFront (b, u) post) := by
  have hN := h.nextStart_le
  -- `slob_last(prev)` holds exactly when no free block follows
  have hlast : c.slobLast mem y = decide (post = []) := by
    rw [Bool.eq_iff_iff, decide_eq_true_iff]
    simp only [Config.slobLast, hnext, beq_iff_eq]
    rw [c.boundary_iff (by omega) hN]
    cases post with
    | nil => simp
    | cons a l =>
      have := h.inside a (by simp)
      have := h.pos a (by simp)
      simp only [nextStart_cons, reduceCtorEq, iff_false]
      omega
  rw [hlast, hnext]
  cases post with
  | nil => simpa using h.cons hb hu hbu (fun hne => absurd rfl hne)
  | cons a rest =>
    obtain ⟨q, kq⟩ := a
    obtain ⟨hkq, -⟩ := h.decode_head
    simp only [nextStart_cons] at hbu ⊢
    by_cases htouch : b + u = q
    · have hsum : c.toSlobidx (u + kq) = u + kq := by
        have hend := h.end_le
        have := h.tail.nextStart_le
        have := h.pos (q, kq) (by simp)
        simp only at hend this
        exact c.toSlobidx_eq (by omega) (by omega)
      simp only [htouch, List.cons_ne_nil, decide_false, Bool.not_false, decide_true,
        Bool.and_self, if_true, hkq, hsum]
      exact h.merge hb hu htouch
    · simp only [htouch, decide_false, Bool.and_false, Bool.false_eq_true, if_false]
      exact h.cons hb hu hbu fun _ => htouch

/-- The second store: the free block `(y, k)` before `b` is merged with it when they touch, and
is linked to it otherwise. -/
theorem Chain.storePrev {rest : List (ℤ × ℤ)} {b u₁ : ℤ} (h : Chain c mem ((b, u₁) :: rest))
    {y k : ℤ} (hy : 0 ≤ y) (hk : 0 < k) (hyk : y + k ≤ b) (hunits : slobUnits mem y = k) :
    Chain c (if y + slobUnits mem y = b then
        c.setSlob mem y (c.toSlobidx (slobUnits mem b + slobUnits mem y)) (c.slobNext mem b)
      else c.setSlob mem y (slobUnits mem y) b) (mergeFront (y, k) ((b, u₁) :: rest)) := by
  have hbin := h.inside (b, u₁) (by simp)
  have hu₁ := h.pos (b, u₁) (by simp)
  simp only at hbin hu₁
  rw [hunits, h.decode_head.1]
  by_cases htouch : y + k = b
  · rw [if_pos htouch, add_comm u₁ k, c.toSlobidx_eq (by omega) (by omega)]
    exact h.merge hy hk htouch
  · rw [if_neg htouch]
    exact h.cons hy hk hyk fun _ => htouch

end Walk

/-! ## The page after `slob_free` -/

section Release

variable {c : Config} {sp : SlobPage} {fb live : List (ℤ × ℤ)} {b u : ℤ}

/-- A free block and a live block of a well-formed page do not overlap. -/
theorem PageInv.apart (h : PageInv c sp fb live) {a : ℤ × ℤ} (ha : a ∈ fb) (hb : (b, u) ∈ live) :
    a.1 + a.2 ≤ b ∨ b + u ≤ a.1 := by
  have hb' : (b, u) ∈ (fb ++ live).erase a := by
    rw [List.erase_append_left _ ha]
    exact List.mem_append_right _ hb
  exact h.tiles.disjoint (List.mem_append_left _ ha) hb' (h.links.pos a ha) (h.livePos _ hb)

/-- **The page invariant after a block is given back**: a chain of free blocks that covers what
the old free blocks and the block covered, with the block's units added, leaves the page well
formed with the block no longer live. -/
theorem PageInv.release (h : PageInv c sp fb live) (hb : (b, u) ∈ live) {sp' : SlobPage}
    {fb' : List (ℤ × ℤ)} (hchain : Chain c sp'.mem fb')
    (hhead : sp'.free = nextStart c.pageUnits fb') (hunits : sp'.units = sp.units + u)
    (hsum : (fb'.map Prod.snd).sum = u + (fb.map Prod.snd).sum)
    (hcount : ∀ x, coverCount fb' x = coverCount ((b, u) :: fb) x) :
    PageInv c sp' fb' (live.erase (b, u)) := by
  have hperm := List.perm_cons_erase hb
  have hlive : (live.map Prod.snd).sum = u + ((live.erase (b, u)).map Prod.snd).sum := by
    rw [(hperm.map Prod.snd).sum_eq, List.map_cons, List.sum_cons]
  refine ⟨hchain.links, hhead, hchain.gaps, ?_, ?_, fun a ha => h.livePos a (List.mem_of_mem_erase ha),
    ?_⟩
  · rw [hunits, hsum, h.units]
    ring
  · refine h.tiles.congr (fun I hI => ?_) fun x => ?_
    · rcases List.mem_append.1 hI with hI | hI
      · exact hchain.inside I hI
      · exact h.liveInside I (List.mem_of_mem_erase hI)
    · have hc := coverCount_perm hperm x
      simp only [coverCount_append, hcount, coverCount_cons] at hc ⊢
      omega
  · have := h.total
    rw [hunits]
    omega

/-- The search of `slob_free` for the place of a live block `b` at or after `sp->free`: it stops
at the last free block `(y, k)` before `b`, and the free blocks after it start after `b`. -/
theorem PageInv.search (h : PageInv c sp fb live) (hb : (b, u) ∈ live) (hne : fb ≠ [])
    (hfree : sp.free ≤ b) :
    ∃ pre y k post, fb = pre ++ (y, k) :: post ∧ y + k ≤ b ∧
      b + u ≤ nextStart c.pageUnits post ∧
      LinkWalk.whileWalk (c.slobNext sp.mem) (fun next => decide (next < b)) c.pageUnits sp.free =
        some y := by
  obtain ⟨⟨o, k₀⟩, l, rfl⟩ := List.exists_cons_of_ne_nil hne
  have hwalk := h.isWalk hne
  have hhead : sp.free = o := h.head
  have hu := h.livePos _ hb
  have hbin := h.liveInside _ hb
  simp only at hu hbin
  -- the successor of a free block lies past it inside the page; that of the last one is the end
  have hsucc : ∀ preO y postO, ((o, k₀) :: l).map Prod.fst = preO ++ y :: postO →
      ∃ pre k post, (o, k₀) :: l = pre ++ (y, k) :: post ∧
        c.slobNext sp.mem y = nextStart c.pageUnits post ∧ 0 < nextStart c.pageUnits post ∧
        nextStart c.pageUnits post ≤ c.pageUnits := by
    intro preO y postO hsplit
    obtain ⟨pre, k, post, hfb, -, -, hnext⟩ := h.block_at hsplit
    have hat := h.at hfb rfl
    have hbounds := hat.next_bounds
    have hk := hat.holds_cur.1
    have hin := hat.cur_inside
    simp only at hbounds hk hin
    exact ⟨pre, k, post, hfb, hnext, by omega, hbounds.2⟩
  have hstop : ∀ y ∈ ((o, k₀) :: l).map Prod.fst, c.slobLast sp.mem y = true →
      decide (c.slobNext sp.mem y < b) = false := by
    intro y hy hlast
    obtain ⟨preO, postO, hsplit⟩ := List.append_of_mem hy
    obtain ⟨-, -, post, -, hnext, hpos, hle⟩ := hsucc preO y postO hsplit
    simp only [Config.slobLast, beq_iff_eq, hnext] at hlast
    rw [(c.boundary_iff hpos hle).1 hlast] at hnext
    simp only [hnext, decide_eq_false_iff_not, not_lt]
    omega
  rw [LinkWalk.whileWalk_eq _ hwalk h.walk_length hstop]
  obtain ⟨y, hy⟩ := Option.isSome_iff_exists.1
    (LinkWalk.firstStop_isSome (fun next => decide (next < b)) hwalk hstop)
  obtain ⟨preO, postO, hsplit, hgo, hstopy⟩ := LinkWalk.firstStop_eq_some _ hy
  obtain ⟨pre, k, post, hfb, hnext, -, -⟩ := hsucc preO y postO hsplit
  -- the search stops at `sp->free` or after a free block whose successor is before `b`
  have hyb : y ≤ b := by
    rcases List.eq_nil_or_concat' preO with rfl | ⟨preO', z, rfl⟩
    · simp only [List.map_cons, List.nil_append, List.cons.injEq] at hsplit
      omega
    · have hz := hgo z (by simp)
      rw [hsplit, List.append_assoc, List.singleton_append] at hwalk
      rw [hwalk.next_eq] at hz
      exact (of_decide_eq_true hz).le
  have hyk := h.apart (a := (y, k)) (by rw [hfb]; simp) hb
  have hk := h.links.pos (y, k) (by rw [hfb]; simp)
  simp only at hyk hk
  refine ⟨pre, y, k, post, hfb, by omega, ?_, hy⟩
  simp only [hnext, decide_eq_false_iff_not, not_lt] at hstopy
  cases post with
  | nil => simpa using hbin.2
  | cons a post =>
    have ha := h.apart (a := a) (by rw [hfb]; simp) hb
    have := h.links.pos a (by rw [hfb]; simp)
    simp only [nextStart_cons] at hstopy ⊢
    omega

/-- What the insertion of `slob_free` leaves on the page `sp'`: a chain from `sp->free` over
free blocks that cover what the old ones and the block covered, with the block's units added. -/
def Inserted (c : Config) (fb : List (ℤ × ℤ)) (b u : ℤ) (sp' : SlobPage) : Prop :=
  ∃ fb', Chain c sp'.mem fb' ∧ sp'.free = nextStart c.pageUnits fb' ∧
    (fb'.map Prod.snd).sum = u + (fb.map Prod.snd).sum ∧
    ∀ x, coverCount fb' x = coverCount ((b, u) :: fb) x

/-- `sp->units += units` stays within the page. -/
theorem PageInv.toSlobidx_units_add (h : PageInv c sp fb live) (hb : (b, u) ∈ live) :
    c.toSlobidx (sp.units + u) = sp.units + u := by
  have hu := h.livePos _ hb
  have htot := h.total
  have hle := h.le_liveSum hb
  have hnn := h.units_nonneg
  simp only at hu hle
  exact c.toSlobidx_eq (by omega) (by omega)

/-- The insertion in front of the first free block, merged with it when they touch. -/
theorem PageInv.insertFree_front (h : PageInv c sp fb live) (hb : (b, u) ∈ live) (hne : fb ≠ [])
    (hlt : b < sp.free) (sp₀ : SlobPage) (hmem : sp₀.mem = sp.mem) (hfree : sp₀.free = sp.free) :
    ∃ sp', c.insertFree sp₀ b u = some sp' ∧ Inserted c fb b u sp' ∧
      sp' = { sp₀ with mem := sp'.mem, free := sp'.free } := by
  have hu := h.livePos _ hb
  have hbin := h.liveInside _ hb
  simp only at hu hbin
  have hchain := h.chain
  obtain ⟨⟨q, kq⟩, rest, rfl⟩ := List.exists_cons_of_ne_nil hne
  have hq : sp.free = q := h.head
  unfold Config.insertFree
  rw [hfree, if_pos hlt, hmem, hq]
  rw [hq] at hlt
  have hkq := hchain.pos (q, kq) (by simp)
  have hbq : b + u ≤ q := by
    have := h.apart (a := (q, kq)) (by simp) hb
    simp only at this hkq
    omega
  have hstore : Chain c (c.setSlob sp.mem b
      (if decide (b + u = q) = true then c.toSlobidx (u + slobUnits sp.mem q) else u)
      (if decide (b + u = q) = true then c.slobNext sp.mem q else q))
      (mergeFront (b, u) ((q, kq) :: rest)) := by
    by_cases htouch : b + u = q
    · have hsum : c.toSlobidx (u + kq) = u + kq := by
        have := hchain.inside (q, kq) (by simp)
        simp only at this hkq
        exact c.toSlobidx_eq (by omega) (by omega)
      simp only [htouch, decide_true, if_true, hchain.decode_head.1, hsum]
      exact hchain.merge hbin.1 hu htouch
    · simp only [htouch, decide_false, Bool.false_eq_true, if_false]
      exact hchain.cons hbin.1 hu hbq fun _ => htouch
  exact ⟨_, rfl, ⟨_, hstore, by simp, by simp [sum_mergeFront],
    coverCount_mergeFront hu.le fun a ha => (hchain.pos a ha).le⟩, rfl⟩

/-- The insertion after the free block `(y, k)` the search stops at: `b` in front of the block
after it, then `(y, k)` in front of `b`, each merged when they touch. -/
theorem PageInv.insertFree_after (h : PageInv c sp fb live) (hb : (b, u) ∈ live) (hne : fb ≠ [])
    (hle : sp.free ≤ b) (sp₀ : SlobPage) (hmem : sp₀.mem = sp.mem) (hfree : sp₀.free = sp.free) :
    ∃ sp', c.insertFree sp₀ b u = some sp' ∧ Inserted c fb b u sp' ∧
      sp' = { sp₀ with mem := sp'.mem, free := sp'.free } := by
  have hu := h.livePos _ hb
  have hbin := h.liveInside _ hb
  simp only at hu hbin
  have hchain := h.chain
  obtain ⟨pre, y, k, post, hfb, hyk, hbu, hwalk⟩ := h.search hb hne hle
  unfold Config.insertFree
  rw [hfree, if_neg (not_lt.2 hle), hmem, hwalk]
  simp only [Option.bind_eq_bind, Option.bind_some]
  subst hfb
  have hat := h.at rfl rfl
  have hk := hat.holds_cur.1
  have hy := hat.cur_inside.1
  simp only at hk hy
  have hpost := hchain.right.tail
  have hstore₁ := hpost.storeNext hat.slobNext_cur hbin.1 hu hbu
  obtain ⟨u₁, rest₁, hmf⟩ := mergeFront_eq_cons (b := (b, u)) (l := post)
  rw [hmf] at hstore₁
  have hstore₂ := hstore₁.storePrev hy hk hyk
    ((slobUnits_congr (by split <;> exact setSlob_apply_lt (by omega) _ _)).trans
      hat.slobUnits_cur)
  rw [← hmf] at hstore₂
  have hgaps := Gaps.append_iff.1 h.gaps
  refine ⟨_, rfl, ⟨_, hstore₂.append ?_ hgaps.1 (fun a ha => h.inside a (by simp [ha])) ?_,
    by simpa [nextStart_append, hfree] using h.head, ?_, fun x => ?_⟩, by rw [← hfree]⟩
  · -- the free blocks before `y` are not written
    rw [nextStart_mergeFront]
    refine hat.links_pre_frame fun x hxy => ?_
    dsimp only at hxy ⊢
    split_ifs <;> rw [setSlob_apply_lt hxy, setSlob_apply_lt (by omega)]
  · intro a ha
    rw [nextStart_mergeFront]
    exact hgaps.2.2 a ha (y, k) (by simp)
  · simp only [List.map_append, List.sum_append, sum_mergeFront, List.map_cons, List.sum_cons]
    ring
  · have hnn : ∀ a ∈ mergeFront (b, u) post, 0 ≤ a.2 := fun a ha => (hstore₁.pos a (hmf ▸ ha)).le
    rw [coverCount_append, coverCount_mergeFront hk.le hnn, coverCount_cons,
      coverCount_mergeFront hu.le (fun a ha => (hpost.pos a ha).le)]
    simp only [coverCount_cons, coverCount_append]
    omega

/-- **`slob_free` on a partially free page**: the block goes back among the free blocks, which
then cover its units as well, and the page stays well formed with the block no longer live. -/
theorem PageInv.insertFree (h : PageInv c sp fb live) (hb : (b, u) ∈ live) (hne : fb ≠ []) :
    ∃ sp', c.insertFree { sp with units := c.toSlobidx (sp.units + u) } b u = some sp' ∧
      PageInv c sp' (c.freeBlocks sp') (live.erase (b, u)) ∧
      (∀ x, coverCount (c.freeBlocks sp') x = coverCount ((b, u) :: fb) x) ∧
      sp'.units = sp.units + u ∧ sp'.nid = sp.nid ∧ sp'.slobFree = sp.slobFree := by
  set sp₀ : SlobPage := { sp with units := c.toSlobidx (sp.units + u) }
  obtain ⟨sp', hrun, ⟨fb', hchain, hhead, hsum, hcount⟩, hsp'⟩ :=
    if hlt : b < sp.free then h.insertFree_front hb hne hlt sp₀ rfl rfl
    else h.insertFree_after hb hne (not_lt.1 hlt) sp₀ rfl rfl
  have hunits : sp'.units = sp.units + u := by
    rw [hsp']
    exact h.toSlobidx_units_add hb
  have hpage := h.release hb hchain hhead hunits hsum hcount
  have hfb : c.freeBlocks sp' = fb' := hpage.freeBlocks_eq
  refine ⟨sp', hrun, by rw [hfb]; exact hpage, fun x => by rw [hfb, hcount], hunits, ?_, ?_⟩ <;>
    rw [hsp']

end Release

end SlobLook.Slob
