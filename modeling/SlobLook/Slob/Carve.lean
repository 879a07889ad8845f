import SlobLook.Slob.Alloc

/-!
# The carving keeps a page well formed

`carve` walks through three writes: `alignHead` splits off the head fragment, `relink` points
the block before the cursor (or `sp->free`) past the carved units, and `unlink` leaves the tail
of the block free.  `Carving.At k pre post` says that the carving variables stand at a free block
of a page whose other free blocks are `pre` before it and `post` after it.  Each step is proved
against it once; `PageInv.carve` assembles them: the page stays well formed, with the head
fragment and the tail as new free blocks (`carveRest`) and the carved units as a new live block.
-/

namespace SlobLook.Slob

open Tiling

/-- The carving variables `k` stand at the free block `(k.cur, k.avail)` of a page whose other
free blocks are `pre` before it and `post` after it: the blocks are stored as a chain, in order
and inside the page, `prev` is the block before the cursor and `sp->free` the first one.  The
block before the cursor may end right at it: that is the head fragment `alignHead` leaves. -/
structure Carving.At (c : Config) (k : Carving) (pre post : List (ℤ × ℤ)) : Prop where
  links : Links k.mem c.pageUnits (pre ++ (k.cur, k.avail) :: post)
  gapsPre : Gaps pre
  gapsPost : Gaps post
  before : ∀ b ∈ pre, b.1 + b.2 ≤ k.cur
  after : ∀ b ∈ post, k.cur + k.avail < b.1
  inside : ∀ b ∈ pre ++ (k.cur, k.avail) :: post, 0 ≤ b.1 ∧ b.1 + b.2 ≤ c.pageUnits
  prev : k.prev = pre.getLast?.map Prod.fst
  free : k.free = nextStart k.cur pre

/-- The units of a block of `avail` units at `cur` that stay free when `u` of them are handed
out from its start. -/
def tailRest (cur avail u : ℤ) : List (ℤ × ℤ) := if avail = u then [] else [(cur + u, avail - u)]

/-- The free blocks a carving leaves of the block `(o, k)`: the head fragment before the
aligned start `o + d`, and the tail after the `u` units handed out. -/
def carveRest (o k d u : ℤ) : List (ℤ × ℤ) :=
  (if d = 0 then [] else [(o, d)]) ++ tailRest (o + d) (k - d) u

namespace Config

variable (c : Config) {k : Carving}

theorem relink_of_none (hp : k.prev = none) (t : ℤ) : c.relink k t = { k with free := t } := by
  simp [relink, hp]

theorem relink_of_some {p : ℤ} (hp : k.prev = some p) (t : ℤ) :
    c.relink k t = { k with mem := c.setSlob k.mem p (slobUnits k.mem p) t } := by
  simp [relink, hp]

@[simp] theorem relink_cur (t : ℤ) : (c.relink k t).cur = k.cur := by
  unfold relink
  split <;> rfl

@[simp] theorem relink_avail (t : ℤ) : (c.relink k t).avail = k.avail := by
  unfold relink
  split <;> rfl

end Config

namespace Carving.At

variable {c : Config} {k : Carving} {pre post : List (ℤ × ℤ)}

theorem links_pre (h : k.At c pre post) : Links k.mem k.cur pre := by
  simpa using (links_append.1 h.links).1

theorem holds_cur (h : k.At c pre post) :
    Holds k.mem k.cur k.avail (nextStart c.pageUnits post) :=
  (links_append.1 h.links).2.1

theorem links_post (h : k.At c pre post) : Links k.mem c.pageUnits post :=
  (links_append.1 h.links).2.2

theorem cur_inside (h : k.At c pre post) : 0 ≤ k.cur ∧ k.cur + k.avail ≤ c.pageUnits :=
  h.inside (k.cur, k.avail) (by simp)

theorem pre_inside (h : k.At c pre post) : ∀ b ∈ pre, 0 ≤ b.1 ∧ b.1 + b.2 ≤ c.pageUnits :=
  fun b hb => h.inside b (List.mem_append_left _ hb)

theorem post_inside (h : k.At c pre post) : ∀ b ∈ post, 0 ≤ b.1 ∧ b.1 + b.2 ≤ c.pageUnits :=
  fun b hb => h.inside b (by simp [hb])

/-- The block after the cursor, or the end of the page, lies past it and inside the page. -/
theorem next_bounds (h : k.At c pre post) :
    k.cur + k.avail ≤ nextStart c.pageUnits post ∧ nextStart c.pageUnits post ≤ c.pageUnits := by
  cases post with
  | nil => simpa using h.cur_inside.2
  | cons b post =>
    have hb := h.after b (by simp)
    have hin := h.post_inside b (by simp)
    have hpos := h.links_post.pos b (by simp)
    simp only [nextStart_cons]
    omega

/-- A write at or above the cursor leaves the chain before it as it was. -/
theorem links_pre_frame (h : k.At c pre post) {mem : ℤ → ℤ}
    (hframe : ∀ x, x < k.cur → mem x = k.mem x) : Links mem k.cur pre :=
  h.links_pre.congr fun b hb x _ hx => hframe x (by have := h.before b hb; omega)

/-- A write below the end of the cursor's block leaves the chain after it as it was. -/
theorem links_post_frame (h : k.At c pre post) {mem : ℤ → ℤ}
    (hframe : ∀ x, k.cur + k.avail ≤ x → mem x = k.mem x) : Links mem c.pageUnits post :=
  h.links_post.congr fun b hb x hx _ => hframe x (by have := h.after b hb; omega)

theorem slobUnits_cur (h : k.At c pre post) : slobUnits k.mem k.cur = k.avail := by
  have := h.cur_inside
  exact (h.holds_cur.decode (c := c) (by have := h.next_bounds; have := h.holds_cur.1; omega)
    h.next_bounds.2).1

theorem slobNext_cur (h : k.At c pre post) :
    c.slobNext k.mem k.cur = nextStart c.pageUnits post := by
  have := h.holds_cur.1
  have := h.cur_inside
  exact (h.holds_cur.decode (by have := h.next_bounds; omega) h.next_bounds.2).2

/-- **`relink`** makes the blocks before the cursor end at `target`; it writes only before the
cursor. -/
theorem relink (h : k.At c pre post) {target : ℤ} (ht : 0 ≤ target) (htN : target ≤ c.pageUnits) :
    Links (c.relink k target).mem target pre ∧ (c.relink k target).free = nextStart target pre ∧
      (∀ x, k.cur ≤ x → (c.relink k target).mem x = k.mem x) ∧
      (c.relink k target).cur = k.cur ∧ (c.relink k target).avail = k.avail := by
  rcases List.eq_nil_or_concat' pre with rfl | ⟨pre', ⟨p, kp⟩, rfl⟩
  · -- no block before the cursor: `sp->free = target`
    have hprev : k.prev = none := by simpa using h.prev
    rw [c.relink_of_none hprev]
    exact ⟨trivial, rfl, fun _ _ => rfl, rfl, rfl⟩
  · -- `set_slob(prev, slob_units(prev), target)` rewrites the last block before the cursor
    have hprev : k.prev = some p := by simpa using h.prev
    rw [c.relink_of_some hprev]
    have hsplit := links_append.1 h.links_pre
    have hp : Holds k.mem p kp k.cur := by simpa using hsplit.2
    have hpin := h.pre_inside (p, kp) (by simp)
    have hpcur := h.before (p, kp) (by simp)
    have hcur := h.cur_inside
    have havail := h.holds_cur.1
    have hkp := hp.1
    simp only at hpin hpcur
    have hunits : slobUnits k.mem p = kp := (hp.decode (c := c) (by omega) (by omega)).1
    rw [hunits]
    have hframe : ∀ x, x < p ∨ p + kp ≤ x → c.setSlob k.mem p kp target x = k.mem x :=
      fun x hx => setSlob_apply hkp (by omega) hx
    refine ⟨?_, ?_, fun x hx => hframe x (Or.inr (by omega)), rfl, rfl⟩
    · -- the blocks before `prev` end before it, and `prev` now names `target`
      have hgaps := (Gaps.append_iff.1 h.gapsPre).2.2
      refine links_append.2 ⟨?_, ?_⟩
      · refine (by simpa using hsplit.1 : Links k.mem p pre').congr fun b hb x hx₁ hx₂ => ?_
        have := hgaps b hb (p, kp) (by simp)
        exact hframe x (Or.inl (by simp at this; omega))
      · exact ⟨holds_setSlob hkp (by omega) ht htN, trivial⟩
    · have hfree := h.free
      cases pre' <;> simpa using hfree

/-- **`alignHead`** splits the block at the cursor into the head fragment, now behind the
cursor, and the aligned rest.  A used unit must separate the blocks before the cursor from it. -/
theorem alignHead (h : k.At c pre post) (hstrict : ∀ b ∈ pre, b.1 + b.2 < k.cur) {d : ℤ}
    (hd : 0 < d) (hdk : d < k.avail) :
    (c.alignHead k d).At c (pre ++ [(k.cur, d)]) post ∧ (c.alignHead k d).cur = k.cur + d ∧
      (c.alignHead k d).avail = k.avail - d := by
  have hcur := h.cur_inside
  have hnext := h.next_bounds
  set next := nextStart c.pageUnits post
  set mem₁ := c.setSlob k.mem (k.cur + d) (k.avail - d) next
  set mem₂ := c.setSlob mem₁ k.cur d (k.cur + d)
  have hk' : c.alignHead k d =
      { k with mem := mem₂, prev := some k.cur, cur := k.cur + d,
               avail := slobUnits mem₂ (k.cur + d) } := by
    simp [Config.alignHead, hd.ne', h.slobNext_cur, mem₁, mem₂, next]
  -- what the two writes leave
  have h₁ : Holds mem₁ (k.cur + d) (k.avail - d) next :=
    holds_setSlob (by omega) (by omega) (by omega) hnext.2
  have h₂ : Holds mem₂ (k.cur + d) (k.avail - d) next :=
    h₁.congr fun x hx _ => setSlob_apply hd (by omega) (Or.inr (by omega))
  have h₃ : Holds mem₂ k.cur d (k.cur + d) := holds_setSlob hd (by omega) (by omega) (by omega)
  have hframe : ∀ x, x < k.cur ∨ k.cur + k.avail ≤ x → mem₂ x = k.mem x := by
    intro x hx
    have e₂ : mem₂ x = mem₁ x := setSlob_apply (c := c) hd (by omega) (by omega)
    have e₁ : mem₁ x = k.mem x := setSlob_apply (c := c) (by omega) (by omega) (by omega)
    rw [e₂, e₁]
  have havail : slobUnits mem₂ (k.cur + d) = k.avail - d :=
    (h₂.decode (c := c) (by omega) hnext.2).1
  rw [hk']
  refine ⟨⟨?_, ?_, h.gapsPost, ?_, ?_, ?_, by simp, ?_⟩, rfl, havail⟩ <;> try dsimp only
  · -- the chain: `pre`, the head fragment, the aligned block, `post`
    simp only [havail, List.append_assoc, List.singleton_append]
    exact links_append.2 ⟨h.links_pre_frame fun x hx => hframe x (.inl hx), h₃, h₂,
      h.links_post_frame fun x hx => hframe x (.inr hx)⟩
  · refine Gaps.append_iff.2 ⟨h.gapsPre, by simp [Gaps], fun a ha b hb => ?_⟩
    have := hstrict a ha
    simp at hb
    subst hb
    exact this
  · intro b hb
    rcases List.mem_append.1 hb with hb | hb
    · have := h.before b hb
      omega
    · simp at hb
      subst hb
      simp
  · intro b hb
    have := h.after b hb
    rw [havail]
    omega
  · intro b hb
    simp only [havail, List.append_assoc, List.singleton_append, List.mem_append,
      List.mem_cons] at hb
    rcases hb with hb | rfl | rfl | hb
    · exact h.pre_inside b hb
    · simp
      omega
    · simp
      omega
    · exact h.post_inside b hb
  · have := h.free
    simp only [nextStart_append, nextStart_cons]
    cases pre <;> simpa using this

/-- **`unlink`** takes `u` units from the start of the block at the cursor: the chain now runs
from the blocks before the cursor through the tail of the block, if any, to the blocks after. -/
theorem unlink (h : k.At c pre post) {u : ℤ} (hu : 0 < u) (hua : u ≤ k.avail) :
    Links (c.unlink k u).mem c.pageUnits (pre ++ tailRest k.cur k.avail u ++ post) ∧
      (c.unlink k u).free = nextStart c.pageUnits (pre ++ tailRest k.cur k.avail u ++ post) ∧
      (c.unlink k u).cur = k.cur := by
  have hcur := h.cur_inside
  have hnext := h.next_bounds
  by_cases hexact : k.avail = u
  · -- exact fit: the block before the cursor now names the block after it
    have hk' : c.unlink k u = c.relink k (nextStart c.pageUnits post) := by
      simp [Config.unlink, hexact, h.slobNext_cur]
    obtain ⟨hpre, hfree, hframe, hcur', -⟩ := h.relink (by omega) hnext.2
    rw [hk']
    simp only [tailRest, hexact, if_true, List.append_nil]
    have havail := h.holds_cur.1
    exact ⟨links_append.2 ⟨hpre, h.links_post_frame fun x hx => hframe x (by omega)⟩,
      by rw [hfree, nextStart_append], hcur'⟩
  · -- fragment: the block before the cursor names the tail, which names the block after
    have hk' : c.unlink k u =
        let k₁ := c.relink k (k.cur + u)
        { k₁ with mem := c.setSlob k₁.mem (k.cur + u) (k.avail - u) (nextStart c.pageUnits post) } := by
      simp [Config.unlink, hexact, h.slobNext_cur]
    obtain ⟨hpre, hfree, hframe, hcur', havail'⟩ := h.relink (show (0 : ℤ) ≤ k.cur + u by omega) (by omega)
    rw [hk']
    simp only [tailRest, hexact, if_false]
    have hpos : 0 < k.avail - u := by omega
    have hwrite : ∀ x, x < k.cur + u ∨ k.cur + k.avail ≤ x →
        c.setSlob (c.relink k (k.cur + u)).mem (k.cur + u) (k.avail - u)
          (nextStart c.pageUnits post) x = (c.relink k (k.cur + u)).mem x :=
      fun x hx => setSlob_apply hpos (by omega) (by omega)
    refine ⟨?_, by simp [hfree, nextStart_append], hcur'⟩
    simp only [List.append_assoc, List.singleton_append]
    refine links_append.2 ⟨?_, holds_setSlob hpos (by omega) (by omega) hnext.2, ?_⟩
    · refine hpre.congr fun b hb x hx₁ hx₂ => hwrite x (Or.inl ?_)
      have := h.before b hb
      omega
    · exact h.links_post_frame fun x hx => by rw [hwrite x (.inr hx), hframe x (by omega)]

/-- The free blocks after an `unlink` are still in order with a used unit between two of them:
the units handed out separate the blocks before the cursor from the tail. -/
theorem gaps_unlink (h : k.At c pre post) {u : ℤ} (hu : 0 < u) (hua : u ≤ k.avail) :
    Gaps (pre ++ tailRest k.cur k.avail u ++ post) := by
  have hpre_post : ∀ a ∈ pre, ∀ b ∈ post, a.1 + a.2 < b.1 := fun a ha b hb => by
    have := h.before a ha
    have := h.after b hb
    omega
  unfold tailRest
  split_ifs with hexact
  · simpa using Gaps.append_iff.2 ⟨h.gapsPre, h.gapsPost, hpre_post⟩
  · refine Gaps.append_iff.2 ⟨Gaps.append_iff.2 ⟨h.gapsPre, by simp [Gaps], ?_⟩, h.gapsPost, ?_⟩
    · intro a ha b hb
      simp at hb
      subst hb
      have := h.before a ha
      simp only
      omega
    · intro a ha b hb
      rcases List.mem_append.1 ha with ha | ha
      · exact hpre_post a ha b hb
      · simp at ha
        subst ha
        have := h.after b hb
        simp only
        omega

end Carving.At

/-! ## A carving keeps the page invariant -/

section CarvePage

variable {c : Config} {sp : SlobPage} {fb live pre post : List (ℤ × ℤ)} {prev : Option ℤ}
  {o k d u : ℤ}

/-- The carving variables at a free block of a well-formed page. -/
theorem PageInv.at (h : PageInv c sp fb live) (hfb : fb = pre ++ (o, k) :: post)
    (hprev : prev = pre.getLast?.map Prod.fst) :
    (Carving.mk sp.mem sp.free prev o k).At c pre post := by
  subst hfb
  have hg := Gaps.append_iff.1 h.gaps
  refine ⟨h.links, hg.1, (Gaps.cons_iff.1 hg.2.1).2, fun b hb => ?_, (Gaps.cons_iff.1 hg.2.1).1,
    h.inside, hprev, ?_⟩
  · exact (hg.2.2 b hb (o, k) (by simp)).le
  · rw [h.head, nextStart_append]
    rfl

/-- Where a carving puts the units and what it leaves free of the block. -/
theorem carve_spec (h : PageInv c sp fb live) (hfb : fb = pre ++ (o, k) :: post)
    (hprev : prev = pre.getLast?.map Prod.fst) (hd : 0 ≤ d) (hu : 0 < u) (hdu : d + u ≤ k) :
    (c.carve sp prev o k d u).2 = o + d ∧
      Links (c.carve sp prev o k d u).1.mem c.pageUnits (pre ++ carveRest o k d u ++ post) ∧
      Gaps (pre ++ carveRest o k d u ++ post) ∧
      (c.carve sp prev o k d u).1.free = nextStart c.pageUnits (pre ++ carveRest o k d u ++ post) := by
  have hat := h.at hfb hprev
  have hstrict : ∀ b ∈ pre, b.1 + b.2 < o := fun b hb =>
    (Gaps.append_iff.1 (hfb ▸ h.gaps)).2.2 b hb (o, k) (by simp)
  unfold Config.carve
  by_cases hd0 : d = 0
  · -- no head fragment
    subst hd0
    have hk : c.alignHead ⟨sp.mem, sp.free, prev, o, k⟩ 0 = ⟨sp.mem, sp.free, prev, o, k⟩ := by
      simp [Config.alignHead]
    obtain ⟨hl, hf, hc⟩ := hat.unlink hu (by show u ≤ k; omega)
    have hg := hat.gaps_unlink hu (by show u ≤ k; omega)
    simp only [carveRest, if_true, List.nil_append, add_zero, sub_zero, hk]
    exact ⟨by simpa using hc, hl, hg, hf⟩
  · -- the head fragment stays free before the aligned block
    obtain ⟨hat', hcur, havail⟩ := hat.alignHead hstrict (lt_of_le_of_ne hd (Ne.symm hd0))
      (by show d < k; omega)
    simp only at hcur havail
    obtain ⟨hl, hf, hc⟩ := hat'.unlink hu (by rw [havail]; omega)
    have hg := hat'.gaps_unlink hu (by rw [havail]; omega)
    rw [hcur, havail] at hl hf hg
    simp only [carveRest, hd0, if_false, List.append_assoc, List.singleton_append] at hl hf hg ⊢
    exact ⟨by rw [hc, hcur], hl, hg, hf⟩

theorem mem_carveRest {I : ℤ × ℤ} (hI : I ∈ carveRest o k d u) (hd : 0 ≤ d) (hu : 0 ≤ u)
    (hdu : d + u ≤ k) : o ≤ I.1 ∧ I.1 + I.2 ≤ o + k := by
  simp only [carveRest, tailRest, List.mem_append] at hI
  rcases hI with hI | hI
  · split_ifs at hI with h0
    · simp at hI
    · simp only [List.mem_singleton] at hI
      subst hI
      simp only
      omega
  · split_ifs at hI with h0
    · simp at hI
    · simp only [List.mem_singleton] at hI
      subst hI
      simp only
      omega

/-- The pieces a carving makes of a block cover each unit as the block did. -/
theorem coverCount_carveRest (hd : 0 ≤ d) (hu : 0 ≤ u) (hdu : d + u ≤ k) (x : ℤ) :
    coverCount (carveRest o k d u ++ [(o + d, u)]) x = coverCount [(o, k)] x := by
  have hhead : coverCount (if d = 0 then [] else [(o, d)]) x = coverCount [(o, d)] x := by
    split_ifs with h0
    · subst h0
      simp [Covers]
    · rfl
  have htail : coverCount (tailRest (o + d) (k - d) u) x = coverCount [(o + d + u, k - d - u)] x := by
    unfold tailRest
    split_ifs with h0
    · rw [show k - d - u = 0 by omega, coverCount_cons_zero]
    · rfl
  have hsplit₁ := coverCount_split hd (show 0 ≤ k - d by omega) o x
  have hsplit₂ := coverCount_split hu (show 0 ≤ k - d - u by omega) (o + d) x
  rw [show d + (k - d) = k by ring] at hsplit₁
  rw [show u + (k - d - u) = k - d by ring] at hsplit₂
  simp only [carveRest, coverCount_append, hhead, htail]
  simp only [coverCount_cons, coverCount_nil] at hsplit₁ hsplit₂ ⊢
  omega

/-- **A carving keeps the page well formed**: the carved units become a live block at the aligned
start `o + d`, and the head fragment and the tail stay free. -/
theorem PageInv.carve (h : PageInv c sp fb live) (hfb : fb = pre ++ (o, k) :: post)
    (hprev : prev = pre.getLast?.map Prod.fst) (hd : 0 ≤ d) (hu : 0 < u) (hdu : d + u ≤ k) :
    (c.carve sp prev o k d u).2 = o + d ∧
      PageInv c (c.carve sp prev o k d u).1 (pre ++ carveRest o k d u ++ post) ((o + d, u) :: live) ∧
      (c.carve sp prev o k d u).1.units = sp.units - u ∧
      (c.carve sp prev o k d u).1.nid = sp.nid ∧
      (c.carve sp prev o k d u).1.slobFree = sp.slobFree := by
  obtain ⟨hb, hl, hg, hf⟩ := carve_spec h hfb hprev hd hu hdu
  have hunits0 := h.units_nonneg
  have hunits1 := h.units_le
  -- the carved block is one of the page's free blocks, so its units are among `sp->units`
  have hk_le : k ≤ sp.units := h.le_units (b := (o, k)) (by simp [hfb])
  have hk0 : 0 < k := h.links.pos (o, k) (by simp [hfb])
  have hunits : (c.carve sp prev o k d u).1.units = sp.units - u := by
    simp only [Config.carve]
    exact c.toSlobidx_eq (by omega) (by omega)
  have hok := h.inside (o, k) (by simp [hfb])
  simp only at hok
  refine ⟨hb, ⟨hl, hf, hg, ?_, ?_, ?_, ?_⟩, hunits, rfl, rfl⟩
  · -- units: the carving took `u` of the block's units
    have hsum : ((pre ++ carveRest o k d u ++ post).map Prod.snd).sum =
        (fb.map Prod.snd).sum - u := by
      rw [hfb]
      unfold carveRest tailRest
      split_ifs <;> simp <;> omega
    rw [hunits, hsum, h.units]
  · -- the tiling: the block became its pieces and the carved units
    refine h.tiles.congr (fun I hI => ?_) fun x => ?_
    · simp only [List.mem_append, List.mem_cons] at hI
      rcases hI with ((hI | hI) | hI) | rfl | hI
      · exact h.inside I (by simp [hfb, hI])
      · have := mem_carveRest hI hd hu.le hdu
        omega
      · exact h.inside I (by simp [hfb, hI])
      · simp only
        omega
      · exact h.liveInside I hI
    · have hcc := coverCount_carveRest (o := o) hd hu.le hdu x
      rw [hfb]
      simp only [coverCount_append, coverCount_cons, coverCount_nil] at hcc ⊢
      omega
  · intro b hb
    rcases List.mem_cons.1 hb with rfl | hb
    · exact hu
    · exact h.livePos b hb
  · rw [hunits]
    have := h.total
    simp only [List.map_cons, List.sum_cons]
    omega

end CarvePage

end SlobLook.Slob
