import SlobLook.Slob.Config
import SlobLook.Lib.Walk
import SlobLook.Lib.Cover

/-!
# Slob pages and the encoding of their free blocks

A slob page is a page of `slob_t` cells, each holding one `slobidx_t` (`units`).  The page's
free blocks form a chain, in the cells of the blocks themselves: `set_slob` writes a block of
more than one unit as its size followed by the offset of the next free block, and a block of one
unit as the negated offset alone; `slob_units` and `slob_next` read them back and `slob_last`
tests whether the next offset is the end of the page.

Offsets are counted in units from the page base, so that a pointer `base + x` of the source is
the offset `x` here.  `Holds mem s k n` says what `set_slob(s, k, n)` leaves in the cells of
`[s, s + k)`; `Links mem t fb` says that the blocks `fb` are stored in that form, each naming the
next and the last naming `t`.  Reading such a chain with `slob_units` and `slob_next` walks it
(`Links.isWalk`), and it is kept by every write outside its blocks (`Links.congr`).
-/

namespace SlobLook.Slob

/-- The fields of `struct slob_page` that `slob.c` uses, with the page's cells. -/
structure SlobPage where
  /-- free units left in page (`slobidx_t`) -/
  units : ℤ
  /-- first free `slob_t` in page, as an offset -/
  free : ℤ
  /-- the `units` field of each `slob_t` of the page, by offset -/
  mem : ℤ → ℤ
  /-- `page_to_nid(&sp->page)` -/
  nid : ℕ
  /-- `PageSlobFree(sp)` -/
  slobFree : Bool

/-- `slob_units(s)`: the size of the block at `s`. -/
def slobUnits (mem : ℤ → ℤ) (s : ℤ) : ℤ := if 0 < mem s then mem s else 1

namespace Config

variable (c : Config)

/-- `set_slob(s, size, next)`: both arguments pass through `slobidx_t`; a block of more than one
unit keeps its size and next offset in two cells, a block of one unit the negated offset. -/
def setSlob (mem : ℤ → ℤ) (s size next : ℤ) : ℤ → ℤ :=
  let size := c.toSlobidx size
  let offset := c.toSlobidx next
  if 1 < size then Function.update (Function.update mem s size) (s + 1) offset
  else Function.update mem s (c.toSlobidx (-offset))

/-- `slob_next(s)`: the offset of the next free block after the one at `s`. -/
def slobNext (mem : ℤ → ℤ) (s : ℤ) : ℤ :=
  if mem s < 0 then c.toSlobidx (-mem s) else mem (s + 1)

/-- `slob_last(s)`: the next free block after `s` starts on a page boundary.  The page base is
page aligned, so only the offset counts. -/
def slobLast (mem : ℤ → ℤ) (s : ℤ) : Bool :=
  c.slobNext mem s * c.SLOB_UNIT % c.PAGE_SIZE == 0

end Config

/-! ## The stored form of a free block -/

/-- The cells of `[s, s + k)` hold a free block of `k` units whose next free block is at `n`:
`k` and `n` in its first two cells if `k > 1`, and `-n` in its one cell if `k = 1`. -/
def Holds (mem : ℤ → ℤ) (s k n : ℤ) : Prop :=
  0 < k ∧ if 1 < k then mem s = k ∧ mem (s + 1) = n else mem s = -n

/-- The start of the first block of `l`, or `t` past the last one. -/
def nextStart (t : ℤ) : List (ℤ × ℤ) → ℤ
  | [] => t
  | b :: _ => b.1

@[simp] theorem nextStart_nil (t : ℤ) : nextStart t [] = t := rfl

@[simp] theorem nextStart_cons (t : ℤ) (b : ℤ × ℤ) (l : List (ℤ × ℤ)) :
    nextStart t (b :: l) = b.1 := rfl

theorem nextStart_append (t : ℤ) (l₁ l₂ : List (ℤ × ℤ)) :
    nextStart t (l₁ ++ l₂) = nextStart (nextStart t l₂) l₁ := by
  cases l₁ <;> rfl

/-- The blocks `fb` (offset, size) are stored as a chain: each holds its size and the offset of
the block after it, the last one the offset `t`. -/
def Links (mem : ℤ → ℤ) (t : ℤ) : List (ℤ × ℤ) → Prop
  | [] => True
  | b :: l => Holds mem b.1 b.2 (nextStart t l) ∧ Links mem t l

@[simp] theorem links_nil (mem : ℤ → ℤ) (t : ℤ) : Links mem t [] := trivial

@[simp] theorem links_cons (mem : ℤ → ℤ) (t : ℤ) (b : ℤ × ℤ) (l : List (ℤ × ℤ)) :
    Links mem t (b :: l) ↔ Holds mem b.1 b.2 (nextStart t l) ∧ Links mem t l := Iff.rfl

/-- A chain splits where a list does: the first part ends at the start of the second. -/
theorem links_append {mem : ℤ → ℤ} {t : ℤ} {l₁ l₂ : List (ℤ × ℤ)} :
    Links mem t (l₁ ++ l₂) ↔ Links mem (nextStart t l₂) l₁ ∧ Links mem t l₂ := by
  induction l₁ with
  | nil => simp
  | cons b l₁ ih =>
    simp only [List.cons_append, links_cons, ih, nextStart_append]
    tauto

/-- `Holds` reads only the cells of its block. -/
theorem Holds.congr {mem mem' : ℤ → ℤ} {s k n : ℤ} (h : Holds mem s k n)
    (hagree : ∀ x, s ≤ x → x < s + k → mem' x = mem x) : Holds mem' s k n := by
  obtain ⟨hk, hcells⟩ := h
  refine ⟨hk, ?_⟩
  split_ifs at hcells ⊢ with h1
  · rw [hagree s le_rfl (by omega), hagree (s + 1) (by omega) (by omega)]
    exact hcells
  · rw [hagree s le_rfl (by omega)]
    exact hcells

/-- A chain reads only the cells of its blocks. -/
theorem Links.congr {mem mem' : ℤ → ℤ} {t : ℤ} {l : List (ℤ × ℤ)} (h : Links mem t l)
    (hagree : ∀ b ∈ l, ∀ x, b.1 ≤ x → x < b.1 + b.2 → mem' x = mem x) : Links mem' t l := by
  induction l with
  | nil => trivial
  | cons b l ih =>
    exact ⟨h.1.congr (hagree b (by simp)),
      ih h.2 fun b' hb' => hagree b' (List.mem_cons_of_mem _ hb')⟩

theorem Links.pos {mem : ℤ → ℤ} {t : ℤ} {l : List (ℤ × ℤ)} (h : Links mem t l) :
    ∀ b ∈ l, 0 < b.2 := by
  induction l with
  | nil => simp
  | cons b l ih =>
    intro b' hb'
    rcases List.mem_cons.1 hb' with rfl | hb'
    · exact h.1.1
    · exact ih h.2 b' hb'

/-- Each free block ends, and a used unit passes, before any later one starts. -/
def Gaps (fb : List (ℤ × ℤ)) : Prop := fb.Pairwise fun a b => a.1 + a.2 < b.1

theorem Gaps.cons_iff {b : ℤ × ℤ} {l : List (ℤ × ℤ)} :
    Gaps (b :: l) ↔ (∀ b' ∈ l, b.1 + b.2 < b'.1) ∧ Gaps l := List.pairwise_cons

theorem Gaps.append_iff {l₁ l₂ : List (ℤ × ℤ)} :
    Gaps (l₁ ++ l₂) ↔ Gaps l₁ ∧ Gaps l₂ ∧ ∀ a ∈ l₁, ∀ b ∈ l₂, a.1 + a.2 < b.1 :=
  List.pairwise_append

/-! ## Writing and reading a block -/

section Encode

variable {c : Config} {mem : ℤ → ℤ} {s k n : ℤ}

/-- `set_slob` writes what `Holds` reads, for a size and a next offset within the page. -/
theorem holds_setSlob (hk : 0 < k) (hkN : k ≤ c.pageUnits) (hn : 0 ≤ n)
    (hnN : n ≤ c.pageUnits) : Holds (c.setSlob mem s k n) s k n := by
  have hk' : c.toSlobidx k = k := c.toSlobidx_eq (by omega) hkN
  have hn' : c.toSlobidx n = n := c.toSlobidx_eq (by omega) hnN
  have hneg : c.toSlobidx (-n) = -n := c.toSlobidx_eq (by omega) (by omega)
  refine ⟨hk, ?_⟩
  unfold Config.setSlob
  simp only [hk', hn', hneg]
  split_ifs with h1
  · simp
  · simp

/-- `set_slob` changes no cell outside the block it writes. -/
theorem setSlob_apply (hk : 0 < k) (hkN : k ≤ c.pageUnits) {x : ℤ} (hx : x < s ∨ s + k ≤ x) :
    c.setSlob mem s k n x = mem x := by
  have hk' : c.toSlobidx k = k := c.toSlobidx_eq (by omega) hkN
  unfold Config.setSlob
  simp only [hk']
  split_ifs with h1
  · rw [Function.update_apply, if_neg (by omega), Function.update_apply, if_neg (by omega)]
  · rw [Function.update_apply, if_neg (by omega)]

/-- A stored block reads back through `slob_units` and `slob_next`. -/
theorem Holds.decode (h : Holds mem s k n) (hn : 0 < n) (hnN : n ≤ c.pageUnits) :
    slobUnits mem s = k ∧ c.slobNext mem s = n := by
  obtain ⟨hk, hcells⟩ := h
  unfold slobUnits Config.slobNext
  split_ifs at hcells with h1
  · rw [hcells.1, if_pos hk, if_neg (by omega), hcells.2]
    exact ⟨rfl, rfl⟩
  · rw [hcells, if_neg (by omega), if_pos (by omega), neg_neg, c.toSlobidx_eq (by omega) hnN]
    exact ⟨by omega, rfl⟩

end Encode

namespace Config

variable (c : Config)

/-- An offset within the page is a page boundary only at the end of the page. -/
theorem boundary_iff {n : ℤ} (hn : 0 < n) (hnN : n ≤ c.pageUnits) :
    n * c.SLOB_UNIT % c.PAGE_SIZE = 0 ↔ n = c.pageUnits := by
  have hmul : (c.pageUnits : ℤ) * c.SLOB_UNIT = c.PAGE_SIZE := by exact_mod_cast c.pageUnits_mul
  have hU : (0 : ℤ) < c.SLOB_UNIT := by exact_mod_cast c.SLOB_UNIT_pos
  constructor
  · intro hmod
    obtain ⟨q, hq⟩ := Int.dvd_of_emod_eq_zero hmod
    -- `0 < n * SLOB_UNIT ≤ PAGE_SIZE`, so the multiple is the page size itself
    have hlo : 0 < n * c.SLOB_UNIT := mul_pos hn hU
    have hhi : n * c.SLOB_UNIT ≤ c.PAGE_SIZE := by
      rw [← hmul]; exact mul_le_mul_of_nonneg_right hnN hU.le
    have hP : (0 : ℤ) < c.PAGE_SIZE := by rw [← hmul]; exact mul_pos (by omega) hU
    have hq1 : q = 1 := by
      rcases lt_trichotomy q 1 with hq' | rfl | hq'
      · nlinarith
      · rfl
      · nlinarith
    rw [hq1, mul_one, ← hmul] at hq
    exact mul_right_cancel₀ hU.ne' hq
  · rintro rfl
    rw [hmul, Int.emod_self]

end Config

/-! ## Reading the chain -/

section Walk

variable (c : Config)

/-- The free blocks start at increasing offsets when each ends before the next starts. -/
theorem Gaps.pairwise_lt {l : List (ℤ × ℤ)} (hg : Gaps l) (hpos : ∀ b ∈ l, 0 < b.2) :
    (l.map Prod.fst).Pairwise (· < ·) :=
  List.pairwise_map.2 (hg.imp_of_mem fun ha _ hab => by have := hpos _ ha; omega)

/-- **Reading a stored chain walks it.**  From the first block, `slob_next` visits the blocks
in order, `slob_units` gives each one's size, and `slob_last` holds at the last one only, when
the blocks start at increasing offsets inside the page. -/
theorem Links.isWalk_of_lt {mem : ℤ → ℤ} {o k : ℤ} {l : List (ℤ × ℤ)}
    (h : Links mem c.pageUnits ((o, k) :: l))
    (hlt : (((o, k) :: l).map Prod.fst).Pairwise (· < ·))
    (hin : ∀ b ∈ (o, k) :: l, 0 ≤ b.1 ∧ b.1 < c.pageUnits) :
    LinkWalk.IsWalk (c.slobNext mem) (c.slobLast mem) o (((o, k) :: l).map Prod.fst) ∧
      ∀ b ∈ (o, k) :: l, slobUnits mem b.1 = b.2 := by
  induction l generalizing o k with
  | nil =>
    have hh : Holds mem o k c.pageUnits := h.1
    have hdec := hh.decode (by exact_mod_cast c.pageUnits_pos) le_rfl
    refine ⟨⟨rfl, ?_⟩, by simpa using hdec.1⟩
    simp only [Config.slobLast, hdec.2, beq_iff_eq]
    exact (c.boundary_iff (by exact_mod_cast c.pageUnits_pos) le_rfl).2 rfl
  | cons b l ih =>
    obtain ⟨o', k'⟩ := b
    have hlt' := List.pairwise_cons.1 hlt
    have hoo' : o < o' := hlt'.1 o' (by simp)
    have hin₀ := hin (o, k) (by simp)
    have hin' := hin (o', k') (by simp)
    simp only at hin₀ hin'
    have hh : Holds mem o k o' := h.1
    have hdec := hh.decode (c := c) (by omega) (by omega)
    obtain ⟨hwalk, hunits⟩ := ih h.2 hlt'.2 (fun b' hb' => hin b' (List.mem_cons_of_mem _ hb'))
    refine ⟨⟨rfl, ?_, ?_⟩, ?_⟩
    · -- the next block starts inside the page, not at its end
      simp only [Config.slobLast, hdec.2, beq_eq_false_iff_ne, ne_eq]
      rw [c.boundary_iff (by omega) (by omega)]
      omega
    · simpa only [hdec.2, List.map_cons] using hwalk
    · intro b' hb'
      rcases List.mem_cons.1 hb' with rfl | hb'
      · exact hdec.1
      · exact hunits b' hb'

/-- The same for a chain with a used unit between two free blocks. -/
theorem Links.isWalk {mem : ℤ → ℤ} {o k : ℤ} {l : List (ℤ × ℤ)}
    (h : Links mem c.pageUnits ((o, k) :: l)) (hg : Gaps ((o, k) :: l))
    (hin : ∀ b ∈ (o, k) :: l, 0 ≤ b.1 ∧ b.1 + b.2 ≤ c.pageUnits) :
    LinkWalk.IsWalk (c.slobNext mem) (c.slobLast mem) o (((o, k) :: l).map Prod.fst) ∧
      ∀ b ∈ (o, k) :: l, slobUnits mem b.1 = b.2 :=
  Links.isWalk_of_lt c h (hg.pairwise_lt h.pos) fun b hb => by
    have := hin b hb
    have := h.pos b hb
    exact ⟨by omega, by omega⟩

/-- Offsets that increase inside the page are at most `SLOB_UNITS(PAGE_SIZE)` many. -/
theorem length_le_of_lt {l : List ℤ} (hlt : l.Pairwise (· < ·))
    (hin : ∀ x ∈ l, 0 ≤ x ∧ x < c.pageUnits) : l.length ≤ c.pageUnits := by
  have hsub : l.toFinset ⊆ Finset.Ico 0 (c.pageUnits : ℤ) := fun x hx => by
    have := hin x (List.mem_toFinset.1 hx)
    simpa [Finset.mem_Ico] using this
  have hcard := Finset.card_le_card hsub
  rw [List.toFinset_card_of_nodup (hlt.imp ne_of_lt), Int.card_Ico, sub_zero,
    Int.toNat_natCast] at hcard
  exact hcard

/-- A page has room for at most `SLOB_UNITS(PAGE_SIZE)` free blocks, so a walk of its chain ends
within that many steps. -/
theorem length_le_of_gaps {l : List (ℤ × ℤ)} (hg : Gaps l) (hpos : ∀ b ∈ l, 0 < b.2)
    (hin : ∀ b ∈ l, 0 ≤ b.1 ∧ b.1 + b.2 ≤ c.pageUnits) : l.length ≤ c.pageUnits := by
  have hlen := length_le_of_lt c (hg.pairwise_lt hpos) fun x hx => by
    obtain ⟨b, hb, rfl⟩ := List.mem_map.1 hx
    have := hin b hb
    have := hpos b hb
    exact ⟨by omega, by omega⟩
  rwa [List.length_map] at hlen

end Walk

/-- The free blocks of a page as `slob_units` and `slob_next` read them from `sp->free` to the
block for which `slob_last` holds, within `SLOB_UNITS(PAGE_SIZE)` blocks; a full page has none. -/
def Config.freeBlocks (c : Config) (sp : SlobPage) : List (ℤ × ℤ) :=
  if 0 < sp.units then
    (LinkWalk.collect (c.slobNext sp.mem) (c.slobLast sp.mem) c.pageUnits sp.free).map
      fun o => (o, slobUnits sp.mem o)
  else []

/-! ## The chain of free blocks -/

/-- The chain of a page's free blocks `fb`, as the loops over it read it: stored as `set_slob`
writes them from `sp->free` on, each naming the next and the last the end of the page, at
strictly increasing offsets inside the page. -/
structure FreeChain (c : Config) (sp : SlobPage) (fb : List (ℤ × ℤ)) : Prop where
  ne_nil : fb ≠ []
  links : Links sp.mem c.pageUnits fb
  head : sp.free = nextStart c.pageUnits fb
  increasing : (fb.map Prod.fst).Pairwise (· < ·)
  inside : ∀ b ∈ fb, 0 ≤ b.1 ∧ b.1 < c.pageUnits

namespace FreeChain

variable {c : Config} {sp : SlobPage} {fb : List (ℤ × ℤ)}

/-- From `sp->free`, the chain walks the free blocks. -/
theorem isWalk (h : FreeChain c sp fb) :
    LinkWalk.IsWalk (c.slobNext sp.mem) (c.slobLast sp.mem) sp.free (fb.map Prod.fst) := by
  obtain ⟨⟨o, k⟩, l, rfl⟩ := List.exists_cons_of_ne_nil h.ne_nil
  have hhead : sp.free = o := h.head
  rw [hhead]
  exact (Links.isWalk_of_lt c h.links h.increasing h.inside).1

theorem length_le (h : FreeChain c sp fb) : fb.length ≤ c.pageUnits := by
  have hlen := length_le_of_lt c h.increasing fun x hx => by
    obtain ⟨b, hb, rfl⟩ := List.mem_map.1 hx
    exact h.inside b hb
  rwa [List.length_map] at hlen

/-- **`slob_next` moves forward along the chain**: from a free block to a later one, or from the
last to the end of the page. -/
theorem slobNext_lt (h : FreeChain c sp fb) {x : ℤ} (hx : x ∈ fb.map Prod.fst) :
    x < c.slobNext sp.mem x ∧
      (c.slobNext sp.mem x = c.pageUnits ∨ c.slobNext sp.mem x ∈ fb.map Prod.fst) := by
  obtain ⟨⟨x, k⟩, hmem, rfl⟩ := List.mem_map.1 hx
  obtain ⟨pre, post, rfl⟩ := List.append_of_mem hmem
  have hlinks := (links_append.1 h.links).2
  have hin := h.inside (x, k) (by simp)
  simp only at hin ⊢
  cases post with
  | nil =>
    -- the last block names the end of the page
    have hh : Holds sp.mem x k c.pageUnits := hlinks.1
    rw [(hh.decode (by exact_mod_cast c.pageUnits_pos) le_rfl).2]
    exact ⟨hin.2, .inl rfl⟩
  | cons b post =>
    have hb := h.inside b (by simp)
    have hxb : x < b.1 := by
      have hinc := h.increasing
      simp only [List.map_append, List.map_cons, List.pairwise_append, List.pairwise_cons] at hinc
      exact hinc.2.1.1 b.1 (by simp)
    have hh : Holds sp.mem x k b.1 := hlinks.1
    rw [(hh.decode (by omega) (by omega)).2]
    exact ⟨hxb, .inr (by simp)⟩

end FreeChain

/-! ## The page invariant -/

/-- A slob page whose free blocks are `fb` and whose live blocks are `live` (offset, units) is
well formed: the free blocks are stored as a chain from `sp->free` to the end of the page, in
order with a used unit between two of them; `sp->units` counts their units; with the live blocks
they tile the page. -/
structure PageInv (c : Config) (sp : SlobPage) (fb live : List (ℤ × ℤ)) : Prop where
  links : Links sp.mem c.pageUnits fb
  head : sp.free = nextStart c.pageUnits fb
  gaps : Gaps fb
  units : sp.units = (fb.map Prod.snd).sum
  tiles : Tiling.Tiles (fb ++ live) c.pageUnits
  livePos : ∀ b ∈ live, 0 < b.2
  total : sp.units + (live.map Prod.snd).sum = c.pageUnits

namespace PageInv

variable {c : Config} {sp : SlobPage} {fb live : List (ℤ × ℤ)}

theorem inside (h : PageInv c sp fb live) : ∀ b ∈ fb, 0 ≤ b.1 ∧ b.1 + b.2 ≤ c.pageUnits :=
  fun b hb => h.tiles.inside b (List.mem_append_left _ hb)

theorem liveInside (h : PageInv c sp fb live) :
    ∀ b ∈ live, 0 ≤ b.1 ∧ b.1 + b.2 ≤ c.pageUnits :=
  fun b hb => h.tiles.inside b (List.mem_append_right _ hb)

/-- A free block's units are among the page's free units. -/
theorem le_units (h : PageInv c sp fb live) {b : ℤ × ℤ} (hb : b ∈ fb) : b.2 ≤ sp.units := by
  rw [h.units]
  exact Tiling.snd_le_sum (fun I hI => (h.links.pos I hI).le) hb

/-- A live block's units are among the units handed out on the page. -/
theorem le_liveSum (h : PageInv c sp fb live) {a : ℤ × ℤ} (ha : a ∈ live) :
    a.2 ≤ (live.map Prod.snd).sum :=
  Tiling.snd_le_sum (fun I hI => (h.livePos I hI).le) ha

theorem units_le (h : PageInv c sp fb live) : sp.units ≤ c.pageUnits := by
  have hlive : 0 ≤ (live.map Prod.snd).sum := List.sum_nonneg fun x hx => by
    obtain ⟨b, hb, rfl⟩ := List.mem_map.1 hx
    exact (h.livePos b hb).le
  have := h.total
  omega

/-- A page with a live block has fewer free units than it has units. -/
theorem units_lt (h : PageInv c sp fb live) (hne : live ≠ []) : sp.units < c.pageUnits := by
  obtain ⟨b, hb⟩ := List.exists_mem_of_ne_nil _ hne
  have hpos := h.livePos b hb
  have hle := h.le_liveSum hb
  have := h.total
  omega

theorem units_nonneg (h : PageInv c sp fb live) : 0 ≤ sp.units := by
  rw [h.units]
  exact List.sum_nonneg fun x hx => by
    obtain ⟨b, hb, rfl⟩ := List.mem_map.1 hx
    exact (h.links.pos b hb).le

theorem units_pos_iff (h : PageInv c sp fb live) : 0 < sp.units ↔ fb ≠ [] := by
  constructor
  · rintro hpos rfl
    simp [h.units] at hpos
  · intro hne
    obtain ⟨b, hb⟩ := List.exists_mem_of_ne_nil _ hne
    have hle := h.le_units hb
    have := h.links.pos b hb
    omega

/-- A page has at most one free block more than live blocks: a live block stands between each
two free ones. -/
theorem length_le (h : PageInv c sp fb live) : fb.length ≤ live.length + 1 :=
  h.tiles.length_le h.gaps h.links.pos

/-- The free blocks of a well-formed page, when it has some, form a chain the loops can walk. -/
theorem freeChain (h : PageInv c sp fb live) (hne : fb ≠ []) : FreeChain c sp fb where
  ne_nil := hne
  links := h.links
  head := h.head
  increasing := h.gaps.pairwise_lt h.links.pos
  inside b hb := by
    have := h.inside b hb
    have := h.links.pos b hb
    exact ⟨by omega, by omega⟩

/-- **The free blocks of a well-formed page are the ones its chain reads.** -/
theorem freeBlocks_eq (h : PageInv c sp fb live) : c.freeBlocks sp = fb := by
  unfold Config.freeBlocks
  split_ifs with hpos
  · obtain ⟨⟨o, k⟩, l, rfl⟩ := List.exists_cons_of_ne_nil ((h.units_pos_iff).1 hpos)
    have hhead : sp.free = o := h.head
    obtain ⟨hwalk, hunits⟩ := Links.isWalk c h.links h.gaps h.inside
    rw [hhead, hwalk.collect_eq (by simpa using length_le_of_gaps c h.gaps h.links.pos h.inside)]
    conv_rhs => rw [← List.map_id ((o, k) :: l)]
    rw [List.map_map]
    exact List.map_congr_left fun b hb => by simp [hunits b hb]
  · exact (not_not.1 (mt (h.units_pos_iff).2 hpos)).symm

end PageInv

end SlobLook.Slob
