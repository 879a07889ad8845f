import SlobLook.Slob.Stats
import SlobLook.Slob.Frame
import SlobLook.Lib.Enum
import SlobLook.Lib.Words

/-!
# `kmalloc` and the count of pages

`__kmalloc_node` serves a small request from `slob_alloc`, with the size stored in the cells in
front of the object, and a large one from `slob_new_pages` with the order `get_order(size)`;
`kfree` gives a small object back to `slob_free` and a large one to the page allocator with
`put_page`.
`kmem_cache_alloc_node` and `kmem_cache_free` do the same for the objects of a cache, the large
ones given back with `slob_free_pages`.

`slob_new_pages` counts `pages_alloc++` once per call, whatever the order, and only the release
of a slob page by `slob_free` counts it down.  So in every state a run of these calls reaches,
`pages_alloc` is the number of slob pages plus the number of large blocks taken so far, given
back or not (`sysGetSlobAmtClaimed_counts`), and `sys_get_slob_amt_claimed` is not `PAGE_SIZE`
times the pages the allocator holds (`kmalloc_kfree_claimed`).
The accounting rests on how `slob_alloc` and `slob_free` change the set of slob pages
(`slobAlloc_frames`, `slobFree_frames`), counted with `Enum.Enumerates`.
-/

namespace SlobLook.Slob

open Enum

/-! ## The slob pages `slob_alloc` and `slob_free` hold -/

section Frames

variable {c : Config} {h h' : SlobHeap} {size align : ℕ} {node : ℤ} {grant : Option (ℕ × ℕ)}

/-- **The slob pages `slob_alloc` leaves**: the same, with the same `pages_alloc`; or one more, the
frame the page allocator gave, counted by `pages_alloc`. -/
theorem slobAlloc_frames {r : Option (ℕ × ℤ)}
    (hrun : c.slobAlloc h size align node grant = some (h', r)) :
    ((∀ q, (h'.pages q).isSome = (h.pages q).isSome) ∧ h'.pagesAlloc = h.pagesAlloc) ∨
      ∃ pid nid, grant = some (pid, nid) ∧
        (∀ q, (h'.pages q).isSome = (q == pid || (h.pages q).isSome)) ∧
        h'.pagesAlloc = h.pagesAlloc + 1 := by
  obtain ⟨best, hscan⟩ : ∃ best,
      c.scanPages h size align node (c.initBest size) h.freeSlobSmall = some best := by
    cases hs : c.scanPages h size align node (c.initBest size) h.freeSlobSmall with
    | none => simp [Config.slobAlloc, hs] at hrun
    | some best => exact ⟨best, rfl⟩
  cases hcur : best.cur with
  | some cur =>
    -- carved from a page the heap holds
    obtain ⟨pid, hpid⟩ : ∃ pid, best.page = some pid := by
      cases hp : best.page with
      | none => simp [Config.slobAlloc, hscan, hcur, hp] at hrun
      | some pid => exact ⟨pid, rfl⟩
    obtain ⟨sp, hsp⟩ : ∃ sp, h.pages pid = some sp := by
      cases hp : h.pages pid with
      | none => simp [Config.slobAlloc, hscan, hcur, hpid, hp] at hrun
      | some sp => exact ⟨sp, rfl⟩
    rw [Config.slobAlloc_of_found hscan hcur hpid hsp, Option.some.injEq, Prod.mk.injEq] at hrun
    obtain ⟨rfl, -⟩ := hrun
    refine .inl ⟨fun q => ?_, by simp⟩
    rw [SlobHeap.afterCarve_pages_isSome]
    by_cases hq : q = pid <;> simp [hq, hsp]
  | none =>
    rcases grant with _ | ⟨pid, nid⟩
    · rw [Config.slobAlloc_of_null hscan hcur, Option.some.injEq, Prod.mk.injEq] at hrun
      obtain ⟨rfl, -⟩ := hrun
      exact .inl ⟨fun _ => rfl, rfl⟩
    · -- a new page from the page allocator
      rw [Config.slobAlloc_of_new hscan hcur] at hrun
      obtain ⟨⟨h'', r''⟩, hpa, hr⟩ := Option.bind_eq_some_iff.1 hrun
      obtain ⟨b, -, hb⟩ := Option.map_eq_some_iff.1 hr
      obtain rfl : h'' = h' := congrArg Prod.fst hb
      refine .inr ⟨pid, nid, rfl, fun q => ?_, ?_⟩
      · rcases slobPageAlloc_heap hpa with rfl | ⟨sp', rfl⟩
        · by_cases hq : q = pid <;> simp [Config.withNewPage, hq]
        · rw [SlobHeap.afterCarve_pages_isSome]
          by_cases hq : q = pid <;> simp [Config.withNewPage, hq]
      · rcases slobPageAlloc_heap hpa with rfl | ⟨sp', rfl⟩ <;> simp [Config.withNewPage]

/-- **The slob pages `slob_free` leaves**: the same, with the same `pages_alloc`; or one fewer,
the page of the block, given back to the page allocator and counted down. -/
theorem slobFree_frames {block : Option (ℕ × ℤ)} (hrun : c.slobFree h block size = some h') :
    ((∀ q, (h'.pages q).isSome = (h.pages q).isSome) ∧ h'.pagesAlloc = h.pagesAlloc) ∨
      ∃ pid b, block = some (pid, b) ∧ (h.pages pid).isSome ∧
        (∀ q, (h'.pages q).isSome = (q != pid && (h.pages q).isSome)) ∧
        h'.pagesAlloc = h.pagesAlloc - 1 := by
  rcases block with _ | ⟨pid, b⟩
  · simp only [Config.slobFree, Option.some.injEq] at hrun
    subst hrun
    exact .inl ⟨fun _ => rfl, rfl⟩
  unfold Config.slobFree at hrun
  split_ifs at hrun with hsize
  cases hsp : h.pages pid with
  | none => simp [hsp] at hrun
  | some sp =>
    simp only [hsp, Option.bind_eq_bind, Option.bind_some] at hrun
    -- the page stays a slob page in every branch but the first
    have hkeep : ∀ sp', ∀ q, ((h.setPage pid sp').pages q).isSome = (h.pages q).isSome :=
      fun sp' q => by by_cases hq : q = pid <;> simp [hq, hsp]
    split_ifs at hrun with hwhole hflag hflag'
    · -- the page goes back to the page allocator
      cases hrun
      refine .inr ⟨pid, b, rfl, by simp [hsp], fun q => ?_, by simp⟩
      by_cases hq : q = pid <;> simp [hq]
    · cases hrun
      refine .inr ⟨pid, b, rfl, by simp [hsp], fun q => ?_, rfl⟩
      by_cases hq : q = pid <;> simp [hq]
    · cases hrun
      refine .inl ⟨fun q => ?_, rfl⟩
      by_cases hq : q = pid <;> simp [hq, hsp]
    · obtain ⟨sp', -, hsp'⟩ := Option.bind_eq_some_iff.1 hrun
      cases hsp'
      exact .inl ⟨hkeep sp', rfl⟩

end Frames

/-! ## The front end -/

/-- The loop of `get_order`, `do { size >>= 1; order++; } while (size);`, on fuel: an
`unsigned long` is empty after 64 shifts. -/
def getOrderLoop : ℕ → ℕ → ℤ → ℤ
  | 0, _, order => order
  | fuel + 1, size, order =>
    if size >>> 1 = 0 then order + 1 else getOrderLoop fuel (size >>> 1) (order + 1)

/-- What the front end keeps beyond the slob heap: the order of each block of pages
`slob_new_pages` handed out for a large object, by its first frame. -/
structure KmallocState where
  heap : SlobHeap
  big : ℕ → Option ℕ

/-- The state before the first call. -/
def KmallocState.empty : KmallocState := ⟨SlobHeap.empty, fun _ => none⟩

/-- `slob_new_pages(gfp, order, node)` for a large object: the pages the page allocator gave,
from the frame `pid`, and `pages_alloc++`. -/
def KmallocState.newPagesLarge (s : KmallocState) (pid : ℕ) (order : ℤ) : KmallocState :=
  { s with heap := { s.heap with pagesAlloc := s.heap.pagesAlloc + 1 },
           big := Function.update s.big pid (some order.toNat) }

/-- The fields of `struct kmem_cache` the allocation paths read: `size` (with the RCU footer
when `SLAB_DESTROY_BY_RCU`) and `align`. -/
structure KmemCache where
  size : ℕ
  align : ℕ
deriving DecidableEq, Repr

/-- `sizeof(unsigned int)`. -/
def sizeofUnsignedInt : ℕ := 4

namespace Config

variable (c : Config)

/-- A cell of a page, a `slobidx_t`, read as the unsigned number its bits spell. -/
def cell : Words.Digits ℤ where
  base := 2 ^ c.slobidxBits
  enc v := c.toSlobidx v
  dec x := (x % 2 ^ c.slobidxBits).toNat
  dec_enc v := by
    have h : (v : ℤ).bmod (2 ^ c.slobidxBits) % ((2 ^ c.slobidxBits : ℕ) : ℤ) =
        (v : ℤ) % ((2 ^ c.slobidxBits : ℕ) : ℤ) := Int.bmod_emod
    push_cast at h
    rw [toSlobidx, h]
    exact_mod_cast Int.toNat_natCast (v % 2 ^ c.slobidxBits)
  dec_lt x := by
    rw [Int.toNat_lt' (by positivity)]
    push_cast
    exact Int.emod_lt_of_pos x (by positivity)

/-- The cells an `unsigned int` takes: two with a 16-bit `slobidx_t`, one with a 32-bit one. -/
def headerCells : ℕ := sizeofUnsignedInt / c.SLOB_UNIT

/-- `*m = v` for the `unsigned int *m` at the cell `m` of a page, least significant half first as
on the little-endian CRIS and x86. -/
def storeHeader (mem : ℤ → ℤ) (m : ℤ) (v : ℕ) : ℤ → ℤ := Words.store c.cell c.headerCells mem m v

/-- `*m` for the `unsigned int *m` at the cell `m` of a page. -/
def loadHeader (mem : ℤ → ℤ) (m : ℤ) : ℕ := Words.load c.cell c.headerCells mem m

/-- `get_order(size)` of `asm-generic/getorder.h`, for an `unsigned long` `size`. -/
def getOrder (size : ℕ) : ℤ :=
  getOrderLoop 64 (toULong ((size : ℤ) - 1) >>> (c.pageShift - 1)) (-1)

example : Config.page4k.getOrder 4096 = 0 := by decide
example : Config.page4k.getOrder 8192 = 1 := by decide

/-- `__kmalloc_node(size, gfp, node)`, with `align = max(ARCH_KMALLOC_MINALIGN,
ARCH_SLAB_MINALIGN)` and the page allocator's answer `grant`.  Returns the object's address as a
frame and a byte offset in it; `none` is `NULL` or `ZERO_SIZE_PTR`. -/
def kmallocNode (align : ℕ) (s : KmallocState) (size : ℕ) (node : ℤ)
    (grant : Option (ℕ × ℕ)) : Option (KmallocState × Option (ℕ × ℤ)) :=
  if size < c.PAGE_SIZE - align then
    if size = 0 then some (s, none)
    else do
      let (h, m) ← c.slobAlloc s.heap (size + align) align node grant
      match m with
      | none => some ({ s with heap := h }, none)
      | some (pid, b) =>
        -- `*m = size; ret = (void *)m + align;`
        some ({ s with heap := h.modifyPage pid fun sp =>
            { sp with mem := c.storeHeader sp.mem b size } },
          some (pid, b * c.SLOB_UNIT + align))
  else
    match grant with
    | none => some (s, none)
    | some (pid, _) => some (s.newPagesLarge pid (c.getOrder size), some (pid, 0))

/-- `kfree(block)`: a block of a slob page goes to `slob_free` with the size stored in front of
it; any other block is a large object, whose pages `put_page` gives back.  `m = block - align` is
a block `slob_alloc` returned, a whole number of units into the page. -/
def kfree (align : ℕ) (s : KmallocState) (block : Option (ℕ × ℤ)) : Option KmallocState :=
  match block with
  | none => some s
  | some (pid, off) =>
    match s.heap.pages pid with
    | some sp =>
      -- `m = block - align; slob_free(m, *m + align);`
      let m := (off - align) / c.SLOB_UNIT
      (c.slobFree s.heap (some (pid, m)) (c.loadHeader sp.mem m + align)).map
        fun h => { s with heap := h }
    | none =>
      match s.big pid with
      | some _ => some { s with big := Function.update s.big pid none }
      | none => none

/-- `kmem_cache_alloc_node(c, flags, node)`; the constructor is not modelled. -/
def kmemCacheAllocNode (s : KmallocState) (cache : KmemCache) (node : ℤ)
    (grant : Option (ℕ × ℕ)) : Option (KmallocState × Option (ℕ × ℤ)) :=
  if cache.size < c.PAGE_SIZE then do
    let (h, b) ← c.slobAlloc s.heap cache.size cache.align node grant
    some ({ s with heap := h }, b.map fun (pid, b) => (pid, b * c.SLOB_UNIT))
  else
    match grant with
    | none => some (s, none)
    | some (pid, _) => some (s.newPagesLarge pid (c.getOrder cache.size), some (pid, 0))

/-- `kmem_cache_free(c, b)`, which is `__kmem_cache_free(b, c->size)`; with
`SLAB_DESTROY_BY_RCU`, `kmem_rcu_free` makes the same call once the grace period is over, which
is when it is counted here.  A large block goes back with `slob_free_pages`. -/
def kmemCacheFree (s : KmallocState) (cache : KmemCache) (block : Option (ℕ × ℤ)) :
    Option KmallocState :=
  if cache.size < c.PAGE_SIZE then
    (c.slobFree s.heap (block.map fun (pid, off) => (pid, off / c.SLOB_UNIT)) cache.size).map
      fun h => { s with heap := h }
  else
    match block with
    | none => some s
    | some (pid, _) =>
      match s.big pid with
      | some _ => some { s with big := Function.update s.big pid none }
      | none => none

end Config

/-! ## `get_order` -/

section Order

/-- A number of two or more has one bit more than its half. -/
theorem size_shiftRight_one {n : ℕ} (hn : n >>> 1 ≠ 0) : Nat.size (n >>> 1) + 1 = Nat.size n := by
  rw [Nat.shiftRight_eq_div_pow, pow_one] at hn ⊢
  have hm := Nat.lt_size_self (n / 2)
  have hpos : 0 < Nat.size (n / 2) := Nat.size_pos.2 (Nat.pos_of_ne_zero hn)
  have hlow : 2 ^ (Nat.size (n / 2) - 1) ≤ n / 2 := Nat.lt_size.1 (by omega)
  have hpow : 2 ^ Nat.size (n / 2) = 2 ^ (Nat.size (n / 2) - 1) * 2 := by
    rw [← pow_succ]
    congr 1
    omega
  have hle : Nat.size n ≤ Nat.size (n / 2) + 1 := Nat.size_le.2 (by rw [pow_succ]; omega)
  have hge : Nat.size (n / 2) + 1 ≤ Nat.size n := Nat.lt_size.2 (by omega)
  omega

/-- The loop of `get_order` shifts once, and once more for each bit left: it counts
`max 1 (Nat.size size)` shifts. -/
theorem getOrderLoop_eq {fuel size : ℕ} (hfuel : Nat.size size ≤ fuel) (hone : 1 ≤ fuel)
    (order : ℤ) : getOrderLoop fuel size order = order + (max 1 (Nat.size size) : ℕ) := by
  induction fuel generalizing size order with
  | zero => omega
  | succ fuel ih =>
    rw [getOrderLoop]
    split_ifs with h0
    · -- the first shift empties `size`: it has at most one bit
      have hle : Nat.size size ≤ 1 :=
        Nat.size_le.2 (by rw [Nat.shiftRight_eq_div_pow] at h0; omega)
      omega
    · have hhalf := size_shiftRight_one h0
      have hpos : 0 < Nat.size (size >>> 1) := Nat.size_pos.2 (Nat.pos_of_ne_zero h0)
      rw [ih (by omega) (by omega)]
      omega

/-- `get_order(size)` is the number of bits of `(size - 1) >> PAGE_SHIFT`, for every
`unsigned long` size from one byte. -/
theorem getOrder_eq (c : Config) {size : ℕ} (h0 : 0 < size) (h64 : size < 2 ^ 64) :
    c.getOrder size = Nat.size ((size - 1) >>> c.pageShift) := by
  unfold Config.getOrder
  have hul : toULong ((size : ℤ) - 1) = size - 1 := by
    unfold toULong
    rw [Int.emod_eq_of_lt (by omega) (by omega)]
    omega
  rw [hul]
  have hps := c.pageShift_ge
  have ht : Nat.size ((size - 1) >>> (c.pageShift - 1)) ≤ 64 :=
    Nat.size_le.2 (lt_of_le_of_lt (Nat.shiftRight_le _ _) (by omega))
  rw [getOrderLoop_eq ht (by norm_num)]
  -- the last shift of `get_order`'s first line is the loop's first
  have hshift : (size - 1) >>> c.pageShift = (size - 1) >>> (c.pageShift - 1) >>> 1 := by
    rw [← Nat.shiftRight_add]
    congr 1
    omega
  rw [hshift]
  by_cases ht0 : (size - 1) >>> (c.pageShift - 1) >>> 1 = 0
  · have hle : Nat.size ((size - 1) >>> (c.pageShift - 1)) ≤ 1 :=
      Nat.size_le.2 (by rw [Nat.shiftRight_eq_div_pow _ 1] at ht0; omega)
    rw [ht0, Nat.size_zero]
    omega
  · have hhalf := size_shiftRight_one ht0
    omega

/-- **`get_order(size)` is the smallest order of a block of pages that holds `size` bytes**, for
every `unsigned long` size from one byte. -/
theorem getOrder_spec (c : Config) {size : ℕ} (h0 : 0 < size) (h64 : size < 2 ^ 64) :
    ∃ k : ℕ, c.getOrder size = k ∧ size ≤ c.PAGE_SIZE * 2 ^ k ∧
      ∀ j < k, c.PAGE_SIZE * 2 ^ j < size := by
  have hlt := Nat.lt_size_self ((size - 1) >>> c.pageShift)
  generalize hk : Nat.size ((size - 1) >>> c.pageShift) = k at hlt
  refine ⟨k, hk ▸ getOrder_eq c h0 h64, ?_, fun j hj => ?_⟩
  · rw [Nat.shiftRight_eq_div_pow, Nat.div_lt_iff_lt_mul (by positivity), mul_comm] at hlt
    unfold Config.PAGE_SIZE
    omega
  · have hle := Nat.lt_size.1 (hk ▸ hj)
    rw [Nat.shiftRight_eq_div_pow, Nat.le_div_iff_mul_le (by positivity), mul_comm] at hle
    unfold Config.PAGE_SIZE
    omega

end Order

/-! ## Runs of the front end -/

/-- A call of the front end, with the page allocator's answer for the allocations. -/
inductive KCall
  | kmalloc (size : ℕ) (node : ℤ) (grant : Option (ℕ × ℕ))
  | kfree (block : Option (ℕ × ℤ))
  | cacheAlloc (cache : KmemCache) (node : ℤ) (grant : Option (ℕ × ℕ))
  | cacheFree (cache : KmemCache) (block : Option (ℕ × ℤ))
deriving DecidableEq, Repr

namespace KCall

/-- The page allocator's answer a call may use. -/
def grant : KCall → Option (ℕ × ℕ)
  | .kmalloc _ _ g => g
  | .cacheAlloc _ _ g => g
  | _ => none

/-- The call takes a block of pages for a large object. -/
def takesPages (c : Config) (align : ℕ) : KCall → Bool
  | .kmalloc size _ g => !decide (size < c.PAGE_SIZE - align) && g.isSome
  | .cacheAlloc cache _ g => !decide (cache.size < c.PAGE_SIZE) && g.isSome
  | _ => false

end KCall

namespace Config

variable (c : Config)

/-- A call on the front end, with `align` the alignment `kmalloc` uses. -/
def runKCall (align : ℕ) (s : KmallocState) : KCall → Option KmallocState
  | .kmalloc size node grant => (c.kmallocNode align s size node grant).map Prod.fst
  | .kfree block => c.kfree align s block
  | .cacheAlloc cache node grant => (c.kmemCacheAllocNode s cache node grant).map Prod.fst
  | .cacheFree cache block => c.kmemCacheFree s cache block

/-- A run of calls. -/
def runKCalls (align : ℕ) : KmallocState → List KCall → Option KmallocState
  | s, [] => some s
  | s, call :: calls => (c.runKCall align s call).bind fun s' => runKCalls align s' calls

end Config

/-- One call, with the number of large blocks taken so far as ghost state.  The page allocator
hands out frames that hold neither a slob page nor a large block. -/
inductive KStep (c : Config) (align : ℕ) : KmallocState × ℕ → KmallocState × ℕ → Prop
  | call {s s' : KmallocState} {n : ℕ} (call : KCall) :
      (∀ pid nid, call.grant = some (pid, nid) → s.heap.pages pid = none ∧ s.big pid = none) →
      c.runKCall align s call = some s' →
      KStep c align (s, n) (s', n + if call.takesPages c align then 1 else 0)

/-- The states runs reach from the state before the first call. -/
def KReachable (c : Config) (align : ℕ) (s : KmallocState × ℕ) : Prop :=
  Relation.ReflTransGen (KStep c align) (KmallocState.empty, 0) s

/-- What `pages_alloc` counts, with `n` large blocks taken so far: the slob pages and those
blocks. -/
def PagesCounted (s : KmallocState) (n : ℕ) : Prop :=
  ∃ ls lb, Enumerates s.heap.pages ls ∧ Enumerates s.big lb ∧
    s.heap.pagesAlloc = UInt32.ofNat (ls.length + n)

/-- The pages the allocator holds: one for each slob page, `2 ^ order` for each large block. -/
def KmallocState.pagesHeld (s : KmallocState) (ls lb : List ℕ) : ℕ :=
  ls.length + (lb.map fun pid => 2 ^ (s.big pid).getD 0).sum

section Count

variable {c : Config} {align : ℕ} {s s' : KmallocState} {n : ℕ}

/-- A change of the heap that `slobAlloc_frames` describes keeps the count. -/
theorem PagesCounted.of_slobAlloc (hs : PagesCounted s n) {h' : SlobHeap} {big : ℕ → Option ℕ}
    (hbig : big = s.big) {grant : Option (ℕ × ℕ)}
    (hfresh : ∀ pid nid, grant = some (pid, nid) → s.heap.pages pid = none)
    (hframes : ((∀ q, (h'.pages q).isSome = (s.heap.pages q).isSome) ∧
        h'.pagesAlloc = s.heap.pagesAlloc) ∨
      ∃ pid nid, grant = some (pid, nid) ∧
        (∀ q, (h'.pages q).isSome = (q == pid || (s.heap.pages q).isSome)) ∧
        h'.pagesAlloc = s.heap.pagesAlloc + 1) : PagesCounted ⟨h', big⟩ n := by
  obtain ⟨ls, lb, hls, hlb, hcount⟩ := hs
  subst hbig
  rcases hframes with ⟨hpages, halloc⟩ | ⟨pid, nid, rfl, hpages, halloc⟩
  · exact ⟨ls, lb, hls.congr hpages, hlb, halloc.trans hcount⟩
  · refine ⟨pid :: ls, lb, hls.insert (hfresh pid nid rfl) hpages, hlb, ?_⟩
    simp only [halloc, hcount, List.length_cons, UInt32.ofNat_add, UInt32.ofNat_one]
    exact add_right_comm _ _ _

/-- A change of the heap that `slobFree_frames` describes keeps the count. -/
theorem PagesCounted.of_slobFree (hs : PagesCounted s n) {h' : SlobHeap}
    {block : Option (ℕ × ℤ)}
    (hframes : ((∀ q, (h'.pages q).isSome = (s.heap.pages q).isSome) ∧
        h'.pagesAlloc = s.heap.pagesAlloc) ∨
      ∃ pid b, block = some (pid, b) ∧ (s.heap.pages pid).isSome ∧
        (∀ q, (h'.pages q).isSome = (q != pid && (s.heap.pages q).isSome)) ∧
        h'.pagesAlloc = s.heap.pagesAlloc - 1) :
    PagesCounted { s with heap := h' } n := by
  obtain ⟨ls, lb, hls, hlb, hcount⟩ := hs
  rcases hframes with ⟨hpages, halloc⟩ | ⟨pid, b, -, hsome, hpages, halloc⟩
  · exact ⟨ls, lb, hls.congr hpages, hlb, halloc.trans hcount⟩
  · refine ⟨ls.erase pid, lb, hls.erase hpages, hlb, ?_⟩
    have hlen := hls.length_erase hsome
    simp only [halloc, hcount, ← hlen, Nat.add_right_comm _ 1 n, UInt32.ofNat_add,
      UInt32.ofNat_one, add_sub_cancel_right]

/-- A page changed in place keeps the count. -/
theorem PagesCounted.modifyPage (hs : PagesCounted s n) (pid : ℕ) (f : SlobPage → SlobPage) :
    PagesCounted { s with heap := s.heap.modifyPage pid f } n := by
  obtain ⟨ls, lb, hls, hlb, hcount⟩ := hs
  refine ⟨ls, lb, hls.congr fun q => ?_, hlb, hcount⟩
  by_cases hq : q = pid <;> simp [SlobHeap.modifyPage, hq]

/-- A large block taken keeps the count, with one more block taken. -/
theorem PagesCounted.newPagesLarge (hs : PagesCounted s n) {pid : ℕ} (hfree : s.big pid = none)
    (order : ℤ) : PagesCounted (s.newPagesLarge pid order) (n + 1) := by
  obtain ⟨ls, lb, hls, hlb, hcount⟩ := hs
  refine ⟨ls, pid :: lb, hls, hlb.insert hfree fun q => ?_, ?_⟩
  · by_cases hq : q = pid <;> simp [KmallocState.newPagesLarge, hq]
  · simp only [KmallocState.newPagesLarge, hcount, UInt32.ofNat_add, UInt32.ofNat_one]
    exact add_assoc _ _ _

/-- A large block given back keeps the count: `pages_alloc` does not count it down. -/
theorem PagesCounted.putPage (hs : PagesCounted s n) (pid : ℕ) :
    PagesCounted { s with big := Function.update s.big pid none } n := by
  obtain ⟨ls, lb, hls, hlb, hcount⟩ := hs
  exact ⟨ls, lb.erase pid, hls, hlb.erase fun q => by by_cases hq : q = pid <;> simp [hq], hcount⟩

/-- `__kmalloc_node` keeps the count, with one more block taken on its large path. -/
theorem PagesCounted.kmallocNode (hs : PagesCounted s n) {size : ℕ} {node : ℤ}
    {grant : Option (ℕ × ℕ)}
    (hfresh : ∀ pid nid, grant = some (pid, nid) → s.heap.pages pid = none ∧ s.big pid = none)
    {p : Option (ℕ × ℤ)} (hrun : c.kmallocNode align s size node grant = some (s', p)) :
    PagesCounted s' (n + if (KCall.kmalloc size node grant).takesPages c align then 1 else 0) := by
  unfold Config.kmallocNode at hrun
  simp only [KCall.takesPages]
  split_ifs at hrun with hsmall hzero
  · cases hrun
    simpa [hsmall] using hs
  · simp only [hsmall, decide_true, Bool.not_true, Bool.false_and, Bool.false_eq_true, if_false,
      add_zero]
    obtain ⟨⟨h', m⟩, hslob, hr⟩ := Option.bind_eq_some_iff.1 hrun
    have hcount := hs.of_slobAlloc rfl (fun pid nid hg => (hfresh pid nid hg).1)
      (slobAlloc_frames hslob)
    rcases m with _ | ⟨pid, b⟩ <;> cases hr
    · exact hcount
    · exact hcount.modifyPage pid _
  · rcases grant with _ | ⟨pid, nid⟩
    · cases hrun
      simpa using hs
    · cases hrun
      simpa [hsmall] using hs.newPagesLarge (hfresh pid nid rfl).2 (c.getOrder size)

/-- `kmem_cache_alloc_node` keeps the count, with one more block taken on its large path. -/
theorem PagesCounted.kmemCacheAllocNode (hs : PagesCounted s n) {cache : KmemCache} {node : ℤ}
    {grant : Option (ℕ × ℕ)}
    (hfresh : ∀ pid nid, grant = some (pid, nid) → s.heap.pages pid = none ∧ s.big pid = none)
    {p : Option (ℕ × ℤ)} (hrun : c.kmemCacheAllocNode s cache node grant = some (s', p)) :
    PagesCounted s'
      (n + if (KCall.cacheAlloc cache node grant).takesPages c align then 1 else 0) := by
  unfold Config.kmemCacheAllocNode at hrun
  simp only [KCall.takesPages]
  split_ifs at hrun with hsmall
  · simp only [hsmall, decide_true, Bool.not_true, Bool.false_and, Bool.false_eq_true, if_false,
      add_zero]
    obtain ⟨⟨h', m⟩, hslob, hr⟩ := Option.bind_eq_some_iff.1 hrun
    cases hr
    exact hs.of_slobAlloc rfl (fun pid nid hg => (hfresh pid nid hg).1) (slobAlloc_frames hslob)
  · rcases grant with _ | ⟨pid, nid⟩
    · cases hrun
      simpa using hs
    · cases hrun
      simpa [hsmall] using hs.newPagesLarge (hfresh pid nid rfl).2 (c.getOrder cache.size)

/-- A large block given back, when there is one, keeps the count. -/
theorem PagesCounted.releaseLarge (hs : PagesCounted s n) {pid : ℕ}
    (hrun : (match s.big pid with
      | some _ => some { s with big := Function.update s.big pid none }
      | none => none) = some s') : PagesCounted s' n := by
  cases hb : s.big pid with
  | none => simp [hb] at hrun
  | some _ =>
    simp only [hb, Option.some.injEq] at hrun
    subst hrun
    exact hs.putPage pid

/-- `kfree` keeps the count. -/
theorem PagesCounted.kfree (hs : PagesCounted s n) {block : Option (ℕ × ℤ)}
    (hrun : c.kfree align s block = some s') : PagesCounted s' n := by
  rcases block with _ | ⟨pid, off⟩
  · cases hrun
    exact hs
  simp only [Config.kfree] at hrun
  split at hrun
  · obtain ⟨h', hfree, rfl⟩ := Option.map_eq_some_iff.1 hrun
    exact hs.of_slobFree (slobFree_frames hfree)
  · exact hs.releaseLarge hrun

/-- `kmem_cache_free` keeps the count. -/
theorem PagesCounted.kmemCacheFree (hs : PagesCounted s n) {cache : KmemCache}
    {block : Option (ℕ × ℤ)} (hrun : c.kmemCacheFree s cache block = some s') :
    PagesCounted s' n := by
  unfold Config.kmemCacheFree at hrun
  split_ifs at hrun with hsmall
  · obtain ⟨h', hfree, rfl⟩ := Option.map_eq_some_iff.1 hrun
    exact hs.of_slobFree (slobFree_frames hfree)
  · rcases block with _ | ⟨pid, off⟩
    · cases hrun
      exact hs
    · exact hs.releaseLarge hrun

/-- **Each call keeps the count.** -/
theorem PagesCounted.step {m : ℕ} (hs : PagesCounted s n) (h : KStep c align (s, n) (s', m)) :
    PagesCounted s' m := by
  obtain ⟨call, hfresh, hrun⟩ := h
  cases call with
  | kmalloc size node grant =>
    obtain ⟨⟨s'', p⟩, hk, rfl⟩ := Option.map_eq_some_iff.1 hrun
    exact hs.kmallocNode hfresh hk
  | kfree block => simpa [KCall.takesPages] using hs.kfree hrun
  | cacheAlloc cache node grant =>
    obtain ⟨⟨s'', p⟩, hk, rfl⟩ := Option.map_eq_some_iff.1 hrun
    exact hs.kmemCacheAllocNode hfresh hk
  | cacheFree cache block => simpa [KCall.takesPages] using hs.kmemCacheFree hrun

theorem PagesCounted.of_reachable {s : KmallocState × ℕ} (hr : KReachable c align s) :
    PagesCounted s.1 s.2 := by
  induction hr with
  | refl => exact ⟨[], [], Enumerates.empty, Enumerates.empty, rfl⟩
  | tail _ hstep ih => exact ih.step hstep

end Count

/-- **What `sys_get_slob_amt_claimed` reports.**  In every state that a run of `__kmalloc_node`,
`kfree`, `kmem_cache_alloc_node` and `kmem_cache_free` calls reaches, having taken `n` large
blocks, it is `PAGE_SIZE` times the number of slob pages plus `n`, modulo `2 ^ 32`, while the
allocator holds the slob pages and `2 ^ order` pages for each large block not given back. -/
theorem sysGetSlobAmtClaimed_counts {c : Config} {align : ℕ} {s : KmallocState} {n : ℕ}
    (hr : KReachable c align (s, n)) :
    ∃ ls lb, Enumerates s.heap.pages ls ∧ Enumerates s.big lb ∧
      c.sysGetSlobAmtClaimed s.heap = UInt32.ofNat (c.PAGE_SIZE * (ls.length + n)) := by
  obtain ⟨ls, lb, hls, hlb, hcount⟩ := PagesCounted.of_reachable hr
  refine ⟨ls, lb, hls, hlb, ?_⟩
  rw [Config.sysGetSlobAmtClaimed, hcount, UInt32.ofNat_mul, mul_comm]

/-- With 4 KB pages, after `kmalloc(10)` took frame 7 for a slob page,
`sys_get_slob_amt_claimed` reports the one page, 4096 bytes. -/
theorem sysGetSlobAmtClaimed_one_page :
    ∃ s, KReachable Config.page4k 8 (s, 0) ∧ Config.page4k.sysGetSlobAmtClaimed s.heap = 4096 ∧
      ∃ ls lb, Enumerates s.heap.pages ls ∧ Enumerates s.big lb ∧
        Config.page4k.sysGetSlobAmtClaimed s.heap =
          UInt32.ofNat (Config.page4k.PAGE_SIZE * (ls.length + 0)) := by
  obtain ⟨s, hrun⟩ : ∃ s, Config.page4k.runKCall 8 KmallocState.empty
      (.kmalloc 10 (-1) (some (7, 0))) = some s := Option.isSome_iff_exists.1 (by decide)
  have hstep := KStep.call (n := 0) _ (fun pid nid hg => by
    simp only [KCall.grant, Option.some.injEq, Prod.mk.injEq] at hg
    obtain ⟨rfl, rfl⟩ := hg
    exact ⟨rfl, rfl⟩) hrun
  have hn : (0 + if (KCall.kmalloc 10 (-1) (some (7, 0))).takesPages Config.page4k 8 then 1
      else 0) = 0 := by decide
  rw [hn] at hstep
  have hr : KReachable Config.page4k 8 (s, 0) := Relation.ReflTransGen.single hstep
  have hclaimed : (Config.page4k.runKCall 8 KmallocState.empty
      (.kmalloc 10 (-1) (some (7, 0)))).map (fun s => Config.page4k.sysGetSlobAmtClaimed s.heap) =
        some 4096 := by decide
  rw [hrun, Option.map_some, Option.some.injEq] at hclaimed
  exact ⟨s, hr, hclaimed, sysGetSlobAmtClaimed_counts hr⟩

/-- **`sys_get_slob_amt_claimed` counts a large block as one page, and still after `kfree`.**
With 4 KB pages and `kmalloc`'s alignment 8, `__kmalloc_node(8192)` on the empty allocator
takes an order-1 block, two pages, at frame 7, and `sys_get_slob_amt_claimed` reports 4096
bytes; after `kfree` of the block the allocator holds no page and it still reports 4096. -/
theorem kmalloc_kfree_claimed :
    ∃ s₁ s₂, KReachable Config.page4k 8 (s₁, 1) ∧ KReachable Config.page4k 8 (s₂, 1) ∧
      Enumerates s₁.heap.pages [] ∧ Enumerates s₁.big [7] ∧ s₁.pagesHeld [] [7] = 2 ∧
      Config.page4k.sysGetSlobAmtClaimed s₁.heap = 4096 ∧
      Enumerates s₂.heap.pages [] ∧ Enumerates s₂.big [] ∧ s₂.pagesHeld [] [] = 0 ∧
      Config.page4k.sysGetSlobAmtClaimed s₂.heap = 4096 := by
  have hrun₁ : Config.page4k.runKCall 8 KmallocState.empty (.kmalloc 8192 (-1) (some (7, 0))) =
      some (KmallocState.empty.newPagesLarge 7 1) := rfl
  have hrun₂ : Config.page4k.runKCall 8 (KmallocState.empty.newPagesLarge 7 1)
      (.kfree (some (7, 0))) = some { KmallocState.empty.newPagesLarge 7 1 with
        big := Function.update (Function.update (fun _ => none) 7 (some 1)) 7 none } := rfl
  have hstep₁ := KStep.call (n := 0) _ (fun pid nid hg => by
    simp only [KCall.grant, Option.some.injEq, Prod.mk.injEq] at hg
    obtain ⟨rfl, rfl⟩ := hg
    exact ⟨rfl, rfl⟩) hrun₁
  have hstep₂ := KStep.call (n := 1) _ (fun pid nid hg => by simp [KCall.grant] at hg) hrun₂
  have hn₁ : (0 + if (KCall.kmalloc 8192 (-1) (some (7, 0))).takesPages Config.page4k 8 then 1
      else 0) = 1 := by decide
  have hn₂ : (1 + if (KCall.kfree (some (7, 0))).takesPages Config.page4k 8 then 1
      else 0) = 1 := by decide
  rw [hn₁] at hstep₁
  rw [hn₂] at hstep₂
  have hr₁ : KReachable Config.page4k 8 _ := Relation.ReflTransGen.single hstep₁
  have hnone : Enumerates (fun _ => (none : Option ℕ)) [] := Enumerates.empty
  have hbig₁ : Enumerates (KmallocState.empty.newPagesLarge 7 1).big [7] :=
    hnone.insert rfl fun q => by
      by_cases hq : q = 7 <;> simp [KmallocState.newPagesLarge, KmallocState.empty, hq]
  refine ⟨_, _, hr₁, hr₁.tail hstep₂, Enumerates.empty, hbig₁, by decide, by decide,
    Enumerates.empty, ⟨List.nodup_nil, fun q => ?_⟩, rfl, by decide⟩
  by_cases hq : q = 7 <;> simp [hq]

end SlobLook.Slob
