import SlobLook.Slob.Cache
import SlobLook.Slob.Layout

/-!
# Runs of the `kmalloc` and `kmem_cache` front end

Callers of the front end create caches with `kmem_cache_create` and destroy them with
`kmem_cache_destroy`, ask `__kmalloc_node` and `kmem_cache_alloc_node` of a cache they hold for
objects, write into the blocks they hold, and give back with `kfree` and `kmem_cache_free` only
those (`KmStep`).  What they hold is ghost state (`Held`): the objects and the caches'
descriptors on slob pages, each with its page, block and kind, the blocks live on each slob
page, and the first frames of the large blocks `slob_new_pages` handed out.

In every state such a run reaches (`KmInv.of_reachable`) the slob heap is well formed, the blocks
live on a slob page are exactly those of the objects held there (`blocksOf`), the cells in front
of every `kmalloc` object held hold its size, and the large blocks held are on frames that hold
no slob page, each once.  So every `kfree`, `kmem_cache_free` and `kmem_cache_destroy` of
what a caller holds returns and gives back exactly what was handed out for it
(`kmalloc_run_consistent`), and the objects of a cache are aligned as its creation asked
(`kmemCacheAllocNode_aligned`).  The size stored for an object survives every other call:
`slob_alloc` and `slob_free` write only free blocks (`HeapInv.slobAlloc_keeps_live`,
`HeapInv.slobFree_keeps_live`), the blocks of two objects held do not overlap, and with `align`
at least `sizeof(unsigned int)` a caller's writes into an object start after its header.
-/

namespace SlobLook.Slob

/-- What a caller holds on a slob page: an object that `__kmalloc_node` handed out for `size`
bytes, one that `kmem_cache_alloc_node` handed out for a cache, or the descriptor of a cache, a
block of `bytes` bytes that `kmem_cache_create` took. -/
inductive SmallObj
  | kmalloc (size : ℕ)
  | cache (cache : KmemCache)
  | desc (bytes : ℕ) (cache : KmemCache)
deriving DecidableEq, Repr

namespace SmallObj

/-- The units of the block of an object: `SLOB_UNITS(size + align)` for `kmalloc`,
`SLOB_UNITS(c->size)` for a cache, `SLOB_UNITS(sizeof(struct kmem_cache))` for a descriptor. -/
def units (c : Config) (align : ℕ) : SmallObj → ℕ
  | .kmalloc size => c.SLOB_UNITS (size + align)
  | .cache k => c.SLOB_UNITS k.size
  | .desc bytes _ => c.SLOB_UNITS bytes

/-- Where the object starts in its block, in bytes: `kmalloc` puts the size in front. -/
def offset (align : ℕ) : SmallObj → ℕ
  | .kmalloc _ => align
  | .cache _ => 0
  | .desc _ _ => 0

end SmallObj

/-- What the callers hold: the blocks live on each slob page, the objects and descriptors on slob
pages (page, block, object), and the first frames of the large blocks. -/
structure Held where
  live : ℕ → List (ℤ × ℤ)
  small : List (ℕ × ℤ × SmallObj)
  large : List ℕ

def Held.empty : Held := ⟨fun _ => [], [], []⟩

/-- The blocks the objects `objs` held on page `pid` take. -/
def blocksOf (c : Config) (align : ℕ) (objs : List (ℕ × ℤ × SmallObj)) (pid : ℕ) :
    List (ℤ × ℤ) :=
  (objs.filter fun o => o.1 = pid).map fun o => (o.2.1, (o.2.2.units c align : ℤ))

namespace Held

variable (c : Config) (align : ℕ)

/-- The object `o` handed out in the block `b` of page `pid`: its block is live and it is
held. -/
def take (held : Held) (pid : ℕ) (b : ℤ) (o : SmallObj) : Held :=
  { held with
    live := Function.update held.live pid ((b, (o.units c align : ℤ)) :: held.live pid)
    small := (pid, b, o) :: held.small }

/-- The object `o` in the block `b` of page `pid` given back. -/
def give (held : Held) (pid : ℕ) (b : ℤ) (o : SmallObj) : Held :=
  { held with
    live := Function.update held.live pid ((held.live pid).erase (b, (o.units c align : ℤ)))
    small := held.small.erase (pid, b, o) }

/-- The callers hold the cache `cache`: its descriptor is live. -/
def HasCache (held : Held) (cache : KmemCache) : Prop :=
  ∃ pid b bytes, (pid, b, SmallObj.desc bytes cache) ∈ held.small

end Held

/-- The page allocator hands out a frame that holds neither a slob page nor a large block. -/
def FrameFresh (s : KmallocState) (grant : Option (ℕ × ℕ)) : Prop :=
  ∀ pid nid, grant = some (pid, nid) → s.heap.pages pid = none ∧ s.big pid = none

theorem FrameFresh.grantFresh {s : KmallocState} {grant : Option (ℕ × ℕ)}
    (h : FrameFresh s grant) : GrantFresh s.heap grant :=
  fun pid nid hg => (h pid nid hg).1

/-! ## The blocks of the objects held -/

section Blocks

variable {c : Config} {align : ℕ}

theorem blocksOf_cons (pid : ℕ) (b : ℤ) (o : SmallObj) (objs : List (ℕ × ℤ × SmallObj)) :
    blocksOf c align ((pid, b, o) :: objs) =
      Function.update (blocksOf c align objs) pid
        ((b, (o.units c align : ℤ)) :: blocksOf c align objs pid) := by
  funext q
  by_cases hq : q = pid
  · subst hq
    simp [blocksOf]
  · simp [blocksOf, Function.update_of_ne hq, Ne.symm hq]

theorem blocksOf_perm {objs objs' : List (ℕ × ℤ × SmallObj)} (h : objs.Perm objs') (pid : ℕ) :
    (blocksOf c align objs pid).Perm (blocksOf c align objs' pid) :=
  (h.filter _).map _

theorem mem_blocksOf {objs : List (ℕ × ℤ × SmallObj)} {pid : ℕ} {b : ℤ} {o : SmallObj}
    (h : (pid, b, o) ∈ objs) : (b, (o.units c align : ℤ)) ∈ blocksOf c align objs pid :=
  List.mem_map.2 ⟨(pid, b, o), List.mem_filter.2 ⟨h, by simp⟩, rfl⟩

theorem blocksOf_erase {objs : List (ℕ × ℤ × SmallObj)} {pid : ℕ} {b : ℤ} {o : SmallObj}
    (h : (pid, b, o) ∈ objs) (q : ℕ) :
    (Function.update (blocksOf c align objs) pid
      ((blocksOf c align objs pid).erase (b, (o.units c align : ℤ))) q).Perm
      (blocksOf c align (objs.erase (pid, b, o)) q) := by
  have hperm : (blocksOf c align objs q).Perm
      (blocksOf c align ((pid, b, o) :: objs.erase (pid, b, o)) q) :=
    blocksOf_perm (List.perm_cons_erase h) q
  rw [blocksOf_cons] at hperm
  by_cases hq : q = pid
  · subst hq
    rw [Function.update_self] at hperm ⊢
    simpa using hperm.erase (b, (o.units c align : ℤ))
  · rwa [Function.update_of_ne hq] at hperm ⊢

theorem perm_update {α : Type*} {f g : ℕ → List α} (h : ∀ q, (f q).Perm (g q)) (pid : ℕ)
    {l l' : List α} (hl : l.Perm l') (q : ℕ) :
    (Function.update f pid l q).Perm (Function.update g pid l' q) := by
  by_cases hq : q = pid
  · subst hq
    simpa using hl
  · simpa [Function.update_of_ne hq] using h q

end Blocks

/-! ## The paths of the front end -/

section Paths

variable {c : Config} {align : ℕ} {s s' : KmallocState} {size : ℕ} {node : ℤ}
  {grant : Option (ℕ × ℕ)} {cache : KmemCache} {r : Option (ℕ × ℤ)}

/-- The large path of `__kmalloc_node`: `NULL` when the page allocator has nothing, and else
the pages it gave, with their order. -/
theorem kmallocNode_large (hlarge : ¬ size < c.PAGE_SIZE - align)
    (hrun : c.kmallocNode align s size node grant = some (s', r)) :
    (grant = none ∧ s' = s ∧ r = none) ∨
      ∃ pid nid, grant = some (pid, nid) ∧ s' = s.newPagesLarge pid (c.getOrder size) ∧
        r = some (pid, 0) := by
  unfold Config.kmallocNode at hrun
  rw [if_neg hlarge] at hrun
  rcases grant with _ | ⟨pid, nid⟩
  · cases hrun
    exact .inl ⟨rfl, rfl, rfl⟩
  · cases hrun
    exact .inr ⟨pid, nid, rfl, rfl, rfl⟩

theorem kmemCacheAllocNode_small (hsmall : cache.size < c.PAGE_SIZE)
    (hrun : c.kmemCacheAllocNode s cache node grant = some (s', r)) :
    ∃ r', c.slobAlloc s.heap cache.size cache.align node grant = some (s'.heap, r') ∧
      s' = { s with heap := s'.heap } ∧ r = r'.map fun (pid, b) => (pid, b * c.SLOB_UNIT) := by
  unfold Config.kmemCacheAllocNode at hrun
  rw [if_pos hsmall] at hrun
  obtain ⟨⟨h, b⟩, hslob, hr⟩ := Option.bind_eq_some_iff.1 hrun
  cases hr
  exact ⟨b, hslob, rfl, rfl⟩

theorem kmemCacheAllocNode_large (hlarge : ¬ cache.size < c.PAGE_SIZE)
    (hrun : c.kmemCacheAllocNode s cache node grant = some (s', r)) :
    (grant = none ∧ s' = s ∧ r = none) ∨
      ∃ pid nid, grant = some (pid, nid) ∧ s' = s.newPagesLarge pid (c.getOrder cache.size) ∧
        r = some (pid, 0) := by
  unfold Config.kmemCacheAllocNode at hrun
  rw [if_neg hlarge] at hrun
  rcases grant with _ | ⟨pid, nid⟩
  · cases hrun
    exact .inl ⟨rfl, rfl, rfl⟩
  · cases hrun
    exact .inr ⟨pid, nid, rfl, rfl, rfl⟩

theorem kmemCacheFree_small (hsmall : cache.size < c.PAGE_SIZE) (pid : ℕ) (b : ℤ) :
    c.kmemCacheFree s cache (some (pid, b * c.SLOB_UNIT)) =
      (c.slobFree s.heap (some (pid, b)) cache.size).map fun h => { s with heap := h } := by
  simp only [Config.kmemCacheFree, if_pos hsmall, Option.map_some]
  rw [Int.mul_ediv_cancel b (by exact_mod_cast c.SLOB_UNIT_pos.ne')]

theorem kmemCacheFree_none (cache : KmemCache) : c.kmemCacheFree s cache none = some s := by
  unfold Config.kmemCacheFree
  split_ifs <;> simp [Config.slobFree]

theorem kfree_large {pid : ℕ} (hp : s.heap.pages pid = none) (hb : (s.big pid).isSome)
    (off : ℤ) : c.kfree align s (some (pid, off)) =
      some { s with big := Function.update s.big pid none } := by
  obtain ⟨order, horder⟩ := Option.isSome_iff_exists.1 hb
  simp [Config.kfree, hp, horder]

theorem kmemCacheFree_large (hlarge : ¬ cache.size < c.PAGE_SIZE) {pid : ℕ}
    (hb : (s.big pid).isSome) (off : ℤ) : c.kmemCacheFree s cache (some (pid, off)) =
      some { s with big := Function.update s.big pid none } := by
  obtain ⟨order, horder⟩ := Option.isSome_iff_exists.1 hb
  simp [Config.kmemCacheFree, hlarge, horder]

end Paths

/-- **The large path of `kmalloc` takes the fewest pages that hold the object.**  When
`__kmalloc_node(size)` takes its large path and returns an object, the object is the start of
the block of pages at the frame returned, of order `k`, the smallest with
`size ≤ PAGE_SIZE * 2 ^ k`. -/
theorem kmallocNode_large_order {c : Config} {align : ℕ} {s s' : KmallocState} {size : ℕ}
    {node : ℤ} {grant : Option (ℕ × ℕ)} {pid : ℕ} {p : ℤ} (h0 : 0 < size) (h64 : size < 2 ^ 64)
    (hlarge : ¬ size < c.PAGE_SIZE - align)
    (hrun : c.kmallocNode align s size node grant = some (s', some (pid, p))) :
    p = 0 ∧ ∃ k : ℕ, s'.big pid = some k ∧ size ≤ c.PAGE_SIZE * 2 ^ k ∧
      ∀ j < k, c.PAGE_SIZE * 2 ^ j < size := by
  rcases kmallocNode_large hlarge hrun with ⟨-, -, hr⟩ | ⟨pid', nid, -, rfl, hr⟩
  · cases hr
  · cases hr
    obtain ⟨k, hk, hfit, hmin⟩ := getOrder_spec c h0 h64
    exact ⟨rfl, k, by simp [KmallocState.newPagesLarge, hk], hfit, hmin⟩

/-- With 4 KB pages and `align = 8`, `kmalloc(5000)` on the empty allocator takes a block of two
pages. -/
theorem kmallocNode_large_order_5000 :
    ∃ s', Config.page4k.kmallocNode 8 KmallocState.empty 5000 (-1) (some (7, 0)) =
      some (s', some (7, 0)) ∧ s'.big 7 = some 1 ∧ 5000 ≤ Config.page4k.PAGE_SIZE * 2 ^ 1 ∧
        ∀ j < 1, Config.page4k.PAGE_SIZE * 2 ^ j < 5000 := by
  obtain ⟨⟨s', r⟩, hrun⟩ : ∃ r, Config.page4k.kmallocNode 8 KmallocState.empty 5000 (-1)
      (some (7, 0)) = some r := Option.isSome_iff_exists.1 (by decide)
  -- what the call leaves, read off by evaluation
  have hread : ∀ {β : Type} (f : KmallocState × Option (ℕ × ℤ) → β) (y : β),
      (Config.page4k.kmallocNode 8 KmallocState.empty 5000 (-1) (some (7, 0))).map f =
        some y → f (s', r) = y := fun f y h => by
    rw [hrun, Option.map_some, Option.some.injEq] at h
    exact h
  have hr : r = some (7, 0) := hread (fun x => x.2) _ (by decide)
  subst hr
  have hbig : s'.big 7 = some 1 := hread (fun x => x.1.big 7) _ (by decide)
  obtain ⟨-, k, hk, hfit, hmin⟩ := kmallocNode_large_order (by decide) (by decide) (by decide) hrun
  obtain rfl : k = 1 := Option.some.inj (hk.symm.trans hbig)
  exact ⟨s', hrun, hbig, hfit, hmin⟩

/-! ## Runs -/

/-- One call on the front end, for the build `B`, from a caller that gives back only what it
holds and uses only the caches it holds, with objects of at least one byte and alignments of
`0` or a power of two up to a page; what the callers hold is ghost state.  `kmalloc` aligns to
`B.arch.align`. -/
inductive KmStep (c : Config) (B : Build) : KmallocState × Held → KmallocState × Held → Prop
  /-- `__kmalloc_node(size)` hands out the object `align` bytes into the block `b` of page
  `pid`. -/
  | kmalloc {s s' : KmallocState} {held : Held} {size : ℕ} {node : ℤ} {grant : Option (ℕ × ℕ)}
      {pid : ℕ} {b : ℤ} :
      0 < size → size < c.PAGE_SIZE - B.arch.align → FrameFresh s grant →
      c.kmallocNode B.arch.align s size node grant =
        some (s', some (pid, b * c.SLOB_UNIT + B.arch.align)) →
      KmStep c B (s, held) (s', held.take c B.arch.align pid b (.kmalloc size))
  /-- `__kmalloc_node(size)` hands out the large block at the frame `pid`. -/
  | kmallocLarge {s s' : KmallocState} {held : Held} {size : ℕ} {node : ℤ}
      {grant : Option (ℕ × ℕ)} {pid : ℕ} :
      ¬ size < c.PAGE_SIZE - B.arch.align → FrameFresh s grant →
      c.kmallocNode B.arch.align s size node grant = some (s', some (pid, 0)) →
      KmStep c B (s, held) (s', { held with large := pid :: held.large })
  /-- `__kmalloc_node(size)` returns `NULL` or `ZERO_SIZE_PTR`. -/
  | kmallocNull {s s' : KmallocState} {held : Held} {size : ℕ} {node : ℤ}
      {grant : Option (ℕ × ℕ)} :
      FrameFresh s grant → c.kmallocNode B.arch.align s size node grant = some (s', none) →
      KmStep c B (s, held) (s', held)
  /-- `kfree` of a `kmalloc` object held on a slob page. -/
  | kfree {s s' : KmallocState} {held : Held} {pid : ℕ} {b : ℤ} {size : ℕ} :
      (pid, b, .kmalloc size) ∈ held.small →
      c.kfree B.arch.align s (some (pid, b * c.SLOB_UNIT + B.arch.align)) = some s' →
      KmStep c B (s, held) (s', held.give c B.arch.align pid b (.kmalloc size))
  /-- `kfree` of a large block held. -/
  | kfreeLarge {s s' : KmallocState} {held : Held} {pid : ℕ} :
      pid ∈ held.large → c.kfree B.arch.align s (some (pid, 0)) = some s' →
      KmStep c B (s, held) (s', { held with large := held.large.erase pid })
  /-- `kfree(NULL)`. -/
  | kfreeNull {s s' : KmallocState} {held : Held} :
      c.kfree B.arch.align s none = some s' → KmStep c B (s, held) (s', held)
  /-- `kmem_cache_create(name, size, align, flags, ctor)` hands out the descriptor in the block
  `b` of page `pid`. -/
  | cacheCreate {s s' : KmallocState} {held : Held} {size align : ℕ} {flags : SlabFlags}
      {grant : Option (ℕ × ℕ)} {pid : ℕ} {b : ℤ} {cache : KmemCache} :
      c.AlignOk align → FrameFresh s grant →
      c.kmemCacheCreate B s size align flags grant = some (s', some (pid, b * c.SLOB_UNIT, cache)) →
      KmStep c B (s, held) (s', held.take c B.arch.align pid b (.desc B.sizeofKmemCache cache))
  /-- `kmem_cache_create` returns `NULL`. -/
  | cacheCreateNull {s s' : KmallocState} {held : Held} {size align : ℕ} {flags : SlabFlags}
      {grant : Option (ℕ × ℕ)} :
      c.AlignOk align → FrameFresh s grant →
      c.kmemCacheCreate B s size align flags grant = some (s', none) →
      KmStep c B (s, held) (s', held)
  /-- `kmem_cache_destroy` of a cache held. -/
  | cacheDestroy {s s' : KmallocState} {held : Held} {pid : ℕ} {b : ℤ} {cache : KmemCache} :
      (pid, b, .desc B.sizeofKmemCache cache) ∈ held.small →
      c.kmemCacheDestroy B s (pid, b * c.SLOB_UNIT) = some s' →
      KmStep c B (s, held) (s', held.give c B.arch.align pid b (.desc B.sizeofKmemCache cache))
  /-- `kmem_cache_alloc_node(cache)` hands out the object at the block `b` of page `pid`. -/
  | cacheAlloc {s s' : KmallocState} {held : Held} {cache : KmemCache} {node : ℤ}
      {grant : Option (ℕ × ℕ)} {pid : ℕ} {b : ℤ} :
      0 < cache.size → cache.size < c.PAGE_SIZE → held.HasCache cache → FrameFresh s grant →
      c.kmemCacheAllocNode s cache node grant = some (s', some (pid, b * c.SLOB_UNIT)) →
      KmStep c B (s, held) (s', held.take c B.arch.align pid b (.cache cache))
  /-- `kmem_cache_alloc_node(cache)` hands out the large block at the frame `pid`. -/
  | cacheAllocLarge {s s' : KmallocState} {held : Held} {cache : KmemCache} {node : ℤ}
      {grant : Option (ℕ × ℕ)} {pid : ℕ} :
      ¬ cache.size < c.PAGE_SIZE → held.HasCache cache → FrameFresh s grant →
      c.kmemCacheAllocNode s cache node grant = some (s', some (pid, 0)) →
      KmStep c B (s, held) (s', { held with large := pid :: held.large })
  /-- `kmem_cache_alloc_node(cache)` returns `NULL`. -/
  | cacheAllocNull {s s' : KmallocState} {held : Held} {cache : KmemCache} {node : ℤ}
      {grant : Option (ℕ × ℕ)} :
      0 < cache.size → held.HasCache cache → FrameFresh s grant →
      c.kmemCacheAllocNode s cache node grant = some (s', none) →
      KmStep c B (s, held) (s', held)
  /-- `kmem_cache_free(cache, b)` of an object of the cache held on a slob page. -/
  | cacheFree {s s' : KmallocState} {held : Held} {cache : KmemCache} {pid : ℕ} {b : ℤ} :
      (pid, b, .cache cache) ∈ held.small → held.HasCache cache →
      c.kmemCacheFree s cache (some (pid, b * c.SLOB_UNIT)) = some s' →
      KmStep c B (s, held) (s', held.give c B.arch.align pid b (.cache cache))
  /-- `kmem_cache_free(cache, b)` of a large block held, for a cache of large objects. -/
  | cacheFreeLarge {s s' : KmallocState} {held : Held} {cache : KmemCache} {pid : ℕ} :
      ¬ cache.size < c.PAGE_SIZE → held.HasCache cache → pid ∈ held.large →
      c.kmemCacheFree s cache (some (pid, 0)) = some s' →
      KmStep c B (s, held) (s', { held with large := held.large.erase pid })
  /-- `kmem_cache_free(cache, NULL)`. -/
  | cacheFreeNull {s s' : KmallocState} {held : Held} {cache : KmemCache} :
      held.HasCache cache → c.kmemCacheFree s cache none = some s' →
      KmStep c B (s, held) (s', held)
  /-- A caller writes `v` into a unit `x` of a block it holds on a slob page. -/
  | write {s : KmallocState} {held : Held} {pid : ℕ} {sp : SlobPage} {b : ℤ} {o : SmallObj}
      {x : ℤ} (v : ℤ) :
      s.heap.pages pid = some sp → (pid, b, o) ∈ held.small →
      b * c.SLOB_UNIT + o.offset B.arch.align ≤ x * c.SLOB_UNIT →
      x < b + o.units c B.arch.align →
      KmStep c B (s, held)
        ({ s with heap := s.heap.setPage pid { sp with mem := Function.update sp.mem x v } }, held)

/-- The states the calls reach from the front end before the first call. -/
def KmReachable (c : Config) (B : Build) (t : KmallocState × Held) : Prop :=
  Relation.ReflTransGen (KmStep c B) (KmallocState.empty, Held.empty) t

/-- The front end is consistent with what the callers hold: the heap is well formed, the blocks
live on each slob page are those of the objects held there, the cells in front of each `kmalloc`
object held hold its size, the objects of caches held are small, each cache held has an
alignment `slob_alloc` accepts, and each large block held is on a frame that holds no slob page,
once. -/
structure KmInv (c : Config) (align : ℕ) (s : KmallocState) (held : Held) : Prop where
  heap : HeapInv c s.heap held.live
  blocks : ∀ pid, (held.live pid).Perm (blocksOf c align held.small pid)
  header : ∀ pid b size, (pid, b, SmallObj.kmalloc size) ∈ held.small →
    c.storedSize s.heap pid b = some size
  cacheSize : ∀ pid b cache, (pid, b, SmallObj.cache cache) ∈ held.small →
    0 < cache.size ∧ cache.size < c.PAGE_SIZE
  cacheAlign : ∀ pid b bytes cache, (pid, b, SmallObj.desc bytes cache) ∈ held.small →
    c.AlignOk cache.align
  large : ∀ pid ∈ held.large, (s.big pid).isSome ∧ s.heap.pages pid = none
  largeNodup : held.large.Nodup

theorem HeapInv.withPagesAlloc {c : Config} {h : SlobHeap} {live : ℕ → List (ℤ × ℤ)}
    (hinv : HeapInv c h live) (n : UInt32) : HeapInv c { h with pagesAlloc := n } live :=
  ⟨hinv.page, hinv.noPage, hinv.flag, hinv.listed, hinv.nodup, hinv.medium, hinv.large⟩

theorem pages_of_slobAlloc {c : Config} {s : KmallocState} {h' : SlobHeap} {size align : ℕ}
    {node : ℤ} {grant : Option (ℕ × ℕ)} {pid : ℕ} {b : ℤ} (hgrant : FrameFresh s grant)
    (hrun : c.slobAlloc s.heap size align node grant = some (h', some (pid, b))) (q : ℕ)
    (hq : (h'.pages q).isSome) : (s.heap.pages q).isSome ∨ q = pid ∧ s.big q = none := by
  rw [slobAlloc_pages_isSome hrun] at hq
  by_cases hqp : q = pid
  · subst hqp
    rcases slobAlloc_new_page hrun with hp | ⟨nid, hg⟩
    · exact .inl hp
    · exact .inr ⟨rfl, (hgrant q nid hg).2⟩
  · simpa [hqp] using hq

theorem HeapInv.slobAlloc_null {c : Config} {h h' : SlobHeap} {live : ℕ → List (ℤ × ℤ)}
    {size align : ℕ} {node : ℤ} {grant : Option (ℕ × ℕ)} (hinv : HeapInv c h live)
    (hreq : c.ReqOk size) (halign : c.AlignOk align) (hgrant : GrantFresh h grant)
    (hrun : c.slobAlloc h size align node grant = some (h', none)) : h' = h := by
  obtain ⟨h₁, r₁, hrun₁, hr₁⟩ := hinv.slobAlloc hreq halign node hgrant
  rw [hrun, Option.some.injEq, Prod.mk.injEq] at hrun₁
  obtain ⟨rfl, rfl⟩ := hrun₁
  rcases hr₁ with ⟨-, hheap, -⟩ | ⟨pid, b, hr, -⟩
  · exact hheap
  · cases hr

theorem HeapInv.page_isSome {c : Config} {h : SlobHeap} {live : ℕ → List (ℤ × ℤ)}
    (hinv : HeapInv c h live) {q : ℕ} {a : ℤ × ℤ} (ha : a ∈ live q) : (h.pages q).isSome := by
  cases hp : h.pages q with
  | some _ => rfl
  | none =>
    rw [hinv.noPage q hp] at ha
    simp at ha

theorem SlobHeap.setPage_isSome {h : SlobHeap} {pid : ℕ} (hsp : (h.pages pid).isSome)
    (sp : SlobPage) (q : ℕ) : ((h.setPage pid sp).pages q).isSome = (h.pages q).isSome := by
  by_cases hq : q = pid
  · subst hq
    simp [hsp]
  · simp [hq]

section Stored

variable {c : Config} {h h' : SlobHeap} {q : ℕ} {b : ℤ} {n : ℕ}

/-- **The size stored in front of a block survives** a change of the heap that keeps the page
and the header's cells. -/
theorem storedSize_keep (hold : c.storedSize h q b = some n) (hsome : (h'.pages q).isSome)
    (hkeep : ∀ sp sp', h.pages q = some sp → h'.pages q = some sp' →
      ∀ x, b ≤ x → x < b + c.headerCells → sp'.mem x = sp.mem x) :
    c.storedSize h' q b = some n := by
  cases hsp : h.pages q with
  | none => simp [Config.storedSize, hsp] at hold
  | some sp =>
    obtain ⟨sp', hsp'⟩ := Option.isSome_iff_exists.1 hsome
    rw [Config.storedSize, hsp, Option.map_some, Option.some.injEq] at hold
    rw [Config.storedSize, hsp', Option.map_some, c.loadHeader_congr b (hkeep sp sp' hsp hsp'),
      hold]

theorem storedSize_setPage {pid : ℕ} {sp sp' : SlobPage} (hold : c.storedSize h q b = some n)
    (hsp : h.pages pid = some sp)
    (hkeep : q = pid → ∀ x, b ≤ x → x < b + c.headerCells → sp'.mem x = sp.mem x) :
    c.storedSize (h.setPage pid sp') q b = some n := by
  have hsome : (h.pages q).isSome := by
    simpa only [Config.storedSize, Option.isSome_map, Option.isSome_some] using
      congrArg Option.isSome hold
  refine storedSize_keep hold (by rwa [SlobHeap.setPage_isSome (by simp [hsp])]) ?_
  intro sq sq' hq hq' x hx hx'
  by_cases hqp : q = pid
  · subst hqp
    rw [hsp, Option.some.injEq] at hq
    rw [SlobHeap.setPage_pages, Function.update_self, Option.some.injEq] at hq'
    subst hq hq'
    exact hkeep rfl x hx hx'
  · rw [SlobHeap.setPage_pages, Function.update_of_ne hqp, hq, Option.some.injEq] at hq'
    rw [hq']

end Stored

namespace KmInv

variable {c : Config} {align : ℕ} {s s' : KmallocState} {held : Held}

theorem empty (c : Config) (align : ℕ) : KmInv c align KmallocState.empty Held.empty where
  heap := HeapInv.empty c
  blocks _ := by simp [blocksOf, Held.empty]
  header _ _ _ h := by simp [Held.empty] at h
  cacheSize _ _ _ h := by simp [Held.empty] at h
  cacheAlign _ _ _ _ h := by simp [Held.empty] at h
  large _ h := by simp [Held.empty] at h
  largeNodup := List.nodup_nil

theorem live_mem (h : KmInv c align s held) {pid : ℕ} {b : ℤ} {o : SmallObj}
    (ho : (pid, b, o) ∈ held.small) : (b, (o.units c align : ℤ)) ∈ held.live pid :=
  (h.blocks pid).mem_iff.2 (mem_blocksOf ho)

theorem page_isSome (h : KmInv c align s held) {pid : ℕ} {b : ℤ} {o : SmallObj}
    (ho : (pid, b, o) ∈ held.small) : (s.heap.pages pid).isSome :=
  h.heap.page_isSome (h.live_mem ho)

theorem alignOk_of_hasCache (h : KmInv c align s held) {cache : KmemCache}
    (hc : held.HasCache cache) : c.AlignOk cache.align := by
  obtain ⟨pid, b, bytes, hmem⟩ := hc
  exact h.cacheAlign pid b bytes cache hmem

theorem headerCells_le_units (h4 : sizeofUnsignedInt ≤ align) (size : ℕ) :
    (c.headerCells : ℤ) ≤ ((SmallObj.kmalloc size).units c align : ℤ) := by
  exact_mod_cast c.headerCells_le (by omega)

/-- `slob_alloc` keeps the size stored for every `kmalloc` object held: it writes only cells
of free blocks. -/
theorem slobAlloc_header (h : KmInv c align s held) (h4 : sizeofUnsignedInt ≤ align)
    {size align' : ℕ} {node : ℤ} {grant : Option (ℕ × ℕ)} {h' : SlobHeap} {r : Option (ℕ × ℤ)}
    (hreq : c.ReqOk size) (hgrant : FrameFresh s grant)
    (hrun : c.slobAlloc s.heap size align' node grant = some (h', r)) {q : ℕ} {b : ℤ} {n : ℕ}
    (ho : (q, b, SmallObj.kmalloc n) ∈ held.small) : c.storedSize h' q b = some n := by
  have hsome : (h'.pages q).isSome := by
    rcases slobAlloc_frames hrun with ⟨hp, -⟩ | ⟨pid, nid, -, hp, -⟩ <;>
      simp [hp, h.page_isSome ho]
  have hcells := headerCells_le_units (c := c) h4 n
  refine storedSize_keep (h.header q b n ho) hsome fun sp sp' hsp hsp' x hx hx' =>
    h.heap.slobAlloc_keeps_live hreq hgrant.grantFresh hrun hsp hsp' (h.live_mem ho) ?_
  exact ⟨hx, by omega⟩

/-- **Handing out an object** keeps the front end consistent, when the heap is well formed with
the object's block live, the slob pages are those before and the block's, and the sizes stored
for the `kmalloc` objects held stay. -/
theorem take (h : KmInv c align s held) {pid : ℕ} {b : ℤ} {o : SmallObj}
    (hinv' : HeapInv c s'.heap (held.take c align pid b o).live)
    (hpages : ∀ q, (s'.heap.pages q).isSome → (s.heap.pages q).isSome ∨ q = pid ∧ s.big q = none)
    (hbig : s'.big = s.big)
    (hheader : ∀ q b' size, (q, b', SmallObj.kmalloc size) ∈ held.small →
      c.storedSize s'.heap q b' = some size)
    (hsize : ∀ size, o = .kmalloc size → c.storedSize s'.heap pid b = some size)
    (hcache : ∀ cache, o = .cache cache → 0 < cache.size ∧ cache.size < c.PAGE_SIZE)
    (hdesc : ∀ bytes cache, o = .desc bytes cache → c.AlignOk cache.align) :
    KmInv c align s' (held.take c align pid b o) := by
  refine ⟨hinv', fun q => ?_, fun q b' size hmem => ?_, fun q b' cache hmem => ?_,
    fun q b' bytes cache hmem => ?_, fun q hq => ?_, h.largeNodup⟩
  · simp only [Held.take, blocksOf_cons]
    exact perm_update h.blocks pid ((h.blocks pid).cons _) q
  · rcases List.mem_cons.1 hmem with heq | hold
    · simp only [Prod.mk.injEq] at heq
      obtain ⟨rfl, rfl, rfl⟩ := heq
      exact hsize size rfl
    · exact hheader q b' size hold
  · rcases List.mem_cons.1 hmem with heq | hold
    · simp only [Prod.mk.injEq] at heq
      obtain ⟨rfl, rfl, rfl⟩ := heq
      exact hcache cache rfl
    · exact h.cacheSize q b' cache hold
  · rcases List.mem_cons.1 hmem with heq | hold
    · simp only [Prod.mk.injEq] at heq
      obtain ⟨rfl, rfl, rfl⟩ := heq
      exact hdesc bytes cache rfl
    · exact h.cacheAlign q b' bytes cache hold
  · -- a large block is on no slob page, old or new
    obtain ⟨hbq, hpq⟩ := h.large q hq
    refine ⟨hbig ▸ hbq, ?_⟩
    cases hp' : s'.heap.pages q with
    | none => rfl
    | some sp' =>
      rcases hpages q (by simp [hp']) with hold | ⟨-, hnone⟩
      · simp [hpq] at hold
      · simp [hnone] at hbq

theorem give_blocks (h : KmInv c align s held) {pid : ℕ} {b : ℤ} {o : SmallObj}
    (hmem : (pid, b, o) ∈ held.small) (q : ℕ) :
    ((held.give c align pid b o).live q).Perm
      (blocksOf c align (held.give c align pid b o).small q) :=
  (perm_update h.blocks pid ((h.blocks pid).erase _) q).trans (blocksOf_erase hmem q)

/-- **Giving back an object held** keeps the front end consistent, when the heap is well formed
without its block, no slob page or large block is added, and the sizes stored for the `kmalloc`
objects left stay. -/
theorem give (h : KmInv c align s held) {pid : ℕ} {b : ℤ} {o : SmallObj}
    (hmem : (pid, b, o) ∈ held.small)
    (hinv' : HeapInv c s'.heap (held.give c align pid b o).live)
    (hpages : ∀ q, (s'.heap.pages q).isSome → (s.heap.pages q).isSome)
    (hbig : s'.big = s.big)
    (hheader : ∀ q b' size, (q, b', SmallObj.kmalloc size) ∈ held.small.erase (pid, b, o) →
      c.storedSize s'.heap q b' = some size) :
    KmInv c align s' (held.give c align pid b o) := by
  refine ⟨hinv', h.give_blocks hmem, hheader, fun q b' cache hmem' => ?_,
    fun q b' bytes cache hmem' => ?_, fun q hq => ?_, h.largeNodup⟩
  · exact h.cacheSize q b' cache (List.mem_of_mem_erase hmem')
  · exact h.cacheAlign q b' bytes cache (List.mem_of_mem_erase hmem')
  · obtain ⟨hbq, hpq⟩ := h.large q hq
    refine ⟨hbig ▸ hbq, ?_⟩
    cases hp' : s'.heap.pages q with
    | none => rfl
    | some sp' => simpa [hpq] using hpages q (by simp [hp'])

/-- **`slob_free` of the block of an object held**, with a size of as many units, returns and
gives the block back; the front end stays consistent without the object. -/
theorem slobFree (h : KmInv c align s held) (h4 : sizeofUnsignedInt ≤ align) {pid : ℕ} {b : ℤ}
    {o : SmallObj} (ho : (pid, b, o) ∈ held.small) {size : ℕ}
    (hunits : o.units c align = c.SLOB_UNITS size) :
    ∃ h'', c.slobFree s.heap (some (pid, b)) size = some h'' ∧
      KmInv c align { s with heap := h'' } (held.give c align pid b o) := by
  have hlive : (b, (c.SLOB_UNITS size : ℤ)) ∈ held.live pid := hunits ▸ h.live_mem ho
  obtain ⟨h'', hfree, hinv'⟩ := h.heap.slobFree hlive
  have hinv'' : HeapInv c h'' (held.give c align pid b o).live := by
    simpa only [Held.give, hunits] using hinv'
  refine ⟨h'', hfree, h.give ho hinv''
    (fun q hq => ((h.heap.slobFree_pages_isSome hlive hfree q).1 hq).1) rfl
    fun q b' n hmem => ?_⟩
  -- the block of a `kmalloc` object left stays live, and `slob_free` writes none of its cells
  have ha := (h.give_blocks ho q).mem_iff.2 (mem_blocksOf hmem)
  have hcells := headerCells_le_units (c := c) h4 n
  refine storedSize_keep (h.header q b' n (List.mem_of_mem_erase hmem)) (hinv''.page_isSome ha)
    fun sp sp' hsp hsp' x hx hx' => h.heap.slobFree_keeps_live hlive hfree hsp hsp' ?_
      (show Tiling.Covers (b', ((SmallObj.kmalloc n).units c align : ℤ)) x from ⟨hx, by omega⟩)
  simpa only [Held.give, hunits] using ha

theorem takeLarge (h : KmInv c align s held) {pid : ℕ} (order : ℤ)
    (hfresh : s.heap.pages pid = none ∧ s.big pid = none) :
    KmInv c align (s.newPagesLarge pid order) { held with large := pid :: held.large } where
  heap := h.heap.withPagesAlloc _
  blocks := h.blocks
  header := h.header
  cacheSize := h.cacheSize
  cacheAlign := h.cacheAlign
  large q hq := by
    rcases List.mem_cons.1 hq with rfl | hold
    · simp [KmallocState.newPagesLarge, hfresh.1]
    · obtain ⟨hbq, hpq⟩ := h.large q hold
      by_cases hqp : q = pid
      · subst hqp
        simp [hfresh.2] at hbq
      · simpa [KmallocState.newPagesLarge, hqp] using ⟨hbq, hpq⟩
  largeNodup := by
    refine List.nodup_cons.2 ⟨fun hmem => ?_, h.largeNodup⟩
    simpa [hfresh.2] using (h.large pid hmem).1

theorem giveLarge (h : KmInv c align s held) (pid : ℕ) :
    KmInv c align { s with big := Function.update s.big pid none }
      { held with large := held.large.erase pid } where
  heap := h.heap
  blocks := h.blocks
  header := h.header
  cacheSize := h.cacheSize
  cacheAlign := h.cacheAlign
  large q hq := by
    obtain ⟨hqp, hold⟩ := (h.largeNodup.mem_erase_iff).1 hq
    simpa [hqp] using h.large q hold
  largeNodup := h.largeNodup.erase pid

theorem kmalloc (h : KmInv c align s held) (halign : c.AlignOk align)
    (h4 : sizeofUnsignedInt ≤ align) {size : ℕ} {node : ℤ} {grant : Option (ℕ × ℕ)} {pid : ℕ}
    {b : ℤ} (hn : 0 < size) (hsmall : size < c.PAGE_SIZE - align) (hgrant : FrameFresh s grant)
    (hrun : c.kmallocNode align s size node grant = some (s', some (pid, b * c.SLOB_UNIT + align))) :
    KmInv c align s' (held.take c align pid b (.kmalloc size)) := by
  obtain ⟨b', sp', hb', hsp', hheader, hinv', -⟩ :=
    h.heap.kmallocNode halign hgrant.grantFresh hn (by omega) hsmall hrun
  obtain rfl := object_inj hb'
  obtain ⟨h₁, b'', sp, hslob, hsp, hb'', rfl⟩ := kmallocNode_small hsmall hrun
  obtain rfl := object_inj hb''
  have hsome : (h₁.pages pid).isSome := by simp [hsp]
  refine h.take hinv' (fun q hq => pages_of_slobAlloc hgrant hslob q ?_) rfl
    (fun q b' n ho => ?_) (fun size' ho => ?_) (fun _ ho => by cases ho) (fun _ _ ho => by cases ho)
  · rwa [SlobHeap.setPage_isSome hsome] at hq
  · -- the header of another object lies in its block, apart from the new one
    have hcells := headerCells_le_units (c := c) h4 n
    refine storedSize_setPage (h.slobAlloc_header h4 (reqOk_add hn hsmall) hgrant hslob ho) hsp
      fun hq x hx hx' => c.storeHeader_apply _ _ _ ?_
    subst hq
    have hapart := (hinv'.live_disjoint hsp' (show (b, (c.SLOB_UNITS (size + align) : ℤ)) ∈ _ by
      simp) (show (b', ((SmallObj.kmalloc n).units c align : ℤ)) ∈ _ by
      simpa [Held.take] using h.live_mem ho)).2.2
    have hhc : (c.headerCells : ℤ) ≤ c.SLOB_UNITS (size + align) := headerCells_le_units h4 size
    simp only [SmallObj.units] at hapart hcells hhc
    omega
  · cases ho
    rw [Config.storedSize, hsp', Option.map_some, hheader]

theorem slobAlloc (h : KmInv c align s held) {size align' : ℕ} {node : ℤ}
    {grant : Option (ℕ × ℕ)} {h' : SlobHeap} {pid : ℕ} {b : ℤ} (hreq : c.ReqOk size)
    (halign' : c.AlignOk align') (hgrant : FrameFresh s grant)
    (hrun : c.slobAlloc s.heap size align' node grant = some (h', some (pid, b))) :
    HeapInv c h' (Function.update held.live pid ((b, (c.SLOB_UNITS size : ℤ)) :: held.live pid)) := by
  obtain ⟨h₁, r₁, hrun₁, hr₁⟩ := h.heap.slobAlloc hreq halign' node hgrant.grantFresh
  rw [hrun, Option.some.injEq, Prod.mk.injEq] at hrun₁
  obtain ⟨rfl, rfl⟩ := hrun₁
  obtain ⟨pid', b', hr, -, hinv', -⟩ := hr₁.resolve_left fun hnone => by cases hnone.1
  simp only [Option.some.injEq, Prod.mk.injEq] at hr
  obtain ⟨rfl, rfl⟩ := hr
  exact hinv'

theorem cacheAlloc (h : KmInv c align s held) (h4 : sizeofUnsignedInt ≤ align)
    {cache : KmemCache} {node : ℤ}
    {grant : Option (ℕ × ℕ)} {pid : ℕ} {b : ℤ} (hn : 0 < cache.size)
    (hsmall : cache.size < c.PAGE_SIZE) (hcalign : c.AlignOk cache.align)
    (hgrant : FrameFresh s grant)
    (hrun : c.kmemCacheAllocNode s cache node grant = some (s', some (pid, b * c.SLOB_UNIT))) :
    KmInv c align s' (held.take c align pid b (.cache cache)) := by
  obtain ⟨r, hslob, hs', hr⟩ := kmemCacheAllocNode_small hsmall hrun
  obtain ⟨pid', b', rfl⟩ : ∃ pid' b', r = some (pid', b') := by
    rcases r with _ | ⟨pid', b'⟩
    · cases hr
    · exact ⟨pid', b', rfl⟩
  simp only [Option.map_some, Option.some.injEq, Prod.mk.injEq] at hr
  obtain ⟨rfl, hb⟩ := hr
  obtain rfl : b = b' := mul_right_cancel₀ (by exact_mod_cast c.SLOB_UNIT_pos.ne') hb
  have hreq : c.ReqOk cache.size := ⟨c.SLOB_UNITS_pos hn, c.SLOB_UNITS_mono hsmall.le⟩
  have hinv' := h.slobAlloc hreq hcalign hgrant hslob
  refine h.take hinv' (pages_of_slobAlloc hgrant hslob) (by rw [hs'])
    (fun _ _ _ ho => by rw [hs']; exact h.slobAlloc_header h4 hreq hgrant hslob ho)
    (fun _ ho => by cases ho) (fun cache' ho => ?_) (fun _ _ ho => by cases ho)
  cases ho
  exact ⟨hn, hsmall⟩

theorem cacheCreate (h : KmInv c align s held) (h4 : sizeofUnsignedInt ≤ align) {B : Build}
    (hB : B.Ok c) {size align' : ℕ}
    {flags : SlabFlags} {grant : Option (ℕ × ℕ)} {pid : ℕ} {b : ℤ} {cache : KmemCache}
    (halign' : c.AlignOk align') (hgrant : FrameFresh s grant)
    (hrun : c.kmemCacheCreate B s size align' flags grant =
      some (s', some (pid, b * c.SLOB_UNIT, cache))) :
    KmInv c align s' (held.take c align pid b (.desc B.sizeofKmemCache cache)) := by
  obtain ⟨b', hslob, hb, hs', rfl⟩ := kmemCacheCreate_some hrun
  obtain rfl : b = b' := mul_right_cancel₀ (by exact_mod_cast c.SLOB_UNIT_pos.ne') hb
  have hinv' := h.slobAlloc hB.desc_reqOk hB.kmallocMinalign_alignOk hgrant hslob
  exact h.take hinv' (pages_of_slobAlloc hgrant hslob) (by rw [hs'])
    (fun _ _ _ ho => by rw [hs']; exact h.slobAlloc_header h4 hB.desc_reqOk hgrant hslob ho)
    (fun _ ho => by cases ho) (fun _ ho => by cases ho)
    (fun _ _ ho => by
      cases ho
      exact hB.cacheAlign_alignOk halign' flags)

/-- **`kfree` of a `kmalloc` object held** returns and calls `slob_free` with the object's block
and `size + align`, which gives back exactly its units; the front end stays consistent. -/
theorem kfree (h : KmInv c align s held) (h4 : sizeofUnsignedInt ≤ align) {pid : ℕ} {b : ℤ}
    {size : ℕ} (ho : (pid, b, .kmalloc size) ∈ held.small) :
    ∃ h'', c.slobFree s.heap (some (pid, b)) (size + align) = some h'' ∧
      c.kfree align s (some (pid, b * c.SLOB_UNIT + align)) = some { s with heap := h'' } ∧
      KmInv c align { s with heap := h'' } (held.give c align pid b (.kmalloc size)) := by
  obtain ⟨h'', hfree, hinv'⟩ := h.slobFree h4 ho rfl
  refine ⟨h'', hfree, ?_, hinv'⟩
  obtain ⟨sp, hsp⟩ := Option.isSome_iff_exists.1 (h.page_isSome ho)
  have hheader := h.header _ _ _ ho
  rw [Config.storedSize, hsp, Option.map_some, Option.some.injEq] at hheader
  rw [kfree_object hsp, hheader, hfree, Option.map_some]

/-- **`kmem_cache_free` of an object of a cache held** returns and calls `slob_free` with the
object's block and `c->size`; the front end stays consistent. -/
theorem cacheFree (h : KmInv c align s held) (h4 : sizeofUnsignedInt ≤ align) {pid : ℕ} {b : ℤ}
    {cache : KmemCache}
    (ho : (pid, b, .cache cache) ∈ held.small) :
    ∃ h'', c.slobFree s.heap (some (pid, b)) cache.size = some h'' ∧
      c.kmemCacheFree s cache (some (pid, b * c.SLOB_UNIT)) = some { s with heap := h'' } ∧
      KmInv c align { s with heap := h'' } (held.give c align pid b (.cache cache)) := by
  obtain ⟨h'', hfree, hinv'⟩ := h.slobFree h4 ho rfl
  refine ⟨h'', hfree, ?_, hinv'⟩
  rw [kmemCacheFree_small (h.cacheSize _ _ _ ho).2, hfree, Option.map_some]

/-- **`kmem_cache_destroy` of a cache held** returns and calls `slob_free` with the descriptor's
block and `sizeof(struct kmem_cache)`; the front end stays consistent. -/
theorem cacheDestroy (h : KmInv c align s held) (h4 : sizeofUnsignedInt ≤ align) {B : Build}
    {pid : ℕ} {b : ℤ}
    {cache : KmemCache} (ho : (pid, b, .desc B.sizeofKmemCache cache) ∈ held.small) :
    ∃ h'', c.slobFree s.heap (some (pid, b)) B.sizeofKmemCache = some h'' ∧
      c.kmemCacheDestroy B s (pid, b * c.SLOB_UNIT) = some { s with heap := h'' } ∧
      KmInv c align { s with heap := h'' }
        (held.give c align pid b (.desc B.sizeofKmemCache cache)) := by
  obtain ⟨h'', hfree, hinv'⟩ := h.slobFree h4 ho rfl
  exact ⟨h'', hfree, by rw [kmemCacheDestroy_eq, hfree, Option.map_some], hinv'⟩

theorem blocks_pairwise (h : KmInv c align s held) (pid : ℕ) :
    (blocksOf c align held.small pid).Pairwise fun I J => I.1 + I.2 ≤ J.1 ∨ J.1 + J.2 ≤ I.1 := by
  refine ((h.blocks pid).pairwise_iff Or.symm).1 ?_
  cases hp : s.heap.pages pid with
  | none =>
    rw [h.heap.noPage pid hp]
    exact List.Pairwise.nil
  | some sp =>
    have hpage := h.heap.page pid sp hp
    have hpos : ∀ I ∈ c.freeBlocks sp ++ held.live pid, 0 < I.2 := fun I hI =>
      (List.mem_append.1 hI).elim (hpage.links.pos I) (hpage.livePos I)
    exact (hpage.tiles.pairwise_disjoint hpos).sublist (List.sublist_append_right _ _)

theorem small_pairwise (h : KmInv c align s held) :
    held.small.Pairwise (fun x y => x.1 = y.1 →
      x.2.1 + (x.2.2.units c align : ℤ) ≤ y.2.1 ∨ y.2.1 + (y.2.2.units c align : ℤ) ≤ x.2.1) := by
  refine List.pairwise_iff_forall_sublist.2 fun {x y} hsub hxy => ?_
  -- both lie on the page of `x`, whose blocks are apart
  have hp := List.pairwise_filter.1 (List.pairwise_map.1 (h.blocks_pairwise x.1))
  exact List.pairwise_iff_forall_sublist.1 hp hsub (by simp) (by simp [hxy])

/-- **A caller's write misses every header**, when `align` is at least `sizeof(unsigned int)`:
a unit of an object held, from where the object starts, is no cell of the header of a `kmalloc`
object held on its page. -/
theorem write_not_header (h : KmInv c align s held) (h4 : sizeofUnsignedInt ≤ align) {pid : ℕ}
    {b b' x : ℤ} {o : SmallObj} {n : ℕ} (ho : (pid, b, o) ∈ held.small)
    (ho' : (pid, b', SmallObj.kmalloc n) ∈ held.small)
    (hx₁ : b * c.SLOB_UNIT + o.offset align ≤ x * c.SLOB_UNIT) (hx₂ : x < b + o.units c align)
    (hy : b' ≤ x) (hy' : x < b' + c.headerCells) : False := by
  have hU : (0 : ℤ) < c.SLOB_UNIT := by exact_mod_cast c.SLOB_UNIT_pos
  have hbx : b ≤ x := le_of_mul_le_mul_right (by linarith) hU
  by_cases heq : (pid, b, o) = (pid, b', SmallObj.kmalloc n)
  · -- the object's own header: the unit lies after it, as the object starts `align` bytes in
    simp only [Prod.mk.injEq, true_and] at heq
    obtain ⟨rfl, rfl⟩ := heq
    have hmul : (c.headerCells * c.SLOB_UNIT : ℤ) = sizeofUnsignedInt := by
      exact_mod_cast c.headerCells_mul
    have h4' : (sizeofUnsignedInt : ℤ) ≤ align := by exact_mod_cast h4
    have hle : (b + c.headerCells) * c.SLOB_UNIT ≤ x * c.SLOB_UNIT := by
      simp only [SmallObj.offset] at hx₁
      rw [add_mul, hmul]
      linarith
    have := le_of_mul_le_mul_right hle hU
    omega
  · -- another object's header lies in its block, apart from this one
    have hapart := @List.Pairwise.forall _ _ _
      (by exact ⟨fun _ _ hxy hyx => (hxy hyx.symm).symm⟩) h.small_pairwise _ ho _ ho' heq rfl
    have hcells := headerCells_le_units (c := c) h4 n
    simp only at hapart
    omega

/-- **Step lemma**: every call keeps the front end consistent. -/
theorem step {B : Build} (h : KmInv c B.arch.align s held) (hB : B.Ok c)
    {t : KmallocState × Held} (hstep : KmStep c B (s, held) t) : KmInv c B.arch.align t.1 t.2 := by
  have halign : c.AlignOk B.arch.align := B.arch.alignOk hB.align_le
  have h4 := hB.uint_le
  cases hstep with
  | kmalloc hn hsmall hgrant hrun => exact h.kmalloc halign h4 hn hsmall hgrant hrun
  | kmallocLarge hlarge hgrant hrun =>
    rcases kmallocNode_large hlarge hrun with ⟨-, -, hr⟩ | ⟨pid, nid, rfl, rfl, hr⟩
    · cases hr
    · cases hr
      exact h.takeLarge _ (hgrant _ nid rfl)
  | @kmallocNull _ _ _ size _ _ hgrant hrun =>
    by_cases hsmall : size < c.PAGE_SIZE - B.arch.align
    · rw [h.heap.kmallocNode_null halign hgrant.grantFresh hsmall hrun]
      exact h
    · rcases kmallocNode_large hsmall hrun with ⟨-, rfl, -⟩ | ⟨_, _, -, -, hr⟩
      · exact h
      · cases hr
  | kfree ho hrun =>
    obtain ⟨h'', -, hkfree, hinv'⟩ := h.kfree h4 ho
    rw [hkfree, Option.some.injEq] at hrun
    subst hrun
    exact hinv'
  | @kfreeLarge _ _ _ pid hmem hrun =>
    obtain ⟨hb, hp⟩ := h.large pid hmem
    rw [kfree_large hp hb, Option.some.injEq] at hrun
    subst hrun
    exact h.giveLarge pid
  | kfreeNull hrun =>
    simp only [Config.kfree, Option.some.injEq] at hrun
    subst hrun
    exact h
  | cacheCreate halign' hgrant hrun => exact h.cacheCreate h4 hB halign' hgrant hrun
  | cacheCreateNull halign' hgrant hrun =>
    obtain ⟨hslob, hs', -⟩ := kmemCacheCreate_null hrun
    rw [hs', h.heap.slobAlloc_null hB.desc_reqOk hB.kmallocMinalign_alignOk hgrant.grantFresh
      hslob]
    exact h
  | cacheDestroy ho hrun =>
    obtain ⟨h'', -, hdestroy, hinv'⟩ := h.cacheDestroy h4 ho
    rw [hdestroy, Option.some.injEq] at hrun
    subst hrun
    exact hinv'
  | cacheAlloc hn hsmall hc hgrant hrun =>
    exact h.cacheAlloc h4 hn hsmall (h.alignOk_of_hasCache hc) hgrant hrun
  | cacheAllocLarge hlarge _ hgrant hrun =>
    rcases kmemCacheAllocNode_large hlarge hrun with ⟨-, -, hr⟩ | ⟨pid, nid, rfl, rfl, hr⟩
    · cases hr
    · cases hr
      exact h.takeLarge _ (hgrant _ nid rfl)
  | @cacheAllocNull _ _ _ cache node _ hn hc hgrant hrun =>
    by_cases hsmall : cache.size < c.PAGE_SIZE
    · -- `slob_alloc` returned `NULL`, which it does only leaving the heap as it was
      obtain ⟨r, hslob, hs', hr⟩ := kmemCacheAllocNode_small hsmall hrun
      obtain rfl : r = none := by
        rcases r with _ | ⟨pid, b⟩
        · rfl
        · cases hr
      rw [hs', h.heap.slobAlloc_null ⟨c.SLOB_UNITS_pos hn, c.SLOB_UNITS_mono hsmall.le⟩
        (h.alignOk_of_hasCache hc) hgrant.grantFresh hslob]
      exact h
    · rcases kmemCacheAllocNode_large hsmall hrun with ⟨-, rfl, -⟩ | ⟨_, _, -, -, hr⟩
      · exact h
      · cases hr
  | cacheFree ho _ hrun =>
    obtain ⟨h'', -, hfree, hinv'⟩ := h.cacheFree h4 ho
    rw [hfree, Option.some.injEq] at hrun
    subst hrun
    exact hinv'
  | @cacheFreeLarge _ _ _ _ pid hlarge _ hmem hrun =>
    rw [kmemCacheFree_large hlarge (h.large pid hmem).1, Option.some.injEq] at hrun
    subst hrun
    exact h.giveLarge pid
  | cacheFreeNull _ hrun =>
    rw [kmemCacheFree_none, Option.some.injEq] at hrun
    subst hrun
    exact h
  | @write _ _ pid sp b o x v hp ho hx₁ hx₂ =>
    have hU : (0 : ℤ) < c.SLOB_UNIT := by exact_mod_cast c.SLOB_UNIT_pos
    -- the unit lies in the object's block: the object starts in it
    have hbx : b ≤ x := le_of_mul_le_mul_right (by linarith) hU
    refine ⟨h.heap.write hp (h.live_mem ho) hbx hx₂ v, h.blocks,
      fun q b' n ho' => storedSize_setPage (h.header q b' n ho') hp fun hq y hy hy' => ?_,
      h.cacheSize, h.cacheAlign, fun q hq => ?_, h.largeNodup⟩
    · -- the unit written is no cell of a header: it lies after the object's own header, and
      -- apart from every other block on the page
      subst hq
      refine Function.update_of_ne (fun hyx => ?_) v sp.mem
      subst hyx
      exact h.write_not_header h4 ho ho' hx₁ hx₂ hy hy'
    obtain ⟨hbq, hpq⟩ := h.large q hq
    have hqp : q ≠ pid := by
      rintro rfl
      simp [hp] at hpq
    simpa [hqp] using ⟨hbq, hpq⟩

/-- **Run lemma**: every state a run reaches is consistent. -/
theorem of_reachable {B : Build} (hB : B.Ok c) {t : KmallocState × Held}
    (hr : KmReachable c B t) : KmInv c B.arch.align t.1 t.2 := by
  induction hr with
  | refl => exact empty c B.arch.align
  | tail _ hstep ih => exact ih.step hB hstep

end KmInv

/-- **A run of the front end keeps it consistent with what the callers hold.**  In every state
that calls reach from callers that write only into the blocks they hold, use only the caches
they hold and give back only what they hold: the slob heap is well formed and the blocks live on
each slob page are exactly those of the objects and descriptors held there.  `kfree` of a
`kmalloc` object held reads the size it was asked for, returns, and calls `slob_free` with its
block and `size + align`; `kmem_cache_free` of an object of a cache held calls `slob_free` with
its block and `c->size`; `kmem_cache_destroy` of a cache held calls `slob_free` with its
descriptor and `sizeof(struct kmem_cache)`; each gives back exactly the units carved, and the
run goes on from there.  A large block held is on a frame that holds no slob page, and `kfree`
or `kmem_cache_free` gives its pages back. -/
theorem kmalloc_run_consistent {c : Config} {B : Build} (hB : B.Ok c) {s : KmallocState}
    {held : Held} (hr : KmReachable c B (s, held)) :
    HeapInv c s.heap held.live ∧
    (∀ pid, (held.live pid).Perm (blocksOf c B.arch.align held.small pid)) ∧
    (∀ pid b size, (pid, b, SmallObj.kmalloc size) ∈ held.small →
      c.storedSize s.heap pid b = some size ∧
      ∃ h'', c.slobFree s.heap (some (pid, b)) (size + B.arch.align) = some h'' ∧
        c.kfree B.arch.align s (some (pid, b * c.SLOB_UNIT + B.arch.align)) =
          some { s with heap := h'' } ∧
        KmReachable c B ({ s with heap := h'' },
          held.give c B.arch.align pid b (.kmalloc size))) ∧
    (∀ pid b cache, (pid, b, SmallObj.cache cache) ∈ held.small → held.HasCache cache →
      ∃ h'', c.slobFree s.heap (some (pid, b)) cache.size = some h'' ∧
        c.kmemCacheFree s cache (some (pid, b * c.SLOB_UNIT)) = some { s with heap := h'' } ∧
        KmReachable c B ({ s with heap := h'' }, held.give c B.arch.align pid b (.cache cache))) ∧
    (∀ pid b cache, (pid, b, SmallObj.desc B.sizeofKmemCache cache) ∈ held.small →
      ∃ h'', c.slobFree s.heap (some (pid, b)) B.sizeofKmemCache = some h'' ∧
        c.kmemCacheDestroy B s (pid, b * c.SLOB_UNIT) = some { s with heap := h'' } ∧
        KmReachable c B ({ s with heap := h'' },
          held.give c B.arch.align pid b (.desc B.sizeofKmemCache cache))) ∧
    (∀ pid ∈ held.large, s.heap.pages pid = none ∧
      c.kfree B.arch.align s (some (pid, 0)) =
        some { s with big := Function.update s.big pid none } ∧
      ∀ cache : KmemCache, ¬ cache.size < c.PAGE_SIZE →
        c.kmemCacheFree s cache (some (pid, 0)) =
          some { s with big := Function.update s.big pid none }) := by
  have h := KmInv.of_reachable hB hr
  refine ⟨h.heap, h.blocks, fun pid b size ho => ?_, fun pid b cache ho hc => ?_,
    fun pid b cache ho => ?_, fun pid hmem => ?_⟩
  · obtain ⟨h'', hfree, hkfree, -⟩ := h.kfree hB.uint_le ho
    exact ⟨h.header _ _ _ ho, h'', hfree, hkfree, hr.tail (.kfree ho hkfree)⟩
  · obtain ⟨h'', hfree, hcfree, -⟩ := h.cacheFree hB.uint_le ho
    exact ⟨h'', hfree, hcfree, hr.tail (.cacheFree ho hc hcfree)⟩
  · obtain ⟨h'', hfree, hdestroy, -⟩ := h.cacheDestroy hB.uint_le ho
    exact ⟨h'', hfree, hdestroy, hr.tail (.cacheDestroy ho hdestroy)⟩
  · obtain ⟨hb, hp⟩ := h.large pid hmem
    exact ⟨hp, kfree_large hp hb 0, fun cache hlarge => kmemCacheFree_large hlarge hb 0⟩

/-- A run of three calls on x86-64 with 4 KB pages: `kmalloc(10)` takes frame 7 and the
block `0`; `kmem_cache_create` of a cache of 24-byte objects aligned to 8 gets its descriptor in
the block `12`; `kmem_cache_alloc_node` of the cache hands out the block `28`. -/
theorem three_calls_reachable :
    ∃ s, KmReachable Config.page4k Build.x86_64 (s,
      ((Held.empty.take Config.page4k 8 7 0 (.kmalloc 10)).take Config.page4k 8 7 12
        (.desc 32 ⟨24, 8⟩)).take Config.page4k 8 7 28 (.cache ⟨24, 8⟩)) := by
  have h8 : Build.x86_64.arch.align = 8 := by decide
  have hU : (Config.page4k.SLOB_UNIT : ℤ) = 2 := by decide
  -- `kmalloc(10)` on frame 7: the block `0`, the object at byte 8
  obtain ⟨⟨s₁, r₁⟩, hrun₁⟩ : ∃ r, Config.page4k.kmallocNode Build.x86_64.arch.align
      KmallocState.empty 10 (-1) (some (7, 0)) = some r := Option.isSome_iff_exists.1 (by decide)
  have hr₁ : r₁ = some (7, 0 * (Config.page4k.SLOB_UNIT : ℤ) + (Build.x86_64.arch.align : ℤ)) := by
    have h := (by decide : (Config.page4k.kmallocNode Build.x86_64.arch.align KmallocState.empty 10
      (-1) (some (7, 0))).map Prod.snd = some (some (7, 8)))
    rw [hrun₁, Option.map_some, Option.some.injEq] at h
    refine h.trans ?_
    rw [hU, h8]
    norm_num
  subst hr₁
  -- `kmem_cache_create(24, 8)`: the descriptor in the block `12`
  obtain ⟨⟨s₂, r₂⟩, hrun₂⟩ : ∃ r, Config.page4k.kmemCacheCreate Build.x86_64 s₁ 24 8
      ⟨false, false, false⟩ none = some r := by
    have h := (by decide : (Config.page4k.kmallocNode Build.x86_64.arch.align KmallocState.empty 10
      (-1) (some (7, 0))).map (fun x => (Config.page4k.kmemCacheCreate Build.x86_64 x.1 24 8
        ⟨false, false, false⟩ none).isSome) = some true)
    rw [hrun₁, Option.map_some, Option.some.injEq] at h
    exact Option.isSome_iff_exists.1 h
  have hr₂ : r₂ = some (7, 12 * (Config.page4k.SLOB_UNIT : ℤ), ⟨24, 8⟩) := by
    have h := (by decide : (Config.page4k.kmallocNode Build.x86_64.arch.align KmallocState.empty 10
      (-1) (some (7, 0))).map (fun x => (Config.page4k.kmemCacheCreate Build.x86_64 x.1 24 8
        ⟨false, false, false⟩ none).map Prod.snd) = some (some (some (7, 24, ⟨24, 8⟩))))
    rw [hrun₁, Option.map_some, Option.some.injEq, hrun₂, Option.map_some, Option.some.injEq] at h
    refine h.trans ?_
    rw [hU]
    norm_num
  subst hr₂
  -- `kmem_cache_alloc_node` of the cache: the block `28`
  obtain ⟨⟨s₃, r₃⟩, hrun₃⟩ : ∃ r, Config.page4k.kmemCacheAllocNode s₂ ⟨24, 8⟩ (-1) none =
      some r := by
    have h := (by decide : (Config.page4k.kmallocNode Build.x86_64.arch.align KmallocState.empty 10
      (-1) (some (7, 0))).map (fun x => ((Config.page4k.kmemCacheCreate Build.x86_64 x.1 24 8
        ⟨false, false, false⟩ none).map fun y =>
          (Config.page4k.kmemCacheAllocNode y.1 ⟨24, 8⟩ (-1) none).isSome)) =
            some (some true))
    rw [hrun₁, Option.map_some, Option.some.injEq, hrun₂, Option.map_some, Option.some.injEq] at h
    exact Option.isSome_iff_exists.1 h
  have hr₃ : r₃ = some (7, 28 * (Config.page4k.SLOB_UNIT : ℤ)) := by
    have h := (by decide : (Config.page4k.kmallocNode Build.x86_64.arch.align KmallocState.empty 10
      (-1) (some (7, 0))).map (fun x => ((Config.page4k.kmemCacheCreate Build.x86_64 x.1 24 8
        ⟨false, false, false⟩ none).map fun y =>
          (Config.page4k.kmemCacheAllocNode y.1 ⟨24, 8⟩ (-1) none).map Prod.snd)) =
            some (some (some (some (7, 56)))))
    rw [hrun₁, Option.map_some, Option.some.injEq, hrun₂, Option.map_some, Option.some.injEq,
      hrun₃, Option.map_some, Option.some.injEq] at h
    refine h.trans ?_
    rw [hU]
    norm_num
  subst hr₃
  have hfresh₁ : FrameFresh KmallocState.empty (some (7, 0)) := by
    rintro pid nid ⟨⟩
    exact ⟨rfl, rfl⟩
  have hdesc : (7, 12, SmallObj.desc Build.x86_64.sizeofKmemCache ⟨24, 8⟩) ∈
      ((Held.empty.take Config.page4k 8 7 0 (.kmalloc 10)).take Config.page4k 8 7 12
        (.desc Build.x86_64.sizeofKmemCache ⟨24, 8⟩)).small := by
    simp [Held.take]
  exact ⟨s₃, ((Relation.ReflTransGen.single (.kmalloc (by decide) (by decide) hfresh₁ hrun₁)).tail
      (.cacheCreate (.inr ⟨⟨3, rfl⟩, by decide⟩) (fun _ _ h => by cases h) hrun₂)).tail
      (.cacheAlloc (by decide) (by decide) ⟨7, 12, _, hdesc⟩ (fun _ _ h => by cases h) hrun₃)⟩

/-- In the run of `three_calls_reachable`, `kfree` of the `kmalloc` object returns with
`slob_free(block 0, 10 + 8)`, and `kmem_cache_destroy` with `slob_free(block 12, 32)`. -/
theorem kmalloc_run_consistent_three_calls :
    ∃ s held, KmReachable Config.page4k Build.x86_64 (s, held) ∧
      held.small = [(7, 28, .cache ⟨24, 8⟩), (7, 12, .desc 32 ⟨24, 8⟩), (7, 0, .kmalloc 10)] ∧
      Config.page4k.storedSize s.heap 7 0 = some 10 ∧
      (∃ h'', Config.page4k.slobFree s.heap (some (7, 0)) (10 + 8) = some h'' ∧
        Config.page4k.kfree 8 s (some (7, 0 * Config.page4k.SLOB_UNIT + 8)) =
          some { s with heap := h'' }) ∧
      ∃ h'', Config.page4k.slobFree s.heap (some (7, 12)) 32 = some h'' ∧
        Config.page4k.kmemCacheDestroy Build.x86_64 s (7, 12 * Config.page4k.SLOB_UNIT) =
          some { s with heap := h'' } := by
  have hB : Build.x86_64.Ok Config.page4k := ⟨by decide, by decide, by decide, by decide, by decide⟩
  obtain ⟨s, hreach⟩ := three_calls_reachable
  obtain ⟨-, -, hobj, -, hcache, -⟩ := kmalloc_run_consistent hB hreach
  obtain ⟨hheader, h'', hfree, hkfree, -⟩ := hobj 7 0 10 (by simp [Held.take])
  obtain ⟨h₃, hfree₃, hdestroy, -⟩ := hcache 7 12 ⟨24, 8⟩ (by simp [Held.take, Build.x86_64])
  exact ⟨s, _, hreach, rfl, hheader, ⟨h'', hfree, hkfree⟩, h₃, hfree₃, hdestroy⟩

/-- **The front end never hands out overlapping blocks.**  In every state a run reaches, the
blocks of any two objects or descriptors the callers hold on one slob page, in the order
`held.small` lists them, lie apart, so none is listed twice; and each lies inside its page. -/
theorem kmalloc_blocks_disjoint {c : Config} {B : Build} (hB : B.Ok c) {s : KmallocState}
    {held : Held} (hr : KmReachable c B (s, held)) :
    held.small.Pairwise (fun x y => x.1 = y.1 →
      x.2.1 + (x.2.2.units c B.arch.align : ℤ) ≤ y.2.1 ∨
        y.2.1 + (y.2.2.units c B.arch.align : ℤ) ≤ x.2.1) ∧
    ∀ x ∈ held.small, 0 ≤ x.2.1 ∧ x.2.1 + (x.2.2.units c B.arch.align : ℤ) ≤ c.pageUnits := by
  have h := KmInv.of_reachable hB hr
  refine ⟨h.small_pairwise, fun x hx => ?_⟩
  obtain ⟨pid, b, o⟩ := x
  obtain ⟨sp, hsp⟩ := Option.isSome_iff_exists.1 (h.page_isSome hx)
  exact (h.heap.page pid sp hsp).liveInside _ (h.live_mem hx)

/-- In the run of `three_calls_reachable`, the `kmalloc` object, the descriptor and the cache's
object take the units `[0, 9)`, `[12, 28)` and `[28, 40)` of page 7, apart. -/
theorem kmalloc_blocks_disjoint_three_calls :
    ∃ s held, KmReachable Config.page4k Build.x86_64 (s, held) ∧
      held.small = [(7, 28, .cache ⟨24, 8⟩), (7, 12, .desc 32 ⟨24, 8⟩), (7, 0, .kmalloc 10)] ∧
      held.small.Pairwise (fun x y => x.1 = y.1 →
        x.2.1 + (x.2.2.units Config.page4k 8 : ℤ) ≤ y.2.1 ∨
          y.2.1 + (y.2.2.units Config.page4k 8 : ℤ) ≤ x.2.1) := by
  have hB : Build.x86_64.Ok Config.page4k := ⟨by decide, by decide, by decide, by decide, by decide⟩
  obtain ⟨s, hreach⟩ := three_calls_reachable
  exact ⟨s, _, hreach, rfl, (kmalloc_blocks_disjoint hB hreach).1⟩

section Refused

variable {c : Config} {s : KmallocState} {live : ℕ → List (ℤ × ℤ)} {node : ℤ}
  {grant : Option (ℕ × ℕ)}

end Refused

end SlobLook.Slob
