import SlobLook.Slob.Header

/-!
# Creating and destroying caches

`kmem_cache_create` takes the cache's descriptor, a `struct kmem_cache`, from the slob heap with
`slob_alloc(sizeof(struct kmem_cache), ARCH_KMALLOC_MINALIGN)` and fills in what
`kmem_cache_alloc_node` and `kmem_cache_free` read: the size of an object, with room for the
footer `struct slob_rcu` when the cache is `SLAB_DESTROY_BY_RCU`, and its alignment, the one
asked for raised to `ARCH_SLAB_MINALIGN`, and to `SLOB_ALIGN` under `SLAB_HWCACHE_ALIGN`.  Both
fields are `unsigned int`.  `kmem_cache_destroy` gives the descriptor back with `slob_free`;
its `rcu_barrier()` waits for the RCU frees, which the model makes at once.

For every alignment a caller may ask, the cache gets the largest of the three, a power of two
up to a page, which `slob_alloc` accepts (`cacheAlign_alignOk`).
-/

namespace SlobLook.Slob

/-- The flags of `kmem_cache_create` that SLOB reads. -/
structure SlabFlags where
  /-- `SLAB_HWCACHE_ALIGN` -/
  hwcacheAlign : Bool
  /-- `SLAB_DESTROY_BY_RCU` -/
  destroyByRcu : Bool
  /-- `SLAB_PANIC` -/
  panic : Bool
deriving DecidableEq, Repr

/-- What a build fixes of the caches: the architecture, `sizeof(struct kmem_cache)`,
`sizeof(struct slob_rcu)` and `SLOB_ALIGN`, which is `L1_CACHE_BYTES`, a power of two. -/
structure Build where
  arch : Arch
  sizeofKmemCache : ℕ
  sizeofSlobRcu : ℕ
  SLOB_ALIGN : ℕ
  SLOB_ALIGN_pow : ∃ j, SLOB_ALIGN = 2 ^ j

namespace Build

/-- x86-64 with its default 64-byte cache lines: a descriptor of 32 bytes and an RCU footer of
24. -/
def x86_64 : Build := ⟨Arch.x86_64, 32, 24, 64, ⟨6, rfl⟩⟩

/-- A build whose constants fit its pages: `kmalloc`'s alignment is at least
`sizeof(unsigned int)`, so that the size `kmalloc` stores lies before the object, and with
`SLOB_ALIGN` and the descriptor at most a page; the descriptor is not empty.  CRIS, whose
alignment is one byte, is not such a build (`kmalloc_header_overlaps_object`). -/
structure Ok (B : Build) (c : Config) : Prop where
  uint_le : sizeofUnsignedInt ≤ B.arch.align
  align_le : B.arch.align ≤ c.PAGE_SIZE
  slobAlign_le : B.SLOB_ALIGN ≤ c.PAGE_SIZE
  desc_pos : 0 < B.sizeofKmemCache
  desc_le : B.sizeofKmemCache ≤ c.PAGE_SIZE

/-- `c->size` of a cache of objects of `size` bytes: `c->size = size`, and
`c->size += sizeof(struct slob_rcu)` under `SLAB_DESTROY_BY_RCU`, in an `unsigned int`. -/
def cacheSize (B : Build) (size : ℕ) (flags : SlabFlags) : ℕ :=
  if flags.destroyByRcu then (size % 2 ^ 32 + B.sizeofSlobRcu) % 2 ^ 32 else size % 2 ^ 32

/-- `c->align` of a cache asked to align to `align`: `SLOB_ALIGN` under `SLAB_HWCACHE_ALIGN`
and else `0`, raised to `ARCH_SLAB_MINALIGN`, and then to `align`. -/
def cacheAlign (B : Build) (align : ℕ) (flags : SlabFlags) : ℕ :=
  let a₀ := if flags.hwcacheAlign then B.SLOB_ALIGN else 0
  let a₁ := if a₀ < B.arch.ARCH_SLAB_MINALIGN then B.arch.ARCH_SLAB_MINALIGN else a₀
  if a₁ < align then align % 2 ^ 32 else a₁

end Build

namespace Config

variable (c : Config)

/-- `kmem_cache_create(name, size, align, flags, ctor)`, with the page allocator's answer
`grant` for `slob_alloc`: the descriptor's address, as a frame and a byte offset, and the cache
it holds; `NULL` when `slob_alloc` has nothing, and no result when `SLAB_PANIC` then panics. -/
def kmemCacheCreate (B : Build) (s : KmallocState) (size align : ℕ) (flags : SlabFlags)
    (grant : Option (ℕ × ℕ)) : Option (KmallocState × Option (ℕ × ℤ × KmemCache)) := do
  let (h, m) ← c.slobAlloc s.heap B.sizeofKmemCache B.arch.ARCH_KMALLOC_MINALIGN (-1) grant
  match m with
  | some (pid, b) =>
    some ({ s with heap := h },
      some (pid, b * c.SLOB_UNIT, ⟨B.cacheSize size flags, B.cacheAlign align flags⟩))
  | none => if flags.panic then none else some ({ s with heap := h }, none)

/-- `kmem_cache_destroy(c)` of the descriptor at `desc`: `slob_free(c, sizeof(struct
kmem_cache))`. -/
def kmemCacheDestroy (B : Build) (s : KmallocState) (desc : ℕ × ℤ) : Option KmallocState :=
  (c.slobFree s.heap (some (desc.1, desc.2 / c.SLOB_UNIT)) B.sizeofKmemCache).map
    fun h => { s with heap := h }

end Config

/-! ## The alignment of a cache -/

section Align

variable {c : Config}

/-- Of two alignments `slob_alloc` accepts, the larger. -/
theorem Config.AlignOk.max {a b : ℕ} (ha : c.AlignOk a) (hb : c.AlignOk b) : c.AlignOk (max a b) := by
  rcases le_total a b with h | h
  · rwa [max_eq_right h]
  · rwa [max_eq_left h]

/-- A power of two up to a page is an alignment `slob_alloc` accepts. -/
theorem alignOk_of_pow {a : ℕ} (hpow : ∃ j, a = 2 ^ j) (hle : a ≤ c.PAGE_SIZE) : c.AlignOk a :=
  .inr ⟨hpow, hle⟩

theorem Arch.ARCH_SLAB_MINALIGN_le_align (a : Arch) : a.ARCH_SLAB_MINALIGN ≤ a.align :=
  le_max_right _ _

theorem Arch.ARCH_KMALLOC_MINALIGN_le_align (a : Arch) : a.ARCH_KMALLOC_MINALIGN ≤ a.align :=
  le_max_left _ _

/-- A page is smaller than what an `unsigned int` holds. -/
theorem PAGE_SIZE_lt_two_pow_32 (c : Config) : c.PAGE_SIZE < 2 ^ 32 :=
  lt_of_le_of_lt (Nat.pow_le_pow_right (by norm_num) c.pageShift_le) (by norm_num)

/-- An alignment `slob_alloc` accepts fits an `unsigned int`. -/
theorem Config.AlignOk.lt_two_pow_32 {a : ℕ} (h : c.AlignOk a) : a < 2 ^ 32 := by
  rcases h with rfl | ⟨-, hle⟩
  · norm_num
  · exact lt_of_le_of_lt hle (PAGE_SIZE_lt_two_pow_32 c)

/-- `c->align` is the largest of `SLOB_ALIGN` (under `SLAB_HWCACHE_ALIGN`),
`ARCH_SLAB_MINALIGN` and the alignment asked for, when that fits an `unsigned int`. -/
theorem Build.cacheAlign_eq (B : Build) {align : ℕ} (h32 : align < 2 ^ 32) (flags : SlabFlags) :
    B.cacheAlign align flags =
      max (max (if flags.hwcacheAlign then B.SLOB_ALIGN else 0) B.arch.ARCH_SLAB_MINALIGN)
        align := by
  unfold Build.cacheAlign
  dsimp only
  rw [Nat.mod_eq_of_lt h32]
  split_ifs <;> omega

/-- **Every cache gets an alignment `slob_alloc` accepts**: for every alignment a caller may
ask (`0`, or a power of two up to a page) and every flag, `c->align` is a power of two up to a
page. -/
theorem Build.Ok.cacheAlign_alignOk {B : Build} (hB : B.Ok c) {align : ℕ} (halign : c.AlignOk align)
    (flags : SlabFlags) : c.AlignOk (B.cacheAlign align flags) := by
  rw [B.cacheAlign_eq halign.lt_two_pow_32]
  have hslab : c.AlignOk B.arch.ARCH_SLAB_MINALIGN :=
    alignOk_of_pow (B.arch.getD_pow B.arch.slabMinalign_pow)
      ((B.arch.ARCH_SLAB_MINALIGN_le_align).trans hB.align_le)
  have hhw : c.AlignOk (if flags.hwcacheAlign then B.SLOB_ALIGN else 0) := by
    split_ifs
    · exact alignOk_of_pow B.SLOB_ALIGN_pow hB.slobAlign_le
    · exact .inl rfl
  exact (hhw.max hslab).max halign

/-- The descriptor's own alignment, `ARCH_KMALLOC_MINALIGN`, is one `slob_alloc` accepts. -/
theorem Build.Ok.kmallocMinalign_alignOk {B : Build} (hB : B.Ok c) :
    c.AlignOk B.arch.ARCH_KMALLOC_MINALIGN :=
  alignOk_of_pow (B.arch.getD_pow B.arch.kmallocMinalign_pow)
    ((B.arch.ARCH_KMALLOC_MINALIGN_le_align).trans hB.align_le)

/-- The descriptor is a request `slob_alloc` serves. -/
theorem Build.Ok.desc_reqOk {B : Build} (hB : B.Ok c) : c.ReqOk B.sizeofKmemCache :=
  ⟨c.SLOB_UNITS_pos hB.desc_pos, c.SLOB_UNITS_mono hB.desc_le⟩

end Align

/-! ## What creating and destroying a cache do -/

section Paths

variable {c : Config} {B : Build} {s s' : KmallocState} {size align : ℕ} {flags : SlabFlags}
  {grant : Option (ℕ × ℕ)}

/-- `kmem_cache_create` returning a cache: `slob_alloc` carved its descriptor, and the cache
holds `c->size` and `c->align`. -/
theorem kmemCacheCreate_some {pid : ℕ} {p : ℤ} {cache : KmemCache}
    (hrun : c.kmemCacheCreate B s size align flags grant = some (s', some (pid, p, cache))) :
    ∃ b, c.slobAlloc s.heap B.sizeofKmemCache B.arch.ARCH_KMALLOC_MINALIGN (-1) grant =
        some (s'.heap, some (pid, b)) ∧ p = b * c.SLOB_UNIT ∧ s' = { s with heap := s'.heap } ∧
      cache = ⟨B.cacheSize size flags, B.cacheAlign align flags⟩ := by
  unfold Config.kmemCacheCreate at hrun
  obtain ⟨⟨h, m⟩, hslob, hr⟩ := Option.bind_eq_some_iff.1 hrun
  rcases m with _ | ⟨pid', b⟩
  · simp only at hr
    split_ifs at hr
    cases hr
  · cases hr
    exact ⟨b, hslob, rfl, rfl, rfl⟩

/-- `kmem_cache_create` returning `NULL`: `slob_alloc` had nothing and the cache is not
`SLAB_PANIC`. -/
theorem kmemCacheCreate_null
    (hrun : c.kmemCacheCreate B s size align flags grant = some (s', none)) :
    c.slobAlloc s.heap B.sizeofKmemCache B.arch.ARCH_KMALLOC_MINALIGN (-1) grant =
      some (s'.heap, none) ∧ s' = { s with heap := s'.heap } ∧ flags.panic = false := by
  unfold Config.kmemCacheCreate at hrun
  obtain ⟨⟨h, m⟩, hslob, hr⟩ := Option.bind_eq_some_iff.1 hrun
  rcases m with _ | ⟨pid', b⟩
  · simp only at hr
    split_ifs at hr with hpanic
    cases hr
    exact ⟨hslob, rfl, by simpa using hpanic⟩
  · cases hr

/-- `kmem_cache_destroy` of the descriptor in the block `b` is `slob_free(b,
sizeof(struct kmem_cache))`. -/
theorem kmemCacheDestroy_eq (pid : ℕ) (b : ℤ) :
    c.kmemCacheDestroy B s (pid, b * c.SLOB_UNIT) =
      (c.slobFree s.heap (some (pid, b)) B.sizeofKmemCache).map fun h => { s with heap := h } := by
  simp only [Config.kmemCacheDestroy]
  rw [Int.mul_ediv_cancel b (by exact_mod_cast c.SLOB_UNIT_pos.ne')]

end Paths

end SlobLook.Slob
