import SlobLook.Slob.Kmalloc

/-!
# The size `kmalloc` stores in front of an object

`__kmalloc_node(size)` asks `slob_alloc` for `size + align` bytes aligned to `align`, stores
`size` as an `unsigned int` at the start of the block (`*m = size`) and returns the address
`align` bytes in; `kfree` and `ksize` read the size back at `block - align`.  The `unsigned int`
takes the first `sizeof(unsigned int) / SLOB_UNIT` cells of the block (`Config.storeHeader`,
`Config.loadHeader`).  `align` is `max(ARCH_KMALLOC_MINALIGN, ARCH_SLAB_MINALIGN)`, each
`__alignof__(unsigned long)` where the architecture leaves it undefined (`Arch.align`).

When `align` is at least `sizeof(unsigned int)`, and so a multiple of `SLOB_UNIT`, the header
lies in the block before the object: the heap stays well formed, writes to the object leave the
size, `ksize` gives the object the rest of the block, and `kfree` gives back the block
`slob_alloc` carved (`kmallocNode_header_ok`).

With a smaller `align` the cell that holds the object's first byte is a cell of the header, and a
write that changes it changes the size (`kmallocNode_header_clobbered`); when `align` is not a
multiple of `SLOB_UNIT`, `ksize` reaches past the block (`kmallocNode_ksize_past_block`).  CRIS,
whose ABI aligns `long` to a byte and which defines neither macro, is such an architecture; there
the header of a one-byte object runs into the free block after it
(`kmalloc_header_overlaps_object`).
-/

namespace SlobLook.Slob

/-- What an architecture fixes of `kmalloc`'s alignment: `ARCH_KMALLOC_MINALIGN` and
`ARCH_SLAB_MINALIGN` where its headers define them, and `__alignof__(unsigned long)` of its ABI.
Alignments are powers of two. -/
structure Arch where
  kmallocMinalign : Option ℕ
  slabMinalign : Option ℕ
  alignofUnsignedLong : ℕ
  kmallocMinalign_pow : ∀ x ∈ kmallocMinalign, ∃ j, x = 2 ^ j
  slabMinalign_pow : ∀ x ∈ slabMinalign, ∃ j, x = 2 ^ j
  alignofUnsignedLong_pow : ∃ j, alignofUnsignedLong = 2 ^ j

namespace Arch

variable (a : Arch)

/-- `ARCH_KMALLOC_MINALIGN`, by default `__alignof__(unsigned long)`. -/
def ARCH_KMALLOC_MINALIGN : ℕ := a.kmallocMinalign.getD a.alignofUnsignedLong

/-- `ARCH_SLAB_MINALIGN`, by default `__alignof__(unsigned long)`. -/
def ARCH_SLAB_MINALIGN : ℕ := a.slabMinalign.getD a.alignofUnsignedLong

/-- `int align = max(ARCH_KMALLOC_MINALIGN, ARCH_SLAB_MINALIGN);` of `__kmalloc_node`, `kfree`
and `ksize`. -/
def align : ℕ := max a.ARCH_KMALLOC_MINALIGN a.ARCH_SLAB_MINALIGN

/-- A macro or its default is a power of two. -/
theorem getD_pow {o : Option ℕ} (ho : ∀ x ∈ o, ∃ j, x = 2 ^ j) :
    ∃ j, o.getD a.alignofUnsignedLong = 2 ^ j := by
  cases o with
  | none => exact a.alignofUnsignedLong_pow
  | some x => exact ho x rfl

theorem align_pow : ∃ j, a.align = 2 ^ j := by
  unfold align
  rcases le_total a.ARCH_KMALLOC_MINALIGN a.ARCH_SLAB_MINALIGN with h | h
  · rw [max_eq_right h]
    exact a.getD_pow a.slabMinalign_pow
  · rw [max_eq_left h]
    exact a.getD_pow a.kmallocMinalign_pow

theorem alignOk {c : Config} (hpage : a.align ≤ c.PAGE_SIZE) : c.AlignOk a.align :=
  .inr ⟨a.align_pow, hpage⟩

/-- An alignment of at least `sizeof(unsigned int)` is a whole number of units. -/
theorem SLOB_UNIT_dvd (c : Config) (h4 : sizeofUnsignedInt ≤ a.align) :
    c.SLOB_UNIT ∣ a.align := by
  obtain ⟨j, hj⟩ := a.align_pow
  have hj2 : 2 ≤ j := by
    by_contra hlt
    have : 2 ^ j ≤ 2 ^ 1 := Nat.pow_le_pow_right (by norm_num) (by omega)
    unfold sizeofUnsignedInt at h4
    omega
  rw [hj, c.SLOB_UNIT_eq]
  split_ifs
  · exact ⟨2 ^ (j - 1), by rw [← pow_succ']; congr 1; omega⟩
  · exact ⟨2 ^ (j - 2), by rw [show (4 : ℕ) = 2 ^ 2 by norm_num, ← pow_add]; congr 1; omega⟩

/-- CRIS: `arch/cris` defines neither macro, and its ABI aligns `long` to a byte. -/
def cris : Arch := ⟨none, none, 1, by simp, by simp, ⟨0, rfl⟩⟩

/-- x86-64: arch/x86 defines neither macro either, and its ABI aligns `long` to 8 bytes. -/
def x86_64 : Arch := ⟨none, none, 8, by simp, by simp, ⟨3, rfl⟩⟩

end Arch

/-! ## The header's cells -/

namespace Config

variable (c : Config)

/-- The header's cells hold the four bytes of an `unsigned int`. -/
theorem headerCells_mul : c.headerCells * c.SLOB_UNIT = sizeofUnsignedInt := by
  unfold headerCells sizeofUnsignedInt
  rw [SLOB_UNIT_eq]
  split_ifs <;> rfl

/-- The header's cells hold every `unsigned int`. -/
theorem cell_base_pow : c.cell.base ^ c.headerCells = 2 ^ 32 := by
  show (2 ^ c.slobidxBits) ^ (sizeofUnsignedInt / c.SLOB_UNIT) = 2 ^ 32
  rw [SLOB_UNIT_eq, slobidxBits_eq]
  unfold sizeofUnsignedInt
  split_ifs <;> norm_num

/-- `*m` reads back the `unsigned int` stored there. -/
theorem loadHeader_storeHeader (mem : ℤ → ℤ) (m : ℤ) {v : ℕ} (hv : v < 2 ^ 32) :
    c.loadHeader (c.storeHeader mem m v) m = v :=
  Words.load_store _ _ (by rw [c.cell_base_pow]; exact hv)

/-- `*m = v` writes only the header's cells. -/
theorem storeHeader_apply (mem : ℤ → ℤ) (m : ℤ) (v : ℕ) {x : ℤ}
    (hx : x < m ∨ m + c.headerCells ≤ x) : c.storeHeader mem m v x = mem x :=
  Words.store_apply _ _ _ hx

/-- `*m` reads only the header's cells. -/
theorem loadHeader_congr {mem mem' : ℤ → ℤ} (m : ℤ)
    (hagree : ∀ x, m ≤ x → x < m + c.headerCells → mem' x = mem x) :
    c.loadHeader mem' m = c.loadHeader mem m :=
  Words.load_congr _ _ hagree

/-- A block for at least `sizeof(unsigned int)` bytes has room for the header. -/
theorem headerCells_le {n : ℕ} (hn : sizeofUnsignedInt ≤ n) : c.headerCells ≤ c.SLOB_UNITS n := by
  have hmul := c.headerCells_mul
  have hle := c.le_SLOB_UNITS_mul n
  exact Nat.le_of_mul_le_mul_right (by omega) c.SLOB_UNIT_pos

/-- `ksize(block)`: for a block of a slob page `SLOB_UNITS(*m) * SLOB_UNIT`, with `*m` the size
stored in front of it; 0 for `ZERO_SIZE_PTR`.  The `page->private` of a large block is not kept:
`none`. -/
def ksize (align : ℕ) (s : KmallocState) (block : Option (ℕ × ℤ)) : Option ℕ :=
  match block with
  | none => some 0
  | some (pid, off) =>
    match s.heap.pages pid with
    | some sp =>
      -- `m = block - align; return SLOB_UNITS(*m) * SLOB_UNIT;`
      some (c.SLOB_UNITS (c.loadHeader sp.mem ((off - align) / c.SLOB_UNIT)) * c.SLOB_UNIT)
    | none => none

/-- The size stored in front of the block `b` of page `pid`, as `kfree` and `ksize` read it. -/
def storedSize (h : SlobHeap) (pid : ℕ) (b : ℤ) : Option ℕ :=
  (h.pages pid).map fun sp => c.loadHeader sp.mem b

end Config

/-! ## `ksize` and `kfree` of an object -/

section Object

variable {c : Config} {align : ℕ} {s : KmallocState} {pid : ℕ} {b : ℤ} {sp : SlobPage}

/-- `block - align` of the object `align` bytes into the block `b` is the block. -/
theorem object_sub_align (c : Config) (align : ℕ) (b : ℤ) :
    (b * c.SLOB_UNIT + align - align) / c.SLOB_UNIT = b := by
  rw [add_sub_cancel_right]
  exact Int.mul_ediv_cancel b (by exact_mod_cast c.SLOB_UNIT_pos.ne')

/-- Objects in different blocks are different. -/
theorem object_inj {b' : ℤ} (h : b * c.SLOB_UNIT + align = b' * c.SLOB_UNIT + align) : b = b' :=
  mul_right_cancel₀ (by exact_mod_cast c.SLOB_UNIT_pos.ne') (add_right_cancel h)

/-- `ksize` of the object in the block `b` of a slob page reads the size stored in front of it. -/
theorem ksize_object (hsp : s.heap.pages pid = some sp) :
    c.ksize align s (some (pid, b * c.SLOB_UNIT + align)) =
      some (c.SLOB_UNITS (c.loadHeader sp.mem b) * c.SLOB_UNIT) := by
  simp only [Config.ksize, hsp, object_sub_align]

/-- `kfree` of the object in the block `b` of a slob page is `slob_free` of the block, with the
size stored in front of it and `align`. -/
theorem kfree_object (hsp : s.heap.pages pid = some sp) :
    c.kfree align s (some (pid, b * c.SLOB_UNIT + align)) =
      (c.slobFree s.heap (some (pid, b)) (c.loadHeader sp.mem b + align)).map
        fun h => { s with heap := h } := by
  simp only [Config.kfree, hsp, object_sub_align]

end Object

/-! ## What `__kmalloc_node` hands out -/

section Kmalloc

variable {c : Config} {align : ℕ} {s s' : KmallocState} {live : ℕ → List (ℤ × ℤ)} {size : ℕ}
  {node : ℤ} {grant : Option (ℕ × ℕ)} {pid : ℕ} {p : ℤ}

/-- A page changed in place is the page the heap held, changed. -/
theorem SlobHeap.modifyPage_of_some {h : SlobHeap} {sp : SlobPage} (hsp : h.pages pid = some sp)
    (f : SlobPage → SlobPage) : h.modifyPage pid f = h.setPage pid (f sp) := by
  simp [SlobHeap.modifyPage, SlobHeap.setPage, hsp]

/-- The small path of `__kmalloc_node`: the object is `align` bytes into the block `b` of a slob
page that `slob_alloc(size + align, align)` returned, and `*m = size` is stored in front of it. -/
theorem kmallocNode_small (hsmall : size < c.PAGE_SIZE - align)
    (hrun : c.kmallocNode align s size node grant = some (s', some (pid, p))) :
    ∃ h b sp, c.slobAlloc s.heap (size + align) align node grant = some (h, some (pid, b)) ∧
      h.pages pid = some sp ∧ p = b * c.SLOB_UNIT + align ∧
      s' = { s with heap := h.setPage pid { sp with mem := c.storeHeader sp.mem b size } } := by
  unfold Config.kmallocNode at hrun
  rw [if_pos hsmall] at hrun
  split_ifs at hrun with h0
  · simp at hrun
  obtain ⟨⟨h, m⟩, hslob, hr⟩ := Option.bind_eq_some_iff.1 hrun
  rcases m with _ | ⟨pid', b⟩
  · simp at hr
  · simp only [Option.some.injEq, Prod.mk.injEq] at hr
    obtain ⟨rfl, rfl, rfl⟩ := hr
    obtain ⟨sp, hsp⟩ := Option.isSome_iff_exists.1
      (by simpa using slobAlloc_pages_isSome hslob pid')
    exact ⟨h, b, sp, hslob, hsp, rfl, by rw [SlobHeap.modifyPage_of_some hsp]⟩

/-- The request `__kmalloc_node` makes of `slob_alloc` on its small path is one `slob_alloc`
serves: at least a unit and at most a page. -/
theorem reqOk_add (hn : 0 < size) (hsmall : size < c.PAGE_SIZE - align) :
    c.ReqOk (size + align) :=
  ⟨c.SLOB_UNITS_pos (by omega), c.SLOB_UNITS_mono (by omega)⟩

/-- A size on the small path fits the `unsigned int` of the header. -/
theorem lt_two_pow_of_small (hsmall : size < c.PAGE_SIZE - align) : size < 2 ^ 32 := by
  have hpage : c.PAGE_SIZE ≤ 2 ^ 18 := Nat.pow_le_pow_right (by norm_num) c.pageShift_le
  omega

/-- **`__kmalloc_node` on a well-formed heap**, on its small path with room for the header: the
object is `align` bytes into a block `b` of `SLOB_UNITS(size + align)` units, aligned and now
live on a slob page, whose cells from `b` hold the size; the heap stays well formed. -/
theorem HeapInv.kmallocNode (hinv : HeapInv c s.heap live) (halign : c.AlignOk align)
    (hgrant : GrantFresh s.heap grant) (hn : 0 < size) (hfit : sizeofUnsignedInt ≤ size + align)
    (hsmall : size < c.PAGE_SIZE - align)
    (hrun : c.kmallocNode align s size node grant = some (s', some (pid, p))) :
    ∃ b sp', p = b * c.SLOB_UNIT + align ∧ s'.heap.pages pid = some sp' ∧
      c.loadHeader sp'.mem b = size ∧
      HeapInv c s'.heap
        (Function.update live pid ((b, (c.SLOB_UNITS (size + align) : ℤ)) :: live pid)) ∧
      (align ≠ 0 → ((pid * c.PAGE_SIZE : ℤ) + b * c.SLOB_UNIT) % align = 0) := by
  obtain ⟨h, b, sp, hslob, hsp, rfl, rfl⟩ := kmallocNode_small hsmall hrun
  obtain ⟨h', r, hslob', hr⟩ := hinv.slobAlloc (reqOk_add hn hsmall) halign node hgrant
  rw [hslob, Option.some.injEq, Prod.mk.injEq] at hslob'
  obtain ⟨rfl, rfl⟩ := hslob'
  rcases hr with ⟨hnone, -, -⟩ | ⟨pid', b', hpb, -, hinv', haligned⟩
  · cases hnone
  simp only [Option.some.injEq, Prod.mk.injEq] at hpb
  obtain ⟨rfl, rfl⟩ := hpb
  refine ⟨b, { sp with mem := c.storeHeader sp.mem b size }, rfl, by simp,
    c.loadHeader_storeHeader _ _ (lt_two_pow_of_small hsmall), ?_, haligned⟩
  -- the header's cells lie in the new live block, apart from every free block
  have hhc : (c.headerCells : ℤ) ≤ c.SLOB_UNITS (size + align) := by
    exact_mod_cast c.headerCells_le hfit
  refine hinv'.setMem hsp fun I hI x hx₁ hx₂ => c.storeHeader_apply _ _ _ ?_
  have hapart := (hinv'.page pid sp hsp).apart hI
    (show (b, (c.SLOB_UNITS (size + align) : ℤ)) ∈ _ by simp)
  omega

/-- `__kmalloc_node` on a well-formed heap hands out nothing only when it changes nothing. -/
theorem HeapInv.kmallocNode_null (hinv : HeapInv c s.heap live) (halign : c.AlignOk align)
    (hgrant : GrantFresh s.heap grant) (hsmall : size < c.PAGE_SIZE - align)
    (hrun : c.kmallocNode align s size node grant = some (s', none)) : s' = s := by
  unfold Config.kmallocNode at hrun
  rw [if_pos hsmall] at hrun
  split_ifs at hrun with h0
  · -- `ZERO_SIZE_PTR`
    exact (Prod.mk.inj (Option.some.inj hrun)).1.symm
  obtain ⟨⟨h, m⟩, hslob, hr⟩ := Option.bind_eq_some_iff.1 hrun
  rcases m with _ | ⟨pid, b⟩
  · -- `slob_alloc` returned `NULL`, which it does only leaving the heap as it was
    obtain ⟨h', r, hslob', hcases⟩ :=
      hinv.slobAlloc (reqOk_add (Nat.pos_of_ne_zero h0) hsmall) halign node hgrant
    rw [hslob, Option.some.injEq, Prod.mk.injEq] at hslob'
    obtain ⟨rfl, rfl⟩ := hslob'
    rcases hcases with ⟨-, rfl, -⟩ | ⟨pid', b', hpb, -⟩
    · exact (Prod.mk.inj (Option.some.inj hr)).1.symm
    · cases hpb
  · simp at hr

/-- `kfree` of the object in a block live with the units of its stored size and `align` gives
the block back, and the heap returns to the blocks live before. -/
theorem HeapInv.kfree_carved {b : ℤ} {sp' : SlobPage} (hinv : HeapInv c s'.heap
      (Function.update live pid ((b, (c.SLOB_UNITS (size + align) : ℤ)) :: live pid)))
    (hsp' : s'.heap.pages pid = some sp') (hheader : c.loadHeader sp'.mem b = size) :
    ∃ h'', c.slobFree s'.heap (some (pid, b)) (size + align) = some h'' ∧
      c.kfree align s' (some (pid, b * c.SLOB_UNIT + align)) = some { s' with heap := h'' } ∧
      HeapInv c h'' live := by
  obtain ⟨h'', hfree, hinv''⟩ := hinv.slobFree (show (b, (c.SLOB_UNITS (size + align) : ℤ)) ∈
    Function.update live pid ((b, (c.SLOB_UNITS (size + align) : ℤ)) :: live pid) pid by simp)
  -- the block given back is the one made live
  have hlive : Function.update (Function.update live pid
      ((b, (c.SLOB_UNITS (size + align) : ℤ)) :: live pid)) pid
      (((b, (c.SLOB_UNITS (size + align) : ℤ)) :: live pid).erase
        (b, (c.SLOB_UNITS (size + align) : ℤ))) = live := by
    simp
  rw [Function.update_self, hlive] at hinv''
  refine ⟨h'', hfree, ?_, hinv''⟩
  rw [kfree_object hsp', hheader, hfree, Option.map_some]

/-- **What `__kmalloc_node` hands out, when `align` is at least `sizeof(unsigned int)`.**  For an
architecture whose `align` is at least `sizeof(unsigned int)` and at most a page, in every
well-formed state and for every size `0 < n < PAGE_SIZE - align`: when `__kmalloc_node(n)`
returns the object at byte `p` of page `pid`, it is `align` bytes into the block `b` that
`slob_alloc` carved; the header's cells lie in the block before `p` and hold `n`, and after any
writes to cells from `p` on they still do; the object's address is aligned; `ksize(p)` is at
least `n` and `[p, p + ksize(p))` ends where the block ends; and `kfree(p)` is
`slob_free(b, n + align)`, which gives the block back. -/
theorem kmallocNode_header_ok (a : Arch) (h4 : sizeofUnsignedInt ≤ a.align)
    (hpage : a.align ≤ c.PAGE_SIZE) (hinv : HeapInv c s.heap live)
    (hgrant : GrantFresh s.heap grant) (hn : 0 < size) (hsmall : size < c.PAGE_SIZE - a.align)
    (hrun : c.kmallocNode a.align s size node grant = some (s', some (pid, p))) :
    ∃ b sp', p = b * c.SLOB_UNIT + a.align ∧ b * c.SLOB_UNIT + sizeofUnsignedInt ≤ p ∧
      s'.heap.pages pid = some sp' ∧ c.loadHeader sp'.mem b = size ∧
      (∀ mem : ℤ → ℤ, (∀ x, x * c.SLOB_UNIT < p → mem x = sp'.mem x) →
        c.loadHeader mem b = size) ∧
      ((pid * c.PAGE_SIZE : ℤ) + p) % a.align = 0 ∧
      (∃ k, c.ksize a.align s' (some (pid, p)) = some k ∧ size ≤ k ∧
        p + k = (b + c.SLOB_UNITS (size + a.align)) * c.SLOB_UNIT) ∧
      ∃ h'', c.slobFree s'.heap (some (pid, b)) (size + a.align) = some h'' ∧
        c.kfree a.align s' (some (pid, p)) = some { s' with heap := h'' } ∧ HeapInv c h'' live := by
  obtain ⟨b, sp', rfl, hsp', hheader, hinv', haligned⟩ :=
    hinv.kmallocNode (a.alignOk hpage) hgrant hn (by omega) hsmall hrun
  obtain ⟨h'', hfree, hkfree, hinv''⟩ := hinv'.kfree_carved hsp' hheader
  -- the block holds the object's units and the header's `align` bytes
  have hunits : (c.SLOB_UNITS (size + a.align) * c.SLOB_UNIT : ℤ) =
      c.SLOB_UNITS size * c.SLOB_UNIT + a.align := by
    rw [c.SLOB_UNITS_add_of_dvd size (a.SLOB_UNIT_dvd c h4)]
    push_cast
    rw [add_mul, Int.ediv_mul_cancel (by exact_mod_cast a.SLOB_UNIT_dvd c h4)]
  have h4' : (sizeofUnsignedInt : ℤ) ≤ a.align := by exact_mod_cast h4
  have hmul : ((c.headerCells : ℤ) * c.SLOB_UNIT) = sizeofUnsignedInt := by
    exact_mod_cast c.headerCells_mul
  refine ⟨b, sp', rfl, by omega, hsp', hheader, fun mem hmem => ?_, ?_,
    ⟨_, ksize_object hsp', ?_, ?_⟩, h'', hfree, hkfree, hinv''⟩
  · -- the header's cells end before the object
    rw [← hheader]
    refine c.loadHeader_congr b fun x _ hx => hmem x ?_
    have hU : (0 : ℤ) < c.SLOB_UNIT := by exact_mod_cast c.SLOB_UNIT_pos
    have hxU : x * c.SLOB_UNIT ≤ (b + c.headerCells - 1) * c.SLOB_UNIT :=
      mul_le_mul_of_nonneg_right (by omega) hU.le
    linarith
  · rw [← add_assoc, ← Int.emod_eq_add_self_emod]
    exact haligned (by unfold sizeofUnsignedInt at h4; omega)
  · rw [hheader]
    exact c.le_SLOB_UNITS_mul size
  · rw [hheader, add_mul, hunits]
    push_cast
    ring

/-- On x86-64 with 4 KB pages, `__kmalloc_node(10)` on the empty allocator, given frame 7,
returns the object at byte 8 of the page, with the size 10 in its header, `ksize` at least 10,
and `kfree` gives the block back. -/
theorem kmallocNode_header_ok_x86_64 :
    ∃ s' sp', Config.page4k.kmallocNode Arch.x86_64.align KmallocState.empty 10 (-1)
        (some (7, 0)) = some (s', some (7, 8)) ∧ s'.heap.pages 7 = some sp' ∧
      Config.page4k.loadHeader sp'.mem 0 = 10 ∧
      (∃ k, Config.page4k.ksize Arch.x86_64.align s' (some (7, 8)) = some k ∧ 10 ≤ k) ∧
      ∃ h'', Config.page4k.kfree Arch.x86_64.align s' (some (7, 8)) = some { s' with heap := h'' } ∧
        HeapInv Config.page4k h'' fun _ => [] := by
  obtain ⟨⟨s', r⟩, hrun⟩ : ∃ r, Config.page4k.kmallocNode Arch.x86_64.align KmallocState.empty 10
      (-1) (some (7, 0)) = some r := Option.isSome_iff_exists.1 (by decide)
  have hr : (Config.page4k.kmallocNode Arch.x86_64.align KmallocState.empty 10 (-1)
      (some (7, 0))).map Prod.snd = some (some (7, 8)) := by decide
  rw [hrun, Option.map_some, Option.some.injEq] at hr
  subst hr
  obtain ⟨b, sp', hb, -, hsp', hheader, -, -, ⟨k, hk, hle, -⟩, h'', -, hkfree, hinv''⟩ :=
    kmallocNode_header_ok Arch.x86_64 (by decide) (by decide) (HeapInv.empty Config.page4k)
      (fun _ _ _ => rfl) (by decide) (by decide) hrun
  -- the object sits `align = 8` bytes into the block, so the block starts the page
  obtain rfl : b = 0 := by
    have hU : Config.page4k.SLOB_UNIT = 2 := by decide
    have h8 : Arch.x86_64.align = 8 := by decide
    rw [hU, h8] at hb
    omega
  exact ⟨s', sp', hrun, hsp', hheader, ⟨k, hk, hle⟩, h'', hkfree, hinv''⟩

/-- **When `align` is below `sizeof(unsigned int)`, a write to the object changes the size that
`kfree` and `ksize` read.**  Whenever `__kmalloc_node(n)` hands out an object, the cell that
holds the object's first byte is a cell of the header stored `align` bytes before it, and every
write that changes that cell makes the size read back differ from `n`. -/
theorem kmallocNode_header_clobbered (h4 : align < sizeofUnsignedInt)
    (hsmall : size < c.PAGE_SIZE - align)
    (hrun : c.kmallocNode align s size node grant = some (s', some (pid, p))) :
    ∃ b sp', p = b * c.SLOB_UNIT + align ∧ s'.heap.pages pid = some sp' ∧
      c.loadHeader sp'.mem b = size ∧ b ≤ p / c.SLOB_UNIT ∧ p / c.SLOB_UNIT < b + c.headerCells ∧
      ∀ v : ℤ, c.cell.dec v ≠ c.cell.dec (sp'.mem (p / c.SLOB_UNIT)) →
        c.loadHeader (Function.update sp'.mem (p / c.SLOB_UNIT) v) b ≠ size := by
  obtain ⟨h, b, sp, -, -, rfl, rfl⟩ := kmallocNode_small hsmall hrun
  have hheader := c.loadHeader_storeHeader sp.mem b (lt_two_pow_of_small hsmall)
  -- the object's first byte lies in a cell of the header
  have hU : (0 : ℤ) < c.SLOB_UNIT := by exact_mod_cast c.SLOB_UNIT_pos
  have hmul : ((c.headerCells : ℤ) * c.SLOB_UNIT) = sizeofUnsignedInt := by
    exact_mod_cast c.headerCells_mul
  have h4' : (align : ℤ) < sizeofUnsignedInt := by exact_mod_cast h4
  have hdiv : (b * c.SLOB_UNIT + align) / c.SLOB_UNIT = b + align / c.SLOB_UNIT := by
    rw [add_comm, Int.add_mul_ediv_right _ _ hU.ne', add_comm]
  have hlt : (align : ℤ) / c.SLOB_UNIT < c.headerCells := by
    rw [Int.ediv_lt_iff_lt_mul hU]
    linarith
  have hle : (0 : ℤ) ≤ align / c.SLOB_UNIT := Int.ediv_nonneg (by positivity) hU.le
  have hp₁ : b ≤ (b * c.SLOB_UNIT + align) / c.SLOB_UNIT := by
    rw [hdiv]
    omega
  have hp₂ : (b * c.SLOB_UNIT + align) / c.SLOB_UNIT < b + c.headerCells := by
    rw [hdiv]
    omega
  refine ⟨b, { sp with mem := c.storeHeader sp.mem b size }, rfl, by simp, hheader, hp₁, hp₂,
    fun v hv heq => ?_⟩
  exact Words.load_update_ne _ _ hp₁ hp₂ hv (heq.trans hheader.symm)

/-- `SLOB_UNITS(1)` is one unit. -/
theorem SLOB_UNITS_one (c : Config) : c.SLOB_UNITS 1 = 1 := by
  unfold Config.SLOB_UNITS
  rw [Nat.add_sub_cancel_left, Nat.div_self c.SLOB_UNIT_pos]

/-- **When `align` is not a multiple of `SLOB_UNIT`, `ksize` of a one-byte object reaches past
its block**, in every state. -/
theorem kmallocNode_ksize_past_block (hU : ¬ c.SLOB_UNIT ∣ align)
    (hsmall : 1 < c.PAGE_SIZE - align)
    (hrun : c.kmallocNode align s 1 node grant = some (s', some (pid, p))) :
    ∃ b k, p = b * c.SLOB_UNIT + align ∧ c.ksize align s' (some (pid, p)) = some k ∧
      (b + c.SLOB_UNITS (1 + align)) * c.SLOB_UNIT < p + k := by
  obtain ⟨h, b, sp, -, -, rfl, rfl⟩ := kmallocNode_small hsmall hrun
  have hlt : (c.SLOB_UNITS (1 + align) * c.SLOB_UNIT : ℤ) < align + c.SLOB_UNIT := by
    exact_mod_cast c.SLOB_UNITS_one_add_mul_lt hU
  have hsp : ({ s with heap := h.setPage pid { sp with mem := c.storeHeader sp.mem b 1 } } :
      KmallocState).heap.pages pid = some { sp with mem := c.storeHeader sp.mem b 1 } := by simp
  refine ⟨b, _, rfl, ksize_object hsp, ?_⟩
  rw [c.loadHeader_storeHeader _ _ (by norm_num), SLOB_UNITS_one, add_mul]
  push_cast
  omega

end Kmalloc

/-- **On CRIS the size `kmalloc` stores runs into the free block after the object.**  With 8 KB
pages and `align = __alignof__(unsigned long) = 1`, `__kmalloc_node(1)` on the empty allocator,
given frame 7, carves one unit, two bytes, at offset 0 of the page and returns the object at
byte 1.  The header `*m = 1` takes bytes `[0, 4)`, the cells 0 and 1: cell 1 is the first cell of
the page's free block `(1, 4095)`, which now reads as a block of one unit while `sp->units` still
counts 4095.  `ksize` is 2, so `[1, 3)` reaches past the block `[0, 2)`.  The caller's write of
`0xff` to the object's first byte, the high byte of cell 0, leaves in cell 0 the bytes `0x01 0xff`,
the `slobidx_t` `-255`; then `kfree` and `ksize` read the size 65281, `ksize` is 65282, and
`kfree` calls `slob_free(block 0, 65282)`. -/
theorem kmalloc_header_overlaps_object :
    Arch.cris.align = 1 ∧
    ∃ s' sp', Config.page8k.kmallocNode Arch.cris.align KmallocState.empty 1 (-1) (some (7, 0)) =
        some (s', some (7, 1)) ∧ s'.heap.pages 7 = some sp' ∧
      Config.page8k.loadHeader sp'.mem 0 = 1 ∧ Config.page8k.SLOB_UNITS (1 + Arch.cris.align) = 1 ∧
      Config.page8k.freeBlocks sp' = [(1, 1)] ∧ sp'.units = 4095 ∧
      Config.page8k.ksize Arch.cris.align s' (some (7, 1)) = some 2 ∧
      Config.page8k.cell.dec (-255) % 256 = 1 ∧ Config.page8k.cell.dec (-255) / 256 = 0xff ∧
      Config.page8k.loadHeader (Function.update sp'.mem 0 (-255)) 0 = 65281 ∧
      ∀ s'' : KmallocState,
        s''.heap.pages 7 = some { sp' with mem := Function.update sp'.mem 0 (-255) } →
        Config.page8k.ksize Arch.cris.align s'' (some (7, 1)) = some 65282 ∧
        Config.page8k.kfree Arch.cris.align s'' (some (7, 1)) =
          (Config.page8k.slobFree s''.heap (some (7, 0)) 65282).map
            fun h => { s'' with heap := h } := by
  obtain ⟨⟨s', r⟩, hrun⟩ : ∃ r, Config.page8k.kmallocNode Arch.cris.align KmallocState.empty 1
      (-1) (some (7, 0)) = some r := Option.isSome_iff_exists.1 (by decide)
  -- what the run leaves, read off by evaluation
  have hread : ∀ {β : Type} (f : KmallocState × Option (ℕ × ℤ) → β) (y : β),
      (Config.page8k.kmallocNode Arch.cris.align KmallocState.empty 1 (-1) (some (7, 0))).map f =
        some y → f (s', r) = y := fun f y h => by
    rw [hrun, Option.map_some, Option.some.injEq] at h
    exact h
  have hr : r = some (7, 1) := hread (fun x => x.2) _ (by decide)
  subst hr
  obtain ⟨sp', hsp'⟩ : ∃ sp', s'.heap.pages 7 = some sp' :=
    Option.isSome_iff_exists.1 (hread (fun x => (x.1.heap.pages 7).isSome) _ (by decide))
  -- the page's cells and free chain, read off by evaluation
  have hpage : (Config.page8k.loadHeader sp'.mem 0, Config.page8k.freeBlocks sp', sp'.units,
      Config.page8k.loadHeader (Function.update sp'.mem 0 (-255)) 0) = (1, [(1, 1)], 4095, 65281) := by
    have h := hread (fun x => (x.1.heap.pages 7).map fun sp =>
      (Config.page8k.loadHeader sp.mem 0, Config.page8k.freeBlocks sp, sp.units,
        Config.page8k.loadHeader (Function.update sp.mem 0 (-255)) 0))
      (some (1, [(1, 1)], 4095, 65281)) (by decide)
    rw [hsp', Option.map_some, Option.some.injEq] at h
    exact h
  simp only [Prod.mk.injEq] at hpage
  obtain ⟨hhead, hfb, hunits, hclobber⟩ := hpage
  have hobj : (1 : ℤ) = 0 * Config.page8k.SLOB_UNIT + Arch.cris.align := by decide
  refine ⟨by decide, s', sp', hrun, hsp', hhead, by decide, hfb, hunits, ?_, by decide, by decide,
    hclobber, fun s'' hs'' => ⟨?_, ?_⟩⟩
  · rw [hobj, ksize_object hsp', hhead]
    decide
  · rw [hobj, ksize_object hs'', hclobber]
    decide
  · rw [hobj, kfree_object hs'', hclobber]
    rfl

end SlobLook.Slob
