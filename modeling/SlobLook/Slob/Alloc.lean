import SlobLook.Slob.Block

/-!
# `slob_alloc`, as the team's best-fit version computes it

The heap is the table of slob pages by page frame number, the three lists of partially free
pages (`free_slob_small`, `free_slob_medium`, `free_slob_large`) and the counter `pages_alloc`.

`slob_alloc` scans every page of `free_slob_small` with `find_best_fit_block`, which keeps the
best block in a `struct best_block_slob`, and then carves the request from that block.  When no
block was recorded it takes a new page from the page allocator and carves the request with
`slob_page_alloc`.  The carving is the same code in both functions (`carve`): fragment the head
of the block to align it, unlink the block or leave its tail free, and take the units from the
page.

The loops over a page's chain run on fuel `SLOB_UNITS(PAGE_SIZE)`, the most free blocks a page
has room for; `none` stands for a run past it, and for `BUG_ON`.  The page allocator is outside
the model: its answer, the frame number and node of a new page or a failure, is an argument.
-/

namespace SlobLook.Slob

/-- `struct best_block_slob`: the best block found so far, with the page it lies on. -/
structure BestBlock where
  objectSize : ℤ
  blockSize : ℤ
  prev : Option ℤ
  cur : Option ℤ
  next : Option ℤ
  page : Option ℕ
deriving DecidableEq, Repr

/-- The variables of the carving code: the page's cells and `sp->free`, and `prev`, `cur` and
`avail` of the block being carved. -/
structure Carving where
  mem : ℤ → ℤ
  free : ℤ
  prev : Option ℤ
  cur : ℤ
  avail : ℤ

/-- The slob heap. -/
structure SlobHeap where
  /-- the slob pages, by page frame number -/
  pages : ℕ → Option SlobPage
  freeSlobSmall : List ℕ
  freeSlobMedium : List ℕ
  freeSlobLarge : List ℕ
  /-- `pages_alloc`, an `unsigned int` -/
  pagesAlloc : UInt32

namespace SlobHeap

/-- The page `pid` replaced by `sp`. -/
def setPage (h : SlobHeap) (pid : ℕ) (sp : SlobPage) : SlobHeap :=
  { h with pages := Function.update h.pages pid (some sp) }

/-- The page `pid` with its fields changed by `f`. -/
def modifyPage (h : SlobHeap) (pid : ℕ) (f : SlobPage → SlobPage) : SlobHeap :=
  { h with pages := Function.update h.pages pid ((h.pages pid).map f) }

/-- `set_slob_page_free(sp, &free_slob_small)`: `list_add` and `__SetPageSlobFree`.  Every
caller passes `free_slob_small`. -/
def setSlobPageFree (h : SlobHeap) (pid : ℕ) : SlobHeap :=
  { h.modifyPage pid fun sp => { sp with slobFree := true } with
    freeSlobSmall := pid :: h.freeSlobSmall }

/-- `clear_slob_page_free(sp)`: `list_del` from the list the page is on, and
`__ClearPageSlobFree`. -/
def clearSlobPageFree (h : SlobHeap) (pid : ℕ) : SlobHeap :=
  { h.modifyPage pid fun sp => { sp with slobFree := false } with
    freeSlobSmall := h.freeSlobSmall.erase pid
    freeSlobMedium := h.freeSlobMedium.erase pid
    freeSlobLarge := h.freeSlobLarge.erase pid }

/-- The page `sp'` written back after a carving, and `if (!sp->units)
clear_slob_page_free(sp);`. -/
def afterCarve (h : SlobHeap) (pid : ℕ) (sp' : SlobPage) : SlobHeap :=
  if sp'.units = 0 then (h.setPage pid sp').clearSlobPageFree pid else h.setPage pid sp'

section Fields

variable (h : SlobHeap) (pid : ℕ) (sp : SlobPage)

@[simp] theorem setPage_pages : (h.setPage pid sp).pages = Function.update h.pages pid (some sp) :=
  rfl

@[simp] theorem setPage_freeSlobSmall : (h.setPage pid sp).freeSlobSmall = h.freeSlobSmall := rfl

@[simp] theorem setPage_freeSlobMedium : (h.setPage pid sp).freeSlobMedium = h.freeSlobMedium :=
  rfl

@[simp] theorem setPage_freeSlobLarge : (h.setPage pid sp).freeSlobLarge = h.freeSlobLarge := rfl

@[simp] theorem setPage_pagesAlloc : (h.setPage pid sp).pagesAlloc = h.pagesAlloc := rfl

@[simp] theorem setSlobPageFree_pages :
    (h.setSlobPageFree pid).pages =
      Function.update h.pages pid ((h.pages pid).map fun sp => { sp with slobFree := true }) :=
  rfl

@[simp] theorem setSlobPageFree_freeSlobSmall :
    (h.setSlobPageFree pid).freeSlobSmall = pid :: h.freeSlobSmall := rfl

@[simp] theorem setSlobPageFree_freeSlobMedium :
    (h.setSlobPageFree pid).freeSlobMedium = h.freeSlobMedium := rfl

@[simp] theorem setSlobPageFree_freeSlobLarge :
    (h.setSlobPageFree pid).freeSlobLarge = h.freeSlobLarge := rfl

@[simp] theorem setSlobPageFree_pagesAlloc : (h.setSlobPageFree pid).pagesAlloc = h.pagesAlloc :=
  rfl

@[simp] theorem clearSlobPageFree_pages :
    (h.clearSlobPageFree pid).pages =
      Function.update h.pages pid ((h.pages pid).map fun sp => { sp with slobFree := false }) :=
  rfl

@[simp] theorem clearSlobPageFree_freeSlobSmall :
    (h.clearSlobPageFree pid).freeSlobSmall = h.freeSlobSmall.erase pid := rfl

@[simp] theorem clearSlobPageFree_freeSlobMedium :
    (h.clearSlobPageFree pid).freeSlobMedium = h.freeSlobMedium.erase pid := rfl

@[simp] theorem clearSlobPageFree_freeSlobLarge :
    (h.clearSlobPageFree pid).freeSlobLarge = h.freeSlobLarge.erase pid := rfl

@[simp] theorem clearSlobPageFree_pagesAlloc :
    (h.clearSlobPageFree pid).pagesAlloc = h.pagesAlloc := rfl

@[simp] theorem afterCarve_pagesAlloc : (h.afterCarve pid sp).pagesAlloc = h.pagesAlloc := by
  unfold afterCarve
  split_ifs <;> rfl

end Fields

end SlobHeap

namespace Config

variable (c : Config)

/-- `delta = ALIGN(cur, align) - cur`, in units, for the block at offset `cur` of page `pid`,
whose address is `pid * PAGE_SIZE`; zero when `align` is zero. -/
def alignDelta (pid align : ℕ) (cur : ℤ) : ℤ :=
  if align ≠ 0 then
    let addr : ℤ := pid * c.PAGE_SIZE + cur * c.SLOB_UNIT
    (ALIGN addr align - addr) / c.SLOB_UNIT
  else 0

/-! ## `find_best_fit_block` -/

/-- The body of the loop of `find_best_fit_block` at the block `cur` of page `pid`, after
`prev`: a block with room replaces the best one if it fits exactly, or if its leftover is below
`best->block_size - best->object_size`. -/
def bestStep (pid : ℕ) (mem : ℤ → ℤ) (size align : ℕ) (best : BestBlock) (prev : Option ℤ)
    (cur : ℤ) : BestBlock :=
  let units : ℤ := c.SLOB_UNITS size
  let avail := slobUnits mem cur
  let delta := c.alignDelta pid align cur
  if units + delta ≤ avail then
    let found : BestBlock := ⟨units, avail, prev, some cur, some (c.slobNext mem cur), some pid⟩
    -- exact fit?
    if avail = units + delta then found
    -- fragment
    else if avail - (units + delta) < best.blockSize - best.objectSize then found
    else best
  else best

/-- `find_best_fit_block(sp, best, size, align)` for the page `pid`: the loop over its chain
from `sp->free` to the block for which `slob_last` holds. -/
def findBestFitBlock (pid : ℕ) (sp : SlobPage) (best : BestBlock) (size align : ℕ) :
    Option BestBlock :=
  LinkWalk.foldWalk (c.slobNext sp.mem) (c.slobLast sp.mem) (c.bestStep pid sp.mem size align)
    c.pageUnits best none sp.free

/-! ## The carving -/

/-- `if (delta) { ... }`: fragment the head of the block so that what is returned is aligned;
the head stays free and becomes `prev`. -/
def alignHead (k : Carving) (delta : ℤ) : Carving :=
  if delta ≠ 0 then
    let next := c.slobNext k.mem k.cur
    let aligned := k.cur + delta
    let mem := c.setSlob (c.setSlob k.mem aligned (k.avail - delta) next) k.cur delta aligned
    { k with mem := mem, prev := some k.cur, cur := aligned, avail := slobUnits mem aligned }
  else k

/-- `if (prev) set_slob(prev, slob_units(prev), target); else sp->free = target;` -/
def relink (k : Carving) (target : ℤ) : Carving :=
  match k.prev with
  | some p => { k with mem := c.setSlob k.mem p (slobUnits k.mem p) target }
  | none => { k with free := target }

/-- Unlink the block of an exact fit, or leave the tail of the block free.  (`slob_alloc`
compares `avail` with the `size_t` `SLOB_UNITS(size)`; on a `slobidx_t` that is the comparison
of integers.) -/
def unlink (k : Carving) (units : ℤ) : Carving :=
  let next := c.slobNext k.mem k.cur
  if k.avail = units then c.relink k next
  else
    let k := c.relink k (k.cur + units)
    { k with mem := c.setSlob k.mem (k.cur + units) (k.avail - units) next }

/-- The carving of `units` units from the block `cur` of `sp` (after `prev`, of `avail` units,
`delta` units from alignment) that `slob_page_alloc` and `slob_alloc` share, with
`sp->units -= units`.  Returns the page and the block handed out. -/
def carve (sp : SlobPage) (prev : Option ℤ) (cur avail delta units : ℤ) : SlobPage × ℤ :=
  let k := c.unlink (c.alignHead ⟨sp.mem, sp.free, prev, cur, avail⟩ delta) units
  ({ sp with mem := k.mem, free := k.free, units := c.toSlobidx (sp.units - units) }, k.cur)

/-! ## `slob_page_alloc` -/

/-- The body of the loop of `slob_page_alloc`: carve from `cur` if it has room. -/
def pageAllocTest (pid : ℕ) (sp : SlobPage) (size align : ℕ) (prev : Option ℤ) (cur : ℤ) :
    Option (SlobPage × ℤ) :=
  let units : ℤ := c.SLOB_UNITS size
  let avail := slobUnits sp.mem cur
  let delta := c.alignDelta pid align cur
  if units + delta ≤ avail then some (c.carve sp prev cur avail delta units) else none

/-- `slob_page_alloc(sp, size, align)` on the page `pid` of the heap: the first block of the
chain with room is carved.  The inner `none` is the `NULL` return. -/
def slobPageAlloc (h : SlobHeap) (pid : ℕ) (sp : SlobPage) (size align : ℕ) :
    Option (SlobHeap × Option ℤ) :=
  (LinkWalk.findWalk (c.slobNext sp.mem) (c.slobLast sp.mem) (c.pageAllocTest pid sp size align)
      c.pageUnits none sp.free).map fun
    | some (sp', b) => (h.afterCarve pid sp', some b)
    | none => (h, none)

/-! ## `slob_alloc` -/

/-- The initial `struct best_block_slob` of `slob_alloc`: `best.block_size = PAGE_SIZE + 1`,
stored in a `slobidx_t`. -/
def initBest (size : ℕ) : BestBlock :=
  ⟨c.SLOB_UNITS size, c.toSlobidx (c.PAGE_SIZE + 1), none, none, none, none⟩

/-- The page `sp` is skipped by the scan of `slob_alloc`: under `CONFIG_NUMA` it is on another
node than the one asked for, or it has fewer free units than the request (`sp->units` compared
with the `size_t` `SLOB_UNITS(size)`). -/
def skipPage (sp : SlobPage) (size : ℕ) (node : ℤ) : Bool :=
  (c.numa && node != -1 && (sp.nid : ℤ) != node) || decide (toULong sp.units < c.SLOB_UNITS size)

/-- The scan of `slob_alloc`: `find_best_fit_block` on every page of the list that is not
skipped, the best block carried from page to page. -/
def scanPages (h : SlobHeap) (size align : ℕ) (node : ℤ) (best : BestBlock) :
    List ℕ → Option BestBlock
  | [] => some best
  | pid :: rest => do
    let sp ← h.pages pid
    if c.skipPage sp size node then scanPages h size align node best rest
    else
      let best ← c.findBestFitBlock pid sp best size align
      scanPages h size align node best rest

/-- The page `slob_alloc` sets up on a frame `pid` of node `nid` from the page allocator:
`sp->units = SLOB_UNITS(PAGE_SIZE); sp->free = b; set_slob(b, SLOB_UNITS(PAGE_SIZE), b +
SLOB_UNITS(PAGE_SIZE));`.  The page's earlier contents are not modelled. -/
def newPage (nid : ℕ) : SlobPage :=
  ⟨c.toSlobidx c.pageUnits, 0, c.setSlob (fun _ => 0) 0 c.pageUnits c.pageUnits, nid, false⟩

/-- The heap after `slob_new_pages` gave the frame `pid` of node `nid` (`pages_alloc++`) and
`slob_alloc` set it up and put it on `free_slob_small`. -/
def withNewPage (h : SlobHeap) (pid nid : ℕ) : SlobHeap :=
  ({ h with pagesAlloc := h.pagesAlloc + 1 }.setPage pid (c.newPage nid)).setSlobPageFree pid

/-- `slob_alloc(size, gfp, align, node)`.  `grant` is what the page allocator gives
`slob_new_pages` if it is called: a frame and its node, or nothing.  Returns the heap and the
block handed out (page and offset), or `NULL`. -/
def slobAlloc (h : SlobHeap) (size align : ℕ) (node : ℤ) (grant : Option (ℕ × ℕ)) :
    Option (SlobHeap × Option (ℕ × ℤ)) := do
  let best ← c.scanPages h size align node (c.initBest size) h.freeSlobSmall
  match best.cur with
  | some cur =>
    -- best fit found
    let pid ← best.page
    let sp ← h.pages pid
    let r := c.carve sp best.prev cur best.blockSize (c.alignDelta pid align cur)
      (c.SLOB_UNITS size)
    some (h.afterCarve pid r.1, some (pid, r.2))
  | none =>
    -- not enough space: must allocate a new page
    match grant with
    | none => some (h, none)
    | some (pid, nid) =>
      let h := c.withNewPage h pid nid
      let sp ← h.pages pid
      let r ← c.slobPageAlloc h pid sp size align
      -- BUG_ON(!b)
      let b ← r.2
      some (r.1, some (pid, b))

end Config

/-! ## The paths through `slob_alloc` -/

namespace Config

variable (c : Config) {h : SlobHeap} {size align : ℕ} {node : ℤ} {best : BestBlock}

theorem withNewPage_pages (h : SlobHeap) (pid nid : ℕ) :
    (c.withNewPage h pid nid).pages pid = some { c.newPage nid with slobFree := true } := by
  simp [withNewPage]

variable {c}

/-- The best fit found: the carving from the recorded block. -/
theorem slobAlloc_of_found (hscan : c.scanPages h size align node (c.initBest size)
      h.freeSlobSmall = some best) {cur : ℤ} {pid : ℕ} {sp : SlobPage}
    (hcur : best.cur = some cur) (hpid : best.page = some pid) (hsp : h.pages pid = some sp)
    (grant : Option (ℕ × ℕ)) :
    c.slobAlloc h size align node grant =
      some (h.afterCarve pid (c.carve sp best.prev cur best.blockSize (c.alignDelta pid align cur)
          (c.SLOB_UNITS size)).1,
        some (pid, (c.carve sp best.prev cur best.blockSize (c.alignDelta pid align cur)
          (c.SLOB_UNITS size)).2)) := by
  simp [slobAlloc, hscan, hcur, hpid, hsp]

/-- Nothing recorded and nothing from the page allocator: `NULL`. -/
theorem slobAlloc_of_null (hscan : c.scanPages h size align node (c.initBest size)
      h.freeSlobSmall = some best) (hcur : best.cur = none) :
    c.slobAlloc h size align node none = some (h, none) := by
  simp [slobAlloc, hscan, hcur]

/-- Nothing recorded: `slob_page_alloc` on a new page. -/
theorem slobAlloc_of_new (hscan : c.scanPages h size align node (c.initBest size)
      h.freeSlobSmall = some best) (hcur : best.cur = none) (pid nid : ℕ) :
    c.slobAlloc h size align node (some (pid, nid)) =
      (c.slobPageAlloc (c.withNewPage h pid nid) pid { c.newPage nid with slobFree := true } size
        align).bind fun r => r.2.map fun b => (r.1, some (pid, b)) := by
  simp only [slobAlloc, hscan, hcur, Option.bind_eq_bind, Option.bind_some, withNewPage_pages]
  rcases c.slobPageAlloc (c.withNewPage h pid nid) pid { c.newPage nid with slobFree := true } size
    align with _ | ⟨h', _ | b⟩ <;> rfl

end Config

end SlobLook.Slob
