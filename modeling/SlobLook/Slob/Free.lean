import SlobLook.Slob.Alloc

/-!
# `slob_free`

`slob_free(block, size)` gives the block of `SLOB_UNITS(size)` units at `block` back.  A page
whose last object this is goes back to the page allocator (and `pages_alloc` counts it down); a
full page gets the block as its one free block and goes on `free_slob_small`; otherwise the
block is put into the chain at its place, merged with the free block after it and the one
before it when they touch (`insertFree`).  The search for the place, `while (b > next)`, runs on
fuel as the loops of `slob_alloc` do.
-/

namespace SlobLook.Slob

namespace Config

variable (c : Config)

/-- `(b + SLOB_UNITS(PAGE_SIZE)) & PAGE_MASK`, as an offset from the page-aligned base: the
page boundary at or below `x` units. -/
def pageBoundary (x : ℤ) : ℤ := x * c.SLOB_UNIT / c.PAGE_SIZE * c.PAGE_SIZE / c.SLOB_UNIT

/-- The branch of `slob_free` for a page that is already partially free, after
`sp->units += units`: the block `b` of `units` units is linked in at its place. -/
def insertFree (sp : SlobPage) (b units : ℤ) : Option SlobPage :=
  if b < sp.free then
    -- in front of the first free block, merged with it when they touch
    let touch := decide (b + units = sp.free)
    let units := if touch then c.toSlobidx (units + slobUnits sp.mem sp.free) else units
    let free := if touch then c.slobNext sp.mem sp.free else sp.free
    some { sp with mem := c.setSlob sp.mem b units free, free := b }
  else do
    let prev ← LinkWalk.whileWalk (c.slobNext sp.mem) (fun next => decide (next < b)) c.pageUnits
      sp.free
    let next := c.slobNext sp.mem prev
    -- merged with the next free block when they touch
    let mem :=
      if !c.slobLast sp.mem prev && decide (b + units = next) then
        c.setSlob sp.mem b (c.toSlobidx (units + slobUnits sp.mem next)) (c.slobNext sp.mem next)
      else c.setSlob sp.mem b units next
    -- and with `prev` when they touch
    let mem :=
      if prev + slobUnits mem prev = b then
        c.setSlob mem prev (c.toSlobidx (slobUnits mem b + slobUnits mem prev)) (c.slobNext mem b)
      else c.setSlob mem prev (slobUnits mem prev) b
    some { sp with mem := mem }

/-- `slob_free(block, size)`, for the block at offset `b` of page `pid` (`none` is a `NULL` or
`ZERO_SIZE_PTR` block).  `none` as a result is `BUG_ON(!size)`, a block on no slob page, or a run
of the search past its fuel. -/
def slobFree (h : SlobHeap) (block : Option (ℕ × ℤ)) (size : ℕ) : Option SlobHeap :=
  match block with
  | none => some h
  | some (pid, b) =>
    if size = 0 then none
    else do
      let sp ← h.pages pid
      let units := c.toSlobidx (c.SLOB_UNITS size)
      if sp.units + units = c.pageUnits then
        -- go directly to the page allocator
        let h := if sp.slobFree then h.clearSlobPageFree pid else h
        some { h with pages := Function.update h.pages pid none, pagesAlloc := h.pagesAlloc - 1 }
      else if !sp.slobFree then
        -- the page becomes partially free
        let sp := { sp with units := units, free := b,
                            mem := c.setSlob sp.mem b units (c.pageBoundary (b + c.pageUnits)) }
        some ((h.setPage pid sp).setSlobPageFree pid)
      else
        let sp' ← c.insertFree { sp with units := c.toSlobidx (sp.units + units) } b units
        some (h.setPage pid sp')

end Config

end SlobLook.Slob
