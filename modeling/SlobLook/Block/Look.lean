import SlobLook.Block.Elevator

/-!
# The LOOK scheduler

`block/look-iosched.c`: LOOK keeps its requests in arrival order in `nd->queue`, and
`look_dispatch` scans the whole queue for the lowest request at or above the head (`higher`)
and the highest at or below it (`lower`), turns the head around when the side it moves towards
is empty, and sends the chosen request to the dispatch queue through `elv_dispatch_sort`, moving
the head to the end of the request's first bio.

The scan keeps each running optimum until a strictly better request comes, so it computes the
first minimal, resp. maximal, element of the requests on each side: `lookScan_eq` identifies
it with `List.argmin`/`List.argmax` of the two filtered queues.  `lookDispatch_selects` is the
selection rule stated without the scan (`lookNextDir`, `lookChoice`): exactly one request leaves
the queue, the chosen pointer is never `NULL`, and an empty queue is left alone.
-/

namespace SlobLook.Block

open Request

/-! ## The list operations of LOOK -/

/-- The entry of `l` right after `x`, where `x` first occurs (`rq->queuelist.next`). -/
def entryAfter (x : Request) : List Request → Option Request
  | [] => none
  | a :: l => if a = x then l.head? else entryAfter x l

/-- The entry of `l` right before `x`, where `x` first occurs (`rq->queuelist.prev`), after the
entry `prev` (`none`: the list head). -/
def entryBefore (x : Request) (prev : Option Request) : List Request → Option Request
  | [] => none
  | a :: l => if a = x then prev else entryBefore x (some a) l

namespace RequestQueue

def lookMergedRequests (q : RequestQueue) (_rq next : Request) : RequestQueue :=
  { q with look := { q.look with queue := q.look.queue.erase next } }

def lookAddRequest (q : RequestQueue) (rq : Request) : RequestQueue :=
  { q with look := { q.look with queue := q.look.queue ++ [rq] } }

def lookQueueEmpty (q : RequestQueue) : Bool := q.look.queue.isEmpty

def lookFormerRequest (q : RequestQueue) (rq : Request) : Option Request :=
  entryBefore rq none q.look.queue

def lookLatterRequest (q : RequestQueue) (rq : Request) : Option Request :=
  entryAfter rq q.look.queue

end RequestQueue

/-! ## `look_dispatch` -/

/-- One iteration of the scan of `look_dispatch` on the running pair `(higher, lower)`. -/
def lookScanStep (curPos : ℕ) (acc : Option Request × Option Request) (rq : Request) :
    Option Request × Option Request :=
  (if rq.blkRqPos ≥ curPos then
      match acc.1 with
      | some higher => if rq.blkRqPos < higher.blkRqPos then some rq else some higher
      | none => some rq
    else acc.1,
   if rq.blkRqPos ≤ curPos then
      match acc.2 with
      | some lower => if rq.blkRqPos > lower.blkRqPos then some rq else some lower
      | none => some rq
    else acc.2)

/-- The scan of `look_dispatch` over `nd->queue` (`list_for_each`). -/
def lookScan (curPos : ℕ) (queue : List Request) : Option Request × Option Request :=
  queue.foldl (lookScanStep curPos) (none, none)

namespace RequestQueue

/-- The body of a dispatch branch of `look_dispatch` for the candidate `rq`: the head moves to
the end of `rq`'s first bio, `rq` leaves `nd->queue` and goes through `elv_dispatch_sort`.
`none` when `rq` is `NULL` or has no bio, where the dereference oopses. -/
def lookServe (q : RequestQueue) : Option Request → Option RequestQueue
  | none => none
  | some rq =>
    match rq.bios with
    | [] => none
    | bio :: _ =>
      some ({ q with look := { q.look with curPos := bio.sector + bioSectors bio
                                           queue := q.look.queue.erase rq } }.elvDispatchSort rq)

/-- `look_dispatch(q, force)`: the new queue and the return value, `none` for an oops.  The
second `if` reads `nd->dir` again, after the first branch (which leaves it alone) ran. -/
def lookDispatch (q : RequestQueue) (_force : ℤ) : Option (RequestQueue × ℤ) :=
  if q.look.queue ≠ [] then
    let scan := lookScan q.look.curPos q.look.queue
    let dir₁ := if q.look.dir = 1 ∧ scan.1 = none then 0 else q.look.dir
    let dir₂ := if dir₁ = 0 ∧ scan.2 = none then 1 else dir₁
    let q₁ := { q with look := { q.look with dir := dir₂ } }
    do
      let q₂ ← if q₁.look.dir = 1 then q₁.lookServe scan.1 else pure q₁
      let q₃ ← if q₂.look.dir = 0 then q₂.lookServe scan.2 else pure q₂
      pure (q₃, 1)
  else some (q, 0)

end RequestQueue

/-! ## The scan computes the first optimum on each side -/

def higherSet (curPos : ℕ) (queue : List Request) : List Request :=
  queue.filter fun rq => curPos ≤ rq.blkRqPos

def lowerSet (curPos : ℕ) (queue : List Request) : List Request :=
  queue.filter fun rq => rq.blkRqPos ≤ curPos

theorem lookScan_foldl (curPos : ℕ) (queue : List Request) (h l : Option Request) :
    queue.foldl (lookScanStep curPos) (h, l) =
      ((higherSet curPos queue).foldl (List.argAux fun a b => a.blkRqPos < b.blkRqPos) h,
       (lowerSet curPos queue).foldl (List.argAux fun a b => b.blkRqPos < a.blkRqPos) l) := by
  induction queue generalizing h l with
  | nil => rfl
  | cons rq rest ih =>
    rw [List.foldl_cons, lookScanStep, ih]
    by_cases hh : curPos ≤ rq.blkRqPos <;> by_cases hl : rq.blkRqPos ≤ curPos <;>
      cases h <;> cases l <;> simp [higherSet, lowerSet, hh, hl, List.argAux]

/-- **The scan of `look_dispatch`**: `higher` is the first lowest request at or above the
head, `lower` the first highest at or below it. -/
theorem lookScan_eq (curPos : ℕ) (queue : List Request) :
    lookScan curPos queue =
      ((higherSet curPos queue).argmin blkRqPos, (lowerSet curPos queue).argmax blkRqPos) := by
  rw [lookScan, lookScan_foldl]
  rfl

theorem higherSet_or_lowerSet_ne_nil (curPos : ℕ) {queue : List Request} (hq : queue ≠ []) :
    higherSet curPos queue ≠ [] ∨ lowerSet curPos queue ≠ [] := by
  obtain ⟨rq, hrq⟩ := List.exists_mem_of_ne_nil queue hq
  rcases le_total curPos rq.blkRqPos with h | h
  · exact .inl (List.ne_nil_of_mem (List.mem_filter.2 ⟨hrq, by simpa using h⟩))
  · exact .inr (List.ne_nil_of_mem (List.mem_filter.2 ⟨hrq, by simpa using h⟩))

/-! ## The LOOK rule -/

/-- The direction LOOK moves in next (`Kconfig.iosched`: the head reverses when no request
lies ahead of it). -/
def lookNextDir (nd : LookData) : ℕ :=
  if (nd.dir = 1 ∧ higherSet nd.curPos nd.queue ≠ []) ∨
      (nd.dir = 0 ∧ lowerSet nd.curPos nd.queue = []) then 1 else 0

/-- The request LOOK serves next: the first lowest request ahead when moving up, the first
highest one behind when moving down. -/
def lookChoice (nd : LookData) : Option Request :=
  if lookNextDir nd = 1 then (higherSet nd.curPos nd.queue).argmin blkRqPos
  else (lowerSet nd.curPos nd.queue).argmax blkRqPos

/-- The new direction is the code's `dir₂`, and LOOK's choice is the scan's candidate on that
side. -/
theorem lookNextDir_eq {nd : LookData} (hdir : nd.dir = 0 ∨ nd.dir = 1) (hq : nd.queue ≠ []) :
    (if (if nd.dir = 1 ∧ (lookScan nd.curPos nd.queue).1 = none then 0 else nd.dir) = 0 ∧
        (lookScan nd.curPos nd.queue).2 = none then 1
      else if nd.dir = 1 ∧ (lookScan nd.curPos nd.queue).1 = none then 0 else nd.dir) =
      lookNextDir nd := by
  have hside := higherSet_or_lowerSet_ne_nil nd.curPos hq
  rw [lookScan_eq]
  simp only [List.argmin_eq_none, List.argmax_eq_none, lookNextDir]
  rcases hdir with hd | hd <;> rw [hd] <;>
    by_cases hH : higherSet nd.curPos nd.queue = [] <;>
    by_cases hL : lowerSet nd.curPos nd.queue = [] <;> simp_all

theorem higherSet_ne_nil_of_lookNextDir {nd : LookData} (hq : nd.queue ≠ [])
    (h : lookNextDir nd = 1) : higherSet nd.curPos nd.queue ≠ [] := by
  unfold lookNextDir at h
  split_ifs at h with hc
  rcases hc with ⟨-, hH⟩ | ⟨-, hL⟩
  · exact hH
  · simpa [hL] using higherSet_or_lowerSet_ne_nil nd.curPos hq

theorem lowerSet_ne_nil_of_lookNextDir {nd : LookData} (hdir : nd.dir = 0 ∨ nd.dir = 1)
    (hq : nd.queue ≠ []) (h : lookNextDir nd = 0) : lowerSet nd.curPos nd.queue ≠ [] := by
  unfold lookNextDir at h
  split_ifs at h with hc
  simp only [not_or, not_and, not_not] at hc
  rcases hdir with hd | hd
  · exact hc.2 hd
  · have hH : higherSet nd.curPos nd.queue = [] := hc.1 hd
    simpa [hH] using higherSet_or_lowerSet_ne_nil nd.curPos hq

theorem lookNextDir_eq_zero_or_one (nd : LookData) : lookNextDir nd = 0 ∨ lookNextDir nd = 1 := by
  unfold lookNextDir
  split_ifs <;> simp

theorem lookChoice_isSome {nd : LookData} (hdir : nd.dir = 0 ∨ nd.dir = 1) (hq : nd.queue ≠ []) :
    (lookChoice nd).isSome := by
  unfold lookChoice
  rcases lookNextDir_eq_zero_or_one nd with h | h
  · rw [if_neg (by omega), Option.isSome_iff_ne_none, ne_eq, List.argmax_eq_none]
    exact lowerSet_ne_nil_of_lookNextDir hdir hq h
  · rw [if_pos h, Option.isSome_iff_ne_none, ne_eq, List.argmin_eq_none]
    exact higherSet_ne_nil_of_lookNextDir hq h

theorem lookChoice_up {nd : LookData} {r : Request} (hd : lookNextDir nd = 1)
    (hr : lookChoice nd = some r) :
    r ∈ higherSet nd.curPos nd.queue ∧
      ∀ x ∈ higherSet nd.curPos nd.queue, r.blkRqPos ≤ x.blkRqPos := by
  rw [lookChoice, if_pos hd] at hr
  exact ⟨List.argmin_mem hr, fun x hx => List.le_of_mem_argmin hx hr⟩

theorem lookChoice_down {nd : LookData} {r : Request} (hd : lookNextDir nd = 0)
    (hr : lookChoice nd = some r) :
    r ∈ lowerSet nd.curPos nd.queue ∧
      ∀ x ∈ lowerSet nd.curPos nd.queue, x.blkRqPos ≤ r.blkRqPos := by
  rw [lookChoice, if_neg (by omega)] at hr
  exact ⟨List.argmax_mem hr, fun x hx => List.le_of_mem_argmax hx hr⟩

theorem lookChoice_mem {nd : LookData} {r : Request} (hr : lookChoice nd = some r) :
    r ∈ nd.queue := by
  rcases lookNextDir_eq_zero_or_one nd with hd | hd
  · exact List.mem_of_mem_filter (lookChoice_down hd hr).1
  · exact List.mem_of_mem_filter (lookChoice_up hd hr).1

/-- The LOOK state after serving `r`: `r` has left the queue, the head is at the end of the bio
`bio`, and the direction is `dir`. -/
def LookData.served (nd : LookData) (r : Request) (bio : Bio) (dir : ℕ) : LookData :=
  ⟨nd.queue.erase r, bio.sector + bioSectors bio, dir⟩

theorem lookServe_some (q : RequestQueue) {r : Request} {bio : Bio} {rest : List Bio}
    (hr : r.bios = bio :: rest) :
    q.lookServe (some r) =
      some (({ q with look := q.look.served r bio q.look.dir } : RequestQueue).elvDispatchSort r) := by
  simp [RequestQueue.lookServe, hr, LookData.served]

/-- `look_dispatch` on a non-empty queue whose requests have bios sends LOOK's choice through
`elv_dispatch_sort` and returns `1`. -/
theorem lookDispatch_of_ne_nil {q : RequestQueue} (force : ℤ)
    (hdir : q.look.dir = 0 ∨ q.look.dir = 1) (hbio : ∀ rq ∈ q.look.queue, rq.bios ≠ [])
    (hq : q.look.queue ≠ []) :
    ∃ r bio rest, lookChoice q.look = some r ∧ r ∈ q.look.queue ∧ r.bios = bio :: rest ∧
      q.lookDispatch force = some ((({ q with look := q.look.served r bio (lookNextDir q.look) } :
        RequestQueue).elvDispatchSort r), 1) := by
  obtain ⟨r, hr⟩ := Option.isSome_iff_exists.1 (lookChoice_isSome hdir hq)
  have hrmem : r ∈ q.look.queue := lookChoice_mem hr
  obtain ⟨bio, rest, hbios⟩ := List.exists_cons_of_ne_nil (hbio r hrmem)
  refine ⟨r, bio, rest, hr, hrmem, hbios, ?_⟩
  have hdir₂ := lookNextDir_eq hdir hq
  simp only [RequestQueue.lookDispatch, if_pos hq]
  rw [hdir₂, lookScan_eq]
  unfold lookChoice at hr
  rcases lookNextDir_eq_zero_or_one q.look with h0 | h1
  · -- moving down: only the second branch fires
    rw [if_neg (by omega)] at hr
    simp [h0, hr, lookServe_some _ hbios, LookData.served]
  · -- moving up: the first branch fires and leaves the direction at `1`
    rw [if_pos h1] at hr
    simp [h1, hr, lookServe_some _ hbios, LookData.served]

theorem lookDispatch_of_nil {q : RequestQueue} (force : ℤ) (hq : q.look.queue = []) :
    q.lookDispatch force = some (q, 0) := by
  simp [RequestQueue.lookDispatch, hq]

/-- **`look_dispatch` implements the LOOK rule.**  On a non-empty queue whose requests all have
a bio, it returns `1` after sending LOOK's choice `r` (`lookChoice`, never `NULL`) through
`elv_dispatch_sort`, with `r` erased from `nd->queue` (the others keep their order), the head at
the end of `r`'s first bio and the direction `lookNextDir`.  On an empty queue it returns `0`
and changes nothing. -/
theorem lookDispatch_selects (q : RequestQueue) (force : ℤ)
    (hdir : q.look.dir = 0 ∨ q.look.dir = 1) (hbio : ∀ rq ∈ q.look.queue, rq.bios ≠ []) :
    (q.look.queue = [] → q.lookDispatch force = some (q, 0)) ∧
    (q.look.queue ≠ [] → ∃ r bio rest, lookChoice q.look = some r ∧ r ∈ q.look.queue ∧
      r.bios = bio :: rest ∧
      q.lookDispatch force = some ((({ q with look := q.look.served r bio (lookNextDir q.look) } :
        RequestQueue).elvDispatchSort r), 1)) :=
  ⟨lookDispatch_of_nil force, lookDispatch_of_ne_nil force hdir hbio⟩

/-- Two requests, at sectors `8` and `2`, with the head at `4` moving up. -/
def sampleLook : RequestQueue :=
  { RequestQueue.init with
    look := ⟨[Request.ofBio 1 ⟨8, 512⟩ false, Request.ofBio 2 ⟨2, 1024⟩ false], 4, 1⟩ }

theorem lookDispatch_selects_sample :
    (sampleLook.look.dir = 0 ∨ sampleLook.look.dir = 1) ∧
    (∀ rq ∈ sampleLook.look.queue, rq.bios ≠ []) ∧
    ((sampleLook.look.queue = [] → sampleLook.lookDispatch 0 = some (sampleLook, 0)) ∧
    (sampleLook.look.queue ≠ [] → ∃ r bio rest, lookChoice sampleLook.look = some r ∧
      r ∈ sampleLook.look.queue ∧ r.bios = bio :: rest ∧
      sampleLook.lookDispatch 0 = some ((({ sampleLook with
        look := sampleLook.look.served r bio (lookNextDir sampleLook.look) } :
          RequestQueue).elvDispatchSort r), 1))) :=
  ⟨by decide, by decide, lookDispatch_selects sampleLook 0 (by decide) (by decide)⟩

end SlobLook.Block
