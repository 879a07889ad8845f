import SlobLook.Block.Look

/-!
# A request queue driven by LOOK

The entry points that move requests through a queue whose elevator is LOOK:

* `makeRequest` is `__make_request` (`block/blk-core.c`) for a filesystem bio: it merges the bio
  into the request `elv_merge` finds (at its back or its front) and then tries to merge that
  request with its neighbour in `nd->queue` (`attempt_back_merge`, `attempt_front_merge`,
  `attempt_merge` of `block/blk-merge.c`), or queues a new request with
  `elv_insert(q, rq, ELEVATOR_INSERT_SORT)`.  A merge the limits refuse marks the request
  `REQ_NOMERGE` (`refuseMerge`) before the new request is queued;
* `Drains` is the loop of `elv_drain_elevator`, as the relation between the queue before and
  after it together with the number of `look_dispatch` calls it makes;
* `NextRequest` is `__elv_next_request`, and `fetch` is what a driver's `blk_fetch_request`
  (`blk_peek_request` then `blk_start_request`) does with the request it returns.

The tests that `__make_request` and `attempt_merge` delegate to the queue's limits
(`ll_back_merge_fn`, `ll_front_merge_fn`, `ll_merge_requests_fn`: segment counts and sizes) are
inputs `llBack`, `llFront`, `llMerge`.  Accounting, priorities, CPU affinity, plugging and the
barrier machinery are not modelled: no filesystem bio here carries a barrier.
-/

namespace SlobLook.Block

open Request

namespace RequestQueue

/-- The request `rq` changed in place: the entry of `nd->queue` with its id now reads `rq`. -/
def updateRq (q : RequestQueue) (rq : Request) : RequestQueue :=
  { q with look := { q.look with queue := q.look.queue.map fun r => if r.id = rq.id then rq else r } }

/-- `elv_queue_empty(q)`. -/
def elvQueueEmpty (q : RequestQueue) : Bool :=
  q.queueHead.isEmpty && q.lookQueueEmpty

/-- The hash part of `elv_merge`: the request ending where the bio starts, if the bio may
join it, and the queue the lookup leaves. -/
def elvMergeHash (q : RequestQueue) (bio : Bio) (write : Bool) :
    RequestQueue × ElvMerge × Option Request :=
  match q.elvRqhashFind bio.sector with
  | (q, some rq) => if elvRqMergeOk rq write then (q, .backMerge, some rq) else (q, .noMerge, none)
  | (q, none) => (q, .noMerge, none)

/-- `elv_merge(q, &req, bio)`: the one-hit cache `q->last_merge` first, then the back-merge
candidate of the hash; LOOK has no `elevator_merge_fn`.  The queue's `nomerges` and
`noxmerges` settings are at their defaults. -/
def elvMerge (q : RequestQueue) (bio : Bio) (write : Bool) :
    RequestQueue × ElvMerge × Option Request :=
  match q.lastMerge.bind q.findRq with
  | some rq =>
    match elvTryMerge rq bio write with
    | .noMerge => q.elvMergeHash bio write
    | m => (q, m, some rq)
  | none => q.elvMergeHash bio write

/-- `elv_merge_requests(q, rq, next)`: LOOK drops `next`, the hash follows `rq`'s new end and
forgets `next`, and `rq` becomes the one-hit candidate. -/
def elvMergeRequests (q : RequestQueue) (rq next : Request) : RequestQueue :=
  let q := ((q.lookMergedRequests rq next).elvRqhashReposition rq).elvRqhashDel next
  { q with nrSorted := q.nrSorted - 1, lastMerge := some rq.id }

/-- `elv_merged_request(q, rq, type)`: LOOK has no `elevator_merged_fn`. -/
def elvMergedRequest (q : RequestQueue) (rq : Request) (type : ElvMerge) : RequestQueue :=
  let q := if type = .backMerge then q.elvRqhashReposition rq else q
  { q with lastMerge := some rq.id }

/-- `attempt_merge(q, req, next)`: when the two are mergeable, contiguous and of one direction
and the limits allow it, `req` takes over `next`'s bios and `next` leaves the elevator.  The
`Bool` is the return value.  The two requests' disks agree and neither is special: both come
from filesystem bios of this queue. -/
def attemptMerge (q : RequestQueue) (req next : Request) (llMerge : Bool) : RequestQueue × Bool :=
  if !req.mergeable || !next.mergeable then (q, false)
  else if req.blkRqPos + req.blkRqSectors ≠ next.blkRqPos then (q, false)
  else if req.write ≠ next.write then (q, false)
  else if !llMerge then (q, false)
  else
    let req' := { req with bios := req.bios ++ next.bios, dataLen := req.dataLen + next.blkRqBytes }
    ((q.updateRq req').elvMergeRequests req' next, true)

/-- `attempt_back_merge(q, rq)`. -/
def attemptBackMerge (q : RequestQueue) (rq : Request) (llMerge : Bool) : RequestQueue × Bool :=
  match q.lookLatterRequest rq with
  | some next => q.attemptMerge rq next llMerge
  | none => (q, false)

/-- `attempt_front_merge(q, rq)`. -/
def attemptFrontMerge (q : RequestQueue) (rq : Request) (llMerge : Bool) : RequestQueue × Bool :=
  match q.lookFormerRequest rq with
  | some prev => q.attemptMerge prev rq llMerge
  | none => (q, false)

/-- `elv_insert(q, rq, ELEVATOR_INSERT_SORT)`: mark the request `REQ_SORTED`, count it in,
hash it, make it the one-hit candidate if there is none, and hand it to `look_add_request`. -/
def elvInsertSort (q : RequestQueue) (rq : Request) : RequestQueue :=
  let rq := { rq with sorted := true }
  let q := { q with nrSorted := q.nrSorted + 1 }
  let q := if rq.mergeable then
      let q := q.elvRqhashAdd rq
      if q.lastMerge = none then { q with lastMerge := some rq.id } else q
    else q
  q.lookAddRequest rq

end RequestQueue

/-- What a call of `__make_request` did with its bio (a ghost, not a value of the code): merged
it into a request, which may in turn have absorbed (or been absorbed by) a neighbour whose id
is recorded, or queued a new request. -/
inductive BioOutcome
  | merged (absorbed : Option ℕ)
  | queued (id : ℕ)
  deriving DecidableEq, Repr

namespace RequestQueue

/-- The `get_rq` path of `__make_request`: a new request `id` built from the bio goes to
`elv_insert(q, rq, ELEVATOR_INSERT_SORT)` through `add_request` and `__elv_add_request`. -/
def getRq (q : RequestQueue) (bio : Bio) (write : Bool) (id : ℕ) : RequestQueue × BioOutcome :=
  (q.elvInsertSort (Request.ofBio id bio write), .queued id)

/-- The back-merge case of `__make_request`: the bio is appended to `req`, then
`attempt_back_merge`, and `elv_merged_request` when that did not merge. -/
def bioBackMerge (q : RequestQueue) (req : Request) (bio : Bio) (llMerge : Bool) :
    RequestQueue × BioOutcome :=
  let req' := { req with bios := req.bios ++ [bio], dataLen := req.dataLen + bio.size }
  let q := q.updateRq req'
  match q.lookLatterRequest req' with
  | some next =>
    let r := q.attemptMerge req' next llMerge
    if r.2 then (r.1, .merged (some next.id)) else (r.1.elvMergedRequest req' .backMerge, .merged none)
  | none => (q.elvMergedRequest req' .backMerge, .merged none)

/-- The front-merge case of `__make_request`: the bio is put in front of `req`, whose start
moves to the bio's, then `attempt_front_merge`, and `elv_merged_request` when that did not
merge. -/
def bioFrontMerge (q : RequestQueue) (req : Request) (bio : Bio) (llMerge : Bool) :
    RequestQueue × BioOutcome :=
  let req' := { req with bios := bio :: req.bios, sector := bio.sector,
                         dataLen := req.dataLen + bio.size }
  let q := q.updateRq req'
  match q.lookFormerRequest req' with
  | some prev =>
    let r := q.attemptMerge prev req' llMerge
    if r.2 then (r.1, .merged (some req'.id)) else (r.1.elvMergedRequest req' .frontMerge, .merged none)
  | none => (q.elvMergedRequest req' .frontMerge, .merged none)

/-- A merge into `req` that `ll_back_merge_fn` or `ll_front_merge_fn` refuses:
`req->cmd_flags |= REQ_NOMERGE`, and `q->last_merge` is cleared if it was `req`. -/
def refuseMerge (q : RequestQueue) (req : Request) : RequestQueue :=
  let q := q.updateRq { req with mergeable := false }
  if q.lastMerge = some req.id then { q with lastMerge := none } else q

/-- `__make_request(q, bio)` for a filesystem bio of direction `write`; `id` is the request
`get_request_wait` would hand out. -/
def makeRequest (q : RequestQueue) (bio : Bio) (write : Bool) (id : ℕ)
    (llBack llFront llMerge : Bool) : RequestQueue × BioOutcome :=
  if q.elvQueueEmpty then q.getRq bio write id
  else
    match q.elvMerge bio write with
    | (q, .backMerge, some req) =>
      if llBack then q.bioBackMerge req bio llMerge else (q.refuseMerge req).getRq bio write id
    | (q, .frontMerge, some req) =>
      if llFront then q.bioFrontMerge req bio llMerge else (q.refuseMerge req).getRq bio write id
    | (q, _, _) => q.getRq bio write id

end RequestQueue

/-! ## LOOK's neighbours -/

theorem entryAfter_spec {x y : Request} :
    ∀ {l : List Request}, (l.map Request.id).Nodup → entryAfter x l = some y →
      y ∈ l ∧ y.id ≠ x.id
  | [], _, h => by simp [entryAfter] at h
  | a :: l, hnd, h => by
    rw [List.map_cons, List.nodup_cons] at hnd
    unfold entryAfter at h
    split_ifs at h with hax
    · -- `x` is `a`: the next entry is the head of the rest, whose id differs from `a`'s
      subst hax
      have hy : y ∈ l := List.mem_of_mem_head? h
      exact ⟨List.mem_cons_of_mem _ hy, fun he => hnd.1 (he ▸ List.mem_map_of_mem hy)⟩
    · obtain ⟨hy, hne⟩ := entryAfter_spec hnd.2 h
      exact ⟨List.mem_cons_of_mem _ hy, hne⟩

theorem entryBefore_spec {x y : Request} :
    ∀ {prev : Option Request} {l : List Request}, entryBefore x prev l = some y →
      prev = some y ∨ (y ∈ l ∧ y ≠ x)
  | _, [], h => by simp [entryBefore] at h
  | prev, a :: l, h => by
    unfold entryBefore at h
    split_ifs at h with hax
    · exact .inl h
    · rcases entryBefore_spec h with h' | ⟨hy, hne⟩
      · cases h'
        exact .inr ⟨List.mem_cons_self .., hax⟩
      · exact .inr ⟨List.mem_cons_of_mem _ hy, hne⟩

namespace RequestQueue

theorem lookLatterRequest_spec {q : RequestQueue} {rq next : Request}
    (hnd : (q.look.queue.map Request.id).Nodup) (h : q.lookLatterRequest rq = some next) :
    next ∈ q.look.queue ∧ next.id ≠ rq.id :=
  entryAfter_spec hnd h

theorem lookFormerRequest_spec {q : RequestQueue} {rq prev : Request}
    (hnd : (q.look.queue.map Request.id).Nodup) (hrq : rq ∈ q.look.queue)
    (h : q.lookFormerRequest rq = some prev) : prev ∈ q.look.queue ∧ prev.id ≠ rq.id := by
  rcases entryBefore_spec h with h' | ⟨hp, hne⟩
  · cases h'
  · exact ⟨hp, fun he => hne (List.inj_on_of_nodup_map hnd hp hrq he)⟩

/-! ## What the operations do to the elevator's bookkeeping -/

/-- The ids of the requests in LOOK's queue. -/
def queueIds (q : RequestQueue) : Multiset ℕ := (q.look.queue : Multiset Request).map Request.id

theorem mem_queueIds {q : RequestQueue} {i : ℕ} : i ∈ q.queueIds ↔ ∃ r ∈ q.look.queue, r.id = i := by
  simp [queueIds]

theorem queueIds_congr {q q' : RequestQueue} (hl : q'.look = q.look) : q'.queueIds = q.queueIds := by
  simp [queueIds, hl]

theorem queueIds_erase {q : RequestQueue} {r : Request} (h : r ∈ q.look.queue) :
    ((q.look.queue.erase r : List Request) : Multiset Request).map Request.id =
      q.queueIds.erase r.id := by
  rw [← Multiset.coe_erase, queueIds, Multiset.map_erase_of_mem _ _ (Multiset.mem_coe.2 h)]

/-- The hash and the one-hit cache only point into LOOK's queue, so a lookup finds a queued
request. -/
theorem findRq_mem {q : RequestQueue} {i : ℕ} {r : Request} (hi : i ∈ q.queueIds)
    (h : q.findRq i = some r) : r ∈ q.look.queue ∧ r.id = i := by
  obtain ⟨x, hx, rfl⟩ := mem_queueIds.1 hi
  obtain ⟨y, hy⟩ : ∃ y, q.look.queue.find? (·.id = x.id) = some y :=
    Option.isSome_iff_exists.1 (List.find?_isSome.2 ⟨x, hx, by simp⟩)
  simp only [findRq, List.find?_append, hy, Option.some_or, Option.some.injEq] at h
  subst h
  exact ⟨List.mem_of_find?_eq_some hy, by simpa using List.find?_some hy⟩

section Update

variable (q : RequestQueue) (rq : Request)

@[simp] theorem updateRq_queueHead : (q.updateRq rq).queueHead = q.queueHead := rfl
@[simp] theorem updateRq_nrSorted : (q.updateRq rq).nrSorted = q.nrSorted := rfl
@[simp] theorem updateRq_lastMerge : (q.updateRq rq).lastMerge = q.lastMerge := rfl
@[simp] theorem updateRq_hash : (q.updateRq rq).hash = q.hash := rfl
@[simp] theorem updateRq_dir : (q.updateRq rq).look.dir = q.look.dir := rfl

@[simp] theorem updateRq_length : (q.updateRq rq).look.queue.length = q.look.queue.length := by
  simp [updateRq]

theorem updateRq_ids :
    (q.updateRq rq).look.queue.map Request.id = q.look.queue.map Request.id := by
  simp only [updateRq, List.map_map]
  refine List.map_congr_left fun r _ => ?_
  by_cases h : r.id = rq.id <;> simp [h]

@[simp] theorem updateRq_queueIds : (q.updateRq rq).queueIds = q.queueIds := by
  simp only [queueIds, Multiset.map_coe, updateRq_ids]

variable {q rq}

theorem mem_updateRq {r : Request} (h : r ∈ (q.updateRq rq).look.queue) :
    r = rq ∨ r ∈ q.look.queue := by
  simp only [updateRq, List.mem_map] at h
  obtain ⟨r', hr', rfl⟩ := h
  by_cases h : r'.id = rq.id <;> simp [h, hr']

theorem mem_updateRq_of_ne {r : Request} (h : r ∈ q.look.queue) (hne : r.id ≠ rq.id) :
    r ∈ (q.updateRq rq).look.queue :=
  List.mem_map.2 ⟨r, h, by simp [hne]⟩

theorem mem_updateRq_self {r : Request} (h : r ∈ q.look.queue) (hid : r.id = rq.id) :
    rq ∈ (q.updateRq rq).look.queue :=
  List.mem_map.2 ⟨r, h, by simp [hid]⟩

theorem updateRq_nodup (h : (q.look.queue.map Request.id).Nodup) :
    ((q.updateRq rq).look.queue.map Request.id).Nodup := by
  rw [updateRq_ids]
  exact h

end Update

section Merge

variable (q : RequestQueue) (rq next : Request)

@[simp] theorem elvMergeRequests_queue :
    (q.elvMergeRequests rq next).look.queue = q.look.queue.erase next := rfl
@[simp] theorem elvMergeRequests_dir : (q.elvMergeRequests rq next).look.dir = q.look.dir := rfl
@[simp] theorem elvMergeRequests_queueHead :
    (q.elvMergeRequests rq next).queueHead = q.queueHead := rfl
@[simp] theorem elvMergeRequests_nrSorted :
    (q.elvMergeRequests rq next).nrSorted = q.nrSorted - 1 := rfl
@[simp] theorem elvMergeRequests_lastMerge :
    (q.elvMergeRequests rq next).lastMerge = some rq.id := rfl
@[simp] theorem elvMergeRequests_hash :
    (q.elvMergeRequests rq next).hash =
      ((elvHashFn rq.rqEndSector, rq.id) :: q.hash.filter (·.2 ≠ rq.id)).filter (·.2 ≠ next.id) :=
  rfl

variable (type : ElvMerge)

@[simp] theorem elvMergedRequest_look : (q.elvMergedRequest rq type).look = q.look := by
  unfold elvMergedRequest; split_ifs <;> rfl
@[simp] theorem elvMergedRequest_queueHead :
    (q.elvMergedRequest rq type).queueHead = q.queueHead := by
  unfold elvMergedRequest; split_ifs <;> rfl
@[simp] theorem elvMergedRequest_nrSorted : (q.elvMergedRequest rq type).nrSorted = q.nrSorted := by
  unfold elvMergedRequest; split_ifs <;> rfl
@[simp] theorem elvMergedRequest_queueIds :
    (q.elvMergedRequest rq type).queueIds = q.queueIds := by
  simp [queueIds]
@[simp] theorem elvMergedRequest_lastMerge :
    (q.elvMergedRequest rq type).lastMerge = some rq.id := rfl

theorem elvMergedRequest_hash :
    (q.elvMergedRequest rq type).hash = q.hash ∨
      (q.elvMergedRequest rq type).hash =
        (elvHashFn rq.rqEndSector, rq.id) :: q.hash.filter (·.2 ≠ rq.id) := by
  unfold elvMergedRequest; split_ifs
  · exact .inr rfl
  · exact .inl rfl

end Merge

section Insert

variable (q : RequestQueue) (rq : Request)

@[simp] theorem elvInsertSort_queue :
    (q.elvInsertSort rq).look.queue = q.look.queue ++ [{ rq with sorted := true }] := by
  simp only [elvInsertSort]; split <;> (try split) <;> rfl
@[simp] theorem elvInsertSort_dir : (q.elvInsertSort rq).look.dir = q.look.dir := by
  simp only [elvInsertSort]; split <;> (try split) <;> rfl
@[simp] theorem elvInsertSort_queueHead : (q.elvInsertSort rq).queueHead = q.queueHead := by
  simp only [elvInsertSort]; split <;> (try split) <;> rfl
@[simp] theorem elvInsertSort_nrSorted : (q.elvInsertSort rq).nrSorted = q.nrSorted + 1 := by
  simp only [elvInsertSort]; split <;> (try split) <;> rfl

theorem elvInsertSort_hash :
    (q.elvInsertSort rq).hash =
      if rq.mergeable then (elvHashFn rq.rqEndSector, rq.id) :: q.hash else q.hash := by
  simp only [elvInsertSort]; split <;> (try split) <;>
    simp_all [elvRqhashAdd, lookAddRequest, rqEndSector, blkRqPos, blkRqSectors, blkRqBytes]

theorem elvInsertSort_lastMerge :
    (q.elvInsertSort rq).lastMerge = q.lastMerge ∨ (q.elvInsertSort rq).lastMerge = some rq.id := by
  simp only [elvInsertSort]; split <;> (try split) <;> simp_all [elvRqhashAdd, lookAddRequest]

end Insert

section Refuse

variable (q : RequestQueue) (req : Request)

@[simp] theorem refuseMerge_look :
    (q.refuseMerge req).look = (q.updateRq { req with mergeable := false }).look := by
  simp only [refuseMerge]; split_ifs <;> rfl
@[simp] theorem refuseMerge_queueHead : (q.refuseMerge req).queueHead = q.queueHead := by
  simp only [refuseMerge]; split_ifs <;> rfl
@[simp] theorem refuseMerge_nrSorted : (q.refuseMerge req).nrSorted = q.nrSorted := by
  simp only [refuseMerge]; split_ifs <;> rfl
@[simp] theorem refuseMerge_hash : (q.refuseMerge req).hash = q.hash := by
  simp only [refuseMerge]; split_ifs <;> rfl
@[simp] theorem refuseMerge_queueIds : (q.refuseMerge req).queueIds = q.queueIds := by
  rw [← updateRq_queueIds q { req with mergeable := false }]
  simp only [queueIds, refuseMerge_look]

end Refuse

/-- `attempt_merge` either does nothing or merges `next` into `req` after checking that they
are contiguous. -/
theorem attemptMerge_cases (q : RequestQueue) (req next : Request) (llMerge : Bool) :
    q.attemptMerge req next llMerge = (q, false) ∨
      (req.blkRqPos + req.blkRqSectors = next.blkRqPos ∧
        q.attemptMerge req next llMerge =
          ((q.updateRq { req with bios := req.bios ++ next.bios,
                                  dataLen := req.dataLen + next.blkRqBytes }).elvMergeRequests
            { req with bios := req.bios ++ next.bios, dataLen := req.dataLen + next.blkRqBytes }
            next, true)) := by
  unfold attemptMerge
  split_ifs with h1 h2 h3 h4
  · exact .inl rfl
  · exact .inl rfl
  · exact .inl rfl
  · exact .inl rfl
  · exact .inr ⟨not_not.1 h2, rfl⟩

/-- `elv_merge` changes nothing but the hash, and that only by the lookup's walk. -/
theorem elvMerge_fst (q : RequestQueue) (bio : Bio) (write : Bool) :
    (q.elvMerge bio write).1 = q ∨ (q.elvMerge bio write).1 = (q.elvRqhashFind bio.sector).1 := by
  have hhash : (q.elvMergeHash bio write).1 = (q.elvRqhashFind bio.sector).1 := by
    unfold elvMergeHash
    split <;> (try split) <;> simp_all
  unfold elvMerge
  split
  · split
    · exact .inr hhash
    · exact .inl rfl
  · exact .inr hhash

/-- `elv_merge` only proposes requests that `q->last_merge` or the hash point to. -/
theorem elvMerge_some {q q' : RequestQueue} {bio : Bio} {write : Bool} {m : ElvMerge}
    {req : Request} (h : q.elvMerge bio write = (q', m, some req)) :
    ∃ i, q.findRq i = some req ∧ (q.lastMerge = some i ∨ i ∈ q.hashIds) := by
  have hhash : ∀ q', q.elvMergeHash bio write = (q', m, some req) →
      ∃ i, q.findRq i = some req ∧ (q.lastMerge = some i ∨ i ∈ q.hashIds) := by
    intro q' hh
    unfold elvMergeHash at hh
    split at hh
    · rename_i q₁ rq hrq
      split_ifs at hh
      · simp only [Prod.mk.injEq, Option.some.injEq] at hh
        obtain ⟨-, -, rfl⟩ := hh
        simp only [elvRqhashFind, Prod.mk.injEq] at hrq
        obtain ⟨e, he, -, hf, -⟩ := rqhashWalk_some _ _ hrq.2
        exact ⟨e.2, hf, .inr (List.mem_map_of_mem he)⟩
      · simp at hh
    · simp at hh
  unfold elvMerge at h
  split at h
  · rename_i rq hrq
    obtain ⟨i, hi, hf⟩ := Option.bind_eq_some_iff.1 hrq
    split at h
    · exact hhash _ h
    · simp only [Prod.mk.injEq, Option.some.injEq] at h
      obtain ⟨-, -, rfl⟩ := h
      exact ⟨i, hf, .inl hi⟩
  · exact hhash _ h

/-- What `__make_request` can do with a bio: queue a new request, on the queue as it came or
as `elv_merge` left it, after marking the proposed request `REQ_NOMERGE` when the limits
refused the merge; or grow at its back or at its front the request that `elv_merge` proposed
for that merge. -/
theorem makeRequest_cases (q : RequestQueue) (bio : Bio) (write : Bool) (id : ℕ)
    (llBack llFront llMerge : Bool) :
    q.makeRequest bio write id llBack llFront llMerge = q.getRq bio write id ∨
      (∃ q' m r, q.elvMerge bio write = (q', m, r) ∧
        q.makeRequest bio write id llBack llFront llMerge = q'.getRq bio write id) ∨
      (∃ q' m req, q.elvMerge bio write = (q', m, some req) ∧
        q.makeRequest bio write id llBack llFront llMerge = (q'.refuseMerge req).getRq bio write id) ∨
      (∃ q' req, q.elvMerge bio write = (q', .backMerge, some req) ∧
        q.makeRequest bio write id llBack llFront llMerge = q'.bioBackMerge req bio llMerge) ∨
      (∃ q' req, q.elvMerge bio write = (q', .frontMerge, some req) ∧
        q.makeRequest bio write id llBack llFront llMerge = q'.bioFrontMerge req bio llMerge) := by
  unfold makeRequest
  split
  · exact .inl rfl
  split
  · rename_i q' req hm
    split
    · exact .inr (.inr (.inr (.inl ⟨q', req, hm, rfl⟩)))
    · exact .inr (.inr (.inl ⟨q', _, req, hm, rfl⟩))
  · rename_i q' req hm
    split
    · exact .inr (.inr (.inr (.inr ⟨q', req, hm, rfl⟩)))
    · exact .inr (.inr (.inl ⟨q', _, req, hm, rfl⟩))
  · rename_i q' m r _ _ hm
    exact .inr (.inl ⟨q', m, r, hm, rfl⟩)

end RequestQueue

end SlobLook.Block
