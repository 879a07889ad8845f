import SlobLook.Block.Request

/-!
# The elevator framework: dispatch sorting and the merge hash

The functions of `block/elevator.c` that do not call back into the scheduler:

* `elvDispatchSort` is `elv_dispatch_sort`, which every LOOK dispatch goes through.  It scans
  the dispatch queue from its tail, skipping the requests that a one-way elevator sweep from
  `q->end_sector` would serve after `rq`, and stops at a request of another kind or direction,
  a started request or a barrier; `rq` goes right after the entry it stopped at.
* The merge hash is the list of its entries, each a bucket `ELV_HASH_FN(rq_hash_key(rq))`,
  computed when the request was hashed, and the request's id.  `elvRqhashFind` walks the
  bucket of the key it is given: it takes off the hash the requests it meets that are no
  longer mergeable (a merge that `ll_back_merge_fn` or `ll_front_merge_fn` refused sets
  `REQ_NOMERGE` on a request that stays hashed), and returns the first mergeable one whose key
  is the one asked for, together with the queue it leaves.
* `elvRqMergeOk` and `elvTryMerge` decide whether a bio may join a request, and on which side.
  Every bio of one queue is for the queue's disk, with no integrity payload and no special
  request, so the device, `special` and integrity tests of `elv_rq_merge_ok` always pass and
  are not modelled.
-/

namespace SlobLook.Block

open Request

/-- The loop of `elv_dispatch_sort` over the dispatch queue read from its tail
(`list_for_each_prev`): the list it returns, read backwards, is the queue with `rq` added
after the entry where the loop broke, or at the front when it ran off the head. -/
def dispatchSortScan (boundary : ℕ) (rq : Request) : List Request → List Request
  | [] => [rq]
  | pos :: rest =>
    if rq.discard ≠ pos.discard then rq :: pos :: rest
    else if rq.write ≠ pos.write then rq :: pos :: rest
    else if pos.barrier || pos.started then rq :: pos :: rest
    else if boundary ≤ rq.blkRqPos then
      if pos.blkRqPos < boundary then pos :: dispatchSortScan boundary rq rest
      else if pos.blkRqPos ≤ rq.blkRqPos then rq :: pos :: rest
      else pos :: dispatchSortScan boundary rq rest
    else if boundary ≤ pos.blkRqPos then rq :: pos :: rest
    else if pos.blkRqPos ≤ rq.blkRqPos then rq :: pos :: rest
    else pos :: dispatchSortScan boundary rq rest

/-- The scan only finds `rq` a place: it returns the queue with `rq` added. -/
theorem dispatchSortScan_perm (boundary : ℕ) (rq : Request) (l : List Request) :
    (dispatchSortScan boundary rq l).Perm (rq :: l) := by
  induction l with
  | nil => simp [dispatchSortScan]
  | cons pos rest ih =>
    -- each branch either stops here or passes `pos` and recurs
    unfold dispatchSortScan
    split_ifs <;> first
      | exact List.Perm.refl _
      | exact (ih.cons pos).trans (List.Perm.swap rq pos rest)

/-! ## The merge hash's buckets -/

/-- `hash_64(val, bits)` of `include/linux/hash.h`, the `hash_long` of a 64-bit build: `val`
times `GOLDEN_RATIO_PRIME_64` by shifts and adds in 64-bit arithmetic, and the top `bits` bits
of the product. -/
def hash64 (val : UInt64) (bits : ℕ) : UInt64 :=
  let hash := val
  let n := hash <<< 18
  let hash := hash - n
  let n := n <<< 33
  let hash := hash - n
  let n := n <<< 3
  let hash := hash + n
  let n := n <<< 3
  let hash := hash - n
  let n := n <<< 4
  let hash := hash + n
  let n := n <<< 2
  let hash := hash + n
  hash >>> (64 - bits).toUInt64

/-- `elv_hash_shift`: the hash has `1 << 6` buckets. -/
def elvHashShift : ℕ := 6

/-- `ELV_HASH_FN(sec)`: the bucket of the key `sec`, `hash_long(ELV_HASH_BLOCK(sec),
elv_hash_shift)` with `ELV_HASH_BLOCK(sec) = sec >> 3`. -/
def elvHashFn (sec : ℕ) : ℕ := (hash64 (UInt64.ofNat (sec >>> 3)) elvHashShift).toNat

namespace RequestQueue

/-- The ids of the requests on the merge hash, most recently added first. -/
def hashIds (q : RequestQueue) : List ℕ := q.hash.map Prod.snd

/-- `elv_dispatch_sort(q, rq)`: forget `rq` as the one-hit merge candidate, take it off the
merge hash, count it out of the elevator and sort it into the dispatch queue. -/
def elvDispatchSort (q : RequestQueue) (rq : Request) : RequestQueue :=
  { q with
    lastMerge := if q.lastMerge = some rq.id then none else q.lastMerge
    hash := q.hash.filter (·.2 ≠ rq.id)
    nrSorted := q.nrSorted - 1
    queueHead := (dispatchSortScan q.endSector rq q.queueHead.reverse).reverse }

/-- `elv_rqhash_add(q, rq)`: `hlist_add_head` on the bucket of `rq_hash_key(rq)`. -/
def elvRqhashAdd (q : RequestQueue) (rq : Request) : RequestQueue :=
  { q with hash := (elvHashFn rq.rqEndSector, rq.id) :: q.hash }

/-- `elv_rqhash_del(q, rq)`: `hlist_del_init` of the request's node, if it is hashed. -/
def elvRqhashDel (q : RequestQueue) (rq : Request) : RequestQueue :=
  { q with hash := q.hash.filter (·.2 ≠ rq.id) }

/-- `elv_rqhash_reposition(q, rq)`: rehash `rq` under its new end sector. -/
def elvRqhashReposition (q : RequestQueue) (rq : Request) : RequestQueue :=
  (q.elvRqhashDel rq).elvRqhashAdd rq

/-- The request with id `i` among those the queue holds, in LOOK's queue or in the dispatch
queue: what `q->last_merge` and the hash entries point to. -/
def findRq (q : RequestQueue) (i : ℕ) : Option Request :=
  (q.look.queue ++ q.queueHead).find? (·.id = i)

/-- The loop `hlist_for_each_entry_safe` of `elv_rqhash_find(q, offset)` over the hash's
entries: those of other buckets are not visited and stay.  A visited request that is no longer
mergeable is taken off (`__elv_rqhash_del`) and the walk goes on; the first visited request
whose key is `offset` stops it.  The entries left, and the request found. -/
def rqhashWalk (q : RequestQueue) (offset : ℕ) : List (ℕ × ℕ) → List (ℕ × ℕ) × Option Request
  | [] => ([], none)
  | e :: rest =>
    let r := q.rqhashWalk offset rest
    if e.1 = elvHashFn offset then
      match q.findRq e.2 with
      | some rq =>
        if !rq.mergeable then r
        else if rq.rqEndSector = offset then (e :: rest, some rq)
        else (e :: r.1, r.2)
      | none => (e :: r.1, r.2)
    else (e :: r.1, r.2)

/-- `elv_rqhash_find(q, offset)`: the queue with the entries the walk dropped taken off the
hash, and the request it found. -/
def elvRqhashFind (q : RequestQueue) (offset : ℕ) : RequestQueue × Option Request :=
  let r := q.rqhashWalk offset q.hash
  ({ q with hash := r.1 }, r.2)

/-- `elv_dispatch_sort` adds `rq` to the dispatch queue and takes nothing out of it. -/
theorem elvDispatchSort_queueHead_perm (q : RequestQueue) (rq : Request) :
    (q.elvDispatchSort rq).queueHead.Perm (rq :: q.queueHead) :=
  (List.reverse_perm _).trans ((dispatchSortScan_perm _ _ _).trans ((List.reverse_perm _).cons rq))

@[simp] theorem elvDispatchSort_look (q : RequestQueue) (rq : Request) :
    (q.elvDispatchSort rq).look = q.look := rfl

@[simp] theorem elvDispatchSort_nrSorted (q : RequestQueue) (rq : Request) :
    (q.elvDispatchSort rq).nrSorted = q.nrSorted - 1 := rfl

@[simp] theorem elvDispatchSort_lastMerge (q : RequestQueue) (rq : Request) :
    (q.elvDispatchSort rq).lastMerge = if q.lastMerge = some rq.id then none else q.lastMerge := rfl

@[simp] theorem elvDispatchSort_hash (q : RequestQueue) (rq : Request) :
    (q.elvDispatchSort rq).hash = q.hash.filter (·.2 ≠ rq.id) := rfl

@[simp] theorem elvRqhashAdd_look (q : RequestQueue) (rq : Request) :
    (q.elvRqhashAdd rq).look = q.look := rfl

@[simp] theorem elvRqhashDel_look (q : RequestQueue) (rq : Request) :
    (q.elvRqhashDel rq).look = q.look := rfl

@[simp] theorem elvRqhashReposition_look (q : RequestQueue) (rq : Request) :
    (q.elvRqhashReposition rq).look = q.look := rfl

/-! ## The walk of `elv_rqhash_find` -/

/-- The walk of `elv_rqhash_find(q, offset)` takes the entry `e` off the hash: it hangs in the
bucket walked, and its request is no longer mergeable. -/
def RqhashDrops (q : RequestQueue) (offset : ℕ) (e : ℕ × ℕ) : Prop :=
  e.1 = elvHashFn offset ∧ ∃ rq, q.findRq e.2 = some rq ∧ rq.mergeable = false

/-- The walk of `elv_rqhash_find(q, offset)` stops at the entry `e` and returns its request
`rq`: `e` hangs in the bucket walked, and `rq` is mergeable and ends at `offset`. -/
def RqhashStops (q : RequestQueue) (offset : ℕ) (e : ℕ × ℕ) (rq : Request) : Prop :=
  e.1 = elvHashFn offset ∧ q.findRq e.2 = some rq ∧ rq.mergeable = true ∧
    rq.rqEndSector = offset

section Walk

variable (q : RequestQueue) (offset : ℕ)

/-- **One entry of the walk**: it stops there, drops the entry and goes on, or keeps it and
goes on. -/
theorem rqhashWalk_cons (e : ℕ × ℕ) (rest : List (ℕ × ℕ)) :
    (∃ rq, q.RqhashStops offset e rq ∧ q.rqhashWalk offset (e :: rest) = (e :: rest, some rq)) ∨
      (q.RqhashDrops offset e ∧ q.rqhashWalk offset (e :: rest) = q.rqhashWalk offset rest) ∨
      ((¬ q.RqhashDrops offset e ∧ ∀ rq, ¬ q.RqhashStops offset e rq) ∧
        q.rqhashWalk offset (e :: rest) =
          (e :: (q.rqhashWalk offset rest).1, (q.rqhashWalk offset rest).2)) := by
  rw [rqhashWalk.eq_2]
  by_cases hb : e.1 = elvHashFn offset
  · rw [if_pos hb]
    cases hf : q.findRq e.2 with
    | none =>
      -- the entry stands for no request: the walk passes it over
      refine .inr (.inr ⟨⟨fun ⟨_, rq, hrq, _⟩ => ?_, fun rq ⟨_, hrq, _⟩ => ?_⟩, rfl⟩) <;>
        simp [hf] at hrq
    | some rq =>
      by_cases hm : rq.mergeable = true
      · by_cases hk : rq.rqEndSector = offset
        · exact .inl ⟨rq, ⟨hb, hf, hm, hk⟩, by simp [hm, hk]⟩
        · -- a mergeable request with another key stays, and the walk goes on
          refine .inr (.inr ⟨⟨fun ⟨_, rq', hrq, hm'⟩ => ?_, fun rq' ⟨_, hrq, _, hk'⟩ => ?_⟩,
            by simp [hm, hk]⟩)
          · rw [hf, Option.some.injEq] at hrq
            subst hrq
            simp [hm] at hm'
          · rw [hf, Option.some.injEq] at hrq
            subst hrq
            exact hk hk'
      · exact .inr (.inl ⟨⟨hb, rq, hf, by simpa using hm⟩, by simp [hm]⟩)
  · rw [if_neg hb]
    exact .inr (.inr ⟨⟨fun h => hb h.1, fun _ h => hb h.1⟩, rfl⟩)

/-- The walk only takes entries out. -/
theorem rqhashWalk_sublist (l : List (ℕ × ℕ)) : (q.rqhashWalk offset l).1.Sublist l := by
  induction l with
  | nil => exact List.Sublist.refl _
  | cons e rest ih =>
    rcases q.rqhashWalk_cons offset e rest with ⟨rq, -, he⟩ | ⟨-, he⟩ | ⟨-, he⟩
    · rw [he]
    · rw [he]
      exact ih.cons e
    · rw [he]
      exact ih.cons_cons e

/-- The walk returns the request of an entry it stops at. -/
theorem rqhashWalk_some {l : List (ℕ × ℕ)} {rq : Request}
    (h : (q.rqhashWalk offset l).2 = some rq) : ∃ e ∈ l, q.RqhashStops offset e rq := by
  induction l with
  | nil => simp [rqhashWalk] at h
  | cons e rest ih =>
    rcases q.rqhashWalk_cons offset e rest with ⟨rq', hs, he⟩ | ⟨-, he⟩ | ⟨-, he⟩ <;>
      rw [he] at h
    · cases h
      exact ⟨e, List.mem_cons_self .., hs⟩
    · obtain ⟨e', he', hs⟩ := ih h
      exact ⟨e', List.mem_cons_of_mem _ he', hs⟩
    · obtain ⟨e', he', hs⟩ := ih h
      exact ⟨e', List.mem_cons_of_mem _ he', hs⟩

end Walk

end RequestQueue

/-- `elv_rq_merge_ok(rq, bio)` for a bio of direction `write`: `rq` is mergeable, neither or
both are discards (a filesystem bio is not a discard), and the directions agree. -/
def elvRqMergeOk (rq : Request) (write : Bool) : Bool :=
  rq.mergeable && !rq.discard && rq.write == write

/-- The answer of the elevator's merge lookup (`ELEVATOR_NO_MERGE`, `ELEVATOR_BACK_MERGE`,
`ELEVATOR_FRONT_MERGE`). -/
inductive ElvMerge
  | noMerge
  | backMerge
  | frontMerge
  deriving DecidableEq, Repr

/-- `elv_try_merge(rq, bio)`.  The front test `blk_rq_pos(rq) - bio_sectors(bio) ==
bi_sector` is an equation of `sector_t`s, read here as the sum it is without wrapping. -/
def elvTryMerge (rq : Request) (bio : Bio) (write : Bool) : ElvMerge :=
  if elvRqMergeOk rq write then
    if rq.blkRqPos + rq.blkRqSectors = bio.sector then .backMerge
    else if bio.sector + bioSectors bio = rq.blkRqPos then .frontMerge
    else .noMerge
  else .noMerge

end SlobLook.Block
