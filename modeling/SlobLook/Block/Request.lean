import Mathlib

/-!
# Bios, requests and the request queue

The parts of `struct bio`, `struct request` and `struct request_queue`
(`include/linux/bio.h`, `include/linux/blkdev.h`) that the elevator framework of
`block/elevator.c`, the merge code of `block/blk-merge.c` and `block/blk-core.c`, and the LOOK
scheduler of `block/look-iosched.c` read or write.

* A request's bios are the list `rq->bio, rq->bio->bi_next, …, rq->biotail`; it is empty exactly
  when `rq->bio` is `NULL` (a request whose bios were handed to another by `attempt_merge`).
* Sector numbers are `ℕ`: the block layer never lets sector arithmetic wrap.
* A `struct request *` is the request's `id`; the queues hold the requests themselves, and
  `q->last_merge` and the merge hash hold ids.
* `rq_mergeable(rq)` is the flag `mergeable`: `REQ_NOMERGE` is clear.  The other flags the
  macro tests (`REQ_STARTED`, the barriers) are set only on requests that have left the
  elevator, which never come up as merge candidates.
-/

namespace SlobLook.Block

/-- A bio: its first sector `bi_sector` and its length `bi_size` in bytes. -/
structure Bio where
  sector : ℕ
  size : ℕ
  deriving DecidableEq, Repr

def bioSectors (bio : Bio) : ℕ := bio.size >>> 9

/-- A request: its identity, `__sector`, `__data_len` (bytes), its bios, its data direction
(`rq_data_dir`, `true` for a write), and the flags the elevator reads: `blk_discard_rq`,
`rq_mergeable` (no `REQ_NOMERGE`), `REQ_SORTED`, `REQ_SOFTBARRIER | REQ_HARDBARRIER` and
`REQ_STARTED`. -/
structure Request where
  id : ℕ
  sector : ℕ
  dataLen : ℕ
  bios : List Bio
  write : Bool
  discard : Bool
  mergeable : Bool
  sorted : Bool
  barrier : Bool
  started : Bool
  deriving DecidableEq, Repr

namespace Request

def blkRqPos (rq : Request) : ℕ := rq.sector

def blkRqBytes (rq : Request) : ℕ := rq.dataLen

def blkRqSectors (rq : Request) : ℕ := rq.blkRqBytes >>> 9

/-- `rq_end_sector(rq)`, which is also the merge hash key `rq_hash_key(rq)`. -/
def rqEndSector (rq : Request) : ℕ := rq.blkRqPos + rq.blkRqSectors

/-- `init_request_from_bio(req, bio)` for a filesystem bio, on a fresh request `id`: one bio,
`__sector` and `__data_len` taken from it, mergeable, not yet sorted, not started, no
barrier. -/
def ofBio (id : ℕ) (bio : Bio) (write : Bool) : Request where
  id := id
  sector := bio.sector
  dataLen := bio.size
  bios := [bio]
  write := write
  discard := false
  mergeable := true
  sorted := false
  barrier := false
  started := false

/-- A request describes its bios: it has one, `__sector` is the first bio's sector and
`__data_len` is the sum of the bios' lengths. -/
structure WellFormed (rq : Request) : Prop where
  bios_ne_nil : rq.bios ≠ []
  sector_eq : ∀ b ∈ rq.bios.head?, b.sector = rq.sector
  dataLen_eq : rq.dataLen = (rq.bios.map Bio.size).sum

theorem wellFormed_ofBio (id : ℕ) (bio : Bio) (write : Bool) : (ofBio id bio write).WellFormed :=
  ⟨by simp [ofBio], by simp [ofBio], by simp [ofBio]⟩

theorem WellFormed.firstBio_sector {rq : Request} (h : rq.WellFormed) {b : Bio} {bs : List Bio}
    (hb : rq.bios = b :: bs) : b.sector = rq.blkRqPos :=
  h.sector_eq b (by simp [hb])

theorem WellFormed.firstBio_end_le {rq : Request} (h : rq.WellFormed) {b : Bio} {bs : List Bio}
    (hb : rq.bios = b :: bs) : b.sector + bioSectors b ≤ rq.rqEndSector := by
  have hlen : b.size ≤ rq.dataLen := by rw [h.dataLen_eq, hb]; simp
  unfold rqEndSector blkRqSectors blkRqBytes bioSectors
  rw [h.firstBio_sector hb, Nat.shiftRight_eq_div_pow, Nat.shiftRight_eq_div_pow]
  exact Nat.add_le_add_left (Nat.div_le_div_right hlen) _

theorem WellFormed.firstBio_end_of_single {rq : Request} (h : rq.WellFormed) {b : Bio}
    (hb : rq.bios = [b]) : b.sector + bioSectors b = rq.rqEndSector := by
  have hlen : rq.dataLen = b.size := by rw [h.dataLen_eq, hb]; simp
  unfold rqEndSector blkRqSectors blkRqBytes bioSectors
  rw [h.firstBio_sector hb, hlen]

end Request

/-- `struct look_data`: the queue `nd->queue` (first entry first), the head position
`cur_pos` and the direction `dir` (`1` up, `0` down). -/
structure LookData where
  queue : List Request
  curPos : ℕ
  dir : ℕ
  deriving DecidableEq, Repr

/-- `look_init_queue`: an empty queue, the head at sector `0`, moving up. -/
def lookInitQueue : LookData := ⟨[], 0, 1⟩

/-- The request queue: LOOK's data, the dispatch queue `q->queue_head` (first entry first),
`q->nr_sorted`, `q->last_merge`, the entries of the elevator's merge hash, `q->end_sector` and
`q->boundary_rq`.  A hash entry is a request's `hlist_node`: the bucket it hangs in and the
request's id; the entries are kept most recently added first, so each bucket's `hlist` is its
entries in that order. -/
structure RequestQueue where
  look : LookData
  queueHead : List Request
  nrSorted : ℕ
  lastMerge : Option ℕ
  hash : List (ℕ × ℕ)
  endSector : ℕ
  boundaryRq : Option ℕ
  deriving DecidableEq, Repr

/-- A queue just set up by `elevator_init` with LOOK: nothing queued, `end_sector` `0`. -/
def RequestQueue.init : RequestQueue := ⟨lookInitQueue, [], 0, none, [], 0, none⟩

end SlobLook.Block
