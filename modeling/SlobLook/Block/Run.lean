import SlobLook.Block.Queue

/-!
# Runs of a LOOK queue

A run is any interleaving of the entry points that move requests: a bio entering
`__make_request`, a `look_dispatch` call (forced or not), the loop of `elv_drain_elevator`
(on an elevator switch, or before an `ELEVATOR_INSERT_BACK` insertion), and a driver fetching
the head of the dispatch queue.  The state carries, besides the queue, a ghost history that
the code does not keep: which requests were queued with `ELEVATOR_INSERT_SORT`, which were
merged away, LOOK's picks in order and what the driver received, in order.

The two loops of the framework that call back into LOOK are relations between the state
before and after them: `Drains s n s'` says that `elv_drain_elevator` returns after `n` calls
of `look_dispatch`, and `NextRequest s s' r` that `__elv_next_request` returns `r`.
`blk_do_ordered` lets every request through: no request here is a barrier of an ordered
sequence.
-/

namespace SlobLook.Block

open Request

/-- A queue with its history: the ids queued sorted, the ids merged away, LOOK's picks (ids,
in order) and the requests the driver fetched (in order). -/
structure ElvState where
  q : RequestQueue
  sorted : List ℕ
  merged : List ℕ
  picks : List ℕ
  fetched : List Request

namespace ElvState

/-- The queue of `elevator_init`, with no history. -/
def init : ElvState := ⟨RequestQueue.init, [], [], [], []⟩

/-- `look_dispatch(q, force)` on the state, logging the pick when it dispatched one. -/
def dispatch (s : ElvState) (force : ℤ) : Option (ElvState × ℤ) :=
  (s.q.lookDispatch force).map fun (r : RequestQueue × ℤ) =>
    ({ s with q := r.1
              picks := if r.2 = 0 then s.picks else s.picks ++ (lookChoice s.q.look).toList.map (·.id) },
     r.2)

theorem dispatch_q {s s' : ElvState} {force v : ℤ} (h : s.dispatch force = some (s', v)) :
    s.q.lookDispatch force = some (s'.q, v) := by
  simp only [dispatch, Option.map_eq_some_iff] at h
  obtain ⟨r, hr, hs'⟩ := h
  cases hs'
  exact hr

/-- The state after `__make_request` did `r` with a bio. -/
def afterBio (s : ElvState) (r : RequestQueue × BioOutcome) : ElvState :=
  match r.2 with
  | .queued i => { s with q := r.1, sorted := s.sorted ++ [i] }
  | .merged (some i) => { s with q := r.1, merged := s.merged ++ [i] }
  | .merged none => { s with q := r.1 }

/-- `blk_peek_request` then `blk_start_request` on the head `rq` of the dispatch queue: the
request is marked started, `q->end_sector` follows it unless another request is the
scheduling boundary, and it leaves the dispatch queue for the driver. -/
def startHead (s : ElvState) (rq : Request) : ElvState :=
  let atBoundary := s.q.boundaryRq = none ∨ s.q.boundaryRq = some rq.id
  { s with
    q := { s.q with
      queueHead := s.q.queueHead.tail
      endSector := if atBoundary then rq.rqEndSector else s.q.endSector
      boundaryRq := if atBoundary then none else s.q.boundaryRq }
    fetched := s.fetched ++ [{ rq with started := true }] }

/-- `list_add_tail(&rq->queuelist, &q->queue_head)`, the last step of an
`ELEVATOR_INSERT_BACK` insertion. -/
def addTail (s : ElvState) (rq : Request) : ElvState :=
  { s with q := { s.q with queueHead := s.q.queueHead ++ [rq] } }

@[simp] theorem afterBio_q (s : ElvState) (r : RequestQueue × BioOutcome) :
    (s.afterBio r).q = r.1 := by
  unfold afterBio; split <;> rfl
@[simp] theorem afterBio_picks (s : ElvState) (r : RequestQueue × BioOutcome) :
    (s.afterBio r).picks = s.picks := by
  unfold afterBio; split <;> rfl
@[simp] theorem afterBio_fetched (s : ElvState) (r : RequestQueue × BioOutcome) :
    (s.afterBio r).fetched = s.fetched := by
  unfold afterBio; split <;> rfl
@[simp] theorem startHead_picks (s : ElvState) (rq : Request) : (s.startHead rq).picks = s.picks :=
  rfl
@[simp] theorem addTail_picks (s : ElvState) (rq : Request) : (s.addTail rq).picks = s.picks := rfl
@[simp] theorem addTail_fetched (s : ElvState) (rq : Request) :
    (s.addTail rq).fetched = s.fetched := rfl
@[simp] theorem addTail_queueHead (s : ElvState) (rq : Request) :
    (s.addTail rq).q.queueHead = s.q.queueHead ++ [rq] := rfl

/-- The id `i` was never handed out: no request queued sorted, in the dispatch queue or at the
driver has it. -/
def Fresh (s : ElvState) (i : ℕ) : Prop :=
  i ∉ s.sorted ∧ ∀ rq ∈ s.q.queueHead ++ s.fetched, rq.id ≠ i

end ElvState

/-- The loop `while (q->elevator->ops->elevator_dispatch_fn(q, 1));` of `elv_drain_elevator`:
`Drains s n s'` when it stops after `n` calls, in state `s'`. -/
inductive Drains : ElvState → ℕ → ElvState → Prop
  | last {s s' : ElvState} : s.dispatch 1 = some (s', 0) → Drains s 1 s'
  | more {s s' s'' : ElvState} {n : ℕ} {v : ℤ} :
      s.dispatch 1 = some (s', v) → v ≠ 0 → Drains s' n s'' → Drains s (n + 1) s''

/-- `__elv_next_request(q)`: the head of the dispatch queue, after as many `look_dispatch(q,
0)` calls as it takes to fill it; `none` once LOOK has nothing left. -/
inductive NextRequest : ElvState → ElvState → Option Request → Prop
  | head {s : ElvState} {rq : Request} {rest : List Request} :
      s.q.queueHead = rq :: rest → NextRequest s s (some rq)
  | empty {s s' : ElvState} :
      s.q.queueHead = [] → s.dispatch 0 = some (s', 0) → NextRequest s s' none
  | again {s s' s'' : ElvState} {r : Option Request} {v : ℤ} :
      s.q.queueHead = [] → s.dispatch 0 = some (s', v) → v ≠ 0 → NextRequest s' s'' r →
      NextRequest s s'' r

/-- One step of a run. -/
inductive ElvStep : ElvState → ElvState → Prop
  /-- A filesystem bio of direction `write` enters `__make_request`; `id` is fresh. -/
  | bio {s : ElvState} (bio : Bio) (write : Bool) (id : ℕ) (llBack llFront llMerge : Bool) :
      s.Fresh id → ElvStep s (s.afterBio (s.q.makeRequest bio write id llBack llFront llMerge))
  /-- A call `look_dispatch(q, force)`. -/
  | dispatch {s s' : ElvState} {v : ℤ} (force : ℤ) : s.dispatch force = some (s', v) → ElvStep s s'
  /-- `elv_drain_elevator(q)`, as on an elevator switch. -/
  | drain {s s' : ElvState} {n : ℕ} : Drains s n s' → ElvStep s s'
  /-- `elv_insert(q, rq, ELEVATOR_INSERT_BACK)` of a fresh, unsorted request: it becomes a soft
  barrier, the elevator is drained and the request goes to the back of the dispatch queue. -/
  | insertBack {s s' : ElvState} {n : ℕ} (rq : Request) :
      s.Fresh rq.id → rq.sorted = false → Drains s n s' →
      ElvStep s (s'.addTail { rq with barrier := true })
  /-- A driver fetches a request with `blk_fetch_request`. -/
  | fetch {s s' : ElvState} {rq : Request} : NextRequest s s' (some rq) → ElvStep s (s'.startHead rq)

/-- The states a run reaches from `elevator_init`. -/
def ElvReachable (s : ElvState) : Prop := Relation.ReflTransGen ElvStep ElvState.init s

/-! ## The invariant of the queue -/

theorem nodup_ids_cons_filter {l : List (ℕ × ℕ)} (h : (l.map Prod.snd).Nodup) (b i : ℕ) :
    (((b, i) :: l.filter (·.2 ≠ i)).map Prod.snd).Nodup := by
  rw [List.map_cons, List.nodup_cons]
  refine ⟨fun hm => ?_, h.sublist (List.filter_sublist.map _)⟩
  obtain ⟨e, he, hei⟩ := List.mem_map.1 hm
  simp only [List.mem_filter, decide_eq_true_eq] at he
  exact he.2 hei

namespace RequestQueue

/-- What the framework and LOOK keep true of the queue between entry points: the direction is
`0` or `1`; `q->nr_sorted` counts LOOK's queue; every queued request is a well-formed sorted
request; no id is queued twice; the hash (no id twice) and `q->last_merge` point only into
LOOK's queue. -/
structure QInv (q : RequestQueue) : Prop where
  dir : q.look.dir = 0 ∨ q.look.dir = 1
  nrSorted : q.nrSorted = q.look.queue.length
  wellFormed : ∀ rq ∈ q.look.queue, rq.WellFormed
  sortedFlag : ∀ rq ∈ q.look.queue, rq.sorted = true
  ids_nodup : (q.look.queue.map Request.id).Nodup
  lastMerge : ∀ i, q.lastMerge = some i → i ∈ q.queueIds
  hash : ∀ e ∈ q.hash, e.2 ∈ q.queueIds
  hash_nodup : q.hashIds.Nodup

namespace QInv

variable {q : RequestQueue}

theorem congr (h : q.QInv) {q' : RequestQueue} (hl : q'.look = q.look)
    (hn : q'.nrSorted = q.nrSorted) (hm : q'.lastMerge = q.lastMerge) (hh : q'.hash = q.hash) :
    q'.QInv where
  dir := hl ▸ h.dir
  nrSorted := hl ▸ hn ▸ h.nrSorted
  wellFormed := hl ▸ h.wellFormed
  sortedFlag := hl ▸ h.sortedFlag
  ids_nodup := hl ▸ h.ids_nodup
  lastMerge := queueIds_congr hl ▸ hm ▸ h.lastMerge
  hash := queueIds_congr hl ▸ hh ▸ h.hash
  hash_nodup := by
    unfold hashIds
    rw [hh]
    exact h.hash_nodup

theorem bios_ne_nil (h : q.QInv) : ∀ rq ∈ q.look.queue, rq.bios ≠ [] :=
  fun rq hrq => (h.wellFormed rq hrq).bios_ne_nil

theorem hash_sublist (h : q.QInv) {l : List (ℕ × ℕ)} (hl : l.Sublist q.hash) :
    { q with hash := l }.QInv where
  dir := h.dir
  nrSorted := h.nrSorted
  wellFormed := h.wellFormed
  sortedFlag := h.sortedFlag
  ids_nodup := h.ids_nodup
  lastMerge := h.lastMerge
  hash e he := h.hash e (hl.subset he)
  hash_nodup := h.hash_nodup.sublist (hl.map _)

/-- The queue `elv_merge` leaves keeps the invariant: the lookup only takes hash entries off. -/
theorem elvMerge_fst (h : q.QInv) (bio : Bio) (write : Bool) :
    (q.elvMerge bio write).1.QInv ∧ (q.elvMerge bio write).1.look = q.look ∧
      (q.elvMerge bio write).1.queueHead = q.queueHead := by
  rcases RequestQueue.elvMerge_fst q bio write with he | he <;> rw [he]
  · exact ⟨h, rfl, rfl⟩
  · exact ⟨h.hash_sublist (rqhashWalk_sublist _ _ _), rfl, rfl⟩

theorem elvMerge_eq (h : q.QInv) {bio : Bio} {write : Bool} {q' : RequestQueue} {m : ElvMerge}
    {r : Option Request} (hm : q.elvMerge bio write = (q', m, r)) :
    q'.QInv ∧ q'.look = q.look ∧ q'.queueHead = q.queueHead := by
  simpa only [hm] using h.elvMerge_fst bio write

/-- A merge candidate proposed by `elv_merge` is queued in the queue it leaves. -/
theorem elvMerge_mem (h : q.QInv) {bio : Bio} {write : Bool} {q' : RequestQueue} {m : ElvMerge}
    {req : Request} (hm : q.elvMerge bio write = (q', m, some req)) : req ∈ q'.look.queue := by
  obtain ⟨i, hf, hi⟩ := RequestQueue.elvMerge_some hm
  have hq : i ∈ q.queueIds := by
    rcases hi with hi | hi
    · exact h.lastMerge i hi
    · obtain ⟨e, he, rfl⟩ := List.mem_map.1 hi
      exact h.hash e he
  rw [(h.elvMerge_eq hm).2.1]
  exact (findRq_mem hq hf).1

theorem updateRq (h : q.QInv) {rq : Request} (hwf : rq.WellFormed) (hs : rq.sorted = true) : (q.updateRq rq).QInv where
  dir := by simpa using h.dir
  nrSorted := by simpa using h.nrSorted
  wellFormed r' hr' := by
    rcases mem_updateRq hr' with rfl | hr'
    · exact hwf
    · exact h.wellFormed r' hr'
  sortedFlag r' hr' := by
    rcases mem_updateRq hr' with rfl | hr'
    · exact hs
    · exact h.sortedFlag r' hr'
  ids_nodup := updateRq_nodup h.ids_nodup
  lastMerge i hi := by simpa using h.lastMerge i hi
  hash e he := by simpa using h.hash e he
  hash_nodup := h.hash_nodup

/-- A merge the limits refuse keeps the invariant: the request stays as it was but for
`REQ_NOMERGE`, and `q->last_merge` stays or is cleared. -/
theorem refuseMerge (h : q.QInv) {req : Request} (hreq : req ∈ q.look.queue) :
    (q.refuseMerge req).QInv := by
  have hwf := h.wellFormed req hreq
  have h1 : (q.updateRq { req with mergeable := false }).QInv :=
    h.updateRq ⟨hwf.bios_ne_nil, hwf.sector_eq, hwf.dataLen_eq⟩ (h.sortedFlag req hreq)
  unfold RequestQueue.refuseMerge
  dsimp only
  split_ifs
  · exact ⟨h1.dir, h1.nrSorted, h1.wellFormed, h1.sortedFlag, h1.ids_nodup,
      (fun i hi => by cases hi), h1.hash, h1.hash_nodup⟩
  · exact h1

theorem elvMergedRequest (h : q.QInv) {rq : Request} (hrq : rq.id ∈ q.queueIds)
    (type : ElvMerge) : (q.elvMergedRequest rq type).QInv where
  dir := by simpa using h.dir
  nrSorted := by simpa using h.nrSorted
  wellFormed := by simpa using h.wellFormed
  sortedFlag := by simpa using h.sortedFlag
  ids_nodup := by simpa using h.ids_nodup
  lastMerge i hi := by
    simp only [elvMergedRequest_lastMerge, Option.some.injEq] at hi
    subst hi
    simpa [queueIds] using hrq
  hash e he := by
    have hq : (q.elvMergedRequest rq type).queueIds = q.queueIds := by simp [queueIds]
    rw [hq]
    rcases elvMergedRequest_hash q rq type with he' | he' <;> rw [he'] at he
    · exact h.hash e he
    · rcases List.mem_cons.1 he with rfl | he
      · exact hrq
      · exact h.hash e (List.mem_of_mem_filter he)
  hash_nodup := by
    unfold hashIds
    rcases elvMergedRequest_hash q rq type with he | he <;> rw [he]
    · exact h.hash_nodup
    · exact nodup_ids_cons_filter h.hash_nodup _ _

theorem elvMergeRequests (h : q.QInv) {rq next : Request} (hrq : rq ∈ q.look.queue)
    (hnext : next ∈ q.look.queue) (hne : next.id ≠ rq.id) :
    (q.elvMergeRequests rq next).QInv where
  dir := by simpa using h.dir
  nrSorted := by simp [h.nrSorted, List.length_erase_of_mem hnext]
  wellFormed r hr := h.wellFormed r (List.mem_of_mem_erase (by simpa using hr))
  sortedFlag r hr := h.sortedFlag r (List.mem_of_mem_erase (by simpa using hr))
  ids_nodup := by
    simpa using (List.Nodup.sublist (List.erase_sublist.map _) h.ids_nodup)
  lastMerge i hi := by
    simp only [elvMergeRequests_lastMerge, Option.some.injEq] at hi
    subst hi
    have : (q.elvMergeRequests rq next).queueIds = q.queueIds.erase next.id := by
      simpa [queueIds] using queueIds_erase hnext
    rw [this, Multiset.mem_erase_of_ne (Ne.symm hne)]
    exact mem_queueIds.2 ⟨rq, hrq, rfl⟩
  hash e he := by
    have hq : (q.elvMergeRequests rq next).queueIds = q.queueIds.erase next.id := by
      simpa [queueIds] using queueIds_erase hnext
    rw [hq]
    -- `next`'s entry is gone; what is left is `rq`'s new entry and the old ones
    simp only [elvMergeRequests_hash, List.mem_filter, List.mem_cons, decide_eq_true_eq] at he
    obtain ⟨he | ⟨he, -⟩, hne'⟩ := he
    · subst he
      rw [Multiset.mem_erase_of_ne hne']
      exact mem_queueIds.2 ⟨rq, hrq, rfl⟩
    · rw [Multiset.mem_erase_of_ne hne']
      exact h.hash e he
  hash_nodup := by
    unfold hashIds
    rw [elvMergeRequests_hash]
    exact (nodup_ids_cons_filter h.hash_nodup _ _).sublist (List.filter_sublist.map _)

/-- `elv_insert(q, rq, ELEVATOR_INSERT_SORT)` of a well-formed request with a new id keeps
the invariant. -/
theorem elvInsertSort (h : q.QInv) {rq : Request} (hid : rq.id ∉ q.queueIds)
    (hwf : rq.WellFormed) : (q.elvInsertSort rq).QInv where
  dir := by simpa using h.dir
  nrSorted := by simp [h.nrSorted]
  wellFormed r hr := by
    simp only [elvInsertSort_queue, List.mem_append, List.mem_singleton] at hr
    rcases hr with hr | rfl
    · exact h.wellFormed r hr
    · exact ⟨hwf.bios_ne_nil, hwf.sector_eq, hwf.dataLen_eq⟩
  sortedFlag r hr := by
    simp only [elvInsertSort_queue, List.mem_append, List.mem_singleton] at hr
    rcases hr with hr | rfl
    · exact h.sortedFlag r hr
    · rfl
  ids_nodup := by
    simp only [elvInsertSort_queue, List.map_append, List.map_cons, List.map_nil]
    exact List.nodup_append.2 ⟨h.ids_nodup, List.nodup_singleton _,
      fun a ha b hb => by simp at hb; subst hb; exact fun he => hid (he ▸ by simpa [queueIds] using ha)⟩
  lastMerge i hi := by
    have hq : (q.elvInsertSort rq).queueIds = q.queueIds + {rq.id} := by
      simp only [queueIds, elvInsertSort_queue, ← Multiset.coe_add, Multiset.map_add]
      rfl
    rw [hq, Multiset.mem_add]
    rcases elvInsertSort_lastMerge q rq with he | he <;> rw [he] at hi
    · exact .inl (h.lastMerge i hi)
    · cases hi; exact .inr (Multiset.mem_singleton_self _)
  hash e he := by
    have hq : (q.elvInsertSort rq).queueIds = q.queueIds + {rq.id} := by
      simp only [queueIds, elvInsertSort_queue, ← Multiset.coe_add, Multiset.map_add]
      rfl
    rw [hq, Multiset.mem_add]
    rw [elvInsertSort_hash] at he
    split_ifs at he
    · rcases List.mem_cons.1 he with rfl | he
      · exact .inr (Multiset.mem_singleton_self _)
      · exact .inl (h.hash e he)
    · exact .inl (h.hash e he)
  hash_nodup := by
    unfold hashIds
    rw [elvInsertSort_hash]
    split_ifs
    · refine List.nodup_cons.2 ⟨fun hm => hid ?_, h.hash_nodup⟩
      obtain ⟨e, he, hei⟩ := List.mem_map.1 hm
      have hei' : e.2 = rq.id := hei
      exact hei' ▸ h.hash e he
    · exact h.hash_nodup

/-- **One dispatch.**  On a non-empty queue, `look_dispatch` returns `1` after taking LOOK's
choice `r` off LOOK's queue and adding it to the dispatch queue, and the invariant holds
after it. -/
theorem lookDispatch (h : q.QInv) (force : ℤ) (hq : q.look.queue ≠ []) :
    ∃ r q', lookChoice q.look = some r ∧ r ∈ q.look.queue ∧ q.lookDispatch force = some (q', 1) ∧
      q'.QInv ∧ q'.look.queue = q.look.queue.erase r ∧ q'.queueHead.Perm (r :: q.queueHead) := by
  obtain ⟨r, bio, rest, hr, hrmem, -, heq⟩ := lookDispatch_of_ne_nil force h.dir h.bios_ne_nil hq
  refine ⟨r, _, hr, hrmem, heq, ?_, rfl, elvDispatchSort_queueHead_perm _ _⟩
  have hids : (((q.look.queue.erase r : List Request) : Multiset Request).map Request.id) =
      q.queueIds.erase r.id := queueIds_erase hrmem
  refine ⟨?_, ?_, ?_, ?_, ?_, ?_, ?_, ?_⟩
  · exact lookNextDir_eq_zero_or_one q.look
  · simp [LookData.served, h.nrSorted, List.length_erase_of_mem hrmem]
  · exact fun r' hr' => h.wellFormed r' (List.mem_of_mem_erase hr')
  · exact fun r' hr' => h.sortedFlag r' (List.mem_of_mem_erase hr')
  · exact List.Nodup.sublist (List.erase_sublist.map _) h.ids_nodup
  · intro i hi
    simp only [elvDispatchSort_lastMerge] at hi
    split_ifs at hi with hlm
    have hne : i ≠ r.id := fun he => hlm (he ▸ hi)
    show i ∈ (((q.look.queue.erase r : List Request) : Multiset Request).map Request.id)
    rw [hids, Multiset.mem_erase_of_ne hne]
    exact h.lastMerge i hi
  · intro e he
    simp only [elvDispatchSort_hash, List.mem_filter, decide_eq_true_eq] at he
    show e.2 ∈ (((q.look.queue.erase r : List Request) : Multiset Request).map Request.id)
    rw [hids, Multiset.mem_erase_of_ne he.2]
    exact h.hash e he.1
  · exact h.hash_nodup.sublist (List.filter_sublist.map _)

/-- `attempt_merge` of two distinct queued requests either changes nothing or takes `next`
out of LOOK's queue, keeping the invariant. -/
theorem attemptMerge (h : q.QInv) {req next : Request} (hreq : req ∈ q.look.queue)
    (hnext : next ∈ q.look.queue) (hne : next.id ≠ req.id) (llMerge : Bool) :
    q.attemptMerge req next llMerge = (q, false) ∨
      ∃ q', q.attemptMerge req next llMerge = (q', true) ∧ q'.QInv ∧
        q'.queueHead = q.queueHead ∧ q'.queueIds = q.queueIds.erase next.id ∧
        ∃ r ∈ q'.look.queue, r.id = req.id ∧ r.bios = req.bios ++ next.bios := by
  rcases attemptMerge_cases q req next llMerge with hm | ⟨-, hm⟩
  · exact .inl hm
  set req'' : Request :=
    { req with bios := req.bios ++ next.bios, dataLen := req.dataLen + next.blkRqBytes } with hreq''
  refine .inr ⟨_, hm, ?_, rfl, ?_, req'', ?_, rfl, rfl⟩
  · have hwf := h.wellFormed req hreq
    have hwfn := h.wellFormed next hnext
    -- `req` with `next`'s bios appended describes its bios
    have hwf' : req''.WellFormed :=
      ⟨by simp [req'', hwf.bios_ne_nil], by
        obtain ⟨b, bs, hb⟩ := List.exists_cons_of_ne_nil hwf.bios_ne_nil
        simpa [req'', hb] using hwf.sector_eq, by
        simp [req'', hwf.dataLen_eq, hwfn.dataLen_eq, blkRqBytes]⟩
    have h1 := h.updateRq hwf' (h.sortedFlag req hreq)
    exact h1.elvMergeRequests (mem_updateRq_self hreq rfl) (mem_updateRq_of_ne hnext hne) hne
  · have hn2 : next ∈ (q.updateRq req'').look.queue := mem_updateRq_of_ne hnext hne
    show (((q.updateRq req'').look.queue.erase next : List Request) : Multiset Request).map
      Request.id = _
    rw [queueIds_erase hn2, updateRq_queueIds]
  · -- the grown request stays queued: only `next` leaves
    have hne' : req'' ≠ next := fun he => hne (by rw [← he])
    have hm : req'' ∈ (q.updateRq req'').look.queue := mem_updateRq_self hreq rfl
    exact (List.mem_erase_of_ne hne').2 hm

end QInv

end RequestQueue

/-- How a call of `__make_request` changed the ids of LOOK's queue, as its outcome says. -/
def BioOutcome.Ids : BioOutcome → Multiset ℕ → Multiset ℕ → Prop
  | .queued i, ids, ids' => ids' = ids + {i}
  | .merged none, ids, ids' => ids' = ids
  | .merged (some i), ids, ids' => i ∈ ids ∧ ids' = ids.erase i

/-- A request that a call of `__make_request` merged away had its bios appended to a request
that is still queued afterwards. -/
def BioOutcome.Absorbed : BioOutcome → RequestQueue → RequestQueue → Prop
  | .merged (some i), q, q' =>
    ∃ a ∈ q.look.queue, a.id = i ∧ ∃ r ∈ q'.look.queue, a.bios <:+ r.bios
  | _, _, _ => True

theorem BioOutcome.absorbed_congr {o : BioOutcome} {q q' X : RequestQueue}
    (hl : q'.look = q.look) : o.Absorbed q' X ↔ o.Absorbed q X := by
  cases o with
  | merged a => cases a <;> simp [BioOutcome.Absorbed, hl]
  | queued i => simp [BioOutcome.Absorbed]

namespace RequestQueue

namespace QInv

variable {q : RequestQueue}

theorem getRq (h : q.QInv) (bio : Bio) (write : Bool) {id : ℕ} (hid : id ∉ q.queueIds) :
    (q.getRq bio write id).1.QInv ∧ (q.getRq bio write id).1.queueHead = q.queueHead ∧
      (q.getRq bio write id).2.Ids q.queueIds (q.getRq bio write id).1.queueIds ∧
      (q.getRq bio write id).2.Absorbed q (q.getRq bio write id).1 ∧
      (q.getRq bio write id).2 = .queued id := by
  refine ⟨h.elvInsertSort hid (wellFormed_ofBio id bio write),
    elvInsertSort_queueHead _ _, ?_, trivial, rfl⟩
  show (q.elvInsertSort (Request.ofBio id bio write)).queueIds = q.queueIds + {id}
  simp only [queueIds, elvInsertSort_queue, ← Multiset.coe_add, Multiset.map_add]
  rfl

theorem bioBackMerge (h : q.QInv) {req : Request} (hreq : req ∈ q.look.queue) (bio : Bio)
    (llMerge : Bool) :
    (q.bioBackMerge req bio llMerge).1.QInv ∧
      (q.bioBackMerge req bio llMerge).1.queueHead = q.queueHead ∧
      (q.bioBackMerge req bio llMerge).2.Ids q.queueIds (q.bioBackMerge req bio llMerge).1.queueIds ∧
      (q.bioBackMerge req bio llMerge).2.Absorbed q (q.bioBackMerge req bio llMerge).1 := by
  have hwf := h.wellFormed req hreq
  set req' : Request :=
    { req with bios := req.bios ++ [bio], dataLen := req.dataLen + bio.size } with hreq'
  have hwf' : req'.WellFormed :=
    ⟨by simp [req'], by
      obtain ⟨b, bs, hb⟩ := List.exists_cons_of_ne_nil hwf.bios_ne_nil
      simpa [req', hb] using hwf.sector_eq, by simp [req', hwf.dataLen_eq]⟩
  have h1 := h.updateRq hwf' (h.sortedFlag req hreq)
  have hmem : req' ∈ (q.updateRq req').look.queue := mem_updateRq_self hreq rfl
  have hids : req'.id ∈ (q.updateRq req').queueIds := mem_queueIds.2 ⟨req', hmem, rfl⟩
  unfold RequestQueue.bioBackMerge
  rw [← hreq']
  -- the request either is merged with the next one or is only re-hashed
  cases hnext : (q.updateRq req').lookLatterRequest req' with
  | none =>
    simp only [hnext]
    exact ⟨h1.elvMergedRequest hids _, by simp, by simp [BioOutcome.Ids], trivial⟩
  | some next =>
    simp only [hnext]
    obtain ⟨hnmem, hne⟩ := lookLatterRequest_spec h1.ids_nodup hnext
    rcases h1.attemptMerge hmem hnmem hne llMerge with hm | ⟨q', hm, hq', hhead, hq'ids, r, hr, -, hrb⟩
    · simp only [hm]
      exact ⟨h1.elvMergedRequest hids _, by simp, by simp [BioOutcome.Ids], trivial⟩
    · simp only [hm, if_true]
      refine ⟨hq', by simpa using hhead, ⟨?_, ?_⟩, ?_⟩
      · simpa using mem_queueIds.2 ⟨next, hnmem, rfl⟩
      · simpa using hq'ids
      · -- `next` was queued before the bio came, and its bios now end `req'`'s
        have hnq : next ∈ q.look.queue := (mem_updateRq hnmem).resolve_left (fun he => hne (by rw [he]))
        exact ⟨next, hnq, rfl, r, hr, hrb ▸ List.suffix_append _ _⟩

theorem bioFrontMerge (h : q.QInv) {req : Request} (hreq : req ∈ q.look.queue) (bio : Bio)
    (llMerge : Bool) :
    (q.bioFrontMerge req bio llMerge).1.QInv ∧
      (q.bioFrontMerge req bio llMerge).1.queueHead = q.queueHead ∧
      (q.bioFrontMerge req bio llMerge).2.Ids q.queueIds
        (q.bioFrontMerge req bio llMerge).1.queueIds ∧
      (q.bioFrontMerge req bio llMerge).2.Absorbed q (q.bioFrontMerge req bio llMerge).1 := by
  have hwf := h.wellFormed req hreq
  set req' : Request :=
    { req with bios := bio :: req.bios, sector := bio.sector, dataLen := req.dataLen + bio.size }
    with hreq'
  have hwf' : req'.WellFormed :=
    ⟨by simp [req'], by simp [req'], by simp [req', hwf.dataLen_eq, Nat.add_comm]⟩
  have h1 := h.updateRq hwf' (h.sortedFlag req hreq)
  have hmem : req' ∈ (q.updateRq req').look.queue := mem_updateRq_self hreq rfl
  have hids : req'.id ∈ (q.updateRq req').queueIds := mem_queueIds.2 ⟨req', hmem, rfl⟩
  unfold RequestQueue.bioFrontMerge
  rw [← hreq']
  -- the request either is absorbed by the one before it or is only re-marked
  cases hprev : (q.updateRq req').lookFormerRequest req' with
  | none =>
    simp only [hprev]
    exact ⟨h1.elvMergedRequest hids _, by simp, by simp [BioOutcome.Ids], trivial⟩
  | some prev =>
    simp only [hprev]
    obtain ⟨hpmem, hne⟩ := lookFormerRequest_spec h1.ids_nodup hmem hprev
    rcases h1.attemptMerge hpmem hmem (Ne.symm hne) llMerge with
      hm | ⟨q', hm, hq', hhead, hq'ids, r, hr, -, hrb⟩
    · simp only [hm]
      exact ⟨h1.elvMergedRequest hids _, by simp, by simp [BioOutcome.Ids], trivial⟩
    · simp only [hm, if_true]
      refine ⟨hq', by simpa using hhead, ⟨?_, ?_⟩, ?_⟩
      · simpa using hids
      · simpa using hq'ids
      · -- `req` itself, with the bio in front, now ends `prev`'s bios
        exact ⟨req, hreq, rfl, r, hr, hrb ▸ (List.suffix_cons bio req.bios).trans (List.suffix_append _ _)⟩

theorem bioBackMerge_ne_queued (q : RequestQueue) (req : Request) (bio : Bio) (llMerge : Bool)
    (i : ℕ) : (q.bioBackMerge req bio llMerge).2 ≠ .queued i := by
  unfold RequestQueue.bioBackMerge
  dsimp only
  split
  · split <;> simp
  · simp

theorem bioFrontMerge_ne_queued (q : RequestQueue) (req : Request) (bio : Bio) (llMerge : Bool)
    (i : ℕ) : (q.bioFrontMerge req bio llMerge).2 ≠ .queued i := by
  unfold RequestQueue.bioFrontMerge
  dsimp only
  split
  · split <;> simp
  · simp

/-- **`__make_request`** keeps the invariant, leaves the dispatch queue alone, and changes the
ids of LOOK's queue as its outcome says: the new request `id` is queued, or nothing moves, or
one queued request is merged away. -/
theorem makeRequest (h : q.QInv) (bio : Bio) (write : Bool) {id : ℕ} (hid : id ∉ q.queueIds)
    (llBack llFront llMerge : Bool) :
    (q.makeRequest bio write id llBack llFront llMerge).1.QInv ∧
      (q.makeRequest bio write id llBack llFront llMerge).1.queueHead = q.queueHead ∧
      (q.makeRequest bio write id llBack llFront llMerge).2.Ids q.queueIds
        (q.makeRequest bio write id llBack llFront llMerge).1.queueIds ∧
      (q.makeRequest bio write id llBack llFront llMerge).2.Absorbed q
        (q.makeRequest bio write id llBack llFront llMerge).1 ∧
      ∀ i, (q.makeRequest bio write id llBack llFront llMerge).2 = .queued i → i = id := by
  -- a new request queued on a queue with `q`'s ids and dispatch queue
  have hget : ∀ {q₁ : RequestQueue}, q₁.QInv → q₁.queueIds = q.queueIds →
      q₁.queueHead = q.queueHead →
      (q₁.getRq bio write id).1.QInv ∧ (q₁.getRq bio write id).1.queueHead = q.queueHead ∧
        (q₁.getRq bio write id).2.Ids q.queueIds (q₁.getRq bio write id).1.queueIds ∧
        (q₁.getRq bio write id).2.Absorbed q (q₁.getRq bio write id).1 ∧
        ∀ i, (q₁.getRq bio write id).2 = .queued i → i = id := by
    intro q₁ h₁ hids hhead
    obtain ⟨hg1, hg2, hg3, -, hg5⟩ := h₁.getRq bio write (hids ▸ hid)
    refine ⟨hg1, hg2.trans hhead, by rw [← hids]; exact hg3, by rw [hg5]; trivial,
      fun i hi => ?_⟩
    rw [hg5] at hi
    cases hi
    rfl
  rcases makeRequest_cases q bio write id llBack llFront llMerge with
    he | ⟨q', m, r, hm, he⟩ | ⟨q', m, req, hm, he⟩ | ⟨q', req, hm, he⟩ | ⟨q', req, hm, he⟩ <;>
    rw [he]
  · exact hget h rfl rfl
  · obtain ⟨h', hl, hhd⟩ := h.elvMerge_eq hm
    exact hget h' (queueIds_congr hl) hhd
  · -- the limits refused the merge: the request is marked `REQ_NOMERGE`, then a new one queued
    obtain ⟨h', hl, hhd⟩ := h.elvMerge_eq hm
    have hreq := h.elvMerge_mem hm
    exact hget (h'.refuseMerge hreq) (by rw [refuseMerge_queueIds]; exact queueIds_congr hl)
      (by rw [refuseMerge_queueHead, hhd])
  · -- a back merge into the request `elv_merge` found
    obtain ⟨h', hl, hhd⟩ := h.elvMerge_eq hm
    obtain ⟨h1, h2, h3, h4⟩ := h'.bioBackMerge (h.elvMerge_mem hm) bio llMerge
    exact ⟨h1, h2.trans hhd, queueIds_congr hl ▸ h3, (BioOutcome.absorbed_congr hl).1 h4,
      fun i hi => absurd hi (bioBackMerge_ne_queued _ _ _ _ i)⟩
  · -- a front merge into the request `elv_merge` found
    obtain ⟨h', hl, hhd⟩ := h.elvMerge_eq hm
    obtain ⟨h1, h2, h3, h4⟩ := h'.bioFrontMerge (h.elvMerge_mem hm) bio llMerge
    exact ⟨h1, h2.trans hhd, queueIds_congr hl ▸ h3, (BioOutcome.absorbed_congr hl).1 h4,
      fun i hi => absurd hi (bioFrontMerge_ne_queued _ _ _ _ i)⟩

end QInv

end RequestQueue

/-! ## The history of a run -/

namespace ElvState

/-- The ids of the sorted requests that went to the dispatch queue: those still there and
those the driver fetched. -/
def dispatchedIds (s : ElvState) : Multiset ℕ :=
  (((s.q.queueHead ++ s.fetched).filter (·.sorted)).map Request.id : List ℕ)

/-- The invariant of a run: the queue's, and every request queued sorted is, exactly once,
in LOOK's queue, among the dispatched requests, or among those merged away. -/
structure Inv (s : ElvState) : Prop where
  queue : s.q.QInv
  places : s.q.queueIds + s.dispatchedIds + (s.merged : Multiset ℕ) = s.sorted
  sorted_nodup : s.sorted.Nodup

/-- The request `i` is in exactly one place: queued once in LOOK's queue, sent once to the
dispatch queue, or merged away once. -/
def Place (s : ElvState) (i : ℕ) : Prop :=
  (s.q.queueIds.count i = 1 ∧ s.dispatchedIds.count i = 0 ∧ s.merged.count i = 0) ∨
  (s.q.queueIds.count i = 0 ∧ s.dispatchedIds.count i = 1 ∧ s.merged.count i = 0) ∨
  (s.q.queueIds.count i = 0 ∧ s.dispatchedIds.count i = 0 ∧ s.merged.count i = 1)

theorem Inv.place {s : ElvState} (hs : s.Inv) {i : ℕ} (hi : i ∈ s.sorted) : s.Place i := by
  have h1 : (s.sorted : Multiset ℕ).count i = 1 :=
    Multiset.count_eq_one_of_mem (Multiset.coe_nodup.2 hs.sorted_nodup) hi
  rw [← hs.places, Multiset.count_add, Multiset.count_add, Multiset.coe_count] at h1
  unfold Place
  omega

theorem dispatchedIds_of_perm {s : ElvState} {q' : RequestQueue} {r : Request}
    (hq : q'.queueHead.Perm (r :: s.q.queueHead)) (hr : r.sorted = true) (p : List ℕ) :
    ({ s with q := q', picks := p } : ElvState).dispatchedIds = r.id ::ₘ s.dispatchedIds := by
  have hp : (((q'.queueHead ++ s.fetched).filter (·.sorted)).map Request.id).Perm
      (((r :: (s.q.queueHead ++ s.fetched)).filter (·.sorted)).map Request.id) :=
    ((hq.append_right _).filter _).map _
  simp only [dispatchedIds, Multiset.coe_eq_coe.2 hp, List.filter_cons, hr, if_true,
    List.map_cons, Multiset.cons_coe]

/-- **One dispatch on the run.**  `look_dispatch` either finds LOOK's queue empty, returns `0`
and changes nothing, or returns `1` having moved one request to the dispatch queue; either
way the invariant holds after it. -/
theorem Inv.dispatch {s s' : ElvState} {force v : ℤ} (hs : s.Inv)
    (h : s.dispatch force = some (s', v)) :
    s'.Inv ∧ ((v = 0 ∧ s' = s ∧ s.q.look.queue = []) ∨
      (v = 1 ∧ s'.q.look.queue.length + 1 = s.q.look.queue.length)) := by
  by_cases hq : s.q.look.queue = []
  · -- nothing to dispatch
    simp only [ElvState.dispatch, lookDispatch_of_nil force hq, Option.map_some, if_true,
      Option.some.injEq, Prod.mk.injEq] at h
    obtain ⟨rfl, rfl⟩ := h
    exact ⟨hs, .inl ⟨rfl, rfl, hq⟩⟩
  · obtain ⟨r, q', -, hrmem, heq, hq', hqueue, hhead⟩ := hs.queue.lookDispatch force hq
    simp only [ElvState.dispatch, heq, Option.map_some, Option.some.injEq, Prod.mk.injEq] at h
    obtain ⟨rfl, rfl⟩ := h
    have hids : q'.queueIds = s.q.queueIds.erase r.id := by
      rw [← RequestQueue.queueIds_erase hrmem, RequestQueue.queueIds, hqueue]
    refine ⟨⟨hq', ?_, hs.sorted_nodup⟩, .inr ⟨rfl, ?_⟩⟩
    · have hr : r.id ∈ s.q.queueIds := RequestQueue.mem_queueIds.2 ⟨r, hrmem, rfl⟩
      rw [dispatchedIds_of_perm hhead (hs.queue.sortedFlag r hrmem), ← hs.places]
      simp only [hids]
      conv_rhs => rw [← Multiset.cons_erase hr]
      simp [Multiset.cons_add, Multiset.add_cons]
    · have := List.length_pos_of_ne_nil hq
      simp [hqueue, List.length_erase_of_mem hrmem]
      omega

/-- **The drain.**  `elv_drain_elevator` keeps the invariant, empties LOOK's queue, and calls
`look_dispatch` once per queued request and once more. -/
theorem Inv.drains {s s' : ElvState} {n : ℕ} (hs : s.Inv) (h : Drains s n s') :
    s'.Inv ∧ n = s.q.look.queue.length + 1 ∧ s'.q.look.queue = [] := by
  induction h with
  | last hd =>
    rcases (hs.dispatch hd) with ⟨hs', ⟨-, rfl, hq⟩ | ⟨hv, -⟩⟩
    · exact ⟨hs', by simp [hq], hq⟩
    · cases hv
  | more hd hv _ ih =>
    rcases (hs.dispatch hd) with ⟨hs', ⟨rfl, -⟩ | ⟨-, hlen⟩⟩
    · exact absurd rfl hv
    · obtain ⟨hs'', hn, hq⟩ := ih hs'
      exact ⟨hs'', by omega, hq⟩

/-- The drain always finishes: from every state of a run it stops after one call per queued
request and one more. -/
theorem Inv.drains_exists : ∀ (n : ℕ) {s : ElvState}, s.Inv → s.q.look.queue.length = n →
    ∃ s', Drains s (n + 1) s'
  | 0, s, hs, hn => by
    have hq : s.q.look.queue = [] := List.length_eq_zero_iff.1 hn
    exact ⟨s, .last (by simp [ElvState.dispatch, lookDispatch_of_nil 1 hq])⟩
  | n + 1, s, hs, hn => by
    have hq : s.q.look.queue ≠ [] := List.ne_nil_of_length_pos (by omega)
    obtain ⟨r, q', -, -, heq, -⟩ := hs.queue.lookDispatch 1 hq
    have hd : s.dispatch 1 =
        some ({ s with q := q', picks := s.picks ++ (lookChoice s.q.look).toList.map (·.id) }, 1) := by
      simp [ElvState.dispatch, heq]
    obtain ⟨hs', -⟩ := hs.dispatch hd
    rcases (hs.dispatch hd).2 with ⟨hv, -⟩ | ⟨-, hlen⟩
    · cases hv
    · obtain ⟨s'', hd'⟩ := Inv.drains_exists n hs' (by simp only at hlen ⊢; omega)
      exact ⟨s'', .more hd (by decide) hd'⟩

/-- `__elv_next_request` keeps the invariant, and a request it returns heads the dispatch
queue. -/
theorem Inv.nextRequest {s s' : ElvState} {r : Option Request} (hs : s.Inv)
    (h : NextRequest s s' r) : s'.Inv ∧ ∀ rq, r = some rq → ∃ rest, s'.q.queueHead = rq :: rest := by
  induction h with
  | head hq => exact ⟨hs, fun rq hrq => by cases hrq; exact ⟨_, hq⟩⟩
  | empty _ hd => exact ⟨(hs.dispatch hd).1, fun _ h => by cases h⟩
  | again _ hd _ _ ih => exact ih (hs.dispatch hd).1

theorem Inv.startHead {s : ElvState} {rq : Request} {rest : List Request} (hs : s.Inv)
    (hq : s.q.queueHead = rq :: rest) : (s.startHead rq).Inv := by
  refine ⟨hs.queue.congr rfl rfl rfl rfl, ?_, hs.sorted_nodup⟩
  have hp : ((((s.startHead rq).q.queueHead ++ (s.startHead rq).fetched).filter (·.sorted)).map
      Request.id).Perm (((s.q.queueHead ++ s.fetched).filter (·.sorted)).map Request.id) := by
    simp only [ElvState.startHead, hq, List.tail_cons, List.cons_append]
    have : (rest ++ (s.fetched ++ [{ rq with started := true }])).Perm
        ({ rq with started := true } :: (rest ++ s.fetched)) := by
      rw [← List.append_assoc]
      exact List.perm_append_singleton _ _
    refine ((this.filter _).map _).trans ?_
    cases hsorted : rq.sorted <;> simp [hsorted]
  have hd : (s.startHead rq).dispatchedIds = s.dispatchedIds := Multiset.coe_eq_coe.2 hp
  rw [hd]
  exact hs.places

theorem Inv.not_mem_queueIds {s : ElvState} (hs : s.Inv) {id : ℕ} (hid : s.Fresh id) :
    id ∉ s.q.queueIds := fun hm => hid.1 (by
  have : id ∈ s.q.queueIds + s.dispatchedIds + (s.merged : Multiset ℕ) :=
    Multiset.mem_add.2 (.inl (Multiset.mem_add.2 (.inl hm)))
  rwa [hs.places, Multiset.mem_coe] at this)

theorem Inv.afterBio {s : ElvState} (hs : s.Inv) {bio : Bio} {write : Bool} {id : ℕ}
    {llBack llFront llMerge : Bool} (hid : s.Fresh id) :
    (s.afterBio (s.q.makeRequest bio write id llBack llFront llMerge)).Inv := by
  have hidq := hs.not_mem_queueIds hid
  obtain ⟨hq, hhead, hids, -, hout⟩ := hs.queue.makeRequest bio write hidq llBack llFront llMerge
  generalize s.q.makeRequest bio write id llBack llFront llMerge = r at hq hhead hids hout
  obtain ⟨q', o⟩ := r
  have hdisp : ∀ (sorted merged picks : List ℕ),
      (⟨q', sorted, merged, picks, s.fetched⟩ : ElvState).dispatchedIds = s.dispatchedIds := by
    intro _ _ _
    simp only [dispatchedIds] at hhead ⊢
    rw [hhead]
  cases o with
  | queued i =>
    obtain rfl := hout i rfl
    refine ⟨hq, ?_, List.nodup_append.2 ⟨hs.sorted_nodup, List.nodup_singleton _,
      fun a ha b hb => by simp at hb; subst hb; exact fun he => hid.1 (he ▸ ha)⟩⟩
    have hi : q'.queueIds = s.q.queueIds + {i} := hids
    change q'.queueIds + (⟨q', s.sorted ++ [i], s.merged, s.picks, s.fetched⟩ : ElvState).dispatchedIds
      + (s.merged : Multiset ℕ) = ((s.sorted ++ [i] : List ℕ) : Multiset ℕ)
    rw [hi, hdisp, ← Multiset.coe_add, ← hs.places, Multiset.coe_singleton]
    ac_rfl
  | merged o =>
    cases o with
    | none =>
      have hi : q'.queueIds = s.q.queueIds := hids
      refine ⟨hq, ?_, hs.sorted_nodup⟩
      change q'.queueIds + (⟨q', s.sorted, s.merged, s.picks, s.fetched⟩ : ElvState).dispatchedIds
        + (s.merged : Multiset ℕ) = s.sorted
      rw [hi, hdisp]
      exact hs.places
    | some i =>
      obtain ⟨hmem, hi⟩ : i ∈ s.q.queueIds ∧ q'.queueIds = s.q.queueIds.erase i := hids
      refine ⟨hq, ?_, hs.sorted_nodup⟩
      change q'.queueIds + (⟨q', s.sorted, s.merged ++ [i], s.picks, s.fetched⟩ : ElvState).dispatchedIds
        + ((s.merged ++ [i] : List ℕ) : Multiset ℕ) = s.sorted
      rw [hi, hdisp, ← Multiset.coe_add, ← hs.places, Multiset.coe_singleton]
      conv_rhs => rw [← Multiset.cons_erase hmem]
      rw [← Multiset.singleton_add]
      ac_rfl

theorem Inv.addTail {s : ElvState} {rq : Request} (hs : s.Inv) (hr : rq.sorted = false) :
    (s.addTail rq).Inv := by
  refine ⟨hs.queue.congr rfl rfl rfl rfl, ?_, hs.sorted_nodup⟩
  have hd : (s.addTail rq).dispatchedIds = s.dispatchedIds := by
    simp [dispatchedIds, ElvState.addTail, List.filter_append, hr]
  rw [hd]
  exact hs.places

theorem Inv.init : ElvState.init.Inv where
  queue :=
    { dir := .inr rfl
      nrSorted := rfl
      wellFormed := by simp [ElvState.init, RequestQueue.init, lookInitQueue]
      sortedFlag := by simp [ElvState.init, RequestQueue.init, lookInitQueue]
      ids_nodup := by simp [ElvState.init, RequestQueue.init, lookInitQueue]
      lastMerge := by simp [ElvState.init, RequestQueue.init]
      hash := by simp [ElvState.init, RequestQueue.init]
      hash_nodup := by simp [ElvState.init, RequestQueue.init, RequestQueue.hashIds] }
  places := rfl
  sorted_nodup := List.nodup_nil

/-- **Every step keeps the invariant.** -/
theorem Inv.step {s s' : ElvState} (hs : s.Inv) (h : ElvStep s s') : s'.Inv := by
  cases h with
  | bio bio write id llBack llFront llMerge hid => exact hs.afterBio hid
  | dispatch force hd => exact (hs.dispatch hd).1
  | drain hd => exact (hs.drains hd).1
  | insertBack rq _ hr hd => exact (hs.drains hd).1.addTail hr
  | fetch hn =>
    obtain ⟨hs', hhead⟩ := hs.nextRequest hn
    obtain ⟨rest, hq⟩ := hhead _ rfl
    exact hs'.startHead hq

theorem Inv.of_reachable {s : ElvState} (h : ElvReachable s) : s.Inv := by
  induction h with
  | refl => exact Inv.init
  | tail _ hstep ih => exact ih.step hstep

/-! ## Where merged requests go -/

theorem dispatch_merged {s s' : ElvState} {force v : ℤ} (h : s.dispatch force = some (s', v)) :
    s'.merged = s.merged := by
  simp only [ElvState.dispatch, Option.map_eq_some_iff] at h
  obtain ⟨r, -, hr⟩ := h
  cases hr
  rfl

end ElvState

/-- A property of states that every `look_dispatch` call keeps, from a state with the
invariant, holds after a whole drain. -/
theorem Drains.preserves {P : ElvState → Prop}
    (hP : ∀ {s s' : ElvState} {force v : ℤ}, P s → s.Inv → s.dispatch force = some (s', v) → P s')
    {s s' : ElvState} {n : ℕ} (h : Drains s n s') (hp : P s) (hs : s.Inv) : P s' := by
  induction h with
  | last hd => exact hP hp hs hd
  | more hd _ _ ih => exact ih (hP hp hs hd) (hs.dispatch hd).1

theorem NextRequest.preserves {P : ElvState → Prop}
    (hP : ∀ {s s' : ElvState} {force v : ℤ}, P s → s.Inv → s.dispatch force = some (s', v) → P s')
    {s s' : ElvState} {r : Option Request} (h : NextRequest s s' r) (hp : P s) (hs : s.Inv) :
    P s' := by
  induction h with
  | head _ => exact hp
  | empty _ hd => exact hP hp hs hd
  | again _ hd _ _ ih => exact ih (hP hp hs hd) (hs.dispatch hd).1

theorem Drains.merged_eq {s s' : ElvState} {n : ℕ} (h : Drains s n s') : s'.merged = s.merged := by
  induction h with
  | last hd => exact ElvState.dispatch_merged hd
  | more hd _ _ ih => rw [ih, ElvState.dispatch_merged hd]

theorem NextRequest.merged_eq {s s' : ElvState} {r : Option Request} (h : NextRequest s s' r) :
    s'.merged = s.merged := by
  induction h with
  | head _ => rfl
  | empty _ hd => exact ElvState.dispatch_merged hd
  | again _ hd _ _ ih => rw [ih, ElvState.dispatch_merged hd]

namespace ElvState

/-- A step merges a request away only as `__make_request` does: the request was queued, and
its bios end a request that is still queued after the step. -/
theorem Inv.absorbed {s s' : ElvState} (hs : s.Inv) (h : ElvStep s s') {i : ℕ}
    (hi : i ∈ s'.merged) (hi' : i ∉ s.merged) :
    ∃ a ∈ s.q.look.queue, a.id = i ∧ ∃ r ∈ s'.q.look.queue, a.bios <:+ r.bios := by
  cases h with
  | bio bio write id llBack llFront llMerge hid =>
    obtain ⟨-, -, -, hab, -⟩ :=
      hs.queue.makeRequest bio write (hs.not_mem_queueIds hid) llBack llFront llMerge
    generalize s.q.makeRequest bio write id llBack llFront llMerge = r at hab hi
    obtain ⟨q', o⟩ := r
    -- only an outcome that merged a request away grows the merged list
    rcases o with (_ | j) | j
    · exact absurd (show i ∈ s.merged from hi) hi'
    · change i ∈ s.merged ++ [j] at hi
      obtain rfl := (List.mem_append.1 hi).resolve_left hi' |> List.mem_singleton.1
      exact hab
    · exact absurd (show i ∈ s.merged from hi) hi'
  | dispatch force hd => exact absurd (dispatch_merged hd ▸ hi) hi'
  | drain hd => exact absurd (hd.merged_eq ▸ hi) hi'
  | insertBack rq _ _ hd => exact absurd (hd.merged_eq ▸ hi) hi'
  | fetch hn => exact absurd (hn.merged_eq ▸ hi) hi'

end ElvState

open ElvState in
/-- **No request is lost or duplicated inside the elevator.**  In every state that a run of a
LOOK queue reaches, from any interleaving of bios (merged or queued), dispatches, drains,
back insertions and driver fetches: `q->nr_sorted` is the length of `nd->queue`; every queued
request has a bio, so `look_dispatch`'s `r->bio` is never `NULL`; every request queued sorted
is, exactly once, in `nd->queue`, in the dispatch queue or at the driver, or merged away; and
`elv_drain_elevator` returns after exactly `|nd->queue| + 1` calls of `look_dispatch`; and a
request that the next step merges away was queued, and its bios end a request still queued
after that step. -/
theorem elv_requests_conserved {s : ElvState} (h : ElvReachable s) :
    s.q.nrSorted = s.q.look.queue.length ∧ (∀ rq ∈ s.q.look.queue, rq.bios ≠ []) ∧
      (∀ i ∈ s.sorted, s.Place i) ∧
      (∃ s', Drains s (s.q.look.queue.length + 1) s') ∧
      (∀ n s', Drains s n s' → n = s.q.look.queue.length + 1) ∧
      ∀ s', ElvStep s s' → ∀ i ∈ s'.merged, i ∉ s.merged →
        ∃ a ∈ s.q.look.queue, a.id = i ∧ ∃ r ∈ s'.q.look.queue, a.bios <:+ r.bios := by
  have hs := Inv.of_reachable h
  exact ⟨hs.queue.nrSorted, hs.queue.bios_ne_nil, fun i hi => hs.place hi,
    hs.drains_exists _ rfl, fun _ _ hd => (hs.drains hd).2.1,
    fun _ hstep _ hi hi' => hs.absorbed hstep hi hi'⟩


/-- Writes of eight sectors at sectors `0`, `16`, `8` and `100`, then a call of `look_dispatch`:
the third bio joins the first request at its back and the second request joins them, and LOOK
then dispatches the grown request.  Each of the three places holds a request. -/
theorem elv_requests_conserved_merged :
    ∃ s, ElvReachable s ∧ s.sorted = [1, 2, 4] ∧ s.merged = [2] ∧ s.picks = [1] ∧
      s.q.nrSorted = s.q.look.queue.length ∧ (∀ rq ∈ s.q.look.queue, rq.bios ≠ []) ∧
      (∀ i ∈ s.sorted, s.Place i) ∧
      (∃ s', Drains s (s.q.look.queue.length + 1) s') ∧
      (∀ n s', Drains s n s' → n = s.q.look.queue.length + 1) ∧
      ∀ s', ElvStep s s' → ∀ i ∈ s'.merged, i ∉ s.merged →
        ∃ a ∈ s.q.look.queue, a.id = i ∧ ∃ r ∈ s'.q.look.queue, a.bios <:+ r.bios := by
  have h₁ : ElvReachable
      (ElvState.init.afterBio (ElvState.init.q.makeRequest ⟨0, 4096⟩ true 1 true true true)) :=
    .single (ElvStep.bio ⟨0, 4096⟩ true 1 true true true ⟨by decide, by decide⟩)
  have h₂ := h₁.tail (ElvStep.bio ⟨16, 4096⟩ true 2 true true true ⟨by decide, by decide⟩)
  have h₃ := h₂.tail (ElvStep.bio ⟨8, 4096⟩ true 3 true true true ⟨by decide, by decide⟩)
  have h₄ := h₃.tail (ElvStep.bio ⟨100, 4096⟩ true 4 true true true ⟨by decide, by decide⟩)
  have h₅ := h₄.tail (ElvStep.dispatch 0 rfl)
  exact ⟨_, h₅, rfl, rfl, rfl, elv_requests_conserved h₅⟩

end SlobLook.Block
