import SlobLook.Block.Run
import SlobLook.Lib.Enum

/-!
# No bio is lost or duplicated

The bios a run brings into the queue, through `__make_request` and with the requests inserted at
the back, are at every moment the bios of the requests the queue holds: in LOOK's queue, in the
dispatch queue, or handed to the driver.  `__make_request` puts its bio into exactly one request;
`attempt_merge` appends `next`'s bios to `req`'s and drops `next`; a dispatch and a fetch move
whole requests.

`ElvRun s bs` is `ElvReachable s` with the bios `bs` that entered on the way
(`ElvRun.reachable`).
-/

namespace SlobLook.Block

open Request

/-- The bios of the requests `l`, counted with multiplicity. -/
def biosOf (l : List Request) : Multiset Bio := (l.flatMap Request.bios : List Bio)

section BiosOf

@[simp] theorem biosOf_nil : biosOf [] = 0 := rfl

@[simp] theorem biosOf_cons (r : Request) (l : List Request) :
    biosOf (r :: l) = (r.bios : Multiset Bio) + biosOf l := by
  simp [biosOf]

@[simp] theorem biosOf_append (l l' : List Request) :
    biosOf (l ++ l') = biosOf l + biosOf l' := by
  simp [biosOf]

theorem biosOf_perm {l l' : List Request} (h : l.Perm l') : biosOf l = biosOf l' :=
  Multiset.coe_eq_coe.2 (h.flatMap_right _)

/-- Taking a request out of a list takes out its bios. -/
theorem biosOf_erase {l : List Request} {r : Request} (h : r ∈ l) :
    biosOf (l.erase r) + r.bios = biosOf l := by
  rw [biosOf_perm (List.perm_cons_erase h), biosOf_cons, add_comm]

end BiosOf

/-! ## LOOK's queue -/

namespace RequestQueue

variable {q : RequestQueue}

/-- Changing a queued request in place trades its bios for the new ones. -/
theorem biosOf_updateRq (hnd : (q.look.queue.map Request.id).Nodup) {r rq : Request}
    (hr : r ∈ q.look.queue) (hid : r.id = rq.id) :
    biosOf (q.updateRq rq).look.queue + r.bios = biosOf q.look.queue + rq.bios := by
  have hp : (q.updateRq rq).look.queue.Perm (rq :: q.look.queue.erase r) :=
    Enum.perm_map_replace Request.id hnd hr hid
  rw [biosOf_perm hp, biosOf_cons, ← biosOf_erase hr]
  abel

/-- `elv_merge_requests` drops `next` with its bios. -/
theorem biosOf_elvMergeRequests {rq next : Request} (h : next ∈ q.look.queue) :
    biosOf (q.elvMergeRequests rq next).look.queue + next.bios = biosOf q.look.queue := by
  rw [elvMergeRequests_queue, biosOf_erase h]

/-- `attempt_merge` of two queued requests keeps the bios of LOOK's queue: those of `next` move
to `req`. -/
theorem biosOf_attemptMerge (hnd : (q.look.queue.map Request.id).Nodup) {req next : Request}
    (hreq : req ∈ q.look.queue) (hnext : next ∈ q.look.queue) (hne : next.id ≠ req.id)
    (llMerge : Bool) :
    biosOf (q.attemptMerge req next llMerge).1.look.queue = biosOf q.look.queue := by
  rcases attemptMerge_cases q req next llMerge with hm | ⟨-, hm⟩ <;> rw [hm]
  set req' : Request :=
    { req with bios := req.bios ++ next.bios, dataLen := req.dataLen + next.blkRqBytes }
  have h₁ : biosOf (q.updateRq req').look.queue + req.bios = biosOf q.look.queue + req'.bios :=
    biosOf_updateRq hnd hreq rfl
  have h₂ : biosOf ((q.updateRq req').elvMergeRequests req' next).look.queue + next.bios =
      biosOf (q.updateRq req').look.queue :=
    biosOf_elvMergeRequests (mem_updateRq_of_ne hnext hne)
  rw [← h₂, show (req'.bios : Multiset Bio) = req.bios + next.bios by simp [req']] at h₁
  apply add_right_cancel (b := (next.bios : Multiset Bio))
  apply add_right_cancel (b := (req.bios : Multiset Bio))
  rw [h₁]
  abel

/-- `REQ_NOMERGE` on a queued request leaves the bios of LOOK's queue as they were. -/
theorem biosOf_refuseMerge (hnd : (q.look.queue.map Request.id).Nodup) {req : Request}
    (hreq : req ∈ q.look.queue) : biosOf (q.refuseMerge req).look.queue = biosOf q.look.queue := by
  apply add_right_cancel (b := (req.bios : Multiset Bio))
  rw [refuseMerge_look]
  exact biosOf_updateRq hnd hreq rfl

/-- The `get_rq` path queues a new request holding the bio. -/
theorem biosOf_getRq (bio : Bio) (write : Bool) (id : ℕ) :
    biosOf (q.getRq bio write id).1.look.queue = biosOf q.look.queue + {bio} := by
  simp [RequestQueue.getRq, ofBio]

/-- The back-merge path of `__make_request` adds the bio to LOOK's queue once, whether or not
`attempt_back_merge` then merges the grown request with the one after it. -/
theorem biosOf_bioBackMerge (hq : q.QInv) {req : Request} (hreq : req ∈ q.look.queue) (bio : Bio)
    (llMerge : Bool) :
    biosOf (q.bioBackMerge req bio llMerge).1.look.queue = biosOf q.look.queue + {bio} := by
  set req' : Request :=
    { req with bios := req.bios ++ [bio], dataLen := req.dataLen + bio.size } with hreq'
  have h₁ : biosOf (q.updateRq req').look.queue + req.bios = biosOf q.look.queue + req'.bios :=
    biosOf_updateRq hq.ids_nodup hreq rfl
  have hgrown : biosOf (q.updateRq req').look.queue = biosOf q.look.queue + {bio} := by
    apply add_right_cancel (b := (req.bios : Multiset Bio))
    rw [h₁, hreq', ← Multiset.coe_add, Multiset.coe_singleton]
    abel
  have hnd : ((q.updateRq req').look.queue.map Request.id).Nodup := updateRq_nodup hq.ids_nodup
  unfold RequestQueue.bioBackMerge
  rw [← hreq']
  cases hnext : (q.updateRq req').lookLatterRequest req' with
  | none =>
    simpa [hnext] using hgrown
  | some next =>
    obtain ⟨hnmem, hne⟩ := lookLatterRequest_spec hnd hnext
    have hm := biosOf_attemptMerge hnd (mem_updateRq_self hreq rfl) hnmem hne llMerge
    simp only [hnext]
    split <;> simpa [hm] using hgrown

/-- The front-merge path of `__make_request` adds the bio to LOOK's queue once, whether or not
`attempt_front_merge` then merges the grown request into the one before it. -/
theorem biosOf_bioFrontMerge (hq : q.QInv) {req : Request} (hreq : req ∈ q.look.queue) (bio : Bio)
    (llMerge : Bool) :
    biosOf (q.bioFrontMerge req bio llMerge).1.look.queue = biosOf q.look.queue + {bio} := by
  set req' : Request := { req with bios := bio :: req.bios, sector := bio.sector,
                                   dataLen := req.dataLen + bio.size } with hreq'
  have h₁ : biosOf (q.updateRq req').look.queue + req.bios = biosOf q.look.queue + req'.bios :=
    biosOf_updateRq hq.ids_nodup hreq rfl
  have hgrown : biosOf (q.updateRq req').look.queue = biosOf q.look.queue + {bio} := by
    apply add_right_cancel (b := (req.bios : Multiset Bio))
    rw [h₁, hreq', ← Multiset.cons_coe, ← Multiset.singleton_add]
    abel
  have hnd : ((q.updateRq req').look.queue.map Request.id).Nodup := updateRq_nodup hq.ids_nodup
  have hmem : req' ∈ (q.updateRq req').look.queue := mem_updateRq_self hreq rfl
  unfold RequestQueue.bioFrontMerge
  rw [← hreq']
  cases hprev : (q.updateRq req').lookFormerRequest req' with
  | none =>
    simpa [hprev] using hgrown
  | some prev =>
    obtain ⟨hpmem, hne⟩ := lookFormerRequest_spec hnd hmem hprev
    have hm := biosOf_attemptMerge hnd hpmem hmem (Ne.symm hne) llMerge
    simp only [hprev]
    split <;> simpa [hm] using hgrown

/-- **`__make_request`** puts its bio into LOOK's queue exactly once. -/
theorem biosOf_makeRequest (hq : q.QInv) (bio : Bio) (write : Bool) (id : ℕ)
    (llBack llFront llMerge : Bool) :
    biosOf (q.makeRequest bio write id llBack llFront llMerge).1.look.queue =
      biosOf q.look.queue + {bio} := by
  rcases makeRequest_cases q bio write id llBack llFront llMerge with
    he | ⟨q', m, r, hm, he⟩ | ⟨q', m, req, hm, he⟩ | ⟨q', req, hm, he⟩ | ⟨q', req, hm, he⟩ <;>
    rw [he]
  · exact biosOf_getRq bio write id
  · rw [biosOf_getRq, (hq.elvMerge_eq hm).2.1]
  · -- `elv_merge` leaves LOOK's queue as it was
    obtain ⟨hq', hl, -⟩ := hq.elvMerge_eq hm
    rw [biosOf_getRq, biosOf_refuseMerge hq'.ids_nodup (hq.elvMerge_mem hm), hl]
  · obtain ⟨hq', hl, -⟩ := hq.elvMerge_eq hm
    rw [biosOf_bioBackMerge hq' (hq.elvMerge_mem hm) bio llMerge, hl]
  · obtain ⟨hq', hl, -⟩ := hq.elvMerge_eq hm
    rw [biosOf_bioFrontMerge hq' (hq.elvMerge_mem hm) bio llMerge, hl]

end RequestQueue

/-! ## Runs -/

namespace ElvState

/-- The bios of every request the queue holds: in LOOK's queue, in the dispatch queue, or at
the driver. -/
def bios (s : ElvState) : Multiset Bio := biosOf (s.q.look.queue ++ s.q.queueHead ++ s.fetched)

variable {s s' : ElvState}

/-- `look_dispatch` moves a whole request from LOOK's queue to the dispatch queue. -/
theorem bios_dispatch {force v : ℤ} (hs : s.Inv) (hd : s.dispatch force = some (s', v)) :
    s'.bios = s.bios := by
  by_cases hq : s.q.look.queue = []
  · simp only [ElvState.dispatch, lookDispatch_of_nil force hq, Option.map_some, if_true,
      Option.some.injEq, Prod.mk.injEq] at hd
    obtain ⟨rfl, rfl⟩ := hd
    rfl
  · obtain ⟨r, q', -, hrmem, heq, -, hqueue, hhead⟩ := hs.queue.lookDispatch force hq
    simp only [ElvState.dispatch, heq, Option.map_some, Option.some.injEq, Prod.mk.injEq] at hd
    obtain ⟨rfl, rfl⟩ := hd
    simp only [bios, biosOf_append, hqueue, biosOf_perm hhead, biosOf_cons]
    rw [← biosOf_erase hrmem]
    abel

theorem bios_drains {n : ℕ} (hs : s.Inv) (h : Drains s n s') : s'.bios = s.bios :=
  h.preserves (P := fun t => t.bios = s.bios) (fun hp ht hd => (bios_dispatch ht hd).trans hp)
    rfl hs

theorem bios_nextRequest {r : Option Request} (hs : s.Inv) (h : NextRequest s s' r) :
    s'.bios = s.bios :=
  h.preserves (P := fun t => t.bios = s.bios) (fun hp ht hd => (bios_dispatch ht hd).trans hp)
    rfl hs

/-- The driver takes the head of the dispatch queue with its bios. -/
theorem bios_startHead {rq : Request} {rest : List Request} (hq : s.q.queueHead = rq :: rest) :
    (s.startHead rq).bios = s.bios := by
  simp only [bios, ElvState.startHead, hq, List.tail_cons, biosOf_append, biosOf_cons, biosOf_nil]
  abel

theorem bios_addTail (rq : Request) : (s.addTail rq).bios = s.bios + rq.bios := by
  simp only [bios, ElvState.addTail, biosOf_append, biosOf_cons, biosOf_nil]
  abel

/-- A bio entering `__make_request` joins exactly one request of LOOK's queue. -/
theorem bios_afterBio (hs : s.Inv) {bio : Bio} {write : Bool} {id : ℕ}
    {llBack llFront llMerge : Bool} (hid : s.Fresh id) :
    (s.afterBio (s.q.makeRequest bio write id llBack llFront llMerge)).bios = s.bios + {bio} := by
  have hhead :=
    (hs.queue.makeRequest bio write (hs.not_mem_queueIds hid) llBack llFront llMerge).2.1
  simp only [bios, afterBio_q, afterBio_fetched, biosOf_append, hhead,
    RequestQueue.biosOf_makeRequest hs.queue]
  abel

end ElvState

/-- A run from `elevator_init` to `s` along which the bios `bs` entered the queue, in order: the
bio of each call of `__make_request`, and the bios of each request inserted at the back.  Its
steps are those of `ElvStep`. -/
inductive ElvRun : ElvState → List Bio → Prop
  | init : ElvRun ElvState.init []
  | bio {s : ElvState} {bs : List Bio} (bio : Bio) (write : Bool) (id : ℕ)
      (llBack llFront llMerge : Bool) : ElvRun s bs → s.Fresh id →
      ElvRun (s.afterBio (s.q.makeRequest bio write id llBack llFront llMerge)) (bs ++ [bio])
  | dispatch {s s' : ElvState} {bs : List Bio} {v : ℤ} (force : ℤ) :
      ElvRun s bs → s.dispatch force = some (s', v) → ElvRun s' bs
  | drain {s s' : ElvState} {bs : List Bio} {n : ℕ} : ElvRun s bs → Drains s n s' → ElvRun s' bs
  | insertBack {s s' : ElvState} {bs : List Bio} {n : ℕ} (rq : Request) :
      ElvRun s bs → s.Fresh rq.id → rq.sorted = false → Drains s n s' →
      ElvRun (s'.addTail { rq with barrier := true }) (bs ++ rq.bios)
  | fetch {s s' : ElvState} {bs : List Bio} {rq : Request} :
      ElvRun s bs → NextRequest s s' (some rq) → ElvRun (s'.startHead rq) bs

/-- A run with its bios is a run. -/
theorem ElvRun.reachable {s : ElvState} {bs : List Bio} (h : ElvRun s bs) : ElvReachable s := by
  induction h with
  | init => exact .refl
  | bio bio write id llBack llFront llMerge _ hid ih =>
    exact .tail ih (.bio bio write id llBack llFront llMerge hid)
  | dispatch force _ hd ih => exact .tail ih (.dispatch force hd)
  | drain _ hd ih => exact .tail ih (.drain hd)
  | insertBack rq _ hid hr hd ih => exact .tail ih (.insertBack rq hid hr hd)
  | fetch _ hn ih => exact .tail ih (.fetch hn)

theorem ElvRun.inv {s : ElvState} {bs : List Bio} (h : ElvRun s bs) : s.Inv :=
  ElvState.Inv.of_reachable h.reachable

/-- Along a run, the queue holds exactly the bios that entered it. -/
theorem ElvRun.bios_eq {s : ElvState} {bs : List Bio} (h : ElvRun s bs) : s.bios = bs := by
  induction h with
  | init => rfl
  | bio bio write id llBack llFront llMerge hrun hid ih =>
    rw [ElvState.bios_afterBio hrun.inv hid, ih, ← Multiset.coe_add, Multiset.coe_singleton]
  | dispatch force hrun hd ih => rw [ElvState.bios_dispatch hrun.inv hd, ih]
  | drain hrun hd ih => rw [ElvState.bios_drains hrun.inv hd, ih]
  | insertBack rq hrun _ _ hd ih =>
    rw [ElvState.bios_addTail, ElvState.bios_drains hrun.inv hd, ih, ← Multiset.coe_add]
  | fetch hrun hn ih =>
    have hs := hrun.inv
    obtain ⟨rest, hq⟩ := (hs.nextRequest hn).2 _ rfl
    rw [ElvState.bios_startHead hq, ElvState.bios_nextRequest hs hn, ih]

/-- **No bio is lost or duplicated.**  Along every run of the block layer under LOOK, the bios
of the requests the queue holds (in LOOK's queue, in the dispatch queue, or fetched by the
driver) are, counted with multiplicity, the bios that entered the queue: those of
`__make_request` and those of the requests inserted at the back.  `__make_request` puts its bio
into exactly one request, whether it starts a new one or merges it at the back or the front of
a queued one; `attempt_merge` moves all of `next`'s bios to `req` before LOOK drops `next`; and
dispatches, drains and fetches move whole requests. -/
theorem elv_bios_conserved {s : ElvState} {bs : List Bio} (h : ElvRun s bs) :
    ((s.q.look.queue ++ s.q.queueHead ++ s.fetched).flatMap Request.bios).Perm bs :=
  Multiset.coe_eq_coe.1 h.bios_eq

/-- Writes of eight sectors at sectors `0`, `16`, then `8`: the third bio joins the first request
at its back, and `attempt_back_merge` then takes the second request into it. -/
def bridgedState : ElvState :=
  let s₁ := ElvState.init.afterBio (ElvState.init.q.makeRequest ⟨0, 4096⟩ true 1 true true true)
  let s₂ := s₁.afterBio (s₁.q.makeRequest ⟨16, 4096⟩ true 2 true true true)
  s₂.afterBio (s₂.q.makeRequest ⟨8, 4096⟩ true 3 true true true)

theorem bridgedState_run : ElvRun bridgedState [⟨0, 4096⟩, ⟨16, 4096⟩, ⟨8, 4096⟩] := by
  have h₁ := ElvRun.bio ⟨0, 4096⟩ true 1 true true true .init ⟨by decide, by decide⟩
  have h₂ := ElvRun.bio ⟨16, 4096⟩ true 2 true true true h₁ ⟨by decide, by decide⟩
  exact ElvRun.bio ⟨8, 4096⟩ true 3 true true true h₂ ⟨by decide, by decide⟩

/-- After the bridging write, LOOK's queue holds one request with the three bios in sector
order, and the queue holds the three bios that entered it. -/
theorem elv_bios_conserved_bridged :
    ∃ r, bridgedState.q.look.queue = [r] ∧ r.bios = [⟨0, 4096⟩, ⟨8, 4096⟩, ⟨16, 4096⟩] ∧
      ((bridgedState.q.look.queue ++ bridgedState.q.queueHead ++ bridgedState.fetched).flatMap
        Request.bios).Perm [⟨0, 4096⟩, ⟨16, 4096⟩, ⟨8, 4096⟩] :=
  ⟨_, rfl, rfl, elv_bios_conserved bridgedState_run⟩

end SlobLook.Block
