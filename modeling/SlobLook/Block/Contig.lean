import SlobLook.Block.Driver
import SlobLook.Lib.Cover

/-!
# A request covers its bios back to back

`__make_request` joins a bio to a request only at the request's end (`ELEVATOR_BACK_MERGE`,
the request ends where the bio starts) or at its start (`ELEVATOR_FRONT_MERGE`, the bio ends
where the request starts), and `attempt_merge` joins two requests only when the first ends where
the second starts.  So a request stands for one run of sectors: its bios lie back to back from
`blk_rq_pos(rq)` to `rq_end_sector(rq)` (`Request.Contiguous`), in LOOK's queue, in the dispatch
queue and at the driver, in every state a run reaches (`elv_requests_contiguous`).

A request counts its length in bytes and its end in sectors, `__data_len >> 9`; the two agree
with the bios' sectors when the bios are whole sectors (`Request.WholeSectors`), as filesystem
bios are, and the statement is made for such requests.
-/

namespace SlobLook.Block

open Request Tiling

namespace Request

/-- Every bio of `rq` is a whole number of 512-byte sectors. -/
def WholeSectors (rq : Request) : Prop := ∀ b ∈ rq.bios, b.size % 512 = 0

/-- When they are whole sectors, the bios of `rq` lie back to back from `blk_rq_pos(rq)` to
`rq_end_sector(rq)`. -/
def Contiguous (rq : Request) : Prop :=
  rq.WholeSectors → Abut Bio.sector bioSectors rq.blkRqPos rq.bios rq.rqEndSector

/-- Adding a whole number of sectors of bytes adds as many sectors. -/
theorem shiftRight_add_whole (a : ℕ) {b : ℕ} (hb : b % 512 = 0) :
    (a + b) >>> 9 = a >>> 9 + b >>> 9 := by
  simp only [Nat.shiftRight_eq_div_pow, show (2 : ℕ) ^ 9 = 512 by norm_num]
  omega

/-- A well-formed request of whole sectors is itself a whole number of sectors. -/
theorem WellFormed.dataLen_whole {rq : Request} (hwf : rq.WellFormed) (hw : rq.WholeSectors) :
    rq.dataLen % 512 = 0 := by
  rw [hwf.dataLen_eq]
  refine Nat.mod_eq_zero_of_dvd (List.dvd_sum fun x hx => ?_)
  obtain ⟨b, hb, rfl⟩ := List.mem_map.1 hx
  exact Nat.dvd_of_mod_eq_zero (hw b hb)

theorem contiguous_ofBio (id : ℕ) (bio : Bio) (write : Bool) : (ofBio id bio write).Contiguous :=
  fun _ => by simp [ofBio, blkRqPos, rqEndSector, blkRqSectors, blkRqBytes, bioSectors]

/-- A back merge: the bio appended to a request that ends where it starts. -/
theorem Contiguous.append_bio {rq : Request} (h : rq.Contiguous) {bio : Bio}
    (hend : rq.rqEndSector = bio.sector) :
    ({ rq with bios := rq.bios ++ [bio], dataLen := rq.dataLen + bio.size } : Request).Contiguous := by
  intro hw
  have hrq : rq.WholeSectors := fun b hb => hw b (List.mem_append_left _ hb)
  have hbio : bio.size % 512 = 0 := hw bio (by simp)
  refine abut_append.2 ⟨rq.rqEndSector, h hrq, ?_⟩
  simp only [abut_cons, abut_nil]
  refine ⟨hend.symm, ?_⟩
  simp only [rqEndSector, blkRqPos, blkRqSectors, blkRqBytes, bioSectors] at hend ⊢
  rw [shiftRight_add_whole _ hbio, Nat.add_assoc]

/-- A front merge of a whole-sector bio keeps the request's end, the key of the merge hash. -/
theorem rqEndSector_cons_bio {rq : Request} {bio : Bio} (hbio : bio.size % 512 = 0)
    (hstart : bio.sector + bioSectors bio = rq.blkRqPos) :
    ({ rq with bios := bio :: rq.bios, sector := bio.sector,
               dataLen := rq.dataLen + bio.size } : Request).rqEndSector = rq.rqEndSector := by
  simp only [rqEndSector, blkRqPos, blkRqSectors, blkRqBytes, bioSectors] at hstart ⊢
  rw [shiftRight_add_whole _ hbio]
  omega

/-- A front merge: the bio put in front of a request that starts where it ends. -/
theorem Contiguous.cons_bio {rq : Request} (h : rq.Contiguous) {bio : Bio}
    (hstart : bio.sector + bioSectors bio = rq.blkRqPos) :
    ({ rq with bios := bio :: rq.bios, sector := bio.sector,
               dataLen := rq.dataLen + bio.size } : Request).Contiguous := by
  intro hw
  have hrq : rq.WholeSectors := fun b hb => hw b (List.mem_cons_of_mem _ hb)
  have hbio : bio.size % 512 = 0 := hw bio (by simp)
  simp only [abut_cons]
  refine ⟨rfl, ?_⟩
  have hend : bio.sector + (rq.dataLen + bio.size) >>> 9 = rq.rqEndSector :=
    rqEndSector_cons_bio hbio hstart
  simpa only [blkRqPos, rqEndSector, blkRqSectors, blkRqBytes, hstart, hend] using h hrq

/-- `attempt_merge`: a request followed by one that starts where it ends. -/
theorem Contiguous.append {req next : Request} (h : req.Contiguous) (hn : next.Contiguous)
    (hwfn : next.WellFormed) (hadj : req.blkRqPos + req.blkRqSectors = next.blkRqPos) :
    ({ req with bios := req.bios ++ next.bios,
                dataLen := req.dataLen + next.blkRqBytes } : Request).Contiguous := by
  intro hw
  have hreq : req.WholeSectors := fun b hb => hw b (List.mem_append_left _ hb)
  have hnext : next.WholeSectors := fun b hb => hw b (List.mem_append_right _ hb)
  refine abut_append.2 ⟨req.rqEndSector, h hreq, ?_⟩
  have hend : req.rqEndSector = next.blkRqPos := hadj
  rw [hend]
  convert hn hnext using 1
  simp only [rqEndSector, blkRqPos, blkRqSectors, blkRqBytes] at hadj ⊢
  rw [shiftRight_add_whole _ (hwfn.dataLen_whole hnext)]
  omega

/-- The bio appended to a well-formed request keeps it well formed. -/
theorem WellFormed.append_bio {rq : Request} (hwf : rq.WellFormed) (bio : Bio) :
    ({ rq with bios := rq.bios ++ [bio], dataLen := rq.dataLen + bio.size } : Request).WellFormed := by
  obtain ⟨b, bs, hb⟩ := List.exists_cons_of_ne_nil hwf.bios_ne_nil
  exact ⟨by simp, by simpa [hb] using hwf.sector_eq, by simp [hwf.dataLen_eq]⟩

/-- The bio put in front of a well-formed request keeps it well formed. -/
theorem WellFormed.cons_bio {rq : Request} (hwf : rq.WellFormed) (bio : Bio) :
    ({ rq with bios := bio :: rq.bios, sector := bio.sector,
               dataLen := rq.dataLen + bio.size } : Request).WellFormed :=
  ⟨by simp, by simp, by simp [hwf.dataLen_eq, Nat.add_comm]⟩

end Request

/-! ## Where the elevator merges -/

/-- `elv_try_merge` proposes a back merge only into a request that ends where the bio starts. -/
theorem elvTryMerge_back {rq : Request} {bio : Bio} {write : Bool}
    (h : elvTryMerge rq bio write = .backMerge) : rq.rqEndSector = bio.sector := by
  unfold elvTryMerge at h
  split_ifs at h with _ hback
  exact hback

/-- `elv_try_merge` proposes a front merge only into a request that starts where the bio ends. -/
theorem elvTryMerge_front {rq : Request} {bio : Bio} {write : Bool}
    (h : elvTryMerge rq bio write = .frontMerge) : bio.sector + bioSectors bio = rq.blkRqPos := by
  unfold elvTryMerge at h
  split_ifs at h with _ _ hfront
  exact hfront

namespace RequestQueue

variable {q : RequestQueue} {bio : Bio} {write : Bool} {req : Request}

/-- The hash proposes only back merges, into a request that ends where the bio starts. -/
theorem elvMergeHash_some {q' : RequestQueue} {m : ElvMerge}
    (h : q.elvMergeHash bio write = (q', m, some req)) :
    m = .backMerge ∧ req.rqEndSector = bio.sector := by
  unfold elvMergeHash at h
  split at h
  · rename_i q₁ rq hrq
    split_ifs at h
    · simp only [Prod.mk.injEq, Option.some.injEq] at h
      obtain ⟨-, rfl, rfl⟩ := h
      simp only [elvRqhashFind, Prod.mk.injEq] at hrq
      obtain ⟨e, -, -, -, -, hend⟩ := rqhashWalk_some _ _ hrq.2
      exact ⟨rfl, hend⟩
    · simp at h
  · simp at h

/-- A back merge that `elv_merge` proposes is into a request that ends where the bio starts. -/
theorem elvMerge_back {q' : RequestQueue} (h : q.elvMerge bio write = (q', .backMerge, some req)) :
    req.rqEndSector = bio.sector := by
  unfold elvMerge at h
  split at h
  · split at h
    · exact (elvMergeHash_some h).2
    · simp only [Prod.mk.injEq, Option.some.injEq] at h
      obtain ⟨-, hm, rfl⟩ := h
      exact elvTryMerge_back hm
  · exact (elvMergeHash_some h).2

/-- A front merge that `elv_merge` proposes is into a request that starts where the bio
ends. -/
theorem elvMerge_front {q' : RequestQueue}
    (h : q.elvMerge bio write = (q', .frontMerge, some req)) :
    bio.sector + bioSectors bio = req.blkRqPos := by
  unfold elvMerge at h
  split at h
  · split at h
    · cases (elvMergeHash_some h).1
    · simp only [Prod.mk.injEq, Option.some.injEq] at h
      obtain ⟨-, hm, rfl⟩ := h
      exact elvTryMerge_front hm
  · cases (elvMergeHash_some h).1

/-! ## LOOK's queue -/

/-- Every request in LOOK's queue is contiguous. -/
def QContig (q : RequestQueue) : Prop := ∀ rq ∈ q.look.queue, rq.Contiguous

namespace QContig

variable {q : RequestQueue}

theorem updateRq (h : q.QContig) {rq : Request} (hrq : rq.Contiguous) : (q.updateRq rq).QContig :=
  fun r hr => (mem_updateRq hr).elim (fun he => he ▸ hrq) (h r)

theorem congr_look (h : q.QContig) {q' : RequestQueue} (hl : q'.look = q.look) : q'.QContig :=
  fun r hr => h r (hl ▸ hr)

/-- `REQ_NOMERGE` on a queued request changes none of its bios. -/
theorem refuseMerge (h : q.QContig) {req : Request} (hreq : req ∈ q.look.queue) :
    (q.refuseMerge req).QContig := by
  unfold QContig
  rw [refuseMerge_look]
  exact h.updateRq (h req hreq)

theorem elvMergedRequest (h : q.QContig) (rq : Request) (type : ElvMerge) :
    (q.elvMergedRequest rq type).QContig := by
  unfold QContig
  rw [elvMergedRequest_look]
  exact h

theorem elvMergeRequests (h : q.QContig) (rq next : Request) :
    (q.elvMergeRequests rq next).QContig :=
  fun r hr => h r (List.mem_of_mem_erase (by simpa using hr))

theorem getRq (h : q.QContig) (bio : Bio) (write : Bool) (id : ℕ) :
    (q.getRq bio write id).1.QContig := by
  intro r hr
  simp only [RequestQueue.getRq, elvInsertSort_queue, List.mem_append, List.mem_singleton] at hr
  rcases hr with hr | rfl
  · exact h r hr
  · exact contiguous_ofBio id bio write

/-- `attempt_merge` of two contiguous requests, the second well formed. -/
theorem attemptMerge (h : q.QContig) {req next : Request} (hreq : req.Contiguous)
    (hnext : next.Contiguous) (hwfn : next.WellFormed) (llMerge : Bool) :
    (q.attemptMerge req next llMerge).1.QContig := by
  rcases attemptMerge_cases q req next llMerge with hm | ⟨hadj, hm⟩
  · rw [hm]
    exact h
  · rw [hm]
    exact (h.updateRq (hreq.append hnext hwfn hadj)).elvMergeRequests _ _

/-- The back-merge path of `__make_request`, into a queued request that ends where the bio
starts. -/
theorem bioBackMerge (h : q.QContig) (hq : q.QInv) {req : Request} (hreq : req ∈ q.look.queue)
    {bio : Bio} (hend : req.rqEndSector = bio.sector) (llMerge : Bool) :
    (q.bioBackMerge req bio llMerge).1.QContig := by
  set req' : Request :=
    { req with bios := req.bios ++ [bio], dataLen := req.dataLen + bio.size } with hreq'
  have hc : req'.Contiguous := (h req hreq).append_bio hend
  have h1 := h.updateRq hc
  unfold RequestQueue.bioBackMerge
  rw [← hreq']
  -- the grown request is merged with the one after it, or only re-hashed
  cases hnext : (q.updateRq req').lookLatterRequest req' with
  | none =>
    simp only [hnext]
    exact h1.elvMergedRequest _ _
  | some next =>
    simp only [hnext]
    obtain ⟨hnmem, hne⟩ :=
      lookLatterRequest_spec (updateRq_nodup hq.ids_nodup) hnext
    have hnq : next ∈ q.look.queue :=
      (mem_updateRq hnmem).resolve_left fun he => hne (by rw [he])
    have hm := h1.attemptMerge hc (h1 next hnmem) (hq.wellFormed next hnq) llMerge
    split
    · exact hm
    · exact hm.elvMergedRequest _ _

/-- The front-merge path of `__make_request`, into a queued request that starts where the bio
ends. -/
theorem bioFrontMerge (h : q.QContig) (hq : q.QInv) {req : Request} (hreq : req ∈ q.look.queue)
    {bio : Bio} (hstart : bio.sector + bioSectors bio = req.blkRqPos) (llMerge : Bool) :
    (q.bioFrontMerge req bio llMerge).1.QContig := by
  set req' : Request := { req with bios := bio :: req.bios, sector := bio.sector,
                                   dataLen := req.dataLen + bio.size } with hreq'
  have hc : req'.Contiguous := (h req hreq).cons_bio hstart
  have h1 := h.updateRq hc
  have hmem : req' ∈ (q.updateRq req').look.queue := mem_updateRq_self hreq rfl
  unfold RequestQueue.bioFrontMerge
  rw [← hreq']
  -- the grown request is absorbed by the one before it, or only re-marked
  cases hprev : (q.updateRq req').lookFormerRequest req' with
  | none =>
    simp only [hprev]
    exact h1.elvMergedRequest _ _
  | some prev =>
    simp only [hprev]
    obtain ⟨hpmem, -⟩ :=
      lookFormerRequest_spec (updateRq_nodup hq.ids_nodup) hmem hprev
    have hm := h1.attemptMerge (h1 prev hpmem) hc ((hq.wellFormed req hreq).cons_bio bio) llMerge
    split
    · exact hm
    · exact hm.elvMergedRequest _ _

/-- **`__make_request`** keeps every request of LOOK's queue contiguous: it merges only where
the request and the bio meet. -/
theorem makeRequest (h : q.QContig) (hq : q.QInv) (bio : Bio) (write : Bool) (id : ℕ)
    (llBack llFront llMerge : Bool) :
    (q.makeRequest bio write id llBack llFront llMerge).1.QContig := by
  rcases makeRequest_cases q bio write id llBack llFront llMerge with
    he | ⟨q', m, r, hm, he⟩ | ⟨q', m, req, hm, he⟩ | ⟨q', req, hm, he⟩ | ⟨q', req, hm, he⟩ <;>
    rw [he]
  · exact h.getRq bio write id
  · exact (h.congr_look (hq.elvMerge_eq hm).2.1).getRq bio write id
  · -- `elv_merge` leaves LOOK's queue as it was
    exact ((h.congr_look (hq.elvMerge_eq hm).2.1).refuseMerge (hq.elvMerge_mem hm)).getRq bio
      write id
  · obtain ⟨hq', hl, -⟩ := hq.elvMerge_eq hm
    exact (h.congr_look hl).bioBackMerge hq' (hq.elvMerge_mem hm) (elvMerge_back hm) llMerge
  · obtain ⟨hq', hl, -⟩ := hq.elvMerge_eq hm
    exact (h.congr_look hl).bioFrontMerge hq' (hq.elvMerge_mem hm) (elvMerge_front hm) llMerge

end QContig

end RequestQueue

/-! ## Runs -/

namespace ElvState

/-- Every sorted request the queue holds, in LOOK's queue, in the dispatch queue or at the
driver, is contiguous. -/
def Contig (s : ElvState) : Prop :=
  s.q.QContig ∧ ∀ rq ∈ s.q.queueHead ++ s.fetched, rq.sorted = true → rq.Contiguous

namespace Contig

variable {s s' : ElvState}

theorem init : ElvState.init.Contig :=
  ⟨fun _ h => by simp [ElvState.init, RequestQueue.init, lookInitQueue] at h,
    fun _ h => by simp [ElvState.init, RequestQueue.init] at h⟩

/-- `look_dispatch` moves LOOK's choice, contiguous, to the dispatch queue. -/
theorem dispatch {force v : ℤ} (h : s.Contig) (hs : s.Inv) (hd : s.dispatch force = some (s', v)) :
    s'.Contig := by
  by_cases hq : s.q.look.queue = []
  · simp only [ElvState.dispatch, lookDispatch_of_nil force hq, Option.map_some, if_true,
      Option.some.injEq, Prod.mk.injEq] at hd
    obtain ⟨rfl, rfl⟩ := hd
    exact h
  · obtain ⟨r, q', -, hrmem, heq, -, hqueue, hhead⟩ := hs.queue.lookDispatch force hq
    simp only [ElvState.dispatch, heq, Option.map_some, Option.some.injEq, Prod.mk.injEq] at hd
    obtain ⟨rfl, rfl⟩ := hd
    refine ⟨fun r' hr' => h.1 r' (List.mem_of_mem_erase (hqueue ▸ hr')), fun r' hr' hsorted => ?_⟩
    rcases List.mem_append.1 hr' with hr' | hr'
    · rcases List.mem_cons.1 (hhead.mem_iff.1 hr') with rfl | hr'
      · exact h.1 _ hrmem
      · exact h.2 r' (List.mem_append_left _ hr') hsorted
    · exact h.2 r' (List.mem_append_right _ hr') hsorted

/-- `__make_request` changes LOOK's queue only, keeping it contiguous. -/
theorem afterBio (h : s.Contig) (hs : s.Inv) {bio : Bio} {write : Bool} {id : ℕ}
    {llBack llFront llMerge : Bool} (hid : s.Fresh id) :
    (s.afterBio (s.q.makeRequest bio write id llBack llFront llMerge)).Contig := by
  obtain ⟨-, hhead, -⟩ :=
    hs.queue.makeRequest bio write (hs.not_mem_queueIds hid) llBack llFront llMerge
  refine ⟨?_, ?_⟩
  · rw [afterBio_q]
    exact h.1.makeRequest hs.queue bio write id llBack llFront llMerge
  · rw [afterBio_q, afterBio_fetched, hhead]
    exact h.2

/-- An unsorted request at the back of the dispatch queue. -/
theorem addTail (h : s.Contig) {rq : Request} (hr : rq.sorted = false) : (s.addTail rq).Contig := by
  refine ⟨h.1, fun r hr' hsorted => ?_⟩
  rw [addTail_queueHead, addTail_fetched, List.append_assoc, List.mem_append, List.singleton_append,
    List.mem_cons] at hr'
  rcases hr' with hr' | rfl | hr'
  · exact h.2 r (List.mem_append_left _ hr') hsorted
  · rw [hr] at hsorted
    cases hsorted
  · exact h.2 r (List.mem_append_right _ hr') hsorted

/-- The driver taking the head of the dispatch queue. -/
theorem startHead (h : s.Contig) {rq : Request} {rest : List Request}
    (hq : s.q.queueHead = rq :: rest) : (s.startHead rq).Contig := by
  refine ⟨h.1, fun r hr hsorted => ?_⟩
  simp only [ElvState.startHead, hq, List.tail_cons, List.mem_append, List.mem_singleton] at hr
  rcases hr with hr | hr | rfl
  · exact h.2 r (by simp [hq, hr]) hsorted
  · exact h.2 r (List.mem_append_right _ hr) hsorted
  · -- the started request has the bios, position and length it had
    exact h.2 rq (by simp [hq]) hsorted

end Contig

/-- **Step lemma**: every step keeps the requests contiguous. -/
theorem Contig.step {s s' : ElvState} (h : s.Contig) (hs : s.Inv) (hstep : ElvStep s s') :
    s'.Contig := by
  cases hstep with
  | bio bio write id llBack llFront llMerge hid => exact h.afterBio hs hid
  | dispatch force hd => exact h.dispatch hs hd
  | drain hd => exact hd.preserves Contig.dispatch h hs
  | insertBack rq _ hr hd =>
    exact (hd.preserves Contig.dispatch h hs).addTail
      (show ({ rq with barrier := true } : Request).sorted = false from hr)
  | fetch hn =>
    obtain ⟨-, hhead⟩ := hs.nextRequest hn
    obtain ⟨rest, hq⟩ := hhead _ rfl
    exact (hn.preserves Contig.dispatch h hs).startHead hq

/-- **Run lemma**. -/
theorem Contig.of_reachable {s : ElvState} (h : ElvReachable s) : s.Contig := by
  induction h with
  | refl => exact Contig.init
  | tail h₁ hstep ih => exact ih.step (Inv.of_reachable h₁) hstep

end ElvState

open ElvState

/-- **A request covers its bios back to back.**  In every state a run of bios, dispatches,
drains, back insertions and driver fetches reaches, every request queued sorted, in LOOK's
queue, in the dispatch queue or at the driver, whose bios are whole sectors, stands for one run
of sectors: its first bio starts at `blk_rq_pos(rq)`, each next bio starts where the one
before ends, and the last ends at `blk_rq_pos(rq) + blk_rq_sectors(rq)`, so
`blk_rq_sectors(rq)` is the sum of the bios' sectors. -/
theorem elv_requests_contiguous {s : ElvState} (h : ElvReachable s) :
    ∀ rq ∈ s.q.look.queue ++ s.q.queueHead ++ s.fetched, rq.sorted = true →
      (∀ b ∈ rq.bios, b.size % 512 = 0) →
      Abut Bio.sector bioSectors rq.blkRqPos rq.bios (rq.blkRqPos + rq.blkRqSectors) ∧
        rq.blkRqSectors = (rq.bios.map bioSectors).sum := by
  have hc := Contig.of_reachable h
  intro rq hrq hsorted hwhole
  have habut : Abut Bio.sector bioSectors rq.blkRqPos rq.bios rq.rqEndSector := by
    rw [List.append_assoc, List.mem_append] at hrq
    rcases hrq with hrq | hrq
    · exact hc.1 rq hrq hwhole
    · exact hc.2 rq hrq hsorted hwhole
  refine ⟨habut, ?_⟩
  have hend := habut.end_eq
  simp only [rqEndSector] at hend
  omega

/-- After the back merge of a bio of eight sectors at sector `8` into the request of the one at
`0`, LOOK's queue holds one request of the two bios, back to back over sectors `[0, 16)`. -/
theorem elv_requests_contiguous_merged :
    ∃ rq ∈ backMergedState.q.look.queue, rq.bios = [⟨0, 4096⟩, ⟨8, 4096⟩] ∧
      Abut Bio.sector bioSectors rq.blkRqPos rq.bios (rq.blkRqPos + rq.blkRqSectors) ∧
      rq.blkRqSectors = (rq.bios.map bioSectors).sum := by
  -- the queue the two bios leave, by evaluation
  have hq : backMergedState.q.look.queue =
      [⟨1, 0, 8192, [⟨0, 4096⟩, ⟨8, 4096⟩], true, false, true, true, false, false⟩] := rfl
  have hmem : (⟨1, 0, 8192, [⟨0, 4096⟩, ⟨8, 4096⟩], true, false, true, true, false, false⟩ :
      Request) ∈ backMergedState.q.look.queue ++ backMergedState.q.queueHead ++
        backMergedState.fetched := by simp [hq]
  exact ⟨_, by simp [hq], rfl,
    elv_requests_contiguous backMergedState_reachable _ hmem rfl (by decide)⟩

end SlobLook.Block
