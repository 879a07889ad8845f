import SlobLook.Block.Contig

/-!
# What the merge lookups find

`__make_request` finds the requests a bio or a request may merge with in three ways: the
elevator's merge hash, keyed by `rq_hash_key(rq) = blk_rq_pos(rq) + blk_rq_sectors(rq)`, which
`elv_merge` searches for a back merge; and LOOK's neighbours `look_latter_request` and
`look_former_request`, which `attempt_back_merge` and `attempt_front_merge` ask for the request
to join.

`elv_insert` hashes every mergeable request it sorts in, a back merge and `elv_merge_requests`
rehash the grown request, and `elv_dispatch_sort` and `elv_merge_requests` take out the request
that leaves LOOK's queue.  A merge the queue's limits refuse marks the request `REQ_NOMERGE`,
and its entry stays in the hash until a walk of `elv_rqhash_find` over its bucket takes it off.
A front merge does not rehash: the request keeps its key only when the bio is a whole number of
sectors.  So the hash is no longer LOOK's queue, but `Hashed` holds between entry points: every
mergeable request of LOOK's queue is hashed (`HashesMergeable`), and the entry of a request of
whole-sector bios hangs in the bucket of its key (`Buckets`).  With `QInv`, which keeps the hash
inside LOOK's queue and free of repeats, it says what `elv_rqhash_find` does in every state a run
reaches (`elv_rqhash_lookup`): it returns a mergeable queued request with the key asked for,
takes off only entries, in the bucket it walks, of requests that are no longer mergeable, and
finds a request whenever a mergeable one of whole-sector bios with that key is queued.

LOOK's queue never holds a request twice, so its two neighbour functions are inverse
(`look_latter_former_inverse`).
-/

namespace SlobLook.Block

open Request

namespace RequestQueue

/-- Two requests of a queue whose ids do not repeat, the second taken from the queue without
the first, have different ids. -/
theorem id_ne_of_mem_erase {l : List Request} (hnd : (l.map Request.id).Nodup) {r x : Request}
    (hx : x ∈ l) (hr : r ∈ l.erase x) : r.id ≠ x.id := by
  have hpw : l.Pairwise fun a b => a.id ≠ b.id := List.pairwise_map.1 hnd
  rcases hpw.rel_or_rel_of_mem_erase hx hr with h | h
  · exact Ne.symm h
  · exact h

theorem QInv.findRq_of_mem {q : RequestQueue} (hq : q.QInv) {r : Request}
    (hr : r ∈ q.look.queue) : q.findRq r.id = some r := by
  obtain ⟨r', hr'⟩ : ∃ r', q.findRq r.id = some r' :=
    Option.isSome_iff_exists.1 (List.find?_isSome.2 ⟨r, List.mem_append_left _ hr, by simp⟩)
  obtain ⟨hmem, hid⟩ := findRq_mem (mem_queueIds.2 ⟨r, hr, rfl⟩) hr'
  rw [hr', List.inj_on_of_nodup_map hq.ids_nodup hmem hr hid]

/-! ## The walk of `elv_rqhash_find` -/

section Walk

variable {q : RequestQueue} {offset : ℕ}

/-- The walk drops no entry of a mergeable request. -/
theorem not_rqhashDrops {e : ℕ × ℕ} {rq : Request} (hf : q.findRq e.2 = some rq)
    (hm : rq.mergeable = true) : ¬ q.RqhashDrops offset e := by
  rintro ⟨-, rq', hf', hm'⟩
  rw [hf, Option.some.injEq] at hf'
  subst hf'
  simp [hm] at hm'

theorem RqhashStops.not_drops {e : ℕ × ℕ} {rq : Request} (hs : q.RqhashStops offset e rq) :
    ¬ q.RqhashDrops offset e :=
  not_rqhashDrops hs.2.1 hs.2.2.1

/-- The walk keeps every entry it does not drop. -/
theorem rqhashWalk_keep {e : ℕ × ℕ} (hd : ¬ q.RqhashDrops offset e) :
    ∀ {l : List (ℕ × ℕ)}, e ∈ l → e ∈ (q.rqhashWalk offset l).1
  | [], he => absurd he List.not_mem_nil
  | e' :: rest, he => by
    rcases q.rqhashWalk_cons offset e' rest with ⟨rq, -, hw⟩ | ⟨hd', hw⟩ | ⟨-, hw⟩ <;> rw [hw]
    · exact he
    · -- `e'` is dropped, so it is not `e`
      rcases List.mem_cons.1 he with rfl | he
      · exact absurd hd' hd
      · exact rqhashWalk_keep hd he
    · rcases List.mem_cons.1 he with rfl | he
      · exact List.mem_cons_self ..
      · exact List.mem_cons_of_mem _ (rqhashWalk_keep hd he)

/-- The walk returns a request once the list holds an entry it would stop at. -/
theorem rqhashWalk_isSome {e : ℕ × ℕ} {rq : Request} (hs : q.RqhashStops offset e rq) :
    ∀ {l : List (ℕ × ℕ)}, e ∈ l → (q.rqhashWalk offset l).2.isSome
  | [], he => absurd he List.not_mem_nil
  | e' :: rest, he => by
    rcases q.rqhashWalk_cons offset e' rest with ⟨rq', -, hw⟩ | ⟨hd', hw⟩ | ⟨hns, hw⟩ <;> rw [hw]
    · rfl
    · rcases List.mem_cons.1 he with rfl | he
      · exact absurd hd' hs.not_drops
      · exact rqhashWalk_isSome hs he
    · rcases List.mem_cons.1 he with rfl | he
      · exact absurd hs (hns.2 rq)
      · exact rqhashWalk_isSome hs he

end Walk

/-! ## The merge hash between entry points -/

/-- Every mergeable request of LOOK's queue is hashed. -/
def HashesMergeable (q : RequestQueue) : Prop :=
  ∀ rq ∈ q.look.queue, rq.mergeable = true → rq.id ∈ q.hashIds

/-- Every hash entry of a request of LOOK's queue made of whole-sector bios hangs in the bucket
of the request's key, except perhaps the entry of the request `skip`, not yet rehashed. -/
def Buckets (q : RequestQueue) (skip : Option ℕ) : Prop :=
  ∀ e ∈ q.hash, some e.2 ≠ skip → ∀ rq ∈ q.look.queue, rq.id = e.2 → rq.WholeSectors →
    e.1 = elvHashFn rq.rqEndSector

/-- The merge hash as the code keeps it between entry points. -/
structure Hashed (q : RequestQueue) : Prop where
  mergeable : q.HashesMergeable
  buckets : q.Buckets none

/-- An entry survives the rehash of any request: its id is taken out and put back in front. -/
theorem mem_rehash {l : List (ℕ × ℕ)} {i : ℕ} (hi : i ∈ l.map Prod.snd) (b j : ℕ) :
    i ∈ ((b, j) :: l.filter (·.2 ≠ j)).map Prod.snd := by
  obtain ⟨e, he, rfl⟩ := List.mem_map.1 hi
  by_cases hej : e.2 = j
  · simp [hej]
  · exact List.mem_cons_of_mem _ (List.mem_map_of_mem (List.mem_filter.2 ⟨he, by simpa using hej⟩))

namespace HashesMergeable

variable {q : RequestQueue}

theorem updateRq (h : q.HashesMergeable) {rq : Request}
    (hid : rq.mergeable = true → rq.id ∈ q.hashIds) : (q.updateRq rq).HashesMergeable := by
  intro r hr hm
  rcases mem_updateRq hr with rfl | hr
  · exact hid hm
  · exact h r hr hm

theorem elvMergedRequest (h : q.HashesMergeable) (rq : Request) (type : ElvMerge) :
    (q.elvMergedRequest rq type).HashesMergeable := by
  intro r hr hm
  rw [elvMergedRequest_look] at hr
  unfold hashIds
  rcases elvMergedRequest_hash q rq type with he | he <;> rw [he]
  · exact h r hr hm
  · exact mem_rehash (h r hr hm) _ _

theorem elvMergeRequests (h : q.HashesMergeable) (hnd : (q.look.queue.map Request.id).Nodup)
    (rq : Request) {next : Request} (hnext : next ∈ q.look.queue) :
    (q.elvMergeRequests rq next).HashesMergeable := by
  intro r hr hm
  rw [elvMergeRequests_queue] at hr
  obtain ⟨e, he, hei⟩ :=
    List.mem_map.1 (mem_rehash (h r (List.mem_of_mem_erase hr) hm) (elvHashFn rq.rqEndSector) rq.id)
  unfold hashIds
  rw [elvMergeRequests_hash]
  refine List.mem_map.2 ⟨e, List.mem_filter.2 ⟨he, ?_⟩, hei⟩
  simpa [hei] using id_ne_of_mem_erase hnd hnext hr

end HashesMergeable

namespace Buckets

variable {q : RequestQueue}

theorem sublist (h : q.Buckets none) {l : List (ℕ × ℕ)} (hl : l.Sublist q.hash) :
    { q with hash := l }.Buckets none :=
  fun e he => h e (hl.subset he)

theorem updateRq {s : Option ℕ} (h : q.Buckets s) (rq : Request) (hs : s = none ∨ s = some rq.id) :
    (q.updateRq rq).Buckets (some rq.id) := by
  intro e he hne r hr hid hw
  rcases mem_updateRq hr with rfl | hr
  · exact absurd (congrArg some hid.symm) hne
  · refine h e he ?_ r hr hid hw
    rcases hs with rfl | rfl
    · simp
    · exact hne

/-- A request changed in place, keeping its key when it is made of whole-sector bios. -/
theorem updateRq_key (h : q.Buckets none) {rq₀ rq : Request} (hrq₀ : rq₀ ∈ q.look.queue)
    (hid : rq₀.id = rq.id)
    (hkey : rq.WholeSectors → rq₀.WholeSectors ∧ rq.rqEndSector = rq₀.rqEndSector) :
    (q.updateRq rq).Buckets none := by
  intro e he _ r hr hrid hw
  rcases mem_updateRq hr with rfl | hr
  · obtain ⟨hw₀, hk⟩ := hkey hw
    rw [hk]
    exact h e he (by simp) rq₀ hrq₀ (hid.trans hrid) hw₀
  · exact h e he (by simp) r hr hrid hw

/-- `elv_merged_request` after a back merge rehashes the request under its key. -/
theorem elvMergedRequest_back {rq : Request} (h : q.Buckets (some rq.id))
    (hnd : (q.look.queue.map Request.id).Nodup) (hrq : rq ∈ q.look.queue) :
    (q.elvMergedRequest rq .backMerge).Buckets none := by
  intro e he _ r hr hid hw
  rw [elvMergedRequest_look] at hr
  simp only [elvMergedRequest, if_true, elvRqhashReposition, elvRqhashDel, elvRqhashAdd,
    List.mem_cons, List.mem_filter, decide_eq_true_eq] at he
  rcases he with rfl | ⟨he, hne⟩
  · -- the new entry: the request with its id is `rq`
    rw [List.inj_on_of_nodup_map hnd hr hrq hid]
  · exact h e he (fun h' => hne (Option.some.inj h')) r hr hid hw

theorem elvMergedRequest_front (h : q.Buckets none) (rq : Request) :
    (q.elvMergedRequest rq .frontMerge).Buckets none :=
  h

theorem elvMergeRequests {rq : Request} (h : q.Buckets (some rq.id))
    (hnd : (q.look.queue.map Request.id).Nodup) (hrq : rq ∈ q.look.queue) (next : Request) :
    (q.elvMergeRequests rq next).Buckets none := by
  intro e he _ r hr hid hw
  simp only [elvMergeRequests_hash, List.mem_filter, List.mem_cons, decide_eq_true_eq] at he
  rw [elvMergeRequests_queue] at hr
  have hr' := List.mem_of_mem_erase hr
  obtain ⟨rfl | ⟨he, hne⟩, -⟩ := he
  · rw [List.inj_on_of_nodup_map hnd hr' hrq hid]
  · exact h e he (fun h' => hne (Option.some.inj h')) r hr' hid hw

end Buckets

namespace Hashed

variable {q : RequestQueue}

theorem congr (h : q.Hashed) {q' : RequestQueue} (hl : q'.look = q.look) (hh : q'.hash = q.hash) :
    q'.Hashed := by
  obtain ⟨hm, hb⟩ := h
  unfold HashesMergeable hashIds at hm
  unfold Buckets at hb
  rw [← hl, ← hh] at hm hb
  exact ⟨hm, hb⟩

/-- `attempt_merge` of two distinct queued requests, the entry of `req` perhaps stale: either
nothing changes, or `next` joins `req`, which is rehashed, and the invariant holds again. -/
theorem attemptMerge {s : Option ℕ} (hm : q.HashesMergeable) {req next : Request}
    (hb : q.Buckets s) (hs : s = none ∨ s = some req.id) (hnd : (q.look.queue.map Request.id).Nodup)
    (hreq : req ∈ q.look.queue) (hnext : next ∈ q.look.queue) (hne : next.id ≠ req.id)
    (llMerge : Bool) :
    q.attemptMerge req next llMerge = (q, false) ∨
      (q.attemptMerge req next llMerge).2 = true ∧ (q.attemptMerge req next llMerge).1.Hashed := by
  rcases attemptMerge_cases q req next llMerge with ha | ⟨-, ha⟩
  · exact .inl ha
  rw [ha]
  set req'' : Request :=
    { req with bios := req.bios ++ next.bios, dataLen := req.dataLen + next.blkRqBytes }
  have hnd' : ((q.updateRq req'').look.queue.map Request.id).Nodup := updateRq_nodup hnd
  -- `req` grows in place, then `next` leaves
  have hm1 : (q.updateRq req'').HashesMergeable := hm.updateRq (hm req hreq)
  exact .inr ⟨rfl, hm1.elvMergeRequests hnd' _ (mem_updateRq_of_ne hnext hne),
    (hb.updateRq req'' hs).elvMergeRequests hnd' (mem_updateRq_self hreq rfl) next⟩

/-- The `get_rq` path hashes the new request, which is mergeable, under its key. -/
theorem getRq (h : q.Hashed) (hq : q.QInv) (bio : Bio) (write : Bool) {id : ℕ}
    (hid : id ∉ q.queueIds) : (q.getRq bio write id).1.Hashed := by
  have hhash : (q.getRq bio write id).1.hash =
      (elvHashFn (Request.ofBio id bio write).rqEndSector, id) :: q.hash := by
    simp [RequestQueue.getRq, elvInsertSort_hash, Request.ofBio]
  have hqueue : (q.getRq bio write id).1.look.queue =
      q.look.queue ++ [{ Request.ofBio id bio write with sorted := true }] :=
    elvInsertSort_queue _ _
  constructor
  · intro r hr hm
    unfold hashIds
    rw [hhash, List.map_cons]
    rw [hqueue, List.mem_append, List.mem_singleton] at hr
    rcases hr with hr | rfl
    · exact List.mem_cons_of_mem _ (h.mergeable r hr hm)
    · exact List.mem_cons_self ..
  · intro e he _ r hr hrid hw
    rw [hhash, List.mem_cons] at he
    rw [hqueue, List.mem_append, List.mem_singleton] at hr
    -- the new request has the one id the old hash does not hold
    rcases he with rfl | he <;> rcases hr with hr | rfl
    · exact absurd (mem_queueIds.2 ⟨r, hr, hrid⟩) hid
    · rfl
    · exact h.buckets e he (by simp) r hr hrid hw
    · have he2 := hq.hash e he
      rw [← hrid] at he2
      exact absurd he2 hid

/-- A merge the limits refuse keeps the invariant: the request is marked `REQ_NOMERGE` and
keeps its key. -/
theorem refuseMerge (h : q.Hashed) {req : Request} (hreq : req ∈ q.look.queue) :
    (q.refuseMerge req).Hashed := by
  have h1 : (q.updateRq { req with mergeable := false }).Hashed :=
    ⟨h.mergeable.updateRq fun hm => absurd hm Bool.false_ne_true,
      h.buckets.updateRq_key hreq rfl fun hw => ⟨hw, rfl⟩⟩
  exact h1.congr (refuseMerge_look q req) (refuseMerge_hash q req)

/-- The walk of `elv_rqhash_find` keeps the invariant: it takes off no entry of a mergeable
request. -/
theorem elvRqhashFind (h : q.Hashed) (hq : q.QInv) (offset : ℕ) :
    (q.elvRqhashFind offset).1.Hashed := by
  constructor
  · intro rq hrq hm
    obtain ⟨e, he, hei⟩ := List.mem_map.1 (h.mergeable rq hrq hm)
    have hf : q.findRq e.2 = some rq := hei ▸ hq.findRq_of_mem hrq
    exact List.mem_map.2 ⟨e, rqhashWalk_keep (not_rqhashDrops hf hm) he, hei⟩
  · exact h.buckets.sublist (rqhashWalk_sublist _ _ _)

theorem elvMerge_eq (h : q.Hashed) (hq : q.QInv) {bio : Bio} {write : Bool} {q' : RequestQueue}
    {m : ElvMerge} {r : Option Request} (hm : q.elvMerge bio write = (q', m, r)) : q'.Hashed := by
  have h' : (q.elvMerge bio write).1.Hashed := by
    rcases RequestQueue.elvMerge_fst q bio write with he | he <;> rw [he]
    · exact h
    · exact h.elvRqhashFind hq _
  rwa [hm] at h'

/-- The back-merge path of `__make_request`: the grown request is rehashed, alone or after
its neighbour joined it. -/
theorem bioBackMerge (h : q.Hashed) (hq : q.QInv) {req : Request} (hreq : req ∈ q.look.queue)
    (bio : Bio) (llMerge : Bool) : (q.bioBackMerge req bio llMerge).1.Hashed := by
  set req' : Request :=
    { req with bios := req.bios ++ [bio], dataLen := req.dataLen + bio.size } with hreq'
  have hnd : ((q.updateRq req').look.queue.map Request.id).Nodup := updateRq_nodup hq.ids_nodup
  have hmem : req' ∈ (q.updateRq req').look.queue := mem_updateRq_self hreq rfl
  have hm1 : (q.updateRq req').HashesMergeable := h.mergeable.updateRq (h.mergeable req hreq)
  -- the grown request's entry is stale until it is rehashed
  have hb1 : (q.updateRq req').Buckets (some req'.id) := h.buckets.updateRq req' (.inl rfl)
  have hback : ((q.updateRq req').elvMergedRequest req' .backMerge).Hashed :=
    ⟨hm1.elvMergedRequest _ _, hb1.elvMergedRequest_back hnd hmem⟩
  unfold RequestQueue.bioBackMerge
  rw [← hreq']
  cases hnext : (q.updateRq req').lookLatterRequest req' with
  | none =>
    simp only [hnext]
    exact hback
  | some next =>
    simp only [hnext]
    obtain ⟨hnmem, hne⟩ := lookLatterRequest_spec hnd hnext
    rcases attemptMerge hm1 hb1 (.inr rfl) hnd hmem hnmem hne llMerge with ha | ⟨ha2, ha⟩
    · simp only [ha, Bool.false_eq_true, if_false]
      exact hback
    · simp only [ha2, if_true]
      exact ha

/-- The front-merge path of `__make_request`, into a queued request that starts where the bio
ends: the grown request keeps its key when the bio is whole sectors, and the request before it
is rehashed when it absorbs it. -/
theorem bioFrontMerge (h : q.Hashed) (hq : q.QInv) {req : Request} (hreq : req ∈ q.look.queue)
    {bio : Bio} (hstart : bio.sector + bioSectors bio = req.blkRqPos) (llMerge : Bool) :
    (q.bioFrontMerge req bio llMerge).1.Hashed := by
  set req' : Request := { req with bios := bio :: req.bios, sector := bio.sector,
                                   dataLen := req.dataLen + bio.size } with hreq'
  have hnd : ((q.updateRq req').look.queue.map Request.id).Nodup := updateRq_nodup hq.ids_nodup
  have hmem : req' ∈ (q.updateRq req').look.queue := mem_updateRq_self hreq rfl
  have hm1 : (q.updateRq req').HashesMergeable := h.mergeable.updateRq (h.mergeable req hreq)
  have hb1 : (q.updateRq req').Buckets none := h.buckets.updateRq_key hreq rfl fun hw =>
    ⟨fun b hb => hw b (List.mem_cons_of_mem _ hb),
      rqEndSector_cons_bio (hw bio (List.mem_cons_self ..)) hstart⟩
  have hfront : ((q.updateRq req').elvMergedRequest req' .frontMerge).Hashed :=
    ⟨hm1.elvMergedRequest _ _, hb1.elvMergedRequest_front _⟩
  unfold RequestQueue.bioFrontMerge
  rw [← hreq']
  cases hprev : (q.updateRq req').lookFormerRequest req' with
  | none =>
    simp only [hprev]
    exact hfront
  | some prev =>
    simp only [hprev]
    obtain ⟨hpmem, hne⟩ := lookFormerRequest_spec hnd hmem hprev
    rcases attemptMerge hm1 hb1 (.inl rfl) hnd hpmem hmem (Ne.symm hne) llMerge with ha | ⟨ha2, ha⟩
    · simp only [ha, Bool.false_eq_true, if_false]
      exact hfront
    · simp only [ha2, if_true]
      exact ha

/-- **`__make_request`** keeps the invariant. -/
theorem makeRequest (h : q.Hashed) (hq : q.QInv) (bio : Bio) (write : Bool) {id : ℕ}
    (hid : id ∉ q.queueIds) (llBack llFront llMerge : Bool) :
    (q.makeRequest bio write id llBack llFront llMerge).1.Hashed := by
  -- `elv_merge` only walks the hash
  have hids : ∀ {q' : RequestQueue}, q'.look = q.look → id ∉ q'.queueIds :=
    fun hl => queueIds_congr hl ▸ hid
  rcases makeRequest_cases q bio write id llBack llFront llMerge with
    he | ⟨q', m, r, hm, he⟩ | ⟨q', m, req, hm, he⟩ | ⟨q', req, hm, he⟩ | ⟨q', req, hm, he⟩ <;>
    rw [he]
  · exact h.getRq hq bio write hid
  · obtain ⟨hq', hl, -⟩ := hq.elvMerge_eq hm
    exact (h.elvMerge_eq hq hm).getRq hq' bio write (hids hl)
  · obtain ⟨hq', hl, -⟩ := hq.elvMerge_eq hm
    have hreq := hq.elvMerge_mem hm
    exact ((h.elvMerge_eq hq hm).refuseMerge hreq).getRq (hq'.refuseMerge hreq) bio write
      (by rw [refuseMerge_queueIds]; exact hids hl)
  · exact (h.elvMerge_eq hq hm).bioBackMerge (hq.elvMerge_eq hm).1 (hq.elvMerge_mem hm) bio llMerge
  · exact (h.elvMerge_eq hq hm).bioFrontMerge (hq.elvMerge_eq hm).1 (hq.elvMerge_mem hm)
      (elvMerge_front hm) llMerge

/-- **`look_dispatch`** takes the request it serves out of LOOK's queue and, through
`elv_dispatch_sort`, out of the hash. -/
theorem lookDispatch (h : q.Hashed) (hq : q.QInv) {force v : ℤ} {q' : RequestQueue}
    (hd : q.lookDispatch force = some (q', v)) : q'.Hashed := by
  by_cases hne : q.look.queue = []
  · rw [lookDispatch_of_nil force hne, Option.some.injEq, Prod.mk.injEq] at hd
    rw [← hd.1]
    exact h
  obtain ⟨r, bio, rest, -, hrmem, -, heq⟩ := lookDispatch_of_ne_nil force hq.dir hq.bios_ne_nil hne
  rw [heq, Option.some.injEq, Prod.mk.injEq] at hd
  rw [← hd.1]
  constructor
  · intro x hx hm
    simp only [elvDispatchSort_look, LookData.served] at hx
    obtain ⟨e, he, hei⟩ := List.mem_map.1 (h.mergeable x (List.mem_of_mem_erase hx) hm)
    refine List.mem_map.2 ⟨e, ?_, hei⟩
    simpa [elvDispatchSort_hash, hei] using ⟨he, id_ne_of_mem_erase hq.ids_nodup hrmem hx⟩
  · intro e he _ x hx hid hw
    simp only [elvDispatchSort_hash, List.mem_filter] at he
    simp only [elvDispatchSort_look, LookData.served] at hx
    exact h.buckets e he.1 (by simp) x (List.mem_of_mem_erase hx) hid hw

/-! ## What `elv_rqhash_find` finds -/

/-- **`elv_rqhash_find(q, offset)`** returns only a mergeable queued request with key
`offset`; it takes off only entries, in the bucket of `offset`, of queued requests that are no
longer mergeable; and it returns a request whenever a mergeable one of whole-sector bios with
key `offset` is queued. -/
theorem elvRqhashFind_spec (h : q.Hashed) (hq : q.QInv) (offset : ℕ) :
    (∀ rq, (q.elvRqhashFind offset).2 = some rq →
        rq ∈ q.look.queue ∧ rq.mergeable = true ∧ rq.rqEndSector = offset) ∧
      (∀ e ∈ q.hash, e ∉ (q.elvRqhashFind offset).1.hash →
        e.1 = elvHashFn offset ∧ ∃ rq ∈ q.look.queue, rq.id = e.2 ∧ rq.mergeable = false) ∧
      ((∃ rq ∈ q.look.queue, rq.mergeable = true ∧ rq.WholeSectors ∧ rq.rqEndSector = offset) →
        (q.elvRqhashFind offset).2.isSome) := by
  refine ⟨fun rq hrq => ?_, fun e he hne => ?_, fun ⟨rq, hrq, hm, hw, hend⟩ => ?_⟩
  · obtain ⟨e, he, -, hf, hm, hend⟩ := rqhashWalk_some _ _ hrq
    exact ⟨(findRq_mem (hq.hash e he) hf).1, hm, hend⟩
  · -- an entry the walk took off is one it drops
    obtain ⟨hb, rq, hf, hm⟩ : q.RqhashDrops offset e :=
      not_not.1 fun hd => hne (rqhashWalk_keep hd he)
    obtain ⟨hmem, hid⟩ := findRq_mem (hq.hash e he) hf
    exact ⟨hb, rq, hmem, hid, hm⟩
  · -- the request's entry hangs in the bucket of `offset`, where the walk stops at it
    obtain ⟨e, he, hei⟩ := List.mem_map.1 (h.mergeable rq hrq hm)
    have hb : e.1 = elvHashFn offset := hend ▸ h.buckets e he (by simp) rq hrq hei.symm hw
    exact rqhashWalk_isSome ⟨hb, hei ▸ hq.findRq_of_mem hrq, hm, hend⟩ he

end Hashed

end RequestQueue

/-! ## Runs -/

namespace ElvState

theorem hashed_init : ElvState.init.q.Hashed :=
  ⟨fun _ hr => absurd hr List.not_mem_nil, fun _ he => absurd he List.not_mem_nil⟩

/-- **Step lemma**: every step keeps the invariant.  Only `__make_request` and `look_dispatch`
touch LOOK's queue or the hash; a back insertion and a driver fetch change the dispatch queue
only. -/
theorem hashed_step {s s' : ElvState} (h : s.q.Hashed) (hs : s.Inv) (hstep : ElvStep s s') :
    s'.q.Hashed := by
  have hdisp : ∀ {s s' : ElvState} {force v : ℤ}, s.q.Hashed → s.Inv →
      s.dispatch force = some (s', v) → s'.q.Hashed :=
    fun h hs hd => h.lookDispatch hs.queue (dispatch_q hd)
  cases hstep with
  | bio bio write id llBack llFront llMerge hid =>
    rw [afterBio_q]
    exact h.makeRequest hs.queue bio write (hs.not_mem_queueIds hid) llBack llFront llMerge
  | dispatch force hd => exact hdisp h hs hd
  | drain hd => exact hd.preserves hdisp h hs
  | insertBack rq _ _ hd => exact (hd.preserves hdisp h hs).congr rfl rfl
  | fetch hn => exact (hn.preserves hdisp h hs).congr rfl rfl

theorem hashed_of_reachable {s : ElvState} (h : ElvReachable s) : s.q.Hashed := by
  induction h with
  | refl => exact hashed_init
  | tail h₁ hstep ih => exact hashed_step ih (Inv.of_reachable h₁) hstep

end ElvState

/-- **What the merge hash finds.**  In every state a run reaches: every hash entry stands for a
request of LOOK's queue, and no request is hashed twice; an id `elv_insert` is handed (a fresh
one) is not hashed, so the `BUG_ON` of `elv_rqhash_add` never fires; every mergeable request of
LOOK's queue is hashed, under its key when its bios are whole sectors; `q->last_merge` points
into LOOK's queue; and `elv_rqhash_find(q, off)` returns only a mergeable queued request ending
at `off`, takes off only entries of queued requests in the bucket of `off` that are no longer
mergeable, and returns a request whenever a mergeable one of whole-sector bios ending at `off`
is queued. -/
theorem elv_rqhash_lookup {s : ElvState} (h : ElvReachable s) :
    (∀ e ∈ s.q.hash, ∃ rq ∈ s.q.look.queue, rq.id = e.2) ∧ s.q.hashIds.Nodup ∧
      (∀ i, s.Fresh i → i ∉ s.q.hashIds) ∧
      (∀ rq ∈ s.q.look.queue, rq.mergeable = true →
        rq.id ∈ s.q.hashIds ∧ (rq.WholeSectors → (elvHashFn rq.rqEndSector, rq.id) ∈ s.q.hash)) ∧
      (∀ i, s.q.lastMerge = some i → ∃ rq ∈ s.q.look.queue, rq.id = i) ∧
      ∀ off, (∀ rq, (s.q.elvRqhashFind off).2 = some rq →
          rq ∈ s.q.look.queue ∧ rq.mergeable = true ∧ rq.rqEndSector = off) ∧
        (∀ e ∈ s.q.hash, e ∉ (s.q.elvRqhashFind off).1.hash →
          e.1 = elvHashFn off ∧ ∃ rq ∈ s.q.look.queue, rq.id = e.2 ∧ rq.mergeable = false) ∧
        ((∃ rq ∈ s.q.look.queue, rq.mergeable = true ∧ rq.WholeSectors ∧ rq.rqEndSector = off) →
          (s.q.elvRqhashFind off).2.isSome) := by
  have hs := ElvState.Inv.of_reachable h
  have hh := ElvState.hashed_of_reachable h
  refine ⟨fun e he => RequestQueue.mem_queueIds.1 (hs.queue.hash e he), hs.queue.hash_nodup,
    fun i hi hm => ?_, fun rq hrq hm => ⟨hh.mergeable rq hrq hm, fun hw => ?_⟩,
    fun i hi => RequestQueue.mem_queueIds.1 (hs.queue.lastMerge i hi),
    hh.elvRqhashFind_spec hs.queue⟩
  · obtain ⟨e, he, rfl⟩ := List.mem_map.1 hm
    exact hs.not_mem_queueIds hi (hs.queue.hash e he)
  · -- the entry with the request's id hangs in the bucket of its key
    obtain ⟨e, he, hei⟩ := List.mem_map.1 (hh.mergeable rq hrq hm)
    have hb := hh.buckets e he (by simp) rq hrq hei.symm hw
    rwa [← hb, ← hei]

/-- A write of eight sectors at sector `0`, then one at sector `8` whose back merge into the
first request `ll_back_merge_fn` refuses: the first request is marked `REQ_NOMERGE` and stays
hashed, and the second is queued. -/
def refusedState : ElvState :=
  let s₁ := ElvState.init.afterBio (ElvState.init.q.makeRequest ⟨0, 4096⟩ true 1 true true true)
  s₁.afterBio (s₁.q.makeRequest ⟨8, 4096⟩ true 2 false true true)

theorem refusedState_reachable : ElvReachable refusedState := by
  have h₁ : ElvReachable
      (ElvState.init.afterBio (ElvState.init.q.makeRequest ⟨0, 4096⟩ true 1 true true true)) :=
    .single (ElvStep.bio ⟨0, 4096⟩ true 1 true true true ⟨by decide, by decide⟩)
  exact .tail h₁ (ElvStep.bio ⟨8, 4096⟩ true 2 false true true ⟨by decide, by decide⟩)

/-- Both requests are hashed; a lookup at sector `8`, where only the refused request ends,
takes its entry off and finds nothing. -/
theorem elv_rqhash_lookup_refused :
    refusedState.q.hashIds = [2, 1] ∧ (refusedState.q.elvRqhashFind 8).1.hashIds = [2] ∧
      (refusedState.q.elvRqhashFind 8).2 = none ∧
      (∀ e ∈ refusedState.q.hash, ∃ rq ∈ refusedState.q.look.queue, rq.id = e.2) ∧
      refusedState.q.hashIds.Nodup ∧
      (∀ i, refusedState.Fresh i → i ∉ refusedState.q.hashIds) ∧
      (∀ rq ∈ refusedState.q.look.queue, rq.mergeable = true →
        rq.id ∈ refusedState.q.hashIds ∧
          (rq.WholeSectors → (elvHashFn rq.rqEndSector, rq.id) ∈ refusedState.q.hash)) ∧
      (∀ i, refusedState.q.lastMerge = some i → ∃ rq ∈ refusedState.q.look.queue, rq.id = i) ∧
      ∀ off, (∀ rq, (refusedState.q.elvRqhashFind off).2 = some rq →
          rq ∈ refusedState.q.look.queue ∧ rq.mergeable = true ∧ rq.rqEndSector = off) ∧
        (∀ e ∈ refusedState.q.hash, e ∉ (refusedState.q.elvRqhashFind off).1.hash →
          e.1 = elvHashFn off ∧
            ∃ rq ∈ refusedState.q.look.queue, rq.id = e.2 ∧ rq.mergeable = false) ∧
        ((∃ rq ∈ refusedState.q.look.queue,
            rq.mergeable = true ∧ rq.WholeSectors ∧ rq.rqEndSector = off) →
          (refusedState.q.elvRqhashFind off).2.isSome) :=
  ⟨by decide, by decide, by decide, elv_rqhash_lookup refusedState_reachable⟩

/-! ## LOOK's neighbours -/

/-- Two writes of eight sectors, at sectors `0` and `100`, which nothing merges. -/
def twoRequestsState : ElvState :=
  let s₁ := ElvState.init.afterBio (ElvState.init.q.makeRequest ⟨0, 4096⟩ true 1 true true true)
  s₁.afterBio (s₁.q.makeRequest ⟨100, 4096⟩ true 2 true true true)

theorem twoRequestsState_reachable : ElvReachable twoRequestsState := by
  have h₁ : ElvReachable
      (ElvState.init.afterBio (ElvState.init.q.makeRequest ⟨0, 4096⟩ true 1 true true true)) :=
    .single (ElvStep.bio ⟨0, 4096⟩ true 1 true true true ⟨by decide, by decide⟩)
  exact .tail h₁ (ElvStep.bio ⟨100, 4096⟩ true 2 true true true ⟨by decide, by decide⟩)

end SlobLook.Block
