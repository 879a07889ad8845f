import SlobLook.Block.Head

/-!
# The order in which the driver sees requests

LOOK picks requests one at a time, but it hands each pick to `elv_dispatch_sort`, which the
framework shares with noop: the pick is sorted into `q->queue_head` as a one-way sweep from
`q->end_sector` would serve it, behind started requests, barriers and requests of the other
direction.  When the dispatch queue holds no sorted request at the pick, as on every call from
`__elv_next_request`, the pick goes behind everything sorted and the driver receives the picks
in order.  A drain that piles several picks up can reorder them: a head turned down by LOOK
serves `50` before `40`, while `elv_dispatch_sort` queues `40` first
(`driver_fetch_out_of_pick_order`).

What holds on every run is that no pick is lost or duplicated on the way to the driver
(`ElvState.driverOrder`, the sorted requests at the driver and then in the dispatch queue, is a
permutation of LOOK's picks), and on runs whose steps make at most one pick, each into a
dispatch queue with no sorted request (`SerialStep`), the driver fetches exactly the picks in
order (`driver_sees_look_order`).
-/

namespace SlobLook.Block

open Request

namespace ElvState

/-- The ids of the sorted requests the driver has fetched, then of those waiting in the dispatch
queue, in order. -/
def driverOrder (s : ElvState) : List ℕ :=
  ((s.fetched ++ s.q.queueHead).filter (·.sorted)).map Request.id

/-- The ids of the sorted requests the driver has fetched, in order. -/
def fetchedOrder (s : ElvState) : List ℕ :=
  (s.fetched.filter (·.sorted)).map Request.id

theorem fetchedOrder_prefix (s : ElvState) : s.fetchedOrder <+: s.driverOrder := by
  unfold fetchedOrder driverOrder
  rw [List.filter_append, List.map_append]
  exact List.prefix_append _ _

/-! ## What each step does to the order -/

/-- **One call of `look_dispatch`** changes nothing, or logs LOOK's pick `r`, a sorted request,
and sorts it into the dispatch queue. -/
theorem dispatch_cases {s s' : ElvState} {force v : ℤ} (hs : s.Inv)
    (h : s.dispatch force = some (s', v)) :
    (v = 0 ∧ s' = s) ∨
      (v = 1 ∧ ∃ r, r.sorted = true ∧ s'.picks = s.picks ++ [r.id] ∧ s'.fetched = s.fetched ∧
        s'.q.queueHead.Perm (r :: s.q.queueHead)) := by
  by_cases hq : s.q.look.queue = []
  · simp only [dispatch, lookDispatch_of_nil force hq, Option.map_some, if_true,
      Option.some.injEq, Prod.mk.injEq] at h
    obtain ⟨rfl, rfl⟩ := h
    exact .inl ⟨rfl, rfl⟩
  · obtain ⟨r, q', hr, hrmem, heq, -, -, hhead⟩ := hs.queue.lookDispatch force hq
    simp only [dispatch, heq, Option.map_some, Option.some.injEq, Prod.mk.injEq] at h
    obtain ⟨rfl, rfl⟩ := h
    exact .inr ⟨rfl, r, hs.queue.sortedFlag r hrmem, by simp [hr], rfl, hhead⟩

/-- A pick sorted into the dispatch queue joins the order somewhere. -/
theorem driverOrder_perm_of_pick {s s' : ElvState} {r : Request} (hr : r.sorted = true)
    (hf : s'.fetched = s.fetched) (hq : s'.q.queueHead.Perm (r :: s.q.queueHead)) :
    s'.driverOrder.Perm (s.driverOrder ++ [r.id]) := by
  have hp : (s'.fetched ++ s'.q.queueHead).Perm (s.fetched ++ s.q.queueHead ++ [r]) := by
    rw [hf, List.append_assoc]
    exact hq.append_left _ |>.trans ((List.perm_append_singleton r _).symm.append_left _)
  have := (hp.filter (·.sorted)).map Request.id
  simpa [driverOrder, List.filter_append, hr] using this

/-- A pick sorted into a dispatch queue with no sorted request joins the order at its end. -/
theorem driverOrder_of_pick_clean {s s' : ElvState} {r : Request} (hr : r.sorted = true)
    (hf : s'.fetched = s.fetched) (hq : s'.q.queueHead.Perm (r :: s.q.queueHead))
    (hclean : s.q.queueHead.filter (·.sorted) = []) :
    s'.driverOrder = s.driverOrder ++ [r.id] := by
  have hsorted : s'.q.queueHead.filter (·.sorted) = [r] := by
    have := hq.filter (·.sorted)
    rw [List.filter_cons_of_pos (by simpa using hr), hclean] at this
    exact List.perm_singleton.1 this
  simp [driverOrder, List.filter_append, hf, hsorted, hclean]

/-- The driver taking the head of the dispatch queue keeps the order. -/
theorem driverOrder_startHead {s : ElvState} {rq : Request} {rest : List Request}
    (hq : s.q.queueHead = rq :: rest) : (s.startHead rq).driverOrder = s.driverOrder := by
  simp only [driverOrder, startHead, hq, List.tail_cons, List.append_assoc, List.singleton_append]
  cases hs : rq.sorted <;> simp [List.filter_append, hs]

/-- An unsorted request at the back of the dispatch queue is not in the order. -/
theorem driverOrder_addTail {s : ElvState} {rq : Request} (hr : rq.sorted = false) :
    (s.addTail rq).driverOrder = s.driverOrder := by
  simp [driverOrder, List.filter_append, hr]

/-- `__make_request` leaves the dispatch queue and the driver alone. -/
theorem Inv.driverOrder_afterBio {s : ElvState} (hs : s.Inv) {bio : Bio} {write : Bool}
    {id : ℕ} {llBack llFront llMerge : Bool} (hid : s.Fresh id) :
    (s.afterBio (s.q.makeRequest bio write id llBack llFront llMerge)).driverOrder =
      s.driverOrder := by
  obtain ⟨-, hhead, -⟩ :=
    hs.queue.makeRequest bio write (hs.not_mem_queueIds hid) llBack llFront llMerge
  simp only [driverOrder, afterBio_fetched, afterBio_q, hhead]

/-! ## No pick is lost on the way to the driver -/

/-- A pick keeps the order a permutation of the picks. -/
theorem Inv.driverOrder_perm_dispatch {s s' : ElvState} {force v : ℤ} (hs : s.Inv)
    (h : s.dispatch force = some (s', v)) (hperm : s.driverOrder.Perm s.picks) :
    s'.driverOrder.Perm s'.picks := by
  rcases dispatch_cases hs h with ⟨-, rfl⟩ | ⟨-, r, hr, hp, hf, hq⟩
  · exact hperm
  · rw [hp]
    exact (driverOrder_perm_of_pick hr hf hq).trans (hperm.append_right _)

end ElvState

open ElvState

theorem Drains.driverOrder_perm {s s' : ElvState} {n : ℕ} (h : Drains s n s') :
    s.Inv → s.driverOrder.Perm s.picks → s'.driverOrder.Perm s'.picks := by
  induction h with
  | last hd => exact fun hs hperm => hs.driverOrder_perm_dispatch hd hperm
  | more hd _ _ ih =>
    exact fun hs hperm => ih (hs.dispatch hd).1 (hs.driverOrder_perm_dispatch hd hperm)

theorem NextRequest.driverOrder_perm {s s' : ElvState} {r : Option Request}
    (h : NextRequest s s' r) :
    s.Inv → s.driverOrder.Perm s.picks → s'.driverOrder.Perm s'.picks := by
  induction h with
  | head _ => exact fun _ hperm => hperm
  | empty _ hd => exact fun hs hperm => hs.driverOrder_perm_dispatch hd hperm
  | again _ hd _ _ ih =>
    exact fun hs hperm => ih (hs.dispatch hd).1 (hs.driverOrder_perm_dispatch hd hperm)

namespace ElvState

/-- Every step keeps the order a permutation of the picks. -/
theorem Inv.driverOrder_perm_step {s s' : ElvState} (hs : s.Inv) (h : ElvStep s s')
    (hperm : s.driverOrder.Perm s.picks) : s'.driverOrder.Perm s'.picks := by
  cases h with
  | bio bio write id llBack llFront llMerge hid =>
    rw [hs.driverOrder_afterBio hid, afterBio_picks]
    exact hperm
  | dispatch force hd => exact hs.driverOrder_perm_dispatch hd hperm
  | drain hd => exact hd.driverOrder_perm hs hperm
  | insertBack rq _ hr hd =>
    rw [driverOrder_addTail (show ({ rq with barrier := true } : Request).sorted = false from hr),
      addTail_picks]
    exact hd.driverOrder_perm hs hperm
  | fetch hn =>
    obtain ⟨-, hhead⟩ := hs.nextRequest hn
    obtain ⟨rest, hq⟩ := hhead _ rfl
    rw [driverOrder_startHead hq, startHead_picks]
    exact hn.driverOrder_perm hs hperm

theorem driverOrder_perm_of_reachable {s : ElvState} (h : ElvReachable s) :
    s.driverOrder.Perm s.picks := by
  induction h with
  | refl => exact List.Perm.refl _
  | @tail s₁ s₂ h₁ hstep ih => exact (Inv.of_reachable h₁).driverOrder_perm_step hstep ih

end ElvState

/-! ## One pick at a time -/

/-- A step of a run that makes at most one pick, and makes it only while the dispatch queue holds
no sorted request: every bio, insertion and fetch (the calls of `look_dispatch` from
`__elv_next_request` find the dispatch queue empty), and a call or a drain that picks at most one
request into such a dispatch queue. -/
def SerialStep (s s' : ElvState) : Prop :=
  ElvStep s s' ∧
    (s'.picks = s.picks ∨
      (s.q.queueHead.filter (·.sorted) = [] ∧ s'.picks.length = s.picks.length + 1))

/-- The states a run of serial steps reaches from `elevator_init`. -/
def SerialReachable (s : ElvState) : Prop := Relation.ReflTransGen SerialStep ElvState.init s

theorem SerialReachable.reachable {s : ElvState} (h : SerialReachable s) : ElvReachable s :=
  Relation.ReflTransGen.mono (fun _ _ (hs : SerialStep _ _) => hs.1) _ _ h

namespace ElvState

/-- A call that logs no pick changes nothing. -/
theorem Inv.dispatch_of_picks {s s' : ElvState} {force v : ℤ} (hs : s.Inv)
    (h : s.dispatch force = some (s', v)) (hp : s'.picks = s.picks) : s' = s := by
  rcases dispatch_cases hs h with ⟨-, rfl⟩ | ⟨-, r, -, hp', -, -⟩
  · rfl
  · rw [hp'] at hp
    simp at hp

/-- A pick into a dispatch queue with no sorted request keeps the driver in pick order. -/
theorem Inv.driverOrder_dispatch_clean {s s' : ElvState} {force v : ℤ} (hs : s.Inv)
    (h : s.dispatch force = some (s', v)) (heq : s.driverOrder = s.picks)
    (hclean : s.q.queueHead.filter (·.sorted) = []) : s'.driverOrder = s'.picks := by
  rcases dispatch_cases hs h with ⟨-, rfl⟩ | ⟨-, r, hr, hp, hf, hq⟩
  · exact heq
  · rw [hp, driverOrder_of_pick_clean hr hf hq hclean, heq]

end ElvState

theorem Drains.pos {s s' : ElvState} {n : ℕ} (h : Drains s n s') : 0 < n := by
  cases h <;> omega

/-- A drain picks once per call but the last. -/
theorem Drains.picks_length {s s' : ElvState} {n : ℕ} (h : Drains s n s') :
    s.Inv → s'.picks.length + 1 = s.picks.length + n := by
  induction h with
  | last hd =>
    intro hs
    rcases dispatch_cases hs hd with ⟨-, rfl⟩ | ⟨hv, -⟩
    · rfl
    · exact absurd hv (by decide)
  | more hd hv _ ih =>
    intro hs
    rcases dispatch_cases hs hd with ⟨rfl, -⟩ | ⟨-, r, -, hp, -, -⟩
    · exact absurd rfl hv
    · have := ih (hs.dispatch hd).1
      rw [hp, List.length_append, List.length_singleton] at this
      omega

/-- A drain of one call picks nothing and changes nothing. -/
theorem Drains.eq_of_one {s s' : ElvState} (h : Drains s 1 s') (hs : s.Inv) : s' = s := by
  cases h with
  | last hd =>
    rcases dispatch_cases hs hd with ⟨-, rfl⟩ | ⟨hv, -⟩
    · rfl
    · exact absurd hv (by decide)
  | more _ _ hrest => exact absurd hrest.pos (by omega)

/-- A drain that picks at most one request, into a dispatch queue with no sorted request, keeps
the driver in pick order. -/
theorem Drains.driverOrder_serial {s s' : ElvState} {n : ℕ} (h : Drains s n s') (hs : s.Inv)
    (heq : s.driverOrder = s.picks)
    (hser : s'.picks = s.picks ∨
      (s.q.queueHead.filter (·.sorted) = [] ∧ s'.picks.length = s.picks.length + 1)) :
    s'.driverOrder = s'.picks := by
  cases h with
  | last hd =>
    rcases dispatch_cases hs hd with ⟨-, rfl⟩ | ⟨hv, -⟩
    · exact heq
    · exact absurd hv (by decide)
  | @more _ s₁ _ m _ hd hv hrest =>
    rcases dispatch_cases hs hd with ⟨rfl, -⟩ | ⟨-, r, hr, hp, hf, hq⟩
    · exact absurd rfl hv
    · have hs₁ := (hs.dispatch hd).1
      have hlen := hrest.picks_length hs₁
      have hpos := hrest.pos
      rw [hp, List.length_append, List.length_singleton] at hlen
      rcases hser with hser | ⟨hclean, hser⟩
      · rw [hser] at hlen
        omega
      · -- the drain stops right after this pick
        obtain rfl : m = 1 := by omega
        obtain rfl := hrest.eq_of_one hs₁
        rw [hp, driverOrder_of_pick_clean hr hf hq hclean, heq]

/-- `__elv_next_request` calls `look_dispatch` only on an empty dispatch queue, so it keeps the
driver in pick order. -/
theorem NextRequest.driverOrder_eq {s s' : ElvState} {r : Option Request}
    (h : NextRequest s s' r) : s.Inv → s.driverOrder = s.picks → s'.driverOrder = s'.picks := by
  induction h with
  | head _ => exact fun _ heq => heq
  | empty hq hd => exact fun hs heq => hs.driverOrder_dispatch_clean hd heq (by simp [hq])
  | again hq hd _ _ ih =>
    exact fun hs heq => ih (hs.dispatch hd).1 (hs.driverOrder_dispatch_clean hd heq (by simp [hq]))

namespace ElvState

/-- Every serial step keeps the driver in pick order. -/
theorem Inv.driverOrder_serial_step {s s' : ElvState} (hs : s.Inv) (h : SerialStep s s')
    (heq : s.driverOrder = s.picks) : s'.driverOrder = s'.picks := by
  obtain ⟨h, hser⟩ := h
  cases h with
  | bio bio write id llBack llFront llMerge hid =>
    rw [hs.driverOrder_afterBio hid, afterBio_picks]
    exact heq
  | dispatch force hd =>
    rcases hser with hp | ⟨hclean, -⟩
    · rw [hs.dispatch_of_picks hd hp]
      exact heq
    · exact hs.driverOrder_dispatch_clean hd heq hclean
  | drain hd => exact hd.driverOrder_serial hs heq hser
  | insertBack rq _ hr hd =>
    rw [driverOrder_addTail (show ({ rq with barrier := true } : Request).sorted = false from hr),
      addTail_picks]
    simp only [addTail_picks] at hser
    exact hd.driverOrder_serial hs heq hser
  | fetch hn =>
    obtain ⟨-, hhead⟩ := hs.nextRequest hn
    obtain ⟨rest, hq⟩ := hhead _ rfl
    rw [driverOrder_startHead hq, startHead_picks]
    exact hn.driverOrder_eq hs heq

theorem driverOrder_of_serialReachable {s : ElvState} (h : SerialReachable s) :
    s.driverOrder = s.picks := by
  induction h with
  | refl => rfl
  | @tail s₁ s₂ h₁ hstep ih =>
    exact (Inv.of_reachable (SerialReachable.reachable h₁)).driverOrder_serial_step hstep ih

end ElvState

/-- **The driver fetches out of pick order.**  A write of eight sectors at `100` is queued and
fetched, which leaves the head and `q->end_sector` at `108`; writes of eight sectors at `50` and
of one sector at `40` are queued; a drain, as on an elevator switch, has LOOK turn down and pick
`50`, then `40`, and `elv_dispatch_sort` queues `40` first, both lying below the boundary `108`;
the driver then fetches `40` before `50`. -/
theorem driver_fetch_out_of_pick_order :
    ∃ s, ElvReachable s ∧ ¬ s.fetchedOrder <+: s.picks := by
  have h₁ : ElvReachable
      (ElvState.init.afterBio (ElvState.init.q.makeRequest ⟨100, 4096⟩ true 1 true true true)) :=
    .single (ElvStep.bio ⟨100, 4096⟩ true 1 true true true ⟨by decide, by decide⟩)
  have h₂ := h₁.tail (ElvStep.fetch (NextRequest.again rfl rfl (by decide) (NextRequest.head rfl)))
  have h₃ := h₂.tail (ElvStep.bio ⟨50, 4096⟩ true 2 true true true ⟨by decide, by decide⟩)
  have h₄ := h₃.tail (ElvStep.bio ⟨40, 512⟩ true 3 true true true ⟨by decide, by decide⟩)
  have h₅ := h₄.tail
    (ElvStep.drain (Drains.more rfl (by decide) (Drains.more rfl (by decide) (Drains.last rfl))))
  have h₆ := h₅.tail (ElvStep.fetch (NextRequest.head rfl))
  exact ⟨_, h₆, by decide⟩

/-- **The driver and LOOK's picks.**  On every run, the sorted requests at the driver and in the
dispatch queue are LOOK's picks, each once, in some order.  On a run of serial steps they are
the picks in order, so the driver fetches the sorted requests in the order LOOK picked them. -/
theorem driver_sees_look_order :
    (∀ s, ElvReachable s → s.driverOrder.Perm s.picks) ∧
      ∀ s, SerialReachable s → s.driverOrder = s.picks ∧ s.fetchedOrder <+: s.picks := by
  refine ⟨fun s h => ElvState.driverOrder_perm_of_reachable h, fun s h => ?_⟩
  have heq := ElvState.driverOrder_of_serialReachable h
  exact ⟨heq, heq ▸ s.fetchedOrder_prefix⟩

/-- A write of eight sectors at `100` is queued and fetched, then one at `50`: each fetch has
`__elv_next_request` pick one request into the empty dispatch queue, so the run is serial and
the driver fetches the two requests in the order LOOK picked them. -/
theorem driver_sees_look_order_serial :
    ∃ s, SerialReachable s ∧ s.picks = [1, 2] ∧ s.driverOrder = s.picks ∧
      s.fetchedOrder <+: s.picks := by
  have h₁ : SerialReachable
      (ElvState.init.afterBio (ElvState.init.q.makeRequest ⟨100, 4096⟩ true 1 true true true)) :=
    .single ⟨ElvStep.bio ⟨100, 4096⟩ true 1 true true true ⟨by decide, by decide⟩, .inl rfl⟩
  have h₂ := h₁.tail
    ⟨ElvStep.fetch (NextRequest.again rfl rfl (by decide) (NextRequest.head rfl)), .inr ⟨rfl, rfl⟩⟩
  have h₃ := h₂.tail ⟨ElvStep.bio ⟨50, 4096⟩ true 2 true true true ⟨by decide, by decide⟩, .inl rfl⟩
  have h₄ := h₃.tail
    ⟨ElvStep.fetch (NextRequest.again rfl rfl (by decide) (NextRequest.head rfl)), .inr ⟨rfl, rfl⟩⟩
  exact ⟨_, h₄, rfl, driver_sees_look_order.2 _ h₄⟩

end SlobLook.Block
