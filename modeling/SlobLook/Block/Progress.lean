import SlobLook.Block.Lookup

/-!
# Every request reaches the driver

A driver that keeps calling `blk_fetch_request` receives every request the queue holds: the
dispatch queue first, and once it is empty, `__elv_next_request` calls `look_dispatch(q, 0)`,
which moves one request of LOOK's queue there whenever LOOK's queue is not empty.  So each fetch
takes one request out of the queue, and after as many fetches as there were requests,
`__elv_next_request` finds nothing (`elv_fetch_all`).  LOOK keeps no request back: `look_dispatch`
always dispatches when its queue is not empty, whatever the head position and direction.
-/

namespace SlobLook.Block

open Request

/-- `Fetches s rs s'`: from `s`, the driver fetches the requests `rs` one after the other with
`blk_fetch_request`, and the queue is then in state `s'`. -/
inductive Fetches : ElvState → List Request → ElvState → Prop
  | nil (s : ElvState) : Fetches s [] s
  | cons {s s₁ s' : ElvState} {rq : Request} {rs : List Request} :
      NextRequest s s₁ (some rq) → Fetches (s₁.startHead rq) rs s' → Fetches s (rq :: rs) s'

/-- Fetches are steps of a run. -/
theorem Fetches.reachable {s s' : ElvState} {rs : List Request} (h : Fetches s rs s')
    (hr : ElvReachable s) : ElvReachable s' := by
  induction h with
  | nil => exact hr
  | cons hn _ ih => exact ih (.tail hr (.fetch hn))

namespace ElvState

/-- The requests the queue holds and the driver has not fetched: LOOK's queue, then the dispatch
queue. -/
def pending (s : ElvState) : List Request := s.q.look.queue ++ s.q.queueHead

variable {s : ElvState}

/-- With nothing pending, `__elv_next_request` returns `NULL` and changes nothing. -/
theorem nextRequest_none (hp : s.pending = []) : NextRequest s s none := by
  obtain ⟨hq, hh⟩ := List.append_eq_nil_iff.1 hp
  exact .empty hh (by simp [ElvState.dispatch, lookDispatch_of_nil 0 hq])

/-- **One fetch.**  With a request pending, the driver's next fetch receives one of the pending
requests, and the others are what is pending after it. -/
theorem Inv.fetch_one (hs : s.Inv) (hp : s.pending ≠ []) :
    ∃ rq s₁, NextRequest s s₁ (some rq) ∧ s.pending.Perm (rq :: (s₁.startHead rq).pending) := by
  cases hh : s.q.queueHead with
  | cons rq rest =>
    -- the head of the dispatch queue goes first
    refine ⟨rq, s, .head hh, ?_⟩
    simp only [pending, hh, ElvState.startHead, List.tail_cons]
    exact List.perm_middle
  | nil =>
    -- an empty dispatch queue is refilled with LOOK's choice
    have hq : s.q.look.queue ≠ [] := by simpa [pending, hh] using hp
    obtain ⟨r, q', -, hrmem, heq, -, hqueue, hhead⟩ := hs.queue.lookDispatch 0 hq
    rw [hh, List.perm_singleton] at hhead
    set s₁ : ElvState :=
      { s with q := q', picks := s.picks ++ (lookChoice s.q.look).toList.map (·.id) }
    have hd : s.dispatch 0 = some (s₁, 1) := by simp [ElvState.dispatch, heq, s₁]
    have hn : NextRequest s s₁ (some r) := .again hh hd (by decide) (.head hhead)
    refine ⟨r, s₁, hn, ?_⟩
    simp only [pending, hh, ElvState.startHead, s₁, hqueue, hhead, List.tail_cons, List.append_nil]
    exact List.perm_cons_erase hrmem

/-- **The driver drains the queue.**  From a state of a run with `n` requests pending, the driver
fetches each of them once, and then nothing is pending. -/
theorem Inv.fetches_all : ∀ (n : ℕ) {s : ElvState}, s.Inv → s.pending.length = n →
    ∃ rs s', Fetches s rs s' ∧ rs.Perm s.pending ∧ s'.pending = []
  | 0, s, _, hn =>
    ⟨[], s, .nil s, by rw [List.length_eq_zero_iff.1 hn], List.length_eq_zero_iff.1 hn⟩
  | n + 1, s, hs, hn => by
    obtain ⟨rq, s₁, hnext, hperm⟩ := hs.fetch_one (List.ne_nil_of_length_pos (by omega))
    obtain ⟨hs₁, hhead⟩ := hs.nextRequest hnext
    obtain ⟨rest, hq⟩ := hhead rq rfl
    have hlen : (s₁.startHead rq).pending.length = n := by
      have := hperm.length_eq
      simp only [List.length_cons] at this
      omega
    obtain ⟨rs, s', hf, hrs, hempty⟩ := fetches_all n (hs₁.startHead hq) hlen
    exact ⟨rq :: rs, s', .cons hnext hf, (hrs.cons rq).trans hperm.symm, hempty⟩

end ElvState

open ElvState

/-- **Every request reaches the driver.**  From every state of a run, a driver that keeps calling
`blk_fetch_request` receives each request the queue holds, in LOOK's queue or in the dispatch
queue, exactly once; then nothing is left in either queue and `__elv_next_request` returns
`NULL`.  `look_dispatch` never holds a request back: with its queue not empty it always moves
one to the dispatch queue. -/
theorem elv_fetch_all {s : ElvState} (h : ElvReachable s) :
    ∃ rs s', Fetches s rs s' ∧ rs.Perm (s.q.look.queue ++ s.q.queueHead) ∧
      s'.q.look.queue = [] ∧ s'.q.queueHead = [] ∧ NextRequest s' s' none := by
  obtain ⟨rs, s', hf, hrs, hempty⟩ := (Inv.of_reachable h).fetches_all _ rfl
  exact ⟨rs, s', hf, hrs, (List.append_eq_nil_iff.1 hempty).1, (List.append_eq_nil_iff.1 hempty).2,
    nextRequest_none hempty⟩

/-- With the two writes of `twoRequestsState` queued, the driver fetches both and then finds
nothing. -/
theorem elv_fetch_all_two :
    twoRequestsState.q.look.queue.length = 2 ∧
      ∃ rs s', Fetches twoRequestsState rs s' ∧
        rs.Perm (twoRequestsState.q.look.queue ++ twoRequestsState.q.queueHead) ∧
        s'.q.look.queue = [] ∧ s'.q.queueHead = [] ∧ NextRequest s' s' none :=
  ⟨by decide, elv_fetch_all twoRequestsState_reachable⟩

end SlobLook.Block
