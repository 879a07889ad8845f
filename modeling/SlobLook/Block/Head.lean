import SlobLook.Block.Run

/-!
# Where the head goes

After serving a request, `look_dispatch` puts the head `nd->cur_pos` at the end of the
request's first bio, `r->bio->bi_sector + bio_sectors(r->bio)`.  That is the end of the request
when it has a single bio; a request that grew by merges ends later
(`lookDispatch_head_first_bio_end`, and `lookDispatch_head_before_request_end` for a run that
back-merges).

The second part follows the head through a drain: the calls of `look_dispatch`, with nothing
inserted or merged between them, that empty LOOK's queue.  The direction turns at most twice,
and at most once when the head starts moving up; once it has turned from up to down the
positions served never increase again; and when the head starts moving up over requests whose
extents are disjoint, the order is the LOOK order: up from the head, then down below it.  The
invariant behind the bound is `LookData.Descending`: after the turn from up to down, every queued
request lies at or below both the head and the last position served.
-/

/-- Two entries of a pairwise related list, the second taken from the list without the first,
are related one way or the other. -/
theorem List.Pairwise.rel_or_rel_of_mem_erase {α : Type*} [DecidableEq α] {R : α → α → Prop}
    {l : List α} (h : l.Pairwise R) {a b : α} (ha : a ∈ l) (hb : b ∈ l.erase a) :
    R a b ∨ R b a := by
  induction l with
  | nil => simp at ha
  | cons c l ih =>
    rw [List.pairwise_cons] at h
    by_cases hca : c = a
    · subst hca
      rw [List.erase_cons_head] at hb
      exact .inl (h.1 b hb)
    · have ha' : a ∈ l := (List.mem_cons.1 ha).resolve_left (Ne.symm hca)
      rw [List.erase_cons_tail (by simpa using hca)] at hb
      rcases List.mem_cons.1 hb with rfl | hb'
      · exact .inr (h.1 a ha')
      · exact ih h.2 ha' hb'

namespace SlobLook.Block

open Request

/-! ## One dispatch -/

/-- **A dispatching call of `look_dispatch`** serves LOOK's choice `r`: afterwards LOOK's data is
`served`, with the head at the end of `r`'s first bio and the direction `lookNextDir`. -/
theorem lookDispatch_eq_some_one {q q' : RequestQueue} {force : ℤ}
    (hdir : q.look.dir = 0 ∨ q.look.dir = 1) (hbio : ∀ rq ∈ q.look.queue, rq.bios ≠ [])
    (h : q.lookDispatch force = some (q', 1)) :
    ∃ r bio rest, lookChoice q.look = some r ∧ r ∈ q.look.queue ∧ r.bios = bio :: rest ∧
      q'.look = q.look.served r bio (lookNextDir q.look) := by
  by_cases hq : q.look.queue = []
  · rw [lookDispatch_of_nil force hq] at h
    simp at h
  · obtain ⟨r, bio, rest, hr, hrmem, hbios, heq⟩ := lookDispatch_of_ne_nil force hdir hbio hq
    rw [heq, Option.some.injEq, Prod.mk.injEq] at h
    obtain ⟨rfl, -⟩ := h
    exact ⟨r, bio, rest, hr, hrmem, hbios, RequestQueue.elvDispatchSort_look _ _⟩

/-- **The head after a dispatch.**  In every state a run reaches, a call of `look_dispatch` that
dispatches LOOK's choice `r` leaves the head at the end of `r`'s first bio,
`blk_rq_pos(r) + bio_sectors(r->bio)`: within `r`'s extent, and at its end
`blk_rq_pos(r) + blk_rq_sectors(r)` when `r` has a single bio. -/
theorem lookDispatch_head_first_bio_end {s s' : ElvState} {force : ℤ} (h : ElvReachable s)
    (hd : s.dispatch force = some (s', 1)) :
    ∃ r bio rest, lookChoice s.q.look = some r ∧ r.bios = bio :: rest ∧
      s'.q.look.curPos = r.blkRqPos + bioSectors bio ∧
      s'.q.look.curPos ≤ r.blkRqPos + r.blkRqSectors ∧
      (rest = [] → s'.q.look.curPos = r.blkRqPos + r.blkRqSectors) := by
  have hq := (ElvState.Inv.of_reachable h).queue
  obtain ⟨r, bio, rest, hr, hrmem, hbios, hlook⟩ :=
    lookDispatch_eq_some_one hq.dir hq.bios_ne_nil (ElvState.dispatch_q hd)
  have hwf := hq.wellFormed r hrmem
  have hcur : s'.q.look.curPos = bio.sector + bioSectors bio := by
    rw [hlook]
    rfl
  refine ⟨r, bio, rest, hr, hbios, ?_, ?_, ?_⟩
  · rw [hcur, hwf.firstBio_sector hbios]
  · rw [hcur]
    exact hwf.firstBio_end_le hbios
  · rintro rfl
    rw [hcur]
    exact hwf.firstBio_end_of_single hbios

/-- A write of eight sectors at sector `0`, then one of eight sectors at sector `8`, which
`__make_request` merges at the back of the first request. -/
def backMergedState : ElvState :=
  let s₁ := ElvState.init.afterBio (ElvState.init.q.makeRequest ⟨0, 4096⟩ true 1 true true true)
  s₁.afterBio (s₁.q.makeRequest ⟨8, 4096⟩ true 2 true true true)

theorem backMergedState_reachable : ElvReachable backMergedState := by
  have h₁ : ElvReachable
      (ElvState.init.afterBio (ElvState.init.q.makeRequest ⟨0, 4096⟩ true 1 true true true)) :=
    .single (ElvStep.bio ⟨0, 4096⟩ true 1 true true true ⟨by decide, by decide⟩)
  refine .tail h₁ ?_
  exact ElvStep.bio ⟨8, 4096⟩ true 2 true true true ⟨by decide, by decide⟩

theorem lookDispatch_head_first_bio_end_merged :
    ∃ s', ElvReachable backMergedState ∧ backMergedState.dispatch 0 = some (s', 1) ∧
      ∃ r bio rest, lookChoice backMergedState.q.look = some r ∧ r.bios = bio :: rest ∧
        s'.q.look.curPos = r.blkRqPos + bioSectors bio ∧
        s'.q.look.curPos ≤ r.blkRqPos + r.blkRqSectors ∧
        (rest = [] → s'.q.look.curPos = r.blkRqPos + r.blkRqSectors) :=
  ⟨_, backMergedState_reachable, rfl,
    lookDispatch_head_first_bio_end backMergedState_reachable (rfl : backMergedState.dispatch 0 = _)⟩

/-- After the back merge, LOOK serves the request of sixteen sectors at `0` and leaves the head
at sector `8`, the end of its first bio, not at its end `16`. -/
theorem lookDispatch_head_before_request_end :
    ∃ s s' r, ElvReachable s ∧ s.dispatch 0 = some (s', 1) ∧ lookChoice s.q.look = some r ∧
      s'.q.look.curPos ≠ r.blkRqPos + r.blkRqSectors :=
  ⟨backMergedState, _, _, backMergedState_reachable, rfl, rfl, by decide⟩

/-! ## The calls of a drain -/

/-- `DispatchRun q rs q'`: successive calls of `look_dispatch` from `q`, with nothing inserted or
merged between them, each dispatch a request; `rs` lists, call by call, the request served and
`nd->dir` after the call, and the run ends in `q'`. -/
inductive DispatchRun : RequestQueue → List (Request × ℕ) → RequestQueue → Prop
  | nil (q : RequestQueue) : DispatchRun q [] q
  | cons {q q' q'' : RequestQueue} {rs : List (Request × ℕ)} {r : Request} (force : ℤ) :
      q.lookDispatch force = some (q', 1) → lookChoice q.look = some r → DispatchRun q' rs q'' →
      DispatchRun q ((r, q'.look.dir) :: rs) q''

/-- How many times a sequence of directions changes. -/
def dirChanges : List ℕ → ℕ
  | a :: b :: l => (if a = b then 0 else 1) + dirChanges (b :: l)
  | _ => 0

theorem dirChanges_of_forall_eq {a : ℕ} {l : List ℕ} (h : ∀ x ∈ l, x = a) :
    dirChanges (a :: l) = 0 := by
  induction l with
  | nil => rfl
  | cons b l ih =>
    obtain rfl : b = a := h b (by simp)
    rw [dirChanges, if_pos rfl, ih (fun x hx => h x (List.mem_cons_of_mem _ hx))]

/-- Requests whose extents `[blk_rq_pos, blk_rq_pos + blk_rq_sectors)` are non-empty and
pairwise disjoint. -/
structure Separated (queue : List Request) : Prop where
  sectors_pos : ∀ r ∈ queue, 0 < r.blkRqSectors
  disjoint : queue.Pairwise fun a b => a.rqEndSector ≤ b.blkRqPos ∨ b.rqEndSector ≤ a.blkRqPos

namespace Separated

variable {queue : List Request}

theorem erase (h : Separated queue) (r : Request) : Separated (queue.erase r) :=
  ⟨fun x hx => h.sectors_pos x (List.mem_of_mem_erase hx), h.disjoint.erase r⟩

/-- Of two separated requests, the one that starts first ends before the other starts. -/
theorem end_le {a b : Request} (h : Separated queue) (ha : a ∈ queue) (hb : b ∈ queue.erase a)
    (hab : a.blkRqPos ≤ b.blkRqPos) : a.rqEndSector ≤ b.blkRqPos := by
  have hbpos := h.sectors_pos b (List.mem_of_mem_erase hb)
  have hsep := h.disjoint.rel_or_rel_of_mem_erase ha hb
  unfold rqEndSector at hsep ⊢
  omega

theorem lt_of_le {a b : Request} (h : Separated queue) (ha : a ∈ queue) (hb : b ∈ queue.erase a)
    (hba : b.blkRqPos ≤ a.blkRqPos) : b.blkRqPos < a.blkRqPos := by
  have hapos := h.sectors_pos a ha
  have hbpos := h.sectors_pos b (List.mem_of_mem_erase hb)
  have hsep := h.disjoint.rel_or_rel_of_mem_erase ha hb
  unfold rqEndSector at hsep
  omega

end Separated

namespace LookData

/-- What LOOK relies on at a call: the direction is `0` or `1`, and the requests are well
formed, so each has a first bio. -/
structure Ready (nd : LookData) : Prop where
  dir : nd.dir = 0 ∨ nd.dir = 1
  wellFormed : ∀ r ∈ nd.queue, r.WellFormed

/-- After the turn from up to down: moving down, with every queued request at or below both the
head and `p`, the last position served. -/
structure Descending (nd : LookData) (p : ℕ) : Prop where
  dir : nd.dir = 0
  le_curPos : ∀ r ∈ nd.queue, r.blkRqPos ≤ nd.curPos
  le_last : ∀ r ∈ nd.queue, r.blkRqPos ≤ p

/-- Moving up from the head position `c₀`: the head has only moved up, and the requests at or
above it are those at or above `c₀`. -/
structure Ascending (nd : LookData) (c₀ : ℕ) : Prop where
  dir : nd.dir = 1
  le_curPos : c₀ ≤ nd.curPos
  above_iff : ∀ r ∈ nd.queue, c₀ ≤ r.blkRqPos ↔ nd.curPos ≤ r.blkRqPos

variable {nd : LookData} {r : Request} {bio : Bio} {rest : List Bio}

@[simp] theorem served_queue (d : ℕ) : (nd.served r bio d).queue = nd.queue.erase r := rfl
@[simp] theorem served_curPos (d : ℕ) : (nd.served r bio d).curPos = bio.sector + bioSectors bio :=
  rfl
@[simp] theorem served_dir (d : ℕ) : (nd.served r bio d).dir = d := rfl

theorem Ready.served (h : nd.Ready) : (nd.served r bio (lookNextDir nd)).Ready :=
  ⟨lookNextDir_eq_zero_or_one nd, fun x hx => h.wellFormed x (List.mem_of_mem_erase hx)⟩

/-- Serving a well-formed request puts the head inside its extent. -/
theorem le_served_curPos (hwf : r.WellFormed) (hb : r.bios = bio :: rest) (d : ℕ) :
    r.blkRqPos ≤ (nd.served r bio d).curPos := by
  rw [served_curPos, hwf.firstBio_sector hb]
  exact Nat.le_add_right _ _

theorem served_curPos_le (hwf : r.WellFormed) (hb : r.bios = bio :: rest) (d : ℕ) :
    (nd.served r bio d).curPos ≤ r.rqEndSector := by
  rw [served_curPos]
  exact hwf.firstBio_end_le hb

/-- Serving a highest request while moving down leaves everything at or below it. -/
theorem descending_served (hwf : r.WellFormed) (hb : r.bios = bio :: rest)
    (hmax : ∀ x ∈ nd.queue, x.blkRqPos ≤ r.blkRqPos) : (nd.served r bio 0).Descending r.blkRqPos where
  dir := rfl
  le_curPos x hx := (hmax x (List.mem_of_mem_erase hx)).trans (le_served_curPos hwf hb 0)
  le_last x hx := hmax x (List.mem_of_mem_erase hx)

/-- Moving down with everything below the head, LOOK keeps moving down and serves a highest
request, no higher than the last one. -/
theorem Descending.step {p : ℕ} (h : nd.Descending p) (hr : lookChoice nd = some r)
    (hwf : r.WellFormed) (hb : r.bios = bio :: rest) :
    lookNextDir nd = 0 ∧ r.blkRqPos ≤ p ∧ (∀ x ∈ nd.queue, x.blkRqPos ≤ r.blkRqPos) ∧
      (nd.served r bio (lookNextDir nd)).Descending r.blkRqPos := by
  have hrmem := lookChoice_mem hr
  have hlower : ∀ x ∈ nd.queue, x ∈ lowerSet nd.curPos nd.queue := fun x hx =>
    List.mem_filter.2 ⟨hx, by simpa using h.le_curPos x hx⟩
  have hd : lookNextDir nd = 0 := by
    unfold lookNextDir
    rw [if_neg]
    rintro (⟨h1, -⟩ | ⟨-, h2⟩)
    · rw [h.dir] at h1
      exact absurd h1 (by decide)
    · exact absurd (h2 ▸ hlower r hrmem) (List.not_mem_nil)
  have hmax : ∀ x ∈ nd.queue, x.blkRqPos ≤ r.blkRqPos := fun x hx =>
    (lookChoice_down hd hr).2 x (hlower x hx)
  refine ⟨hd, h.le_last r hrmem, hmax, ?_⟩
  rw [hd]
  exact descending_served hwf hb hmax

/-- The turn from up to down: nothing is at or above the head, LOOK serves a highest request,
and moves down from it with everything below. -/
theorem turn_down (hdir : nd.dir = 1) (hd : lookNextDir nd = 0) (hr : lookChoice nd = some r)
    (hwf : r.WellFormed) (hb : r.bios = bio :: rest) :
    (∀ x ∈ nd.queue, x.blkRqPos < nd.curPos) ∧ (∀ x ∈ nd.queue, x.blkRqPos ≤ r.blkRqPos) ∧
      (nd.served r bio (lookNextDir nd)).Descending r.blkRqPos := by
  have hbelow : ∀ x ∈ nd.queue, x.blkRqPos < nd.curPos := by
    intro x hx
    by_contra hle
    have hH : x ∈ higherSet nd.curPos nd.queue := List.mem_filter.2 ⟨hx, by simpa using hle⟩
    unfold lookNextDir at hd
    rw [if_pos (.inl ⟨hdir, List.ne_nil_of_mem hH⟩)] at hd
    exact absurd hd (by decide)
  have hmax : ∀ x ∈ nd.queue, x.blkRqPos ≤ r.blkRqPos := fun x hx =>
    (lookChoice_down hd hr).2 x (List.mem_filter.2 ⟨hx, by simpa using (hbelow x hx).le⟩)
  refine ⟨hbelow, hmax, ?_⟩
  rw [hd]
  exact descending_served hwf hb hmax

/-- Moving up over separated requests, LOOK serves the lowest request at or above `c₀`, below
every other one there, and keeps the requests at or above the head those at or above `c₀`. -/
theorem Ascending.step_up {c₀ : ℕ} (h : nd.Ascending c₀) (hsep : Separated nd.queue)
    (hd : lookNextDir nd = 1) (hr : lookChoice nd = some r) (hwf : r.WellFormed)
    (hb : r.bios = bio :: rest) :
    c₀ ≤ r.blkRqPos ∧ (∀ x ∈ nd.queue.erase r, c₀ ≤ x.blkRqPos → r.blkRqPos < x.blkRqPos) ∧
      (nd.served r bio (lookNextDir nd)).Ascending c₀ := by
  have hrmem := lookChoice_mem hr
  obtain ⟨hrH, hmin⟩ := lookChoice_up hd hr
  have hcr : nd.curPos ≤ r.blkRqPos := by simpa [higherSet] using (List.mem_filter.1 hrH).2
  have hc₀r : c₀ ≤ r.blkRqPos := (h.above_iff r hrmem).2 hcr
  -- a request above `c₀` other than `r` lies past the end of `r`, hence past the new head
  have hpast : ∀ x ∈ nd.queue.erase r, c₀ ≤ x.blkRqPos → r.rqEndSector ≤ x.blkRqPos := by
    intro x hx hc₀x
    have hxH : x ∈ higherSet nd.curPos nd.queue :=
      List.mem_filter.2 ⟨List.mem_of_mem_erase hx, by
        simpa using (h.above_iff x (List.mem_of_mem_erase hx)).1 hc₀x⟩
    exact hsep.end_le hrmem hx (hmin x hxH)
  have hrpos := hsep.sectors_pos r hrmem
  refine ⟨hc₀r, fun x hx hc₀x => ?_, ?_⟩
  · have := hpast x hx hc₀x
    unfold rqEndSector at this
    omega
  · rw [hd]
    refine ⟨rfl, h.le_curPos.trans (hcr.trans (le_served_curPos hwf hb 1)), fun x hx => ?_⟩
    constructor
    · intro hc₀x
      exact (served_curPos_le hwf hb 1).trans (hpast x hx hc₀x)
    · intro hcx
      exact h.le_curPos.trans (hcr.trans ((le_served_curPos hwf hb 1).trans hcx))

end LookData

namespace DispatchRun

open LookData

/-- A call of a run, from a ready state, serves LOOK's choice and leaves a ready state. -/
theorem look_eq {q q' : RequestQueue} {force : ℤ} {r : Request} (hq : q.look.Ready)
    (h : q.lookDispatch force = some (q', 1)) (hr : lookChoice q.look = some r) :
    ∃ bio rest, r ∈ q.look.queue ∧ r.bios = bio :: rest ∧
      q'.look = q.look.served r bio (lookNextDir q.look) ∧ q'.look.Ready := by
  obtain ⟨r', bio, rest, hr', hmem, hb, hlook⟩ :=
    lookDispatch_eq_some_one hq.dir (fun x hx => (hq.wellFormed x hx).bios_ne_nil) h
  obtain rfl : r' = r := Option.some.inj (hr'.symm.trans hr)
  exact ⟨bio, rest, hmem, hb, hlook, hlook ▸ hq.served⟩

/-- From a descending state the head keeps moving down, over positions that never increase and
stay at or below the last one served. -/
theorem descending {q q' : RequestQueue} {rs : List (Request × ℕ)} (hrun : DispatchRun q rs q') :
    ∀ {p : ℕ}, q.look.Ready → q.look.Descending p →
      (∀ x ∈ rs, x.2 = 0) ∧ rs.Pairwise (fun x y => y.1.blkRqPos ≤ x.1.blkRqPos) ∧
        ∀ x ∈ rs, x.1.blkRqPos ≤ p := by
  induction hrun with
  | nil => simp
  | cons force h hr _ ih =>
    intro p hq hdesc
    obtain ⟨bio, rest, hmem, hb, hlook, hq'⟩ := look_eq hq h hr
    obtain ⟨hd, hle, -, hdesc'⟩ := hdesc.step hr (hq.wellFormed _ hmem) hb
    rw [← hlook] at hdesc'
    obtain ⟨h0, hpair, hbelow⟩ := ih hq' hdesc'
    refine ⟨?_, List.pairwise_cons.2 ⟨fun y hy => hbelow y hy, hpair⟩, ?_⟩
    · intro x hx
      rcases List.mem_cons.1 hx with rfl | hx
      · rw [hlook, served_dir, hd]
      · exact h0 x hx
    · intro x hx
      rcases List.mem_cons.1 hx with rfl | hx
      · exact hle
      · exact (hbelow x hx).trans hle

/-- Moving up, the direction changes at most once: once it turns down it stays down. -/
theorem dirChanges_up {q₀ q₁ : RequestQueue} {rs : List (Request × ℕ)}
    (hrun : DispatchRun q₀ rs q₁) :
    q₀.look.Ready → q₀.look.dir = 1 → dirChanges (1 :: rs.map Prod.snd) ≤ 1 := by
  induction hrun with
  | nil => intro _ _; simp [dirChanges]
  | @cons q q' q'' rs r force h hr hrun ih =>
    intro hq hdir
    obtain ⟨bio, rest, hmem, hb, hlook, hq'⟩ := look_eq hq h hr
    rcases lookNextDir_eq_zero_or_one q.look with hd | hd
    · -- the turn down: the rest of the run moves down
      obtain ⟨-, -, hdesc⟩ := turn_down hdir hd hr (hq.wellFormed _ hmem) hb
      rw [← hlook] at hdesc
      have h0 := (hrun.descending hq' hdesc).1
      have hdir' : q'.look.dir = 0 := by rw [hlook, served_dir, hd]
      have hzero : ∀ x ∈ rs.map Prod.snd, x = 0 := by
        intro x hx
        obtain ⟨y, hy, rfl⟩ := List.mem_map.1 hx
        exact h0 y hy
      show dirChanges (1 :: q'.look.dir :: rs.map Prod.snd) ≤ 1
      rw [hdir', dirChanges, if_neg (by decide), dirChanges_of_forall_eq hzero]
    · have hdir' : q'.look.dir = 1 := by rw [hlook, served_dir, hd]
      have := ih hq' hdir'
      show dirChanges (1 :: q'.look.dir :: rs.map Prod.snd) ≤ 1
      rw [hdir', dirChanges, if_pos rfl]
      omega

/-- The direction changes at most twice. -/
theorem dirChanges_le_two {q₀ q₁ : RequestQueue} {rs : List (Request × ℕ)}
    (hrun : DispatchRun q₀ rs q₁) :
    q₀.look.Ready → dirChanges (q₀.look.dir :: rs.map Prod.snd) ≤ 2 := by
  induction hrun with
  | nil => intro _; simp [dirChanges]
  | @cons q q' q'' rs r force h hr hrun ih =>
    intro hq
    obtain ⟨bio, rest, hmem, hb, hlook, hq'⟩ := look_eq hq h hr
    rcases hq.dir with hdir | hdir
    · -- moving down, the head turns up at most once, and then at most once more
      rcases lookNextDir_eq_zero_or_one q.look with hd | hd
      · have hdir' : q'.look.dir = 0 := by rw [hlook, served_dir, hd]
        have := ih hq'
        show dirChanges (q.look.dir :: q'.look.dir :: rs.map Prod.snd) ≤ 2
        rw [hdir, hdir', dirChanges, if_pos rfl]
        rw [hdir'] at this
        omega
      · have hdir' : q'.look.dir = 1 := by rw [hlook, served_dir, hd]
        have := hrun.dirChanges_up hq' hdir'
        show dirChanges (q.look.dir :: q'.look.dir :: rs.map Prod.snd) ≤ 2
        rw [hdir, hdir', dirChanges, if_neg (by decide)]
        omega
    · have := (DispatchRun.cons force h hr hrun).dirChanges_up hq hdir
      rw [hdir]
      omega

/-- From the call that turns the head from up to down, the positions served never increase. -/
theorem nonincreasing_after_turn {q₀ q₁ : RequestQueue} {rs : List (Request × ℕ)}
    (hrun : DispatchRun q₀ rs q₁) :
    q₀.look.Ready → ∀ pre r post, rs = pre ++ (r, 0) :: post →
      (q₀.look.dir :: pre.map Prod.snd).getLast? = some 1 →
      ((r, 0) :: post).Pairwise (fun x y => y.1.blkRqPos ≤ x.1.blkRqPos) := by
  induction hrun with
  | nil => intro _ pre r post hs; simp at hs
  | @cons q q' q'' rs r₀ force h hr hrun ih =>
    intro hq pre r post hs hlast
    obtain ⟨bio, rest, hmem, hb, hlook, hq'⟩ := look_eq hq h hr
    cases pre with
    | nil =>
      -- this call is the turn
      obtain ⟨⟨rfl, hdir'⟩, rfl⟩ := List.cons.inj hs |>.imp_left Prod.mk.inj
      have hdir : q.look.dir = 1 := by simpa using hlast
      have hd : lookNextDir q.look = 0 := by rw [← hdir', hlook, served_dir]
      obtain ⟨-, -, hdesc⟩ := turn_down hdir hd hr (hq.wellFormed _ hmem) hb
      rw [← hlook] at hdesc
      obtain ⟨-, hpair, hbelow⟩ := hrun.descending hq' hdesc
      exact List.pairwise_cons.2 ⟨fun y hy => hbelow y hy, hpair⟩
    | cons x pre =>
      obtain ⟨rfl, hs'⟩ := List.cons.inj hs
      refine ih hq' pre r post hs' ?_
      simpa [List.getLast?_cons_cons] using hlast

/-- Moving down over separated requests until the queue is empty serves them all, in
decreasing position. -/
theorem descending_order {q₀ q₁ : RequestQueue} {rs : List (Request × ℕ)}
    (hrun : DispatchRun q₀ rs q₁) :
    ∀ {p : ℕ}, q₀.look.Ready → Separated q₀.look.queue → q₀.look.Descending p →
      q₁.look.queue = [] →
      (rs.map Prod.fst).Perm q₀.look.queue ∧
        (rs.map Prod.fst).Pairwise (fun a b => b.blkRqPos < a.blkRqPos) := by
  induction hrun with
  | nil q => intro _ _ _ _ hend; simp [hend]
  | @cons q q' q'' rs r force h hr hrun ih =>
    intro p hq hsep hdesc hend
    obtain ⟨bio, rest, hmem, hb, hlook, hq'⟩ := look_eq hq h hr
    obtain ⟨-, -, hmax, hdesc'⟩ := hdesc.step hr (hq.wellFormed _ hmem) hb
    rw [← hlook] at hdesc'
    have hqueue : q'.look.queue = q.look.queue.erase r := by rw [hlook, served_queue]
    obtain ⟨hperm, hpair⟩ := ih hq' (hqueue ▸ hsep.erase r) hdesc' hend
    rw [hqueue] at hperm
    refine ⟨(hperm.cons r).trans (List.perm_cons_erase hmem).symm, List.pairwise_cons.2 ⟨?_, hpair⟩⟩
    -- `r` is highest, and strictly so among separated requests
    intro y hy
    have hy' := hperm.mem_iff.1 hy
    exact hsep.lt_of_le hmem hy' (hmax y (List.mem_of_mem_erase hy'))

/-- Moving up from `c₀` over separated requests until the queue is empty serves those at or
above `c₀` in increasing position, then the others in decreasing position. -/
theorem ascending_order {q₀ q₁ : RequestQueue} {rs : List (Request × ℕ)}
    (hrun : DispatchRun q₀ rs q₁) :
    ∀ {c₀ : ℕ}, q₀.look.Ready → Separated q₀.look.queue → q₀.look.Ascending c₀ →
      q₁.look.queue = [] →
      ∃ H L, rs.map Prod.fst = H ++ L ∧
        H.Perm (q₀.look.queue.filter fun x => c₀ ≤ x.blkRqPos) ∧
        H.Pairwise (fun a b => a.blkRqPos < b.blkRqPos) ∧
        L.Perm (q₀.look.queue.filter fun x => x.blkRqPos < c₀) ∧
        L.Pairwise (fun a b => b.blkRqPos < a.blkRqPos) := by
  induction hrun with
  | nil q => intro _ _ _ _ hend; exact ⟨[], [], rfl, by simp [hend], .nil, by simp [hend], .nil⟩
  | @cons q q' q'' rs r force h hr hrun ih =>
    intro c₀ hq hsep hasc hend
    obtain ⟨bio, rest, hmem, hb, hlook, hq'⟩ := look_eq hq h hr
    have hwf := hq.wellFormed _ hmem
    have hqueue : q'.look.queue = q.look.queue.erase r := by rw [hlook, served_queue]
    have hsep' : Separated q'.look.queue := hqueue ▸ hsep.erase r
    rcases lookNextDir_eq_zero_or_one q.look with hd | hd
    · -- the turn down: everything left lies below `c₀`
      obtain ⟨hbelow, hmax, hdesc⟩ := turn_down hasc.dir hd hr hwf hb
      rw [← hlook] at hdesc
      obtain ⟨hperm, hpair⟩ := hrun.descending_order hq' hsep' hdesc hend
      rw [hqueue] at hperm
      have hlow : ∀ x ∈ q.look.queue, x.blkRqPos < c₀ := fun x hx =>
        Nat.lt_of_not_le fun hc => absurd ((hasc.above_iff x hx).1 hc) (Nat.not_le.2 (hbelow x hx))
      refine ⟨[], r :: rs.map Prod.fst, rfl, ?_, .nil, ?_, List.pairwise_cons.2 ⟨?_, hpair⟩⟩
      · rw [List.filter_eq_nil_iff.2 fun x hx => by simpa using hlow x hx]
      · rw [List.filter_eq_self.2 fun x hx => by simpa using hlow x hx]
        exact (hperm.cons r).trans (List.perm_cons_erase hmem).symm
      · intro y hy
        have hy' := hperm.mem_iff.1 hy
        exact hsep.lt_of_le hmem hy' (hmax y (List.mem_of_mem_erase hy'))
    · -- moving on up: `r` is the lowest request at or above `c₀`
      obtain ⟨hc₀r, hlt, hasc'⟩ := hasc.step_up hsep hd hr hwf hb
      rw [← hlook] at hasc'
      obtain ⟨H, L, hsplit, hH, hHpair, hL, hLpair⟩ := ih hq' hsep' hasc' hend
      rw [hqueue, ← List.erase_filter] at hH hL
      have hrH : r ∈ q.look.queue.filter fun x => c₀ ≤ x.blkRqPos :=
        List.mem_filter.2 ⟨hmem, by simpa using hc₀r⟩
      have hrL : r ∉ q.look.queue.filter fun x => x.blkRqPos < c₀ := fun h' => by
        have := (List.mem_filter.1 h').2
        simp at this
        omega
      refine ⟨r :: H, L, by simp [hsplit], (hH.cons r).trans (List.perm_cons_erase hrH).symm,
        List.pairwise_cons.2 ⟨fun y hy => ?_, hHpair⟩, List.erase_of_not_mem hrL ▸ hL, hLpair⟩
      have hy' : y ∈ (q.look.queue.erase r).filter fun x => c₀ ≤ x.blkRqPos := by
        rw [← List.erase_filter]
        exact hH.mem_iff.1 hy
      obtain ⟨hyq, hyc⟩ := List.mem_filter.1 hy'
      exact hlt y hyq (by simpa using hyc)

end DispatchRun

/-- **The sweep of a drain.**  Take LOOK's queue `Q`, head `c` and direction `d`, with every
request well formed, and calls of `look_dispatch` that, with nothing inserted or merged between
them, empty `Q`, as `elv_drain_elevator` does.  The direction changes at most twice, and at most
once if `d = 1`; from the call that turns it from up to down, the positions served never
increase; and if `d = 1` and the requests' extents are non-empty and pairwise disjoint, the
requests at or above `c` are served first, in increasing position, then those below `c`, in
decreasing position. -/
theorem lookDispatch_drain_sweep {q q' : RequestQueue} {rs : List (Request × ℕ)}
    (hdir : q.look.dir = 0 ∨ q.look.dir = 1) (hwf : ∀ r ∈ q.look.queue, r.WellFormed)
    (hrun : DispatchRun q rs q') (hend : q'.look.queue = []) :
    dirChanges (q.look.dir :: rs.map Prod.snd) ≤ 2 ∧
      (q.look.dir = 1 → dirChanges (q.look.dir :: rs.map Prod.snd) ≤ 1) ∧
      (∀ pre r post, rs = pre ++ (r, 0) :: post →
        (q.look.dir :: pre.map Prod.snd).getLast? = some 1 →
        ((r :: post.map Prod.fst).map blkRqPos).Pairwise (· ≥ ·)) ∧
      (q.look.dir = 1 → Separated q.look.queue →
        ∃ H L, rs.map Prod.fst = H ++ L ∧
          H.Perm (q.look.queue.filter fun r => q.look.curPos ≤ r.blkRqPos) ∧
          (H.map blkRqPos).Pairwise (· < ·) ∧
          L.Perm (q.look.queue.filter fun r => r.blkRqPos < q.look.curPos) ∧
          (L.map blkRqPos).Pairwise (· > ·)) := by
  have hq : q.look.Ready := ⟨hdir, hwf⟩
  refine ⟨hrun.dirChanges_le_two hq, fun h1 => ?_, fun pre r post hs hl => ?_, fun h1 hsep => ?_⟩
  · rw [h1]
    exact hrun.dirChanges_up hq h1
  · have h := hrun.nonincreasing_after_turn hq pre r post hs hl
    rw [show r :: post.map Prod.fst = ((r, 0) :: post).map Prod.fst from rfl]
    exact List.pairwise_map.2 (List.pairwise_map.2 h)
  · obtain ⟨H, L, hsplit, hH, hHpair, hL, hLpair⟩ :=
      hrun.ascending_order hq hsep ⟨h1, le_rfl, fun _ _ => Iff.rfl⟩ hend
    exact ⟨H, L, hsplit, hH, List.pairwise_map.2 hHpair, hL, List.pairwise_map.2 hLpair⟩

/-- Three requests around the head at sector `10`, LOOK moving up: eight sectors at `20`, four
at `4` and eight at `40`. -/
def sweepSample : RequestQueue :=
  { RequestQueue.init with
    look := ⟨[Request.ofBio 1 ⟨20, 4096⟩ true, Request.ofBio 2 ⟨4, 2048⟩ true,
      Request.ofBio 3 ⟨40, 4096⟩ true], 10, 1⟩ }

/-- LOOK serves `20` and `40` moving up, turns down once and serves `4`; the extents are
disjoint, so the order is the sweep. -/
theorem lookDispatch_drain_sweep_sample :
    ∃ rs q', DispatchRun sweepSample rs q' ∧ q'.look.queue = [] ∧ sweepSample.look.dir = 1 ∧
      Separated sweepSample.look.queue ∧
      rs.map (fun x => (x.1.blkRqPos, x.2)) = [(20, 1), (40, 1), (4, 0)] ∧
      dirChanges (sweepSample.look.dir :: rs.map Prod.snd) ≤ 2 ∧
      (sweepSample.look.dir = 1 → dirChanges (sweepSample.look.dir :: rs.map Prod.snd) ≤ 1) ∧
      (∀ pre r post, rs = pre ++ (r, 0) :: post →
        (sweepSample.look.dir :: pre.map Prod.snd).getLast? = some 1 →
        ((r :: post.map Prod.fst).map blkRqPos).Pairwise (· ≥ ·)) ∧
      (sweepSample.look.dir = 1 → Separated sweepSample.look.queue →
        ∃ H L, rs.map Prod.fst = H ++ L ∧
          H.Perm (sweepSample.look.queue.filter fun r => sweepSample.look.curPos ≤ r.blkRqPos) ∧
          (H.map blkRqPos).Pairwise (· < ·) ∧
          L.Perm (sweepSample.look.queue.filter fun r => r.blkRqPos < sweepSample.look.curPos) ∧
          (L.map blkRqPos).Pairwise (· > ·)) := by
  have hrun : DispatchRun sweepSample _ _ :=
    .cons 0 rfl rfl (.cons 0 rfl rfl (.cons 0 rfl rfl (.nil _)))
  have hwf : ∀ r ∈ sweepSample.look.queue, r.WellFormed := by
    simp only [sweepSample, List.mem_cons, List.not_mem_nil, or_false]
    rintro r (rfl | rfl | rfl) <;> exact wellFormed_ofBio _ _ _
  have hsep : Separated sweepSample.look.queue := ⟨by decide, by decide⟩
  exact ⟨_, _, hrun, rfl, rfl, hsep, rfl, lookDispatch_drain_sweep (.inr rfl) hwf hrun rfl⟩

end SlobLook.Block
