import SlobLook.Slob.AllocSpec
import SlobLook.Slob.FreeSpec

/-!
# Runs of the slob allocator

A run is a sequence of the calls the allocator's callers make (`SlobStep`): `slob_alloc` of a
request of one unit up to a page, with no alignment or a power of two up to a page, given a
frame that holds no slob page when the page allocator has one; `slob_free` of a block handed out
and not yet given back, with the size it was asked for, or of `NULL`; and a write by a caller
into a block it holds.  The blocks handed out and not given back are ghost state, page by page.

Every run from the empty heap keeps the heap well formed (`HeapInv.of_reachable`): the free
chains, stored inside the free blocks, are not touched by writes into the live ones
(`PageInv.setMem`).  In every state it reaches, every call returns, and a block `slob_alloc` hands
out lies in its page, is aligned and overlaps no live block (`slob_heap_invariant`).
-/

namespace SlobLook.Slob

/-- The page allocator's answer to `slob_new_pages`: nothing, or a frame that holds no slob
page. -/
def GrantFresh (h : SlobHeap) (grant : Option (ℕ × ℕ)) : Prop :=
  ∀ pid nid, grant = some (pid, nid) → h.pages pid = none

/-- One call on the slob heap, with the live blocks of each page as ghost state. -/
inductive SlobStep (c : Config) :
    SlobHeap × (ℕ → List (ℤ × ℤ)) → SlobHeap × (ℕ → List (ℤ × ℤ)) → Prop
  /-- `slob_alloc` hands out the block `b` of page `pid`. -/
  | alloc {h h' : SlobHeap} {live : ℕ → List (ℤ × ℤ)} {size align : ℕ} {node : ℤ}
      {grant : Option (ℕ × ℕ)} {pid : ℕ} {b : ℤ} :
      c.ReqOk size → c.AlignOk align → GrantFresh h grant →
      c.slobAlloc h size align node grant = some (h', some (pid, b)) →
      SlobStep c (h, live) (h', Function.update live pid ((b, c.SLOB_UNITS size) :: live pid))
  /-- `slob_alloc` returns `NULL`. -/
  | allocNull {h h' : SlobHeap} {live : ℕ → List (ℤ × ℤ)} {size align : ℕ} {node : ℤ}
      {grant : Option (ℕ × ℕ)} :
      c.ReqOk size → c.AlignOk align → GrantFresh h grant →
      c.slobAlloc h size align node grant = some (h', none) → SlobStep c (h, live) (h', live)
  /-- `slob_free` of a live block, with the size it was handed out for. -/
  | free {h h' : SlobHeap} {live : ℕ → List (ℤ × ℤ)} {pid : ℕ} {b : ℤ} {size : ℕ} :
      (b, (c.SLOB_UNITS size : ℤ)) ∈ live pid → c.slobFree h (some (pid, b)) size = some h' →
      SlobStep c (h, live)
        (h', Function.update live pid ((live pid).erase (b, c.SLOB_UNITS size)))
  /-- `slob_free(NULL)`. -/
  | freeNull {h h' : SlobHeap} {live : ℕ → List (ℤ × ℤ)} {size : ℕ} :
      c.slobFree h none size = some h' → SlobStep c (h, live) (h', live)
  /-- A caller writes `v` into the unit `x` of a block it holds. -/
  | write {h : SlobHeap} {live : ℕ → List (ℤ × ℤ)} {pid : ℕ} {sp : SlobPage} {a : ℤ × ℤ}
      {x : ℤ} (v : ℤ) :
      h.pages pid = some sp → a ∈ live pid → a.1 ≤ x → x < a.1 + a.2 →
      SlobStep c (h, live) (h.setPage pid { sp with mem := Function.update sp.mem x v }, live)

/-- The states the calls reach from the heap before the first `slob_alloc`, where no block is
live. -/
def SlobReachable (c : Config) (s : SlobHeap × (ℕ → List (ℤ × ℤ))) : Prop :=
  Relation.ReflTransGen (SlobStep c) (SlobHeap.empty, fun _ => []) s

/-- A call a caller makes: `slob_alloc(size, gfp, align, node)` with the page allocator's
answer, or `slob_free` of the block at offset `b` of page `pid`. -/
inductive SlobCall
  | alloc (size align : ℕ) (node : ℤ) (grant : Option (ℕ × ℕ))
  | free (pid : ℕ) (b : ℤ) (size : ℕ)
deriving DecidableEq, Repr

namespace Config

variable (c : Config)

/-- The alignment test of a careful caller: none, or a power of two up to a page. -/
def alignOk (align : ℕ) : Bool :=
  align == 0 || (List.range (c.pageShift + 1)).any fun j => align == 2 ^ j

/-- A call by a caller that keeps to the contract of `SlobStep`, on a state; `none` when the
call breaks the contract or does not return. -/
def runCall (s : SlobHeap × (ℕ → List (ℤ × ℤ))) : SlobCall → Option (SlobHeap × (ℕ → List (ℤ × ℤ)))
  | .alloc size align node grant =>
    if 1 ≤ c.SLOB_UNITS size ∧ c.SLOB_UNITS size ≤ c.pageUnits ∧ c.alignOk align = true ∧
        grant.all (fun g => (s.1.pages g.1).isNone) = true then
      match c.slobAlloc s.1 size align node grant with
      | some (h', some (pid, b)) =>
        some (h', Function.update s.2 pid ((b, c.SLOB_UNITS size) :: s.2 pid))
      | some (h', none) => some (h', s.2)
      | none => none
    else none
  | .free pid b size =>
    if (b, (c.SLOB_UNITS size : ℤ)) ∈ s.2 pid then
      (c.slobFree s.1 (some (pid, b)) size).map fun h' =>
        (h', Function.update s.2 pid ((s.2 pid).erase (b, c.SLOB_UNITS size)))
    else none

/-- A run of calls from a state. -/
def runCalls : SlobHeap × (ℕ → List (ℤ × ℤ)) → List SlobCall →
    Option (SlobHeap × (ℕ → List (ℤ × ℤ)))
  | s, [] => some s
  | s, call :: calls => (c.runCall s call).bind fun s' => runCalls s' calls

end Config

variable {c : Config}

theorem alignOk_spec {align : ℕ} (h : c.alignOk align = true) : c.AlignOk align := by
  simp only [Config.alignOk, Bool.or_eq_true, beq_iff_eq, List.any_eq_true, List.mem_range]
    at h
  rcases h with h | ⟨j, hj, rfl⟩
  · exact .inl h
  · exact .inr ⟨⟨j, rfl⟩, Nat.pow_le_pow_right (by norm_num) (by omega)⟩

/-- **A checked call is a step** of a run. -/
theorem runCall_step {s s' : SlobHeap × (ℕ → List (ℤ × ℤ))} {call : SlobCall}
    (h : c.runCall s call = some s') : SlobStep c s s' := by
  obtain ⟨hs, live⟩ := s
  cases call with
  | alloc size align node grant =>
    simp only [Config.runCall] at h
    split_ifs at h with hok
    obtain ⟨hlo, hhi, halign, hgrant⟩ := hok
    have hfresh : GrantFresh hs grant := by
      rintro pid nid rfl
      simpa using hgrant
    split at h
    · next h' pid b hrun =>
      cases h
      exact .alloc ⟨hlo, hhi⟩ (alignOk_spec halign) hfresh hrun
    · next h' hrun =>
      cases h
      exact .allocNull ⟨hlo, hhi⟩ (alignOk_spec halign) hfresh hrun
    · cases h
  | free pid b size =>
    simp only [Config.runCall] at h
    split_ifs at h with hlive
    obtain ⟨h', hrun, rfl⟩ := Option.map_eq_some_iff.1 h
    exact .free hlive hrun

/-- **A checked run is a run**: it reaches a state a run reaches. -/
theorem runCalls_reachable {s s' : SlobHeap × (ℕ → List (ℤ × ℤ))} {calls : List SlobCall}
    (hs : SlobReachable c s) (h : c.runCalls s calls = some s') : SlobReachable c s' := by
  induction calls generalizing s with
  | nil =>
    simp only [Config.runCalls, Option.some.injEq] at h
    exact h ▸ hs
  | cons call calls ih =>
    simp only [Config.runCalls, Option.bind_eq_some_iff] at h
    obtain ⟨s₁, h₁, h₂⟩ := h
    exact ih (hs.tail (runCall_step h₁)) h₂

/-- What a function of the state reads after a checked run, from its value on the run. -/
theorem runCalls_read {s₀ s : SlobHeap × (ℕ → List (ℤ × ℤ))} {calls : List SlobCall}
    (hs : c.runCalls s₀ calls = some s) {β : Type} (f : SlobHeap × (ℕ → List (ℤ × ℤ)) → β)
    {b : β} (hf : (c.runCalls s₀ calls).map f = some b) : f s = b := by
  rw [hs, Option.map_some, Option.some.injEq] at hf
  exact hf

/-- Cells changed only outside the free blocks leave the free chain of a page as it was. -/
theorem PageInv.setMem {sp : SlobPage} {fb live : List (ℤ × ℤ)} (h : PageInv c sp fb live)
    {mem : ℤ → ℤ} (hagree : ∀ I ∈ fb, ∀ x, I.1 ≤ x → x < I.1 + I.2 → mem x = sp.mem x) :
    PageInv c { sp with mem := mem } fb live :=
  ⟨h.links.congr hagree, h.head, h.gaps, h.units, h.tiles, h.livePos, h.total⟩

namespace HeapInv

variable {h : SlobHeap} {live : ℕ → List (ℤ × ℤ)}

/-- Cells of a page changed only outside its free blocks keep the heap well formed. -/
theorem setMem (hinv : HeapInv c h live) {pid : ℕ} {sp : SlobPage} (hp : h.pages pid = some sp)
    {mem : ℤ → ℤ} (hagree : ∀ I ∈ c.freeBlocks sp, ∀ x, I.1 ≤ x → x < I.1 + I.2 → mem x = sp.mem x) :
    HeapInv c (h.setPage pid { sp with mem := mem }) live := by
  have hpage := (hinv.page pid sp hp).setMem hagree
  rw [← Function.update_eq_self pid live]
  refine hinv.update (fun q hq => by simp [hq]) (fun q _ => Iff.rfl) hinv.nodup hinv.medium
    hinv.large (fun sq hsq => ?_) (by simp)
  simp only [SlobHeap.setPage_pages, Function.update_self, Option.some.injEq] at hsq
  subst hsq
  rw [hpage.freeBlocks_eq]
  exact ⟨hpage, hinv.flag pid sp hp, hinv.listed pid |>.trans (by simp [hp])⟩

/-- A write by a caller into a block it holds keeps the heap well formed. -/
theorem write (hinv : HeapInv c h live) {pid : ℕ} {sp : SlobPage} (hp : h.pages pid = some sp)
    {a : ℤ × ℤ} (ha : a ∈ live pid) {x : ℤ} (hx₁ : a.1 ≤ x) (hx₂ : x < a.1 + a.2) (v : ℤ) :
    HeapInv c (h.setPage pid { sp with mem := Function.update sp.mem x v }) live :=
  hinv.setMem hp fun I hI y hy₁ hy₂ => by
    have hapart := (hinv.page pid sp hp).apart hI (show (a.1, a.2) ∈ live pid from ha)
    exact Function.update_of_ne (by omega) _ _

/-- **Step lemma**: every call keeps the heap well formed. -/
theorem step {s s' : SlobHeap × (ℕ → List (ℤ × ℤ))} (hinv : HeapInv c s.1 s.2)
    (hs : SlobStep c s s') : HeapInv c s'.1 s'.2 := by
  cases hs with
  | @alloc h h' live size align node grant pid b hreq halign hgrant hrun =>
    obtain ⟨h'', r, hrun', hr⟩ := hinv.slobAlloc hreq halign node hgrant
    rw [hrun, Option.some.injEq, Prod.mk.injEq] at hrun'
    obtain ⟨rfl, rfl⟩ := hrun'
    rcases hr with ⟨hnone, -⟩ | ⟨pid', b', hr, -, hinv', -⟩
    · cases hnone
    · simp only [Option.some.injEq, Prod.mk.injEq] at hr
      obtain ⟨rfl, rfl⟩ := hr
      exact hinv'
  | @allocNull h h' live size align node grant hreq halign hgrant hrun =>
    obtain ⟨h'', r, hrun', hr⟩ := hinv.slobAlloc hreq halign node hgrant
    rw [hrun, Option.some.injEq, Prod.mk.injEq] at hrun'
    obtain ⟨rfl, rfl⟩ := hrun'
    rcases hr with ⟨-, rfl, -⟩ | ⟨pid', b', hr, -⟩
    · exact hinv
    · cases hr
  | free hlive hrun =>
    obtain ⟨h'', hrun', hinv'⟩ := hinv.slobFree hlive
    rw [hrun, Option.some.injEq] at hrun'
    rw [hrun']
    exact hinv'
  | freeNull hrun =>
    simp only [Config.slobFree, Option.some.injEq] at hrun
    subst hrun
    exact hinv
  | write v hp ha hx₁ hx₂ => exact hinv.write hp ha hx₁ hx₂ v

/-- **Run lemma**: every state a run reaches from the empty heap is well formed. -/
theorem of_reachable {s : SlobHeap × (ℕ → List (ℤ × ℤ))} (hr : SlobReachable c s) :
    HeapInv c s.1 s.2 := by
  induction hr with
  | refl => exact HeapInv.empty c
  | tail _ hs ih => exact ih.step hs

/-- A block just handed out lies in its page and overlaps no block live before. -/
theorem fresh {pid : ℕ} {b u : ℤ}
    (hinv : HeapInv c h (Function.update live pid ((b, u) :: live pid)))
    (hp : (h.pages pid).isSome) :
    0 ≤ b ∧ b + u ≤ c.pageUnits ∧ ∀ a ∈ live pid, b + u ≤ a.1 ∨ a.1 + a.2 ≤ b := by
  obtain ⟨sp, hsp⟩ := Option.isSome_iff_exists.1 hp
  have hmem : (b, u) ∈ Function.update live pid ((b, u) :: live pid) pid := by simp
  have hin := (hinv.page pid sp hsp).liveInside _ hmem
  refine ⟨hin.1, hin.2, fun a ha => ?_⟩
  have hrest : a ∈ (Function.update live pid ((b, u) :: live pid) pid).erase (b, u) := by
    simpa using ha
  exact (hinv.live_disjoint hsp hmem hrest).2.2

end HeapInv

/-- **The slob heap stays well formed.**  In every state a run of calls reaches from the empty
heap: every page is well formed, with its free chain read by `slob_next` from `sp->free` to the
block `slob_last` marks, and is on `free_slob_small`, once, exactly when it has free units; a
call of `slob_alloc` its callers make returns `NULL` only when the page allocator has nothing,
and otherwise hands out an aligned block of its page that overlaps no live block; a call of
`slob_free` of a live block returns; and the state after either call is again one a run
reaches. -/
theorem slob_heap_invariant {h : SlobHeap} {live : ℕ → List (ℤ × ℤ)}
    (hr : SlobReachable c (h, live)) :
    HeapInv c h live ∧
    (∀ pid sp, h.pages pid = some sp → 0 < sp.units →
      LinkWalk.IsWalk (c.slobNext sp.mem) (c.slobLast sp.mem) sp.free
        ((c.freeBlocks sp).map Prod.fst)) ∧
    (∀ size align node grant, c.ReqOk size → c.AlignOk align → GrantFresh h grant →
      ∃ h' r, c.slobAlloc h size align node grant = some (h', r) ∧
        ((r = none ∧ h' = h ∧ grant = none) ∨
          ∃ pid b, r = some (pid, b) ∧
            (align ≠ 0 → ((pid * c.PAGE_SIZE : ℤ) + b * c.SLOB_UNIT) % align = 0) ∧
            0 ≤ b ∧ b + c.SLOB_UNITS size ≤ c.pageUnits ∧
            (∀ a ∈ live pid, b + c.SLOB_UNITS size ≤ a.1 ∨ a.1 + a.2 ≤ b) ∧
            SlobReachable c
              (h', Function.update live pid ((b, c.SLOB_UNITS size) :: live pid)))) ∧
    (∀ pid b size, (b, (c.SLOB_UNITS size : ℤ)) ∈ live pid →
      ∃ h', c.slobFree h (some (pid, b)) size = some h' ∧
        SlobReachable c
          (h', Function.update live pid ((live pid).erase (b, c.SLOB_UNITS size)))) := by
  have hinv : HeapInv c h live := HeapInv.of_reachable hr
  refine ⟨hinv, fun pid sp hp hpos => ?_, fun size align node grant hreq halign hgrant => ?_,
    fun pid b size hlive => ?_⟩
  · have hpage := hinv.page pid sp hp
    obtain ⟨⟨o, k⟩, l, hfb⟩ := List.exists_cons_of_ne_nil ((hpage.units_pos_iff).1 hpos)
    rw [hfb] at hpage ⊢
    have hhead : sp.free = o := hpage.head
    rw [hhead]
    exact (Links.isWalk c hpage.links hpage.gaps hpage.inside).1
  · obtain ⟨h', r, hrun, hr'⟩ := hinv.slobAlloc hreq halign node hgrant
    refine ⟨h', r, hrun, ?_⟩
    rcases hr' with hnull | ⟨pid, b, rfl, hsome, hinv', haligned⟩
    · exact .inl hnull
    · obtain ⟨hb0, hbN, hdisj⟩ := hinv'.fresh hsome
      exact .inr ⟨pid, b, rfl, haligned, hb0, hbN, hdisj,
        hr.tail (.alloc hreq halign hgrant hrun)⟩
  · obtain ⟨h', hrun, -⟩ := hinv.slobFree hlive
    exact ⟨h', hrun, hr.tail (.free hlive hrun)⟩

/-- With 4 KB pages: three allocations of two bytes, the first given frame 7, then the middle
block freed.  Page 7 then holds the live blocks at `0` and `2` and the free blocks `(1, 1)` and
`(3, 2045)`. -/
theorem slob_heap_invariant_three_allocs :
    ∃ s : SlobHeap × (ℕ → List (ℤ × ℤ)), SlobReachable Config.page4k s ∧
      s.2 7 = [(2, 1), (0, 1)] ∧
      (s.1.pages 7).map Config.page4k.freeBlocks = some [(1, 1), (3, 2045)] ∧
      HeapInv Config.page4k s.1 s.2 ∧
      (∀ pid sp, s.1.pages pid = some sp → 0 < sp.units →
        LinkWalk.IsWalk (Config.page4k.slobNext sp.mem) (Config.page4k.slobLast sp.mem) sp.free
          ((Config.page4k.freeBlocks sp).map Prod.fst)) ∧
      (∀ size align node grant, Config.page4k.ReqOk size → Config.page4k.AlignOk align →
        GrantFresh s.1 grant →
        ∃ h' r, Config.page4k.slobAlloc s.1 size align node grant = some (h', r) ∧
          ((r = none ∧ h' = s.1 ∧ grant = none) ∨
            ∃ pid b, r = some (pid, b) ∧
              (align ≠ 0 → ((pid * Config.page4k.PAGE_SIZE : ℤ) + b * Config.page4k.SLOB_UNIT) %
                align = 0) ∧
              0 ≤ b ∧ b + Config.page4k.SLOB_UNITS size ≤ Config.page4k.pageUnits ∧
              (∀ a ∈ s.2 pid, b + Config.page4k.SLOB_UNITS size ≤ a.1 ∨ a.1 + a.2 ≤ b) ∧
              SlobReachable Config.page4k
                (h', Function.update s.2 pid ((b, Config.page4k.SLOB_UNITS size) :: s.2 pid)))) ∧
      (∀ pid b size, (b, (Config.page4k.SLOB_UNITS size : ℤ)) ∈ s.2 pid →
        ∃ h', Config.page4k.slobFree s.1 (some (pid, b)) size = some h' ∧
          SlobReachable Config.page4k
            (h', Function.update s.2 pid ((s.2 pid).erase (b, Config.page4k.SLOB_UNITS size)))) := by
  obtain ⟨s, hs⟩ : ∃ s, Config.page4k.runCalls (SlobHeap.empty, fun _ => [])
      [.alloc 2 0 (-1) (some (7, 0)), .alloc 2 0 (-1) none, .alloc 2 0 (-1) none, .free 7 1 2] =
        some s :=
    Option.isSome_iff_exists.1 (by decide)
  have hr := runCalls_reachable .refl hs
  exact ⟨s, hr, runCalls_read hs (fun s => s.2 7) (by decide),
    runCalls_read hs (fun s => (s.1.pages 7).map Config.page4k.freeBlocks) (by decide),
    slob_heap_invariant hr⟩

end SlobLook.Slob
