import SlobLook.Slob.Heap
import SlobLook.Slob.Align

/-!
# The loops over the chains

On a well-formed page the loops of `find_best_fit_block` and `slob_page_alloc` walk the page's
free blocks (`PageInv.findBestFitBlock_eq`, `PageInv.slobPageAlloc_eq`), and at each step see a
free block with its size, the block before it and the start of the one after it
(`PageInv.block_at`).  The scan of `slob_alloc` runs `find_best_fit_block` over the pages of
`free_slob_small` that it does not skip; `scanPages_rule` is its invariant rule: a property of
the best block and of the blocks seen so far (`scanned`) that every step keeps holds at the end.

The loops have no counter of their own.  They end because `slob_next` moves forward along a
chain whose blocks start at increasing offsets inside the page, so a walk meets the block whose
successor is the end of the page, where `slob_last` holds, within one step per free block
(`free_chain_walks_terminate`); the walk of `slob_free` stops there at the latest, since no
block lies past the end of the page.
-/

namespace SlobLook.Slob

section Page

variable {c : Config} {sp : SlobPage} {fb live : List (ℤ × ℤ)}

/-- A cell of the walk over a page's chain is one of its free blocks: with the blocks before
it, its size, and the start of the block after it. -/
theorem PageInv.block_at (h : PageInv c sp fb live) {preO postO : List ℤ} {y : ℤ}
    (hsplit : fb.map Prod.fst = preO ++ y :: postO) :
    ∃ pre k post, fb = pre ++ (y, k) :: post ∧ preO = pre.map Prod.fst ∧
      slobUnits sp.mem y = k ∧ c.slobNext sp.mem y = nextStart c.pageUnits post := by
  obtain ⟨l₁, l₂, rfl, h₁, h₂⟩ := List.map_eq_append_iff.1 hsplit
  obtain ⟨⟨y', k⟩, post, rfl, hy, -⟩ := List.map_eq_cons_iff.1 h₂
  simp only at hy
  subst hy
  have hat := h.at rfl rfl
  exact ⟨l₁, k, post, rfl, h₁.symm, hat.slobUnits_cur, hat.slobNext_cur⟩

theorem PageInv.walk_length (h : PageInv c sp fb live) : (fb.map Prod.fst).length ≤ c.pageUnits := by
  simpa using length_le_of_gaps c h.gaps h.links.pos h.inside

/-- From `sp->free`, the chain of a page with free blocks walks them. -/
theorem PageInv.isWalk (h : PageInv c sp fb live) (hne : fb ≠ []) :
    LinkWalk.IsWalk (c.slobNext sp.mem) (c.slobLast sp.mem) sp.free (fb.map Prod.fst) :=
  (h.freeChain hne).isWalk

/-- **`find_best_fit_block`** on a page with free blocks runs its loop body over them. -/
theorem PageInv.findBestFitBlock_eq (h : PageInv c sp fb live) (hne : fb ≠ []) (pid : ℕ)
    (best : BestBlock) (size align : ℕ) :
    c.findBestFitBlock pid sp best size align =
      some (LinkWalk.foldPrev (c.bestStep pid sp.mem size align) best none (fb.map Prod.fst)) := by
  unfold Config.findBestFitBlock
  exact LinkWalk.foldWalk_eq _ (h.isWalk hne) h.walk_length _ _

/-- **`slob_page_alloc`** on a page with free blocks carves from the first one its test
accepts. -/
theorem PageInv.slobPageAlloc_eq (h : PageInv c sp fb live) (hne : fb ≠ []) (hh : SlobHeap)
    (pid : ℕ) (size align : ℕ) :
    c.slobPageAlloc hh pid sp size align =
      some (match LinkWalk.findPrev (c.pageAllocTest pid sp size align) none (fb.map Prod.fst) with
        | some (sp', b) => (hh.afterCarve pid sp', some b)
        | none => (hh, none)) := by
  unfold Config.slobPageAlloc
  rw [LinkWalk.findWalk_eq _ (h.isWalk hne) h.walk_length]
  rfl

end Page

/-! ## The scan of `slob_alloc` -/

namespace Config

variable (c : Config)

/-- The free blocks the scan of `slob_alloc` visits, with their pages, in order. -/
def scanned (h : SlobHeap) (size : ℕ) (node : ℤ) : List ℕ → List (ℕ × (ℤ × ℤ))
  | [] => []
  | pid :: rest =>
    (match h.pages pid with
      | some sp => if c.skipPage sp size node then [] else (c.freeBlocks sp).map (pid, ·)
      | none => []) ++ scanned h size node rest

end Config

section Scan

variable {c : Config} {h : SlobHeap} {live : ℕ → List (ℤ × ℤ)} {size align : ℕ} {node : ℤ}

/-- **The scan rule.**  `I seen best` is a property of the best block after the blocks `seen`.
If each step of `find_best_fit_block` at a free block of a listed page keeps it, it holds after
the scan of the whole list, which returns. -/
theorem scanPages_rule (hinv : HeapInv c h live) (I : List (ℕ × (ℤ × ℤ)) → BestBlock → Prop)
    (hstep : ∀ seen pid sp pre o k post best, h.pages pid = some sp → 0 < sp.units →
      c.skipPage sp size node = false → c.freeBlocks sp = pre ++ (o, k) :: post → I seen best →
      I (seen ++ [(pid, (o, k))])
        (c.bestStep pid sp.mem size align best (pre.getLast?.map Prod.fst) o))
    {pids : List ℕ} (hpids : ∀ pid ∈ pids, pid ∈ h.freeSlobSmall) (seen : List (ℕ × (ℤ × ℤ)))
    {best : BestBlock} (h0 : I seen best) :
    ∃ best', c.scanPages h size align node best pids = some best' ∧
      I (seen ++ c.scanned h size node pids) best' := by
  induction pids generalizing seen best with
  | nil => exact ⟨best, rfl, by simpa [Config.scanned] using h0⟩
  | cons pid rest ih =>
    obtain ⟨sp, hsp, hpos⟩ := hinv.mem_freeSlobSmall (hpids pid (by simp))
    have hrest : ∀ q ∈ rest, q ∈ h.freeSlobSmall := fun q hq => hpids q (by simp [hq])
    have hpage := hinv.page pid sp hsp
    by_cases hskip : c.skipPage sp size node = true
    · -- the page is skipped
      obtain ⟨best', hrun, hI⟩ := ih hrest seen h0
      refine ⟨best', ?_, by simpa [Config.scanned, hsp, hskip] using hI⟩
      simpa [Config.scanPages, hsp, hskip] using hrun
    · -- `find_best_fit_block` runs over the page's free blocks
      have hskip' : c.skipPage sp size node = false := by simpa using hskip
      set fb := c.freeBlocks sp
      have hne : fb ≠ [] := (hpage.units_pos_iff).1 hpos
      -- the fold over the page: the blocks seen are a prefix of the page's
      have hfold := LinkWalk.foldPrev_invariant (c.bestStep pid sp.mem size align)
        (fun preO r => I (seen ++ (fb.take preO.length).map (pid, ·)) r) (p := none)
        (l := fb.map Prod.fst) ?_ (b := best) (by simpa using h0)
      · obtain ⟨best', hrun, hI⟩ := ih hrest _ hfold
        refine ⟨best', ?_, ?_⟩
        · simp only [Config.scanPages, hsp, Option.bind_eq_bind, Option.bind_some, hskip',
            Bool.false_eq_true, if_false]
          rw [hpage.findBestFitBlock_eq hne]
          simpa using hrun
        · simpa [Config.scanned, hsp, hskip'] using hI
      · intro preO y postO r hsplit hr
        obtain ⟨pre, k, post, hfb, rfl, -, -⟩ := hpage.block_at hsplit
        have htake : fb.take (pre.map Prod.fst ++ [y]).length = pre ++ [(y, k)] := by
          rw [hfb, List.length_append, List.length_map, List.length_singleton, List.take_append]
          simp
        have htake' : fb.take (pre.map Prod.fst).length = pre := by
          rw [hfb]
          simp
        simp only [htake', Option.or_none, List.getLast?_map] at hr ⊢
        rw [htake]
        simpa using hstep _ pid sp pre y k post r hsp hpos hskip' hfb hr

end Scan

/-! ## The loops end -/

section Terminate

variable {c : Config} {sp : SlobPage} {fb : List (ℤ × ℤ)}

/-- `slob_last` holds at a free block exactly when the block after it is the end of the page. -/
theorem FreeChain.slobLast_iff (h : FreeChain c sp fb) {x : ℤ} (hx : x ∈ fb.map Prod.fst) :
    c.slobLast sp.mem x = true ↔ c.slobNext sp.mem x = c.pageUnits := by
  obtain ⟨hlt, hnext⟩ := h.slobNext_lt hx
  obtain ⟨b, hb, rfl⟩ := List.mem_map.1 hx
  have hin := h.inside b hb
  -- the next offset is past the block, and at most the end of the page
  have hle : c.slobNext sp.mem b.1 ≤ c.pageUnits := by
    rcases hnext with hend | hmem
    · exact hend.le
    · obtain ⟨b', hb', heq⟩ := List.mem_map.1 hmem
      have := h.inside b' hb'
      omega
  simp only [Config.slobLast, beq_iff_eq]
  exact c.boundary_iff (by omega) hle

/-- **The loops over a free chain end**, within one iteration per free block: the cells they
visit are the free blocks, and every offset `slob_next` gives is past the block it is read from
and either a free block inside the page or the end of the page.  This holds of the `for (;;)`
scan of `find_best_fit_block`, of the first-fit loop of `slob_page_alloc`, and of the
`while (b > next)` walk of `slob_free` for every `b` up to the end of the page; the fuel the
model gives them, `SLOB_UNITS(PAGE_SIZE)`, is enough. -/
theorem free_chain_walks_terminate (h : FreeChain c sp fb) :
    fb.length ≤ c.pageUnits ∧
    (∀ fuel, fb.length ≤ fuel →
      LinkWalk.collect (c.slobNext sp.mem) (c.slobLast sp.mem) fuel sp.free = fb.map Prod.fst) ∧
    (∀ x ∈ fb.map Prod.fst, x < c.slobNext sp.mem x ∧ (c.slobNext sp.mem x = c.pageUnits ∨
      c.slobNext sp.mem x ∈ fb.map Prod.fst ∧ c.slobNext sp.mem x < c.pageUnits)) ∧
    (∀ pid size align best, ∃ r, ∀ fuel, fb.length ≤ fuel →
      LinkWalk.foldWalk (c.slobNext sp.mem) (c.slobLast sp.mem)
        (c.bestStep pid sp.mem size align) fuel best none sp.free = some r) ∧
    (∀ pid size align, ∃ r, ∀ fuel, fb.length ≤ fuel →
      LinkWalk.findWalk (c.slobNext sp.mem) (c.slobLast sp.mem)
        (c.pageAllocTest pid sp size align) fuel none sp.free = some r) ∧
    ∀ b : ℤ, b ≤ c.pageUnits → ∃ r, ∀ fuel, fb.length ≤ fuel →
      LinkWalk.whileWalk (c.slobNext sp.mem) (fun next => decide (next < b)) fuel sp.free =
        some r := by
  have hwalk := h.isWalk
  have hlen : (fb.map Prod.fst).length = fb.length := List.length_map _
  refine ⟨h.length_le, fun fuel hfuel => hwalk.collect_eq (by omega), fun x hx => ?_,
    fun pid size align best => ⟨_, fun fuel hfuel => LinkWalk.foldWalk_eq _ hwalk (by omega) _ _⟩,
    fun pid size align => ⟨_, fun fuel hfuel => LinkWalk.findWalk_eq _ hwalk (by omega) _⟩,
    fun b hb => ?_⟩
  · obtain ⟨hlt, hnext⟩ := h.slobNext_lt hx
    refine ⟨hlt, hnext.imp_right fun hmem => ⟨hmem, ?_⟩⟩
    obtain ⟨b', hb', heq⟩ := List.mem_map.1 hmem
    have := h.inside b' hb'
    omega
  · -- the walk of `slob_free` stops at the last block at the latest: its successor is the end
    -- of the page, which is not below `b`
    have hstop : ∀ y ∈ fb.map Prod.fst, c.slobLast sp.mem y = true →
        decide (c.slobNext sp.mem y < b) = false := by
      intro y hy hlast
      rw [(h.slobLast_iff hy).1 hlast, decide_eq_false_iff_not, not_lt]
      exact hb
    obtain ⟨r, hr⟩ := Option.isSome_iff_exists.1
      (LinkWalk.firstStop_isSome (fun next => decide (next < b)) hwalk hstop)
    exact ⟨r, fun fuel hfuel => (LinkWalk.whileWalk_eq _ hwalk (by omega) hstop).trans hr⟩

/-- Page 7, with 4 KB pages, after `slob_alloc(2)` on the empty heap given frame 7 and then
`slob_alloc(2, align 8)`: the aligned block at unit 4 splits the free block in two. -/
def alignedCarvePage : Option SlobPage :=
  ((Config.page4k.slobAlloc SlobHeap.empty 2 0 (-1) (some (7, 0))).bind fun r =>
    Config.page4k.slobAlloc r.1 2 8 (-1) none).bind (·.1.pages 7)

/-- The page's chain holds the free blocks `(1, 3)` and `(5, 2043)`, as `set_slob` wrote them. -/
theorem free_chain_walks_terminate_two_blocks :
    ∃ sp, alignedCarvePage = some sp ∧ FreeChain Config.page4k sp [(1, 3), (5, 2043)] ∧
    ([(1, 3), (5, 2043)] : List (ℤ × ℤ)).length ≤ Config.page4k.pageUnits ∧
    (∀ fuel, ([(1, 3), (5, 2043)] : List (ℤ × ℤ)).length ≤ fuel →
      LinkWalk.collect (Config.page4k.slobNext sp.mem) (Config.page4k.slobLast sp.mem) fuel
        sp.free = ([(1, 3), (5, 2043)] : List (ℤ × ℤ)).map Prod.fst) ∧
    (∀ x ∈ ([(1, 3), (5, 2043)] : List (ℤ × ℤ)).map Prod.fst,
      x < Config.page4k.slobNext sp.mem x ∧
      (Config.page4k.slobNext sp.mem x = Config.page4k.pageUnits ∨
        Config.page4k.slobNext sp.mem x ∈ ([(1, 3), (5, 2043)] : List (ℤ × ℤ)).map Prod.fst ∧
        Config.page4k.slobNext sp.mem x < Config.page4k.pageUnits)) ∧
    (∀ pid size align best, ∃ r, ∀ fuel, ([(1, 3), (5, 2043)] : List (ℤ × ℤ)).length ≤ fuel →
      LinkWalk.foldWalk (Config.page4k.slobNext sp.mem) (Config.page4k.slobLast sp.mem)
        (Config.page4k.bestStep pid sp.mem size align) fuel best none sp.free = some r) ∧
    (∀ pid size align, ∃ r, ∀ fuel, ([(1, 3), (5, 2043)] : List (ℤ × ℤ)).length ≤ fuel →
      LinkWalk.findWalk (Config.page4k.slobNext sp.mem) (Config.page4k.slobLast sp.mem)
        (Config.page4k.pageAllocTest pid sp size align) fuel none sp.free = some r) ∧
    ∀ b : ℤ, b ≤ Config.page4k.pageUnits → ∃ r, ∀ fuel,
      ([(1, 3), (5, 2043)] : List (ℤ × ℤ)).length ≤ fuel →
      LinkWalk.whileWalk (Config.page4k.slobNext sp.mem) (fun next => decide (next < b)) fuel
        sp.free = some r := by
  obtain ⟨sp, hsp⟩ := Option.isSome_iff_exists.1 (by decide : alignedCarvePage.isSome)
  -- the cells `set_slob` wrote, read off by evaluation
  have hread : alignedCarvePage.map (fun sp => (sp.free, sp.mem 1, sp.mem 2, sp.mem 5, sp.mem 6)) =
      some (1, 3, 5, 2043, 2048) := by decide
  rw [hsp, Option.map_some, Option.some.injEq] at hread
  simp only [Prod.mk.injEq] at hread
  obtain ⟨hfree, h1, h2, h5, h6⟩ := hread
  have hU : Config.page4k.pageUnits = 2048 := by decide
  have hc : FreeChain Config.page4k sp [(1, 3), (5, 2043)] :=
    ⟨by simp, by simp [Holds, hU, h1, h2, h5, h6], hfree, by decide, by simp [hU]⟩
  exact ⟨sp, hsp, hc, free_chain_walks_terminate hc⟩

end Terminate

end SlobLook.Slob
