import SlobLook.Slob.Insert

/-!
# `slob_free` keeps the heap well formed

`slob_free(block, size)` of a block that `slob_alloc` handed out for `size`, on a well-formed
heap, returns, and the heap stays well formed with the block no longer live
(`HeapInv.slobFree`).  Each of its three branches keeps the page it works on well formed: the
release of a page whose last live block this is (`PageInv.erase_eq_nil`), a full page that
becomes partially free with the block as its one free block (`PageInv.refill`), and the
insertion into the chain of a partially free page (`PageInv.insertFree`).
-/

namespace SlobLook.Slob

open Tiling

section Page

variable {c : Config} {sp : SlobPage} {fb live : List (ℤ × ℤ)} {b u : ℤ}

/-- `(b + SLOB_UNITS(PAGE_SIZE)) & PAGE_MASK`, for a block of the page, is the end of the
page. -/
theorem pageBoundary_eq (hb : 0 ≤ b) (hbN : b < c.pageUnits) :
    c.pageBoundary (b + c.pageUnits) = c.pageUnits := by
  have hP : (c.PAGE_SIZE : ℤ) = c.pageUnits * c.SLOB_UNIT := by
    exact_mod_cast c.pageUnits_mul.symm
  have hU : (0 : ℤ) < c.SLOB_UNIT := by exact_mod_cast c.SLOB_UNIT_pos
  have hPpos : (0 : ℤ) < c.PAGE_SIZE := by
    rw [hP]
    exact mul_pos (by exact_mod_cast c.pageUnits_pos) hU
  have hlt : b * c.SLOB_UNIT < c.PAGE_SIZE := by
    rw [hP]
    exact mul_lt_mul_of_pos_right hbN hU
  have hpage : (b + c.pageUnits) * c.SLOB_UNIT / c.PAGE_SIZE = 1 := by
    rw [add_mul, ← hP, Int.add_ediv_of_dvd_right (dvd_refl _), Int.ediv_self hPpos.ne',
      Int.ediv_eq_zero_of_lt (mul_nonneg hb hU.le) hlt, zero_add]
  unfold Config.pageBoundary
  rw [hpage, one_mul, hP, Int.mul_ediv_cancel _ hU.ne']

/-- On a page that `sp->units + units == SLOB_UNITS(PAGE_SIZE)` finds whole, the block is the
only live one. -/
theorem PageInv.erase_eq_nil (h : PageInv c sp fb live) (hb : (b, u) ∈ live)
    (hwhole : sp.units + u = c.pageUnits) : live.erase (b, u) = [] := by
  have hsum := ((List.perm_cons_erase hb).map Prod.snd).sum_eq
  simp only [List.map_cons, List.sum_cons] at hsum
  have htot := h.total
  rcases hrest : live.erase (b, u) with _ | ⟨a, rest⟩
  · rfl
  · have ha : a ∈ live.erase (b, u) := by simp [hrest]
    have hle : a.2 ≤ ((live.erase (b, u)).map Prod.snd).sum :=
      Tiling.snd_le_sum (fun I hI => (h.livePos I (List.mem_of_mem_erase hI)).le) ha
    have := h.livePos a (List.mem_of_mem_erase ha)
    omega

/-- **A full page becomes partially free** with the block as its one free block. -/
theorem PageInv.refill (h : PageInv c sp fb live) (hb : (b, u) ∈ live) (hfull : sp.units = 0) :
    PageInv c
      { sp with units := u, free := b,
                mem := c.setSlob sp.mem b u (c.pageBoundary (b + c.pageUnits)) }
      [(b, u)] (live.erase (b, u)) := by
  have hfb : fb = [] := by
    by_contra hne
    have := (h.units_pos_iff).2 hne
    omega
  subst hfb
  have hu := h.livePos _ hb
  have hbin := h.liveInside _ hb
  simp only at hu hbin
  have hempty : Chain c sp.mem [] := ⟨trivial, List.Pairwise.nil, by simp⟩
  have hchain := hempty.cons hbin.1 hu hbin.2 fun hne => absurd rfl hne
  rw [pageBoundary_eq hbin.1 (by omega)]
  exact h.release hb hchain rfl (by simp [hfull]) (by simp) fun x => rfl

end Page

variable {c : Config} {h : SlobHeap} {live : ℕ → List (ℤ × ℤ)}

/-- **`slob_free` on a well-formed heap**, of a block live on its page with the size it was
handed out for: it returns, and the heap stays well formed with the block no longer live. -/
theorem HeapInv.slobFree (hinv : HeapInv c h live) {pid : ℕ} {b : ℤ} {size : ℕ}
    (hlive : (b, (c.SLOB_UNITS size : ℤ)) ∈ live pid) :
    ∃ h', c.slobFree h (some (pid, b)) size = some h' ∧
      HeapInv c h' (Function.update live pid ((live pid).erase (b, c.SLOB_UNITS size))) := by
  obtain ⟨sp, hp⟩ : ∃ sp, h.pages pid = some sp := by
    cases hp : h.pages pid with
    | none =>
      rw [hinv.noPage pid hp] at hlive
      simp at hlive
    | some sp => exact ⟨sp, rfl⟩
  have hpage := hinv.page pid sp hp
  have hu := hpage.livePos _ hlive
  have hbin := hpage.liveInside _ hlive
  simp only at hu hbin
  -- `BUG_ON(!size)` does not fire: a live block has units
  have hsize : size ≠ 0 := by
    rintro rfl
    have h0 : c.SLOB_UNITS 0 = 0 := by
      unfold Config.SLOB_UNITS
      exact Nat.div_eq_of_lt (by have := c.SLOB_UNIT_pos; omega)
    simp [h0] at hu
  simp only [Config.slobFree, if_neg hsize, hp, Option.bind_eq_bind, Option.bind_some]
  set u : ℤ := (c.SLOB_UNITS size : ℤ)
  have hunits : c.toSlobidx u = u := c.toSlobidx_eq (by omega) (by omega)
  rw [hunits]
  have hnotin : sp.slobFree ≠ true → pid ∉ h.freeSlobSmall := fun hf hin => by
    obtain ⟨sp', hsp', hf'⟩ := (hinv.listed pid).1 hin
    rw [hp, Option.some.injEq] at hsp'
    subst hsp'
    exact hf hf'
  by_cases hwhole : sp.units + u = c.pageUnits
  · -- the page goes back to the page allocator
    rw [if_pos hwhole, hpage.erase_eq_nil hlive hwhole]
    by_cases hflag : sp.slobFree = true
    · simp only [if_pos hflag]
      refine ⟨_, rfl, hinv.update (fun q hq => by simp [hq])
        (fun q hq => by simp [List.mem_erase_of_ne hq]) (by simpa using hinv.nodup.erase pid)
        (by simp [hinv.medium]) (by simp [hinv.large]) (fun sp' hsp' => by simp at hsp')
        fun _ => ⟨rfl, by simpa using hinv.nodup.not_mem_erase⟩⟩
    · simp only [if_neg hflag]
      exact ⟨_, rfl, hinv.update (fun q hq => by simp [hq]) (fun q _ => Iff.rfl) hinv.nodup
        hinv.medium hinv.large (fun sp' hsp' => by simp at hsp') fun _ => ⟨rfl, hnotin hflag⟩⟩
  rw [if_neg hwhole]
  by_cases hflag : sp.slobFree = true
  · -- the page is partially free: the block goes into its chain
    rw [if_neg (by simp [hflag])]
    have hpos : 0 < sp.units := (hinv.flag pid sp hp).1 hflag
    obtain ⟨sp', hins, hpage', -, hunits', -, hflag'⟩ :=
      hpage.insertFree hlive ((hpage.units_pos_iff).1 hpos)
    rw [hins, Option.bind_some]
    refine ⟨_, rfl, hinv.update (fun q hq => by simp [hq]) (fun q _ => by simp)
      (by simpa using hinv.nodup) hinv.medium hinv.large (fun sq hsq => ?_) (by simp)⟩
    simp only [SlobHeap.setPage_pages, Function.update_self, Option.some.injEq] at hsq
    subst hsq
    refine ⟨hpage', ?_, ?_⟩
    · rw [hflag', hflag, hunits']
      simp only [true_iff]
      omega
    · simp [hflag', hflag, (hinv.listed pid).2 ⟨sp, hp, hflag⟩]
  · -- the page was full: it becomes partially free with the block as its free block
    rw [if_pos (by simpa using hflag)]
    have hfull : sp.units = 0 := by
      have hnpos : ¬ 0 < sp.units := fun hpos => hflag ((hinv.flag pid sp hp).2 hpos)
      have := hpage.units_nonneg
      omega
    have hrefill := (hpage.refill hlive hfull).setFlag true
    refine ⟨_, rfl, hinv.update (fun q hq => by simp [hq]) (fun q hq => by simp [hq])
      (by simpa using ⟨hnotin hflag, hinv.nodup⟩) (by simpa using hinv.medium)
      (by simpa using hinv.large) (fun sq hsq => ?_) (by simp)⟩
    simp only [SlobHeap.setSlobPageFree_pages, SlobHeap.setPage_pages, Function.update_self,
      Option.map_some, Option.some.injEq] at hsq
    subst hsq
    refine ⟨?_, by simp [hu], by simp⟩
    convert hrefill using 1
    exact hrefill.freeBlocks_eq

end SlobLook.Slob
