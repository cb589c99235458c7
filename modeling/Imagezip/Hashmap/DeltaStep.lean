import Imagezip.Hashmap.Delta

/-!
# What one step of the merge can do

One inversion lemma per loop of `hashmap_compute_delta`: from `step l s = .ok l' s'` it gives the
guards the iteration passed, the helper calls it made and the cursors it left.  The invariants
of the later modules are proved from these lemmas and never unfold `step`.

* `headSplit_ok`, `decideChanged_ok`, `emitCovered_ok`, `coveredIter_ok`: the pieces of an
  iteration;
* `step_top_nil` .. `step_trailing_cons`: one lemma per loop and cursor shape;
* `run_inv`: an invariant of `step` holds when `run` returns, and the merge is then `.done`;
* `run_logsOnly`: what every step logs, a run logs;
* `hashmapComputeDelta_ok`: a call that returns goes through `loadSig` and `deltaFrom`.
-/

namespace Imagezip.Hashmap

variable {env : Env} {newhashfile hashFree : Bool} {s s' : St} {l' : Loc}

/-! ## The pieces of an iteration -/

/-- `headSplit` leaves a drange that starts inside `h` alone; otherwise it adds
`[d.start, h.start)` to the output (and the new signature) and returns the rest of `d`. -/
lemma headSplit_ok {h : HashRegion} {d d₁ : Range}
    (H : headSplit env newhashfile h d s = .ok d₁ s') :
    (h.start ≤ d.start ∧ d₁ = d ∧ s' = s) ∨
    (d.start < h.start ∧
      d₁ = ⟨d.start + (h.start - d.start) % 2 ^ 32, d.size - (h.start - d.start) % 2 ^ 32⟩ ∧
      ∃ s₁, addToRange env d.start ((h.start - d.start) % 2 ^ 32) s = .ok () s₁ ∧
        if newhashfile then
          addToHashmap env d.start ((h.start - d.start) % 2 ^ 32) none s₁ = .ok () s'
        else s' = s₁) := by
  unfold headSplit at H
  by_cases hlt : d.start < h.start
  · rw [if_pos hlt] at H
    simp only [bind_eq_ok, pure_apply, Res.ok.injEq] at H
    obtain ⟨_, s₁, h1, _, _, h2, rfl, rfl⟩ := H
    exact .inr ⟨hlt, rfl, s₁, h1, whenM_ok.mp h2⟩
  · rw [if_neg hlt, pure_apply, Res.ok.injEq] at H
    exact .inl ⟨by omega, H.1.symm, H.2.symm⟩

/-- `decideChanged`: 2 without a whole-`hreg` cover (and no `hash_free`), else 3 on a fixup,
else the verdict of `hash_and_cmp`, whose hash goes into the new signature. -/
lemma decideChanged_ok {h : HashRegion} {d : Range} {c : Nat}
    (H : decideChanged env newhashfile hashFree h d s = .ok c s') :
    (¬(hashFree ∨ (d.start = h.start ∧ d.size ≥ h.size)) ∧ c = 2 ∧ s' = s) ∨
    ((hashFree ∨ (d.start = h.start ∧ d.size ≥ h.size)) ∧
      ((env.hasfixup h.start h.size ∧ c = 3 ∧
          s' = { s with calls := s.calls ++ [.hasfixup h.start h.size] }) ∨
       (env.hasfixup h.start h.size = false ∧ ∃ hash s₁,
          hashAndCmp env h { s with calls := s.calls ++ [.hasfixup h.start h.size] } =
            .ok (c, hash) s₁ ∧
          if newhashfile then addToHashmap env h.start h.size (some hash) s₁ = .ok () s'
          else s' = s₁))) := by
  unfold decideChanged at H
  by_cases hc : hashFree ∨ (d.start = h.start ∧ d.size ≥ h.size)
  · rw [if_pos hc, bind_eq_ok] at H
    obtain ⟨_, _, he, H⟩ := H
    cases he
    refine .inr ⟨hc, ?_⟩
    cases hfx : env.hasfixup h.start h.size
    · simp only [hfx, bind_eq_ok, Bool.false_eq_true, if_false, pure_apply, Res.ok.injEq] at H
      obtain ⟨⟨c', hash⟩, s₁, h1, _, _, h2, rfl, rfl⟩ := H
      exact .inr ⟨rfl, hash, s₁, h1, whenM_ok.mp h2⟩
    · simp only [hfx, pure_apply, Res.ok.injEq, if_true] at H
      exact .inl ⟨rfl, H.1.symm, H.2.symm⟩
  · rw [if_neg hc, pure_apply, Res.ok.injEq] at H
    exact .inl ⟨hc, H.1.symm, H.2.symm⟩

/-- `emitCovered` does nothing for an unchanged `hreg`; otherwise it adds the piece to the
output, and to the new signature for `changed` 2 and 3. -/
lemma emitCovered_ok {c start len : Nat}
    (H : emitCovered env newhashfile c start len s = .ok () s') :
    (c = 0 ∧ s' = s) ∨
    (c ≠ 0 ∧ ∃ s₁, addToRange env start len s = .ok () s₁ ∧
      if c > 1 ∧ newhashfile then addToHashmap env start len none s₁ = .ok () s'
      else s' = s₁) := by
  unfold emitCovered at H
  by_cases hc : c ≠ 0
  · rw [if_pos hc, bind_eq_ok] at H
    obtain ⟨_, s₁, h1, h2⟩ := H
    exact .inr ⟨hc, s₁, h1, whenM_ok.mp h2⟩
  · rw [if_neg hc, pure_apply, Res.ok.injEq] at H
    exact .inl ⟨not_not.mp hc, H.2.symm⟩

/-- Whatever its locals, a covered-drange iteration only emits one piece and moves the cursor. -/
lemma coveredIter_emits {l : Loc} {h : HashRegion} {c : Nat} {d : Range} {ds : List Range}
    (H : coveredIter env newhashfile l h c d ds s = .ok l' s') :
    ∃ a n, emitCovered env newhashfile c a n s = .ok () s' ∧ l'.pc = l.pc ∧ l'.hregs = l.hregs := by
  simp only [coveredIter, bind_eq_ok, assertM_ok] at H
  obtain ⟨_, _, ⟨-, rfl⟩, _, _, ⟨-, rfl⟩, _, s₁, h3, H⟩ := H
  split_ifs at H <;> first
    | obtain ⟨rfl, rfl⟩ := Res.ok.inj H
      exact ⟨_, _, h3, rfl, rfl⟩
    | obtain ⟨_, _, h4, h5⟩ := bind_eq_ok.mp H
      obtain ⟨-, rfl⟩ := assertM_ok.mp h4
      obtain ⟨rfl, rfl⟩ := Res.ok.inj h5
      exact ⟨_, _, h3, rfl, rfl⟩

/-- One covered-drange iteration while sectors fit in 32 bits: the `uint32_t` locals are the
true values, the piece `[d.start, min d.stop hreg end)` is emitted, and `drange` is either
split at the end of `hreg` or bumped. -/
lemma coveredIter_ok_small {l : Loc} {h : HashRegion} {c : Nat} {d : Range} {ds : List Range}
    (hd : d.start + d.size < 2 ^ 32) (hh : h.start + h.size < 2 ^ 32)
    (hlt : d.start < h.start + h.size)
    (H : coveredIter env newhashfile l h c d ds s = .ok l' s') :
    h.start ≤ d.start ∧
    emitCovered env newhashfile c d.start (min (d.start + d.size) (h.start + h.size) - d.start) s =
      .ok () s' ∧
    if h.start + h.size < d.start + d.size then
      l' = { l with dranges := ⟨h.start + h.size, d.start + d.size - (h.start + h.size)⟩ :: ds }
    else NextOk ds ∧ l' = { l with dranges := ds } := by
  have e1 : d.start % 2 ^ 32 = d.start := Nat.mod_eq_of_lt (by omega)
  have e2 : (d.start + d.size) % 2 ^ 32 = d.start + d.size := Nat.mod_eq_of_lt hd
  have e3 : h.start % 2 ^ 32 = h.start := Nat.mod_eq_of_lt (by omega)
  have e4 : (h.start + h.size) % 2 ^ 32 = h.start + h.size := Nat.mod_eq_of_lt hh
  simp only [coveredIter, e1, e2, e3, e4, bind_eq_ok, assertM_apply] at H
  obtain ⟨_, _, h1, _, _, h2, _, s₁, h3, H⟩ := H
  split_ifs at h1 with g1
  cases h1
  have hmin : (if d.start + d.size > h.start + h.size then h.start + h.size else d.start + d.size)
      = min (d.start + d.size) (h.start + h.size) := by split_ifs <;> omega
  rw [hmin, if_pos (Nat.min_le_right _ _)] at h2
  have e5 : (min (d.start + d.size) (h.start + h.size) + 2 ^ 32 - d.start) % 2 ^ 32 =
      min (d.start + d.size) (h.start + h.size) - d.start := by
    rw [show min (d.start + d.size) (h.start + h.size) + 2 ^ 32 - d.start =
      min (d.start + d.size) (h.start + h.size) - d.start + 2 ^ 32 by omega, Nat.add_mod_right,
      Nat.mod_eq_of_lt (by omega)]
  rw [hmin, e5] at h3
  cases h2
  by_cases g2 : h.start + h.size < d.start + d.size
  · simp only [if_pos g2] at H
    rw [if_neg (show d.start ≠ h.start + h.size by omega), pure_apply, Res.ok.injEq] at H
    obtain ⟨rfl, rfl⟩ := H
    exact ⟨g1, h3, by simp [g2]⟩
  · rw [if_neg g2, if_pos rfl, bind_eq_ok] at H
    obtain ⟨_, _, h4, H⟩ := H
    rw [assertM_apply] at h4
    split_ifs at h4 with g3
    cases h4
    simp only [pure_apply, Res.ok.injEq] at H
    obtain ⟨rfl, rfl⟩ := H
    exact ⟨g1, h3, by simp [g2, g3]⟩

/-! ## One lemma per loop and cursor shape -/

section Step

variable {h : HashRegion} {hs : List HashRegion} {c : Nat} {d : Range} {ds : List Range}

/-- Leaving the `for` loop after the last `hreg`. -/
lemma step_top_nil (H : step env newhashfile hashFree ⟨.top, [], ds⟩ s = .ok l' s') :
    l' = ⟨.trailing, [], ds⟩ ∧ s' = s := by
  simp [step, toTrailing, bind_apply] at H
  exact ⟨H.1.symm, H.2.symm⟩

/-- The head of the `for` loop takes the next `hreg`. -/
lemma step_top_cons (H : step env newhashfile hashFree ⟨.top, h :: hs, ds⟩ s = .ok l' s') :
    (∃ d ∈ ds.head?, 0 < d.size) ∧ l' = ⟨.drain h, hs, ds⟩ ∧ s' = s := by
  simp only [step, bind_eq_ok, assertM_apply, pure_apply] at H
  obtain ⟨_, _, h1, H⟩ := H
  split_ifs at h1 with g
  cases h1
  cases H
  exact ⟨g, rfl, rfl⟩

/-- The drain loop with no drange left falls through to the overlap code. -/
lemma step_drain_nil (H : step env newhashfile hashFree ⟨.drain h, hs, []⟩ s = .ok l' s') :
    l' = ⟨.overlap h, hs, []⟩ ∧ s' = s := by
  simp only [step, pure_apply, Res.ok.injEq] at H
  exact ⟨H.1.symm, H.2.symm⟩

/-- The drain loop: a drange wholly before `hreg` is new data, otherwise the loop exits. -/
lemma step_drain_cons (H : step env newhashfile hashFree ⟨.drain h, hs, d :: ds⟩ s = .ok l' s') :
    (d.stop ≤ h.start ∧ NextOk ds ∧ l' = ⟨.drain h, hs, ds⟩ ∧
      ∃ s₁, addToRange env d.start d.size s = .ok () s₁ ∧
        if newhashfile then addToHashmap env d.start d.size none s₁ = .ok () s' else s' = s₁) ∨
    (h.start < d.stop ∧ l' = ⟨.overlap h, hs, d :: ds⟩ ∧ s' = s) := by
  simp only [step] at H
  by_cases g : d.start + d.size ≤ h.start
  · rw [if_pos g] at H
    simp only [bind_eq_ok, assertM_apply] at H
    obtain ⟨_, s₁, h1, _, _, h2, _, _, h3, H⟩ := H
    split_ifs at h3 with g3
    cases h3
    rw [pure_apply, Res.ok.injEq] at H
    obtain ⟨rfl, rfl⟩ := H
    exact .inl ⟨g, g3, rfl, s₁, h1, whenM_ok.mp h2⟩
  · rw [if_neg g, pure_apply, Res.ok.injEq] at H
    exact .inr ⟨Nat.lt_of_not_le g, H.1.symm, H.2.symm⟩

/-- Past the drain loop with no drange left: `break` out of the `for` loop. -/
lemma step_overlap_nil (H : step env newhashfile hashFree ⟨.overlap h, hs, []⟩ s = .ok l' s') :
    l' = ⟨.trailing, h :: hs, []⟩ ∧ s' = s := by
  simp [step, toTrailing, bind_apply] at H
  exact ⟨H.1.symm, H.2.symm⟩

/-- The overlap code: an `hreg` ending before the drange is skipped; otherwise the head of the
drange before `hreg` is split off and `changed` is decided. -/
lemma step_overlap_cons
    (H : step env newhashfile hashFree ⟨.overlap h, hs, d :: ds⟩ s = .ok l' s') :
    h.start < d.stop ∧
    ((h.start + h.size ≤ d.start ∧ l' = ⟨.top, hs, d :: ds⟩ ∧ s' = s) ∨
     (d.start < h.start + h.size ∧ ∃ d₁ s₁, headSplit env newhashfile h d s = .ok d₁ s₁ ∧
        d₁.start < h.start + h.size ∧ ∃ c, decideChanged env newhashfile hashFree h d₁ s₁ = .ok c s' ∧
        l' = ⟨.covered h c, hs, d₁ :: ds⟩)) := by
  simp only [step, bind_eq_ok, assertM_apply] at H
  obtain ⟨_, _, h1, H⟩ := H
  split_ifs at h1 with g1
  cases h1
  refine ⟨g1, ?_⟩
  by_cases g2 : h.start + h.size ≤ d.start
  · rw [if_pos g2, pure_apply, Res.ok.injEq] at H
    exact .inl ⟨g2, H.1.symm, H.2.symm⟩
  · rw [if_neg g2] at H
    simp only [bind_eq_ok, assertM_apply] at H
    obtain ⟨_, _, h2, d₁, s₁, h3, c, s₂, h4, _, _, h5, H⟩ := H
    rw [if_pos (by omega)] at h2
    cases h2
    split_ifs at h5 with g4
    cases h5
    rw [pure_apply, Res.ok.injEq] at H
    obtain ⟨rfl, rfl⟩ := H
    exact .inr ⟨Nat.lt_of_not_le g2, d₁, s₁, h3, g4, c, h4, rfl⟩

/-- The covered loop with no drange left: `break` out of the `for` loop. -/
lemma step_covered_nil (H : step env newhashfile hashFree ⟨.covered h c, hs, []⟩ s = .ok l' s') :
    l' = ⟨.trailing, h :: hs, []⟩ ∧ s' = s := by
  simp [step, toTrailing, bind_apply] at H
  exact ⟨H.1.symm, H.2.symm⟩

/-- The covered loop: an iteration while the drange starts inside `hreg`, else back to the
head of the `for` loop. -/
lemma step_covered_cons
    (H : step env newhashfile hashFree ⟨.covered h c, hs, d :: ds⟩ s = .ok l' s') :
    (d.start < h.start + h.size ∧
      coveredIter env newhashfile ⟨.covered h c, hs, d :: ds⟩ h c d ds s = .ok l' s') ∨
    (h.start + h.size ≤ d.start ∧ l' = ⟨.top, hs, d :: ds⟩ ∧ s' = s) := by
  simp only [step] at H
  split_ifs at H with g
  · exact .inl ⟨g, H⟩
  · simp only [bind_eq_ok, assertM_apply, pure_apply] at H
    obtain ⟨_, _, h1, H⟩ := H
    split_ifs at h1 with g1
    cases h1
    cases H
    exact .inr ⟨g1, rfl, rfl⟩

/-- The trailing loop: with no `hreg` left, every remaining drange is new data. -/
lemma step_trailing_cons
    (H : step env newhashfile hashFree ⟨.trailing, hs, d :: ds⟩ s = .ok l' s') :
    hs = [] ∧ NextOk ds ∧ l' = ⟨.trailing, hs, ds⟩ ∧
      ∃ s₁, addToRange env d.start d.size s = .ok () s₁ ∧
        if newhashfile then addToHashmap env d.start d.size none s₁ = .ok () s' else s' = s₁ := by
  simp only [step, bind_eq_ok, assertM_apply] at H
  obtain ⟨_, _, h1, _, s₁, h2, _, _, h3, _, _, h4, H⟩ := H
  split_ifs at h1 h4 with g1 g4
  cases h1
  cases h4
  rw [pure_apply, Res.ok.injEq] at H
  obtain ⟨rfl, rfl⟩ := H
  exact ⟨g1, g4, rfl, s₁, h2, whenM_ok.mp h3⟩

/-- Past the trailing loop. -/
lemma step_trailing_nil (H : step env newhashfile hashFree ⟨.trailing, hs, []⟩ s = .ok l' s') :
    l' = ⟨.done, hs, []⟩ ∧ s' = s := by
  simp only [step, pure_apply, Res.ok.injEq] at H
  exact ⟨H.1.symm, H.2.symm⟩

end Step

/-! ## Whole runs -/

/-- An invariant that every step from an unfinished position keeps holds when `run` returns,
and the merge has then reached `.done`. -/
theorem run_inv (I : Loc → St → Prop)
    (hstep : ∀ l s l' s', I l s → l.pc ≠ .done →
      step env newhashfile hashFree l s = .ok l' s' → I l' s')
    {n : Nat} {l : Loc} (h0 : I l s) (H : run env newhashfile hashFree n l s = .ok l' s') :
    I l' s' ∧ l'.pc = .done := by
  induction n generalizing l s with
  | zero =>
    simp only [run] at H
    split_ifs at H with hd
    obtain ⟨rfl, rfl⟩ := Res.ok.inj H
    exact ⟨h0, hd⟩
  | succ n ih =>
    simp only [run] at H
    split_ifs at H with hd
    · obtain ⟨rfl, rfl⟩ := Res.ok.inj H
      exact ⟨h0, hd⟩
    · obtain ⟨l₁, s₁, h1, H⟩ := bind_eq_ok.mp H
      exact ih (hstep l s l₁ s₁ h0 hd h1) H

/-- A run from an unfinished position goes on from where its first step leads. -/
lemma run_succ_of_step {n : Nat} {l l₁ : Loc} {s₁ : St} (hd : l.pc ≠ .done)
    (h : step env newhashfile hashFree l s = .ok l₁ s₁) :
    run env newhashfile hashFree (n + 1) l s = run env newhashfile hashFree n l₁ s₁ := by
  simp only [run, if_neg hd, bind_apply, h]

/-- What every step logs, a run of any length logs, however it ends. -/
theorem run_logsOnly {L : Event → Prop}
    (hstep : ∀ l, LogsOnly L (step env newhashfile hashFree l)) :
    ∀ n l, LogsOnly L (run env newhashfile hashFree n l)
  | 0, l => LogsOnly.of_calls fun s => by simp only [run]; split_ifs <;> rfl
  | n + 1, l => by
    simp only [run]
    split_ifs
    · exact LogsOnly.pure' l
    · exact LogsOnly.bind' (hstep l) fun l' => run_logsOnly hstep n l'

/-! ## Around the merge -/

/-- The state the merge starts from (lines 780-823): the hash function of the prior signature,
an output holding only `dummy_head`, and `savefixups` logged for a new signature. -/
def mergeStart (newhashfile : Bool) (hinfo : HashInfo) (s : St) : St :=
  { s with hashlen := (hashFuncOf hinfo.hashtype).1, hashfunc := some (hashFuncOf hinfo.hashtype).2,
           rchain := [dummyHead], calls := s.calls ++ if newhashfile then [.savefixups] else [] }

/-- `nhinfo` after `sealNhinfo`: allocated if it was not, and given its header. -/
def sealHeader (env : Env) (hinfo : HashInfo) : Ptr HashInfo → Ptr HashInfo
  | .null => .live (withHeader env hinfo HashInfo.zero)
  | .live h => .live (withHeader env hinfo h)
  | .freed => .freed

/-- `free(nhinfo)` at `error:`; the static keeps the dangling pointer. -/
def Ptr.free {α : Type} : Ptr α → Ptr α
  | .live _ => .freed
  | p => p

/-- `deltaFrom` is the merge from `mergeStart`, ended by `finish` or `error:`. -/
lemma deltaFrom_eq {fuel : Nat} {cur : List Range} {hinfo : HashInfo} :
    deltaFrom env newhashfile hashFree fuel cur hinfo s =
      catchErr (run env newhashfile hashFree fuel ⟨.top, hinfo.regions, cur⟩)
        (fun _ => finish env newhashfile hinfo) (onError newhashfile)
        (mergeStart newhashfile hinfo s) := by
  cases newhashfile <;> simp [deltaFrom, mergeStart, bind_apply, modifySt, whenM]

/-- `deltaFrom` ends in `finish` after a merge that returned, or in `error:` after one that
jumped there. -/
lemma deltaFrom_ok {fuel : Nat} {cur : List Range} {hinfo : HashInfo}
    {r : Int × Option (List Range)}
    (H : deltaFrom env newhashfile hashFree fuel cur hinfo s = .ok r s') :
    (∃ l sr, run env newhashfile hashFree fuel ⟨.top, hinfo.regions, cur⟩
        (mergeStart newhashfile hinfo s) = .ok l sr ∧ finish env newhashfile hinfo sr = .ok r s') ∨
    (∃ sr, run env newhashfile hashFree fuel ⟨.top, hinfo.regions, cur⟩
        (mergeStart newhashfile hinfo s) = .err sr ∧ onError newhashfile sr = .ok r s') := by
  simp only [deltaFrom, bind_eq_ok] at H
  obtain ⟨_, _, h1, _, s₂, h2, H⟩ := H
  obtain ⟨-, rfl⟩ := Res.ok.inj h1
  have hs₂ : s₂ = mergeStart newhashfile hinfo s := by
    rw [whenM_ok] at h2
    split_ifs at h2 with g
    · obtain ⟨-, rfl⟩ := Res.ok.inj h2.symm
      simp [mergeStart, g]
    · simp [h2, mergeStart, g]
  subst hs₂
  unfold catchErr at H
  split at H
  · exact .inl ⟨_, _, ‹_›, H⟩
  · exact .inr ⟨_, ‹_›, H⟩
  all_goals cases H

lemma sealNhinfo_ok {hinfo : HashInfo} (H : sealNhinfo env hinfo s = .ok () s') :
    ∃ n, s' = { s with nhinfo := sealHeader env hinfo s.nhinfo, nalloc := n } := by
  obtain ⟨_, nh, _⟩ := s
  cases nh <;> simp only [sealNhinfo] at H
  · split_ifs at H
    obtain ⟨-, rfl⟩ := Res.ok.inj H
    exact ⟨_, rfl⟩
  · obtain ⟨-, rfl⟩ := Res.ok.inj H
    exact ⟨_, rfl⟩
  · obtain ⟨-, rfl⟩ := Res.ok.inj H
    exact ⟨_, rfl⟩

/-- `finish` returns `0` and the output list, seals the new signature's header and logs
`restorefixups(1)`. -/
lemma finish_ok {hinfo : HashInfo} {r : Int × Option (List Range)}
    (H : finish env newhashfile hinfo s = .ok r s') :
    r = (0, some s.rchain.reverse.tail) ∧ ∃ n, s' = { s with
      nhinfo := if newhashfile then sealHeader env hinfo s.nhinfo else s.nhinfo
      calls := s.calls ++ if newhashfile then [.restorefixups true] else []
      nalloc := n } := by
  simp only [finish, bind_eq_ok, getSt_apply] at H
  obtain ⟨_, _, ⟨rfl, rfl⟩, _, s₁, h1, _, s₂, h2, h3⟩ := H
  obtain ⟨rfl, rfl⟩ := Res.ok.inj h3
  rw [whenM_ok] at h1 h2
  refine ⟨rfl, ?_⟩
  cases newhashfile
  · simp only [Bool.false_eq_true, if_false] at h1 h2
    exact ⟨s.nalloc, by simp [h1, h2]⟩
  · simp only [if_true] at h1 h2
    obtain ⟨n, rfl⟩ := sealNhinfo_ok h1
    obtain ⟨-, rfl⟩ := Res.ok.inj h2
    exact ⟨n, by simp⟩

/-- `error:` returns `-1`, frees `nhinfo` and logs `restorefixups(0)`. -/
lemma onError_ok {r : Int × Option (List Range)} (H : onError newhashfile s = .ok r s') :
    r = (-1, none) ∧ s' = { s with
      nhinfo := s.nhinfo.free
      calls := s.calls ++ if newhashfile then [.restorefixups false] else [] } := by
  simp only [onError, bind_eq_ok] at H
  obtain ⟨_, s₁, h1, _, s₂, h2, h3⟩ := H
  obtain ⟨rfl, rfl⟩ := Res.ok.inj h3
  have hs₁ : s₁ = { s with calls := s.calls ++ if newhashfile then [.restorefixups false] else [] } := by
    rw [whenM_ok] at h1
    split_ifs at h1 with g
    · obtain ⟨-, rfl⟩ := Res.ok.inj h1
      simp [g]
    · simp [h1, g]
  subst hs₁
  refine ⟨rfl, ?_⟩
  obtain ⟨_, nh, _⟩ := s
  cases nh <;> simp only [freeNhinfo] at h2
  · obtain ⟨-, rfl⟩ := Res.ok.inj h2
    rfl
  · obtain ⟨-, rfl⟩ := Res.ok.inj h2
    rfl
  · cases h2

/-- With no signature file and its allocation granted, a call concocts an empty signature. -/
lemma loadSig_none (blksize : Nat) (hb : env.hashblkSize / secsize = blksize)
    (halloc : env.allocOk s.nalloc = true) :
    loadSig env none s = .ok ⟨true, hashVersion, hashTypeSha256, blksize, []⟩
      { s with hashblksize := blksize, nalloc := s.nalloc + 1 } := by
  simp [loadSig, emptyHashinfo, bind_apply, modifySt, mallocM, halloc, hashVersion, hb]

/-- The signature `emptyHashinfo` concocts. -/
lemma emptyHashinfo_ok {hinfo : HashInfo} (H : emptyHashinfo env s = .ok hinfo s') :
    hinfo = ⟨true, hashVersion, hashTypeSha256, env.hashblkSize / secsize, []⟩ ∧
      ∃ n, s' = { s with hashblksize := hinfo.blksize, nalloc := n } := by
  simp only [emptyHashinfo, bind_eq_ok] at H
  obtain ⟨_, _, h1, _, _, h2, h3⟩ := H
  obtain ⟨-, rfl⟩ := Res.ok.inj h1
  obtain ⟨-, rfl⟩ := mallocM_ok h2
  obtain ⟨rfl, rfl⟩ := Res.ok.inj h3
  exact ⟨rfl, _, rfl⟩

/-- A loaded signature: only `hashblksize` (set to the signature's block size) and the
allocation count changed, and every region's size is a `uint32_t` no larger than the block
size. -/
lemma loadSig_ok {hfile : Option (Option (List UInt8))} {hinfo : HashInfo}
    (H : loadSig env hfile s = .ok hinfo s') :
    (∃ n, s' = { s with hashblksize := hinfo.blksize, nalloc := n }) ∧
      ∀ h ∈ hinfo.regions, h.size < 2 ^ 32 ∧ h.size ≤ hinfo.blksize := by
  cases hfile with
  | none =>
    obtain ⟨rfl, hs⟩ := emptyHashinfo_ok H
    exact ⟨hs, by simp⟩
  | some file =>
    obtain ⟨bytes, -, -, -, -, -, hle, rfl, hs⟩ := readhashinfo_ok H
    dsimp only
    refine ⟨hs, ?_⟩
    simp only [List.forall_mem_map]
    exact fun r hr => ⟨size_lt_of_mem_sigRegions env hr, hle r hr⟩

/-- A call that returns either failed to load the prior signature, or loaded it and ran
`deltaFrom`. -/
lemma hashmapComputeDelta_ok {fuel : Nat} {cur : List Range}
    {hfile : Option (Option (List UInt8))} {infd : Int} {ssect : Nat}
    {r : Int × Option (List Range)}
    (H : hashmapComputeDelta env newhashfile hashFree fuel cur hfile infd ssect s = .ok r s') :
    cur ≠ [] ∧
    ((∃ s₁, loadSig env hfile { s with imagefd := infd, poffset := ssect } = .err s₁ ∧
        r = (-1, none) ∧ s' = s₁) ∨
      ∃ hinfo s₁, loadSig env hfile { s with imagefd := infd, poffset := ssect } = .ok hinfo s₁ ∧
        deltaFrom env newhashfile hashFree fuel cur hinfo s₁ = .ok r s') := by
  simp only [hashmapComputeDelta, bind_eq_ok, assertM_apply] at H
  obtain ⟨_, _, h1, _, _, h2, H⟩ := H
  split_ifs at h1 with g
  obtain ⟨-, rfl⟩ := Res.ok.inj h1
  obtain ⟨-, rfl⟩ := Res.ok.inj h2
  refine ⟨g, ?_⟩
  unfold catchErr at H
  split at H
  · exact .inr ⟨_, _, ‹_›, H⟩
  · obtain ⟨rfl, rfl⟩ := Res.ok.inj H
    exact .inl ⟨_, ‹_›, rfl, rfl⟩
  all_goals cases H

/-- A call that returns `0` loaded a signature, ran the merge to its end and finished. -/
lemma hashmapComputeDelta_ok_zero {fuel : Nat} {cur : List Range}
    {hfile : Option (Option (List UInt8))} {infd : Int} {ssect : Nat} {n : Option (List Range)}
    (H : hashmapComputeDelta env newhashfile hashFree fuel cur hfile infd ssect s = .ok (0, n) s') :
    ∃ hinfo s₁ l sr, loadSig env hfile { s with imagefd := infd, poffset := ssect } = .ok hinfo s₁ ∧
      run env newhashfile hashFree fuel ⟨.top, hinfo.regions, cur⟩ (mergeStart newhashfile hinfo s₁) =
        .ok l sr ∧ finish env newhashfile hinfo sr = .ok (0, n) s' := by
  obtain ⟨-, ⟨s₂, -, hr, -⟩ | ⟨hinfo, s₁, hl, hdf⟩⟩ := hashmapComputeDelta_ok H
  · simp at hr
  rcases deltaFrom_ok hdf with ⟨l, sr, hrun, hfin⟩ | ⟨sr, -, hon⟩
  · exact ⟨hinfo, s₁, l, sr, hl, hrun, hfin⟩
  · have := (onError_ok hon).1
    simp at this

/-- A call whose signature loads goes on as `deltaFrom` from the loaded state. -/
lemma hashmapComputeDelta_of_load {fuel : Nat} {cur : List Range}
    {hfile : Option (Option (List UInt8))} {infd : Int} {ssect : Nat} {hinfo : HashInfo} {s₁ : St}
    (hcur : cur ≠ [])
    (hl : loadSig env hfile { s with imagefd := infd, poffset := ssect } = .ok hinfo s₁) :
    hashmapComputeDelta env newhashfile hashFree fuel cur hfile infd ssect s =
      deltaFrom env newhashfile hashFree fuel cur hinfo s₁ := by
  simp only [hashmapComputeDelta, bind_apply, assertM_apply, if_pos hcur, modifySt, catchErr, hl]

/-- A call whose signature loads, whose merge runs to its end and whose `finish` returns,
returns what `finish` does. -/
lemma hashmapComputeDelta_of_run {fuel : Nat} {cur : List Range}
    {hfile : Option (Option (List UInt8))} {infd : Int} {ssect : Nat} {hinfo : HashInfo}
    {s₁ sr : St} {l : Loc} {r : Int × Option (List Range)} (hcur : cur ≠ [])
    (hl : loadSig env hfile { s with imagefd := infd, poffset := ssect } = .ok hinfo s₁)
    (hrun : run env newhashfile hashFree fuel ⟨.top, hinfo.regions, cur⟩
      (mergeStart newhashfile hinfo s₁) = .ok l sr)
    (hfin : finish env newhashfile hinfo sr = .ok r s') :
    hashmapComputeDelta env newhashfile hashFree fuel cur hfile infd ssect s = .ok r s' := by
  rw [hashmapComputeDelta_of_load hcur hl, deltaFrom_eq]
  simp only [catchErr, hrun, hfin]

/-- The same with no signature file: the merge starts from the signature the call concocts. -/
lemma hashmapComputeDelta_none_of_run {fuel : Nat} {cur : List Range} {infd : Int} {ssect : Nat}
    {l : Loc} {sr : St} {r : Int × Option (List Range)} (blksize : Nat) (hcur : cur ≠ [])
    (hb : env.hashblkSize / secsize = blksize) (halloc : env.allocOk s.nalloc = true)
    (hrun : run env newhashfile hashFree fuel ⟨.top, [], cur⟩
      (mergeStart newhashfile ⟨true, hashVersion, hashTypeSha256, blksize, []⟩
        { s with imagefd := infd, poffset := ssect, hashblksize := blksize, nalloc := s.nalloc + 1 }) =
      .ok l sr)
    (hfin : finish env newhashfile ⟨true, hashVersion, hashTypeSha256, blksize, []⟩ sr = .ok r s') :
    hashmapComputeDelta env newhashfile hashFree fuel cur none infd ssect s = .ok r s' :=
  hashmapComputeDelta_of_run hcur (loadSig_none blksize hb halloc) hrun hfin

/-- A first call with a new signature on one sector, with no signature file. -/
lemma plain_first_call :
    hashmapComputeDelta Env.plain true false 10 [⟨0, 1⟩] none 0 0 St.init = .ok (0, some [⟨0, 1⟩])
      { St.init with
        hashblksize := 128, hashlen := 32, hashfunc := some .sha256, poffset := 0, nalloc := 3
        nhinfo := .live ⟨true, 3, 3, 128, [⟨0, 1, 0, hashBuf [0]⟩]⟩, rchain := [⟨0, 1⟩, dummyHead]
        calls := [.savefixups, .readDisk 0 1, .hasfixup 0 1, .restorefixups true] } :=
  have hrun : run Env.plain true false 10 ⟨.top, [], [⟨0, 1⟩]⟩
      (mergeStart true ⟨true, hashVersion, hashTypeSha256, 128, []⟩
        { St.init with imagefd := 0, poffset := 0, hashblksize := 128, nalloc := St.init.nalloc + 1 }) =
      .ok ⟨.done, [], []⟩
        { St.init with
          hashblksize := 128, hashlen := 32, hashfunc := some .sha256, poffset := 0, nalloc := 3
          nhinfo := .live ⟨false, 0, 0, 0, [⟨0, 1, 0, hashBuf [0]⟩]⟩, rchain := [⟨0, 1⟩, dummyHead]
          calls := [.savefixups, .readDisk 0 1, .hasfixup 0 1] } := rfl
  hashmapComputeDelta_none_of_run 128 (by simp) rfl rfl hrun rfl

/-- A V3 MD5 signature file with one region, `[10, 14)`, whose stored hash is that of the zero
disk `Env.plain` reads. -/
lemma prior_region_load :
    loadSig Env.plain
        (some (some (encodeHdr 8 true 3 hashTypeMd5 1 128 ++ encodeRegion ⟨10, 4, 0, [0]⟩)))
        { St.init with imagefd := 0, poffset := 0 } =
      .ok ⟨true, 3, hashTypeMd5, 128, [⟨10, 4, 0, hashBuf [0]⟩]⟩
        { St.init with imagefd := 0, poffset := 0, hashblksize := 128, nalloc := 2 } := rfl


/-- A first call with a new signature on the allocation `[0, 3) ∪ [8, 18)` against that signature:
the region still matches, so it is re-emitted whole and left out of `*nranges`. -/
lemma prior_region_call :
    hashmapComputeDelta Env.plain true false 12 [⟨0, 3⟩, ⟨8, 10⟩]
        (some (some (encodeHdr 8 true 3 hashTypeMd5 1 128 ++ encodeRegion ⟨10, 4, 0, [0]⟩))) 0 0
        St.init =
      .ok (0, some [⟨0, 3⟩, ⟨8, 2⟩, ⟨14, 4⟩])
        { St.init with
          hashblksize := 128, hashlen := 16, hashfunc := some .md5, poffset := 0, nalloc := 6
          nhinfo := .live ⟨true, 3, hashTypeMd5, 128, [⟨0, 3, 0, hashBuf [0]⟩, ⟨8, 2, 0, hashBuf [0]⟩,
            ⟨10, 4, 0, hashBuf [0]⟩, ⟨14, 4, 0, hashBuf [0]⟩]⟩
          rchain := [⟨14, 4⟩, ⟨8, 2⟩, ⟨0, 3⟩, dummyHead]
          calls := [.savefixups, .readDisk 0 3, .hasfixup 0 3, .readDisk 8 2, .hasfixup 8 2,
            .hasfixup 10 4, .readDisk 10 4, .hasfixup 10 4, .readDisk 14 4, .hasfixup 14 4,
            .restorefixups true] } := by
  -- the region `[0, 3)` before the `hreg` `[10, 14)` is new data
  have h1 : step Env.plain true false ⟨.top, [⟨10, 4, 0, hashBuf [0]⟩], [⟨0, 3⟩, ⟨8, 10⟩]⟩
      (mergeStart true ⟨true, 3, hashTypeMd5, 128, [⟨10, 4, 0, hashBuf [0]⟩]⟩
        { St.init with imagefd := 0, poffset := 0, hashblksize := 128, nalloc := 2 }) =
      .ok ⟨.drain ⟨10, 4, 0, hashBuf [0]⟩, [], [⟨0, 3⟩, ⟨8, 10⟩]⟩
        (mergeStart true ⟨true, 3, hashTypeMd5, 128, [⟨10, 4, 0, hashBuf [0]⟩]⟩
          { St.init with imagefd := 0, poffset := 0, hashblksize := 128, nalloc := 2 }) := rfl
  have h2 : step Env.plain true false ⟨.drain ⟨10, 4, 0, hashBuf [0]⟩, [], [⟨0, 3⟩, ⟨8, 10⟩]⟩
      (mergeStart true ⟨true, 3, hashTypeMd5, 128, [⟨10, 4, 0, hashBuf [0]⟩]⟩
        { St.init with imagefd := 0, poffset := 0, hashblksize := 128, nalloc := 2 }) =
      .ok ⟨.drain ⟨10, 4, 0, hashBuf [0]⟩, [], [⟨8, 10⟩]⟩
        { St.init with
          hashblksize := 128, hashlen := 16, hashfunc := some .md5, poffset := 0, nalloc := 4
          nhinfo := .live ⟨false, 0, 0, 0, [⟨0, 3, 0, hashBuf [0]⟩]⟩, rchain := [⟨0, 3⟩, dummyHead]
          calls := [.savefixups, .readDisk 0 3, .hasfixup 0 3] } := rfl
  have h3 : step Env.plain true false ⟨.drain ⟨10, 4, 0, hashBuf [0]⟩, [], [⟨8, 10⟩]⟩
        { St.init with
          hashblksize := 128, hashlen := 16, hashfunc := some .md5, poffset := 0, nalloc := 4
          nhinfo := .live ⟨false, 0, 0, 0, [⟨0, 3, 0, hashBuf [0]⟩]⟩, rchain := [⟨0, 3⟩, dummyHead]
          calls := [.savefixups, .readDisk 0 3, .hasfixup 0 3] } =
      .ok ⟨.overlap ⟨10, 4, 0, hashBuf [0]⟩, [], [⟨8, 10⟩]⟩
        { St.init with
          hashblksize := 128, hashlen := 16, hashfunc := some .md5, poffset := 0, nalloc := 4
          nhinfo := .live ⟨false, 0, 0, 0, [⟨0, 3, 0, hashBuf [0]⟩]⟩, rchain := [⟨0, 3⟩, dummyHead]
          calls := [.savefixups, .readDisk 0 3, .hasfixup 0 3] } := rfl
  -- `[8, 10)` is split off as new data, and `[10, 14)` still hashes as stored: `changed` is 0
  -- and the `hreg` goes into the new signature whole, with the hash `hash_and_cmp` took
  have hsplit : headSplit Env.plain true ⟨10, 4, 0, hashBuf [0]⟩ ⟨8, 10⟩
        { St.init with
          hashblksize := 128, hashlen := 16, hashfunc := some .md5, poffset := 0, nalloc := 4
          nhinfo := .live ⟨false, 0, 0, 0, [⟨0, 3, 0, hashBuf [0]⟩]⟩, rchain := [⟨0, 3⟩, dummyHead]
          calls := [.savefixups, .readDisk 0 3, .hasfixup 0 3] } =
      .ok ⟨10, 8⟩
        { St.init with
          hashblksize := 128, hashlen := 16, hashfunc := some .md5, poffset := 0, nalloc := 5
          nhinfo := .live ⟨false, 0, 0, 0, [⟨0, 3, 0, hashBuf [0]⟩, ⟨8, 2, 0, hashBuf [0]⟩]⟩
          rchain := [⟨8, 2⟩, ⟨0, 3⟩, dummyHead]
          calls := [.savefixups, .readDisk 0 3, .hasfixup 0 3, .readDisk 8 2, .hasfixup 8 2] } := rfl
  have hchanged : decideChanged Env.plain true false ⟨10, 4, 0, hashBuf [0]⟩ ⟨10, 8⟩
        { St.init with
          hashblksize := 128, hashlen := 16, hashfunc := some .md5, poffset := 0, nalloc := 5
          nhinfo := .live ⟨false, 0, 0, 0, [⟨0, 3, 0, hashBuf [0]⟩, ⟨8, 2, 0, hashBuf [0]⟩]⟩
          rchain := [⟨8, 2⟩, ⟨0, 3⟩, dummyHead]
          calls := [.savefixups, .readDisk 0 3, .hasfixup 0 3, .readDisk 8 2, .hasfixup 8 2] } =
      .ok 0
        { St.init with
          hashblksize := 128, hashlen := 16, hashfunc := some .md5, poffset := 0, nalloc := 5
          nhinfo := .live ⟨false, 0, 0, 0, [⟨0, 3, 0, hashBuf [0]⟩, ⟨8, 2, 0, hashBuf [0]⟩,
            ⟨10, 4, 0, hashBuf [0]⟩]⟩
          rchain := [⟨8, 2⟩, ⟨0, 3⟩, dummyHead]
          calls := [.savefixups, .readDisk 0 3, .hasfixup 0 3, .readDisk 8 2, .hasfixup 8 2,
            .hasfixup 10 4, .readDisk 10 4, .hasfixup 10 4] } := rfl
  have h4 : step Env.plain true false ⟨.overlap ⟨10, 4, 0, hashBuf [0]⟩, [], [⟨8, 10⟩]⟩
        { St.init with
          hashblksize := 128, hashlen := 16, hashfunc := some .md5, poffset := 0, nalloc := 4
          nhinfo := .live ⟨false, 0, 0, 0, [⟨0, 3, 0, hashBuf [0]⟩]⟩, rchain := [⟨0, 3⟩, dummyHead]
          calls := [.savefixups, .readDisk 0 3, .hasfixup 0 3] } =
      .ok ⟨.covered ⟨10, 4, 0, hashBuf [0]⟩ 0, [], [⟨10, 8⟩]⟩
        { St.init with
          hashblksize := 128, hashlen := 16, hashfunc := some .md5, poffset := 0, nalloc := 5
          nhinfo := .live ⟨false, 0, 0, 0, [⟨0, 3, 0, hashBuf [0]⟩, ⟨8, 2, 0, hashBuf [0]⟩,
            ⟨10, 4, 0, hashBuf [0]⟩]⟩
          rchain := [⟨8, 2⟩, ⟨0, 3⟩, dummyHead]
          calls := [.savefixups, .readDisk 0 3, .hasfixup 0 3, .readDisk 8 2, .hasfixup 8 2,
            .hasfixup 10 4, .readDisk 10 4, .hasfixup 10 4] } := by
    simp [step, bind_apply, hsplit, hchanged]
  -- the covered loop emits nothing for an unchanged `hreg`; `[14, 18)` is left over
  have h5 : run Env.plain true false 8 ⟨.covered ⟨10, 4, 0, hashBuf [0]⟩ 0, [], [⟨10, 8⟩]⟩
        { St.init with
          hashblksize := 128, hashlen := 16, hashfunc := some .md5, poffset := 0, nalloc := 5
          nhinfo := .live ⟨false, 0, 0, 0, [⟨0, 3, 0, hashBuf [0]⟩, ⟨8, 2, 0, hashBuf [0]⟩,
            ⟨10, 4, 0, hashBuf [0]⟩]⟩
          rchain := [⟨8, 2⟩, ⟨0, 3⟩, dummyHead]
          calls := [.savefixups, .readDisk 0 3, .hasfixup 0 3, .readDisk 8 2, .hasfixup 8 2,
            .hasfixup 10 4, .readDisk 10 4, .hasfixup 10 4] } =
      .ok ⟨.done, [], []⟩
        { St.init with
          hashblksize := 128, hashlen := 16, hashfunc := some .md5, poffset := 0, nalloc := 6
          nhinfo := .live ⟨false, 0, 0, 0, [⟨0, 3, 0, hashBuf [0]⟩, ⟨8, 2, 0, hashBuf [0]⟩,
            ⟨10, 4, 0, hashBuf [0]⟩, ⟨14, 4, 0, hashBuf [0]⟩]⟩
          rchain := [⟨14, 4⟩, ⟨8, 2⟩, ⟨0, 3⟩, dummyHead]
          calls := [.savefixups, .readDisk 0 3, .hasfixup 0 3, .readDisk 8 2, .hasfixup 8 2,
            .hasfixup 10 4, .readDisk 10 4, .hasfixup 10 4, .readDisk 14 4, .hasfixup 14 4] } := rfl
  have hrun := (((run_succ_of_step (by decide) h1).trans (run_succ_of_step (by decide) h2)).trans
    ((run_succ_of_step (by decide) h3).trans (run_succ_of_step (by decide) h4))).trans h5
  exact hashmapComputeDelta_of_run (by simp) prior_region_load hrun rfl

end Imagezip.Hashmap
