import Imagezip.Hashmap.StepClosed

/-!
# The calls to the fixup module

With a new signature, `hashmap_compute_delta` calls `savefixups()` before the merge and
`restorefixups(1)` after it, or `restorefixups(0)` at `error:`.  In between it only asks
`hasfixup`, reads the disk and applies fixups.  Without a new signature it neither saves nor
restores.  It also hashes a prior region only after `hasfixup` has said the region has no fixup,
so it never applies one.

* `MergeCalls.stepClosed`: what one merge step may log;
* `deltaFrom_calls`: the calls around a whole merge;
* `fixup_protocol`: the law for `hashmap_compute_delta` once the signature is read.
-/

namespace Imagezip.Hashmap

/-- What the merge may log without a new signature: `hasfixup` queries, and reads of ranges
that have no fixup. -/
def Event.Plain (env : Env) : Event → Prop
  | .hasfixup _ _ => True
  | .readDisk start size => env.hasfixup start size = false
  | _ => False

/-! ## One step -/

/-- A bound `L` on the calls that allows what the merge may log: `hasfixup` queries, reads of
ranges that have no fixup, and with a new signature whatever `add_to_hashmap` logs. -/
structure MergeCalls (env : Env) (newhashfile : Bool) (L : Event → Prop) : Prop where
  hasfixup : ∀ a n, L (.hasfixup a n)
  read : ∀ a n, env.hasfixup a n = false → L (.readDisk a n)
  inner : newhashfile = true → ∀ e, Event.Inner e → L e

/-- Such a bound is kept by every piece of a merge step. -/
lemma MergeCalls.stepClosed {env : Env} {newhashfile : Bool} {L : Event → Prop}
    (hL : MergeCalls env newhashfile L) : StepClosed env newhashfile (LogsOnly L) where
  pure := LogsOnly.pure'
  bind := LogsOnly.bind'
  ite c _ _ _ hx hy := by
    by_cases hc : c
    · simpa [hc] using hx hc
    · simpa [hc] using hy hc
  assertM := LogsOnly.assertM'
  logHasfixup _ _ := LogsOnly.logM' (hL.hasfixup _ _)
  addToRange := addToRange_logs
  addToHashmap a n rhash hnh := (addToHashmap_logs a n rhash).mono (hL.inner hnh)
  hashAndCmp h hfix := (hashAndCmp_logs h).mono fun e he => by
    simp only [hashRangeCalls, hfix, Bool.false_eq_true, if_false, List.append_nil,
      List.mem_cons, List.mem_singleton, List.not_mem_nil, or_false] at he
    rcases he with rfl | rfl
    exacts [hL.read _ _ hfix, hL.hasfixup _ _]

/-! ## Around the merge -/

/-- **Run lemma**: the calls of a whole `deltaFrom`: `savefixups` with a new signature, calls of
the merge only, then `restorefixups` saying whether it returns `0`. -/
theorem deltaFrom_calls {env : Env} {newhashfile hashFree : Bool} {L : Event → Prop}
    (hL : MergeCalls env newhashfile L) {fuel : Nat} {cur : List Range} {hinfo : HashInfo}
    {r : Int × Option (List Range)} {s s' : St}
    (H : deltaFrom env newhashfile hashFree fuel cur hinfo s = .ok r s') :
    (r.1 = 0 ∨ r.1 = -1) ∧ ∃ es, (∀ e ∈ es, L e) ∧ s'.calls = s.calls ++
      if newhashfile then .savefixups :: es ++ [.restorefixups (r.1 = 0)] else es := by
  have hstep : ∀ l, LogsOnly L (step env newhashfile hashFree l) := hL.stepClosed.step_closed
  have hrun := (run_logsOnly hstep fuel ⟨.top, hinfo.regions, cur⟩).logs
    (mergeStart newhashfile hinfo s)
  rcases deltaFrom_ok H with ⟨l, sr, hr, hfin⟩ | ⟨sr, hr, hon⟩
  · obtain ⟨rfl, n, rfl⟩ := finish_ok hfin
    rw [hr] at hrun
    obtain ⟨es, hes, hcalls⟩ := hrun
    refine ⟨.inl rfl, es, hes, ?_⟩
    cases newhashfile <;> simp_all [Res.state, mergeStart]
  · obtain ⟨rfl, rfl⟩ := onError_ok hon
    rw [hr] at hrun
    obtain ⟨es, hes, hcalls⟩ := hrun
    refine ⟨.inr rfl, es, hes, ?_⟩
    cases newhashfile <;> simp_all [Res.state, mergeStart]

/-- The calls the law allows: those of the merge, and without a new signature only queries
and reads of ranges that have no fixup. -/
lemma MergeCalls.protocol (env : Env) (newhashfile : Bool) :
    MergeCalls env newhashfile fun e => Event.Inner e ∧ (newhashfile = false → Event.Plain env e) :=
  ⟨fun _ _ => ⟨trivial, fun _ => trivial⟩, fun _ _ h => ⟨trivial, fun _ => h⟩,
    fun hnh _ he => ⟨he, fun hf => absurd (hnh.symm.trans hf) (by decide)⟩⟩

/-- **The fixup protocol**: with a new signature the calls are bracketed by one `savefixups` and
one `restorefixups`; without one only queries and reads of fixup-free ranges are made. -/
theorem fixup_protocol {env : Env} {newhashfile hashFree : Bool} {fuel : Nat}
    {cur : List Range} {hfile : Option (Option (List UInt8))} {infd : Int} {ssect : Nat}
    {hinfo : HashInfo} {s s₁ s' : St} {r : Int × Option (List Range)}
    (hload : loadSig env hfile { s with imagefd := infd, poffset := ssect } = .ok hinfo s₁)
    (H : hashmapComputeDelta env newhashfile hashFree fuel cur hfile infd ssect s = .ok r s') :
    (r.1 = 0 ∨ r.1 = -1) ∧ ∃ es, s'.calls = s.calls ++
      (if newhashfile then .savefixups :: es ++ [.restorefixups (r.1 = 0)] else es) ∧
      ∀ e ∈ es, Event.Inner e ∧ (newhashfile = false → Event.Plain env e) := by
  obtain ⟨-, ⟨s₂, hl, -⟩ | ⟨hinfo', s₂, hl, hdf⟩⟩ := hashmapComputeDelta_ok H
  · rw [hload] at hl
    cases hl
  rw [hload] at hl
  obtain ⟨rfl, rfl⟩ := Res.ok.inj hl
  obtain ⟨⟨k, rfl⟩, -⟩ := loadSig_ok hload
  obtain ⟨hr, es, hes, hcalls⟩ := deltaFrom_calls (MergeCalls.protocol env newhashfile) hdf
  exact ⟨hr, es, hcalls, hes⟩

/-- The protocol on a one-sector allocation with a new signature and no prior one. -/
theorem fixup_protocol_plain :
    ∃ s₁ s', loadSig Env.plain none { St.init with imagefd := 0, poffset := 0 } =
        .ok ⟨true, 3, 3, 128, []⟩ s₁ ∧
      hashmapComputeDelta Env.plain true false 10 [⟨0, 1⟩] none 0 0 St.init =
        .ok (0, some [⟨0, 1⟩]) s' ∧
      ((0 : Int) = 0 ∨ (0 : Int) = -1) ∧ ∃ es, s'.calls = St.init.calls ++
        (.savefixups :: es ++ [.restorefixups true]) ∧
        ∀ e ∈ es, Event.Inner e ∧ (true = false → Event.Plain Env.plain e) :=
  have hload : loadSig Env.plain none { St.init with imagefd := 0, poffset := 0 } =
      .ok ⟨true, 3, 3, 128, []⟩
        { St.init with imagefd := 0, poffset := 0, hashblksize := 128, nalloc := 1 } := rfl
  ⟨_, _, hload, plain_first_call, fixup_protocol hload plain_first_call⟩

end Imagezip.Hashmap
