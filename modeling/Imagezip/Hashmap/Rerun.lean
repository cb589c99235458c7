import Imagezip.Hashmap.StepClosed

/-!
# Calling the engine twice

`nhinfo` is a static of `hashmap.c` that `hashmap_compute_delta` never resets, and `addhash`
appends to whatever signature it points at.  A second call with the same inputs returns the
same delta, since the merge reads nothing of the state that the call does not set afresh.  But it
appends the same regions to the signature the first call built, so that signature then holds
each of them twice.

* `Det`: two runs from states that agree on what the merge reads return alike and append the
  same regions;
* `run_det`: the merge is such a run;
* `delta_twice_doubles`: a second call doubles the new signature;
* `delta_twice`: two calls return the same delta; without a new signature neither touches
  `nhinfo`, and with one the second appends the first's regions again.
-/

namespace Imagezip.Hashmap

/-- What the merge reads of the engine's state: block size, hash function, image file,
partition base and the output list. -/
def St.core (s : St) : Nat × Nat × Option HashFunc × Int × Nat × List Range :=
  (s.hashblksize, s.hashlen, s.hashfunc, s.imagefd, s.poffset, s.rchain)

/-- Two runs of `x` that both return, from states that agree on the core, return the same value
and core and append the same regions to `nhinfo` (none without a new signature). -/
def Det {α : Type} (newhashfile : Bool) (x : EngM α) : Prop :=
  ∀ ⦃s t s' t' : St⦄ ⦃a b : α⦄, s.core = t.core → x s = .ok a s' → x t = .ok b t' →
    a = b ∧ s'.core = t'.core ∧ ∃ R, (newhashfile = false → R = []) ∧
      s'.nhinfo = pushRegions s.nhinfo R ∧ t'.nhinfo = pushRegions t.nhinfo R

/-! ## The pieces of a step -/

section Pieces

variable {env : Env} {newhashfile : Bool} {α : Type}

/-- Code that keeps the core and `nhinfo`, and whose value the core fixes. -/
lemma Det.of_frame {x : EngM α}
    (hv : ∀ ⦃s t s' t' : St⦄ ⦃a b : α⦄, s.core = t.core → x s = .ok a s' → x t = .ok b t' → a = b)
    (hf : ∀ ⦃s s' : St⦄ ⦃a : α⦄, x s = .ok a s' → s'.core = s.core ∧ s'.nhinfo = s.nhinfo) :
    Det newhashfile x := by
  intro s t s' t' a b hc h1 h2
  obtain ⟨c1, n1⟩ := hf h1
  obtain ⟨c2, n2⟩ := hf h2
  exact ⟨hv hc h1 h2, by rw [c1, c2, hc], [], fun _ => rfl, by simp [n1], by simp [n2]⟩

lemma Det.pure' (a : α) : Det newhashfile (pure a : EngM α) :=
  Det.of_frame (fun _ _ _ _ _ _ _ h1 h2 => (Res.ok.inj h1).1.symm.trans (Res.ok.inj h2).1)
    fun _ _ _ h => by obtain ⟨rfl, rfl⟩ := Res.ok.inj h; exact ⟨rfl, rfl⟩

lemma Det.bind' {β : Type} {x : EngM α} {f : α → EngM β} (hx : Det newhashfile x)
    (hf : ∀ a, Det newhashfile (f a)) : Det newhashfile (x >>= f) := by
  intro s t s' t' a b hc h1 h2
  obtain ⟨a₁, s₁, hx1, hf1⟩ := bind_eq_ok.mp h1
  obtain ⟨a₂, t₁, hx2, hf2⟩ := bind_eq_ok.mp h2
  obtain ⟨rfl, hc₁, R, hR, hs₁, ht₁⟩ := hx hc hx1 hx2
  obtain ⟨rfl, hc', R', hR', hs', ht'⟩ := hf a₁ hc₁ hf1 hf2
  refine ⟨rfl, hc', R ++ R', fun h => by rw [hR h, hR' h]; rfl, ?_, ?_⟩
  · rw [hs', hs₁, pushRegions_append]
  · rw [ht', ht₁, pushRegions_append]

/-- `hash_and_cmp` reads the hash function and `hashlen`, and only logs. -/
lemma hashAndCmp_det (h : HashRegion) : Det newhashfile (hashAndCmp env h) := by
  refine Det.of_frame ?_ fun s s' a h1 => ?_
  · rintro s t s' t' ⟨_, _⟩ ⟨_, _⟩ hc h1 h2
    obtain ⟨hf, hf1, hd1, -, rfl, rfl⟩ := hashAndCmp_ok h1
    obtain ⟨hf', hf2, hd2, -, rfl, rfl⟩ := hashAndCmp_ok h2
    simp only [St.core, Prod.mk.injEq] at hc
    rw [hc.2.2.1, hf2, Option.some.injEq] at hf1
    subst hf1
    rw [hd1, Option.some.injEq] at hd2
    rw [hc.2.1, hd2]
  · obtain ⟨_, -, -, -, -, rfl⟩ := hashAndCmp_ok (c := a.1) (h := a.2) h1
    exact ⟨rfl, rfl⟩

/-- `add_to_range` decides from the output list alone whether to grow its tail. -/
lemma addToRange_det (a n : Nat) : Det newhashfile (addToRange env a n) := by
  intro s t s' t' _ _ hc h1 h2
  have hr : s.rchain = t.rchain := congrArg (fun c => c.2.2.2.2.2) hc
  simp only [St.core, Prod.mk.injEq] at hc
  obtain ⟨c1, c2, c3, c4, c5, -⟩ := hc
  simp only [addToRange, hr] at h1
  simp only [addToRange] at h2
  split_ifs at h1 h2 <;> cases h1 <;> cases h2 <;>
    exact ⟨rfl, by simp [St.core, c1, c2, c3, c4, c5], [], fun _ => rfl, by simp, by simp⟩

/-- `add_to_hashmap` cuts and hashes by the core alone. -/
lemma addToHashmap_det (a n : Nat) (rhash : Option (List UInt8)) (hnh : newhashfile = true) :
    Det newhashfile (addToHashmap env a n rhash) := by
  intro s t s' t' _ _ hc h1 h2
  obtain ⟨-, -, k, rfl⟩ := addToHashmap_ok h1
  obtain ⟨-, -, k', rfl⟩ := addToHashmap_ok h2
  have hc' := hc
  simp only [St.core, Prod.mk.injEq] at hc'
  obtain ⟨c1, -, c3, -, c5, -⟩ := hc'
  refine ⟨rfl, hc, _, fun h => absurd (hnh.symm.trans h) (by decide), rfl, ?_⟩
  rw [c1, c3, c5]

/-- `Det` is kept by every piece of a merge step. -/
lemma Det.stepClosed (env : Env) (newhashfile : Bool) :
    StepClosed env newhashfile (Det newhashfile) where
  pure := Det.pure'
  bind := Det.bind'
  ite c _ _ _ hx hy := by
    by_cases hc : c
    · simpa [hc] using hx hc
    · simpa [hc] using hy hc
  assertM _ _ := Det.of_frame (fun _ _ _ _ _ _ _ _ _ => rfl)
    fun _ _ _ h => by obtain ⟨-, rfl⟩ := assertM_ok.mp h; exact ⟨rfl, rfl⟩
  logHasfixup _ _ := Det.of_frame (fun _ _ _ _ _ _ _ _ _ => rfl)
    fun _ _ _ h => by obtain ⟨-, rfl⟩ := Res.ok.inj h; exact ⟨rfl, rfl⟩
  addToRange := addToRange_det
  addToHashmap := addToHashmap_det
  hashAndCmp h _ := hashAndCmp_det h

end Pieces

/-- **Run lemma**: a whole merge reads only the core. -/
theorem run_det {env : Env} {newhashfile hashFree : Bool} (n : Nat) (l : Loc) :
    Det newhashfile (run env newhashfile hashFree n l) := by
  induction n generalizing l with
  | zero =>
    refine Det.of_frame (fun s t s' t' a b _ h1 h2 => ?_) fun s s' a h => ?_
    · simp only [run] at h1 h2
      split_ifs at h1 h2
      exact (Res.ok.inj h1).1.symm.trans (Res.ok.inj h2).1
    · simp only [run] at h
      split_ifs at h
      obtain ⟨-, rfl⟩ := Res.ok.inj h
      exact ⟨rfl, rfl⟩
  | succ n ih =>
    simp only [run]
    split_ifs
    · exact Det.pure' l
    · exact Det.bind' ((Det.stepClosed env newhashfile).step_closed l) ih

/-! ## Two calls -/

section Calls

variable {env : Env}

/-- A signature loads the same from the same file at the same partition base. -/
lemma loadSig_det {hfile : Option (Option (List UInt8))} {s t s' t' : St} {h₁ h₂ : HashInfo}
    (H₁ : loadSig env hfile s = .ok h₁ s') (H₂ : loadSig env hfile t = .ok h₂ t')
    (hp : s.poffset = t.poffset) : h₁ = h₂ := by
  cases hfile with
  | none => rw [(emptyHashinfo_ok H₁).1, (emptyHashinfo_ok H₂).1]
  | some file =>
    obtain ⟨b₁, hb₁, -, -, -, -, -, rfl, -⟩ := readhashinfo_ok H₁
    obtain ⟨b₂, hb₂, -, -, -, -, -, rfl, -⟩ := readhashinfo_ok H₂
    cases hb₁.symm.trans hb₂
    rw [hp]

variable (env) in
/-- Sealing after a first call from a `NULL` `nhinfo`, and after a second that appends the same
regions. -/
lemma sealHeader_twice (hinfo : HashInfo) (R : List HashRegion) :
    ∃ hi, sealHeader env hinfo (pushRegions .null R) = .live hi ∧
      sealHeader env hinfo (pushRegions (.live hi) R) =
        .live { hi with regions := hi.regions ++ hi.regions } := by
  cases R <;> exact ⟨_, rfl, by simp [pushRegions, sealHeader, withHeader, HashInfo.zero]⟩

/-- **Two calls in a row.**  Two calls with the same inputs that both return `0` return the same
delta.  Without a new signature neither touches `nhinfo`.  With one, from a `NULL` `nhinfo`, the
second call appends every region of the first call's signature to it again. -/
theorem delta_twice {newhashfile hashFree : Bool} {fuel : Nat} {cur : List Range}
    {hfile : Option (Option (List UInt8))} {infd : Int} {ssect : Nat} {s s₁ s₂ : St}
    {n₁ n₂ : List Range}
    (H₁ : hashmapComputeDelta env newhashfile hashFree fuel cur hfile infd ssect s =
      .ok (0, some n₁) s₁)
    (H₂ : hashmapComputeDelta env newhashfile hashFree fuel cur hfile infd ssect s₁ =
      .ok (0, some n₂) s₂) :
    n₁ = n₂ ∧ (newhashfile = false → s₁.nhinfo = s.nhinfo ∧ s₂.nhinfo = s.nhinfo) ∧
      (newhashfile = true → s.nhinfo = .null → ∃ hi, s₁.nhinfo = .live hi ∧
        s₂.nhinfo = .live { hi with regions := hi.regions ++ hi.regions }) := by
  obtain ⟨hinfo, u₁, l₁, r₁, hl₁, hr₁, hf₁⟩ := hashmapComputeDelta_ok_zero H₁
  obtain ⟨hinfo', u₂, l₂, r₂, hl₂, hr₂, hf₂⟩ := hashmapComputeDelta_ok_zero H₂
  obtain rfl := loadSig_det hl₁ hl₂ rfl
  obtain ⟨⟨k₁, rfl⟩, -⟩ := loadSig_ok hl₁
  obtain ⟨⟨k₂, rfl⟩, -⟩ := loadSig_ok hl₂
  obtain ⟨-, hcore, R, hR, hn₁, hn₂⟩ := run_det fuel _ (by rfl) hr₁ hr₂
  obtain ⟨hv₁, _, rfl⟩ := finish_ok hf₁
  obtain ⟨hv₂, _, rfl⟩ := finish_ok hf₂
  have hrc : r₁.rchain = r₂.rchain := congrArg (fun c => c.2.2.2.2.2) hcore
  simp only [mergeStart] at hn₁ hn₂
  simp only [Prod.mk.injEq, Option.some.injEq, true_and] at hv₁ hv₂
  refine ⟨by rw [hv₁, hv₂, hrc], fun hnh => ?_, fun hnh hnull => ?_⟩
  · simp [hnh, hn₁, hn₂, hR hnh]
  · obtain ⟨hi, h1, h2⟩ := sealHeader_twice env hinfo R
    simp only [hnh, if_true, hn₁, hnull] at hn₂ ⊢
    rw [hn₂, h1, h2]
    exact ⟨hi, rfl, rfl⟩

/-- The call of `plain_first_call` once more, from where it left the engine. -/
lemma plain_second_call :
    hashmapComputeDelta Env.plain true false 10 [⟨0, 1⟩] none 0 0
      { St.init with
        hashblksize := 128, hashlen := 32, hashfunc := some .sha256, poffset := 0, nalloc := 3
        nhinfo := .live ⟨true, 3, 3, 128, [⟨0, 1, 0, hashBuf [0]⟩]⟩, rchain := [⟨0, 1⟩, dummyHead]
        calls := [.savefixups, .readDisk 0 1, .hasfixup 0 1, .restorefixups true] } =
      .ok (0, some [⟨0, 1⟩])
        { St.init with
          hashblksize := 128, hashlen := 32, hashfunc := some .sha256, poffset := 0, nalloc := 5
          nhinfo := .live ⟨true, 3, 3, 128, [⟨0, 1, 0, hashBuf [0]⟩, ⟨0, 1, 0, hashBuf [0]⟩]⟩
          rchain := [⟨0, 1⟩, dummyHead]
          calls := [.savefixups, .readDisk 0 1, .hasfixup 0 1, .restorefixups true, .savefixups,
            .readDisk 0 1, .hasfixup 0 1, .restorefixups true] } :=
  have hrun : run Env.plain true false 10 ⟨.top, [], [⟨0, 1⟩]⟩
      (mergeStart true ⟨true, hashVersion, hashTypeSha256, 128, []⟩
        { St.init with
          hashblksize := 128, hashlen := 32, hashfunc := some .sha256, poffset := 0, nalloc := 4
          nhinfo := .live ⟨true, 3, 3, 128, [⟨0, 1, 0, hashBuf [0]⟩]⟩, rchain := [⟨0, 1⟩, dummyHead]
          calls := [.savefixups, .readDisk 0 1, .hasfixup 0 1, .restorefixups true] }) =
      .ok ⟨.done, [], []⟩
        { St.init with
          hashblksize := 128, hashlen := 32, hashfunc := some .sha256, poffset := 0, nalloc := 5
          nhinfo := .live ⟨true, 3, 3, 128, [⟨0, 1, 0, hashBuf [0]⟩, ⟨0, 1, 0, hashBuf [0]⟩]⟩
          rchain := [⟨0, 1⟩, dummyHead]
          calls := [.savefixups, .readDisk 0 1, .hasfixup 0 1, .restorefixups true, .savefixups,
            .readDisk 0 1, .hasfixup 0 1] } := rfl
  hashmapComputeDelta_none_of_run 128 (by simp) rfl rfl hrun rfl

/-- **A second call doubles the new signature.**  Two calls with a new signature on one sector
and no signature file both return `0` with the same delta, but the second leaves the region of
the first in `nhinfo` twice. -/
theorem delta_twice_doubles :
    ∃ s₁ s₂, hashmapComputeDelta Env.plain true false 10 [⟨0, 1⟩] none 0 0 St.init =
        .ok (0, some [⟨0, 1⟩]) s₁ ∧
      hashmapComputeDelta Env.plain true false 10 [⟨0, 1⟩] none 0 0 s₁ = .ok (0, some [⟨0, 1⟩]) s₂ ∧
      s₁.nhinfo = .live ⟨true, 3, 3, 128, [⟨0, 1, 0, hashBuf [0]⟩]⟩ ∧
      s₂.nhinfo = .live ⟨true, 3, 3, 128, [⟨0, 1, 0, hashBuf [0]⟩, ⟨0, 1, 0, hashBuf [0]⟩]⟩ :=
  ⟨_, _, plain_first_call, plain_second_call, rfl, rfl⟩

/-- The two-call law on the calls of `delta_twice_doubles`. -/
theorem delta_twice_plain :
    ∃ s₁ s₂, hashmapComputeDelta Env.plain true false 10 [⟨0, 1⟩] none 0 0 St.init =
        .ok (0, some [⟨0, 1⟩]) s₁ ∧
      hashmapComputeDelta Env.plain true false 10 [⟨0, 1⟩] none 0 0 s₁ = .ok (0, some [⟨0, 1⟩]) s₂ ∧
      ([⟨0, 1⟩] : List Range) = [⟨0, 1⟩] ∧ (true = false → s₁.nhinfo = St.init.nhinfo ∧
        s₂.nhinfo = St.init.nhinfo) ∧
      (true = true → St.init.nhinfo = .null → ∃ hi, s₁.nhinfo = .live hi ∧
        s₂.nhinfo = .live { hi with regions := hi.regions ++ hi.regions }) :=
  ⟨_, _, plain_first_call, plain_second_call, delta_twice plain_first_call plain_second_call⟩

end Calls

end Imagezip.Hashmap
