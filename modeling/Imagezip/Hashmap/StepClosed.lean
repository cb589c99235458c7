import Imagezip.Hashmap.DeltaStep

/-!
# What every merge step has by construction

A merge step is built by `>>=`, `pure` and `if` from a few pieces of engine code: `assert`s,
the `hasfixup` query, `add_to_range`, `add_to_hashmap` (only for a new signature) and
`hash_and_cmp` (only over a region `hasfixup` has cleared).  `StepClosed Q` says that a property
`Q` of engine code holds of these pieces and survives the three combinators; `step_closed` then
gives it for every step, from one case analysis of `step`.

* `step_closed`: every step has every such property.
-/

namespace Imagezip.Hashmap

/-- A property of engine code that the pieces of a merge step have and that `>>=`, `pure` and
`if` keep. -/
structure StepClosed (env : Env) (newhashfile : Bool) (Q : {α : Type} → EngM α → Prop) :
    Prop where
  pure : ∀ {α : Type} (a : α), Q (pure a : EngM α)
  bind : ∀ {α β : Type} {x : EngM α} {f : α → EngM β}, Q x → (∀ a, Q (f a)) → Q (x >>= f)
  ite : ∀ {α : Type} (c : Prop) [Decidable c] {x y : EngM α}, (c → Q x) → (¬ c → Q y) →
    Q (if c then x else y)
  assertM : ∀ (c : Prop) [Decidable c], Q (assertM c)
  logHasfixup : ∀ a n, Q (logM (.hasfixup a n))
  addToRange : ∀ a n, Q (addToRange env a n)
  addToHashmap : ∀ a n rhash, newhashfile = true → Q (addToHashmap env a n rhash)
  hashAndCmp : ∀ h : HashRegion, env.hasfixup h.start h.size = false → Q (hashAndCmp env h)

namespace StepClosed

variable {env : Env} {newhashfile hashFree : Bool} {Q : {α : Type} → EngM α → Prop}
  (hQ : StepClosed env newhashfile Q)
include hQ

lemma whenM' {c : Prop} [Decidable c] {x : EngM Unit} (h : c → Q x) : Q (whenM c x) :=
  hQ.ite c h fun _ => hQ.pure ()

lemma headSplit (h : HashRegion) (d : Range) : Q (headSplit env newhashfile h d) :=
  hQ.ite _ (fun _ => hQ.bind (hQ.addToRange _ _) fun _ =>
    hQ.bind (hQ.whenM' (hQ.addToHashmap _ _ _)) fun _ => hQ.pure _) fun _ => hQ.pure _

lemma decideChanged (h : HashRegion) (d : Range) :
    Q (decideChanged env newhashfile hashFree h d) := by
  refine hQ.ite _ (fun _ => hQ.bind (hQ.logHasfixup _ _) fun _ => ?_) fun _ => hQ.pure _
  refine hQ.ite _ (fun _ => hQ.pure _) fun hfix => ?_
  refine hQ.bind (hQ.hashAndCmp h (by simpa using hfix)) fun ⟨_, _⟩ => ?_
  exact hQ.bind (hQ.whenM' (hQ.addToHashmap _ _ _)) fun _ => hQ.pure _

lemma emitCovered (c a n : Nat) : Q (emitCovered env newhashfile c a n) :=
  hQ.ite _ (fun _ => hQ.bind (hQ.addToRange _ _) fun _ =>
    hQ.whenM' fun h => hQ.addToHashmap _ _ _ h.2) fun _ => hQ.pure _

/-- `assert(drange == NULL || drange->size > 0)` and the bump of the cursor. -/
lemma bump {α : Type} (c : Prop) [Decidable c] (a : α) :
    Q (Hashmap.assertM c >>= fun _ => (Pure.pure a : EngM α)) :=
  hQ.bind (hQ.assertM c) fun _ => hQ.pure a

lemma coveredIter (l : Loc) (h : HashRegion) (c : Nat) (d : Range) (ds : List Range) :
    Q (coveredIter env newhashfile l h c d ds) :=
  hQ.bind (hQ.assertM _) fun _ => hQ.bind (hQ.assertM _) fun _ =>
    hQ.bind (hQ.emitCovered _ _ _) fun _ =>
      hQ.ite _ (fun _ => hQ.bump _ _) fun _ => hQ.pure _

/-- **Step lemma**: every merge step has every property `StepClosed` allows. -/
theorem step_closed (l : Loc) : Q (step env newhashfile hashFree l) := by
  obtain ⟨pc, hregs, ds⟩ := l
  cases pc with
  | top =>
    cases hregs
    · exact hQ.bump _ _
    · exact hQ.bump _ _
  | drain h =>
    cases ds with
    | nil => exact hQ.pure _
    | cons d ds =>
      exact hQ.ite _ (fun _ => hQ.bind (hQ.addToRange _ _) fun _ =>
        hQ.bind (hQ.whenM' (hQ.addToHashmap _ _ _)) fun _ => hQ.bump _ _) fun _ => hQ.pure _
  | overlap h =>
    cases ds with
    | nil => exact hQ.bump _ _
    | cons d ds =>
      exact hQ.bind (hQ.assertM _) fun _ => hQ.ite _ (fun _ => hQ.pure _) fun _ =>
        hQ.bind (hQ.assertM _) fun _ => hQ.bind (hQ.headSplit h d) fun _ =>
          hQ.bind (hQ.decideChanged h _) fun _ => hQ.bump _ _
  | covered h c =>
    cases ds with
    | nil => exact hQ.bump _ _
    | cons d ds =>
      exact hQ.ite _ (fun _ => hQ.coveredIter _ _ _ _ _) fun _ => hQ.bump _ _
  | trailing =>
    cases ds with
    | nil => exact hQ.pure _
    | cons d ds =>
      exact hQ.bind (hQ.assertM _) fun _ => hQ.bind (hQ.addToRange _ _) fun _ =>
        hQ.bind (hQ.whenM' (hQ.addToHashmap _ _ _)) fun _ => hQ.bump _ _
  | done => exact hQ.pure _

end StepClosed

end Imagezip.Hashmap
