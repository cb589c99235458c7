import Mathlib

/-!
# Sector ranges

`struct range` is a run of `size` sectors from `start`; the delta engine walks a list of them
(the current allocation) and builds another (the changed sectors).  The engine appends to its
output through a tail pointer, so the model keeps the output reversed, tail first, and
`pushRun` is what `add_to_range` does to it: extend the tail when the new run starts where the
tail stops, otherwise link a new node after it.

* `covers l x`: sector `x` lies in a run of `l`.
* `Ascending`, `Canonical`: the input shape (runs in order, disjoint, positive) and the output
  shape (the same, and never adjacent).
* `covers_pushRun`, `revCanonical_pushRun`: appending a run in order keeps a reversed canonical
  list canonical and adds exactly the run's sectors.
-/

namespace Imagezip

/-- `struct range`: `size` sectors from sector `start`. -/
structure Range where
  start : Nat
  size : Nat
deriving Repr, DecidableEq

namespace Range

/-- One past the last sector of the run. -/
def stop (r : Range) : Nat := r.start + r.size

/-- Sector `x` lies in the run. -/
def Mem (r : Range) (x : Nat) : Prop := r.start ≤ x ∧ x < r.stop

instance (r : Range) (x : Nat) : Decidable (r.Mem x) := inferInstanceAs (Decidable (_ ∧ _))

@[simp] lemma stop_mk (s n : Nat) : (Range.mk s n).stop = s + n := rfl

lemma mem_iff (r : Range) (x : Nat) : r.Mem x ↔ r.start ≤ x ∧ x < r.start + r.size := Iff.rfl

end Range

/-- Sector `x` lies in some run of `l`. -/
def covers (l : List Range) (x : Nat) : Prop := ∃ r ∈ l, r.Mem x

instance (l : List Range) (x : Nat) : Decidable (covers l x) :=
  inferInstanceAs (Decidable (∃ r ∈ l, r.Mem x))

@[simp] lemma covers_nil (x : Nat) : ¬ covers [] x := by simp [covers]

@[simp] lemma covers_cons (r : Range) (l : List Range) (x : Nat) :
    covers (r :: l) x ↔ r.Mem x ∨ covers l x := by simp [covers]

@[simp] lemma covers_append (l l' : List Range) (x : Nat) :
    covers (l ++ l') x ↔ covers l x ∨ covers l' x := by
  simp only [covers, List.mem_append]
  constructor
  · rintro ⟨r, hr | hr, hx⟩
    exacts [.inl ⟨r, hr, hx⟩, .inr ⟨r, hr, hx⟩]
  · rintro (⟨r, hr, hx⟩ | ⟨r, hr, hx⟩)
    exacts [⟨r, .inl hr, hx⟩, ⟨r, .inr hr, hx⟩]

@[simp] lemma covers_reverse (l : List Range) (x : Nat) : covers l.reverse x ↔ covers l x := by
  simp [covers]

/-- Runs in ascending order, each ending before the next starts, each nonempty: the shape of
the allocation list the engine is given. -/
def Ascending (l : List Range) : Prop :=
  l.Chain' (fun a b => a.stop ≤ b.start) ∧ ∀ r ∈ l, 0 < r.size

/-- Runs strictly ascending, never adjacent, each nonempty: the shape `add_to_range` is meant
to build. -/
def Canonical (l : List Range) : Prop :=
  l.Chain' (fun a b => a.stop < b.start) ∧ ∀ r ∈ l, 0 < r.size

/-- `Canonical`, read tail first. -/
def RevCanonical (l : List Range) : Prop :=
  l.Chain' (fun b a => a.stop < b.start) ∧ ∀ r ∈ l, 0 < r.size

lemma canonical_reverse {l : List Range} : Canonical l.reverse ↔ RevCanonical l := by
  simp only [Canonical, RevCanonical, List.chain'_reverse, List.mem_reverse]
  rfl

namespace Ascending

variable {r q : Range} {l l' : List Range}

lemma tail (h : Ascending (r :: l)) : Ascending l :=
  ⟨h.1.tail, fun q hq => h.2 q (List.mem_cons_of_mem _ hq)⟩

lemma append_right (h : Ascending (l ++ l')) : Ascending l' :=
  ⟨(List.chain'_append.mp h.1).2.1, fun q hq => h.2 q (List.mem_append_right _ hq)⟩

/-- Every later run starts after the first one stops. -/
lemma stop_le (h : Ascending (r :: l)) : ∀ q ∈ l, r.stop ≤ q.start := by
  induction l generalizing r with
  | nil => simp
  | cons a l ih =>
    intro q hq
    have hra : r.stop ≤ a.start := (List.chain'_cons.mp h.1).1
    rcases List.mem_cons.mp hq with rfl | hq
    · exact hra
    · have haq := ih h.tail q hq
      have ha := h.2 a (List.mem_cons_of_mem _ (List.mem_cons_self _ _))
      simp only [Range.stop] at hra haq ⊢
      omega

/-- A sector before the first run is in no run. -/
lemma not_covers_of_lt {x : Nat} (h : Ascending (r :: l)) (hx : x < r.start) :
    ¬ covers (r :: l) x := by
  rintro ⟨q, hq, hqx⟩
  rcases List.mem_cons.mp hq with rfl | hq
  · exact absurd hqx.1 (by omega)
  · have hrq := h.stop_le q hq
    simp only [Range.Mem, Range.stop] at hqx hrq
    omega

/-- Two runs sharing a sector are the same run. -/
lemma eq_of_mem {x : Nat} (h : Ascending l) (hr : r ∈ l) (hq : q ∈ l) (hrx : r.Mem x)
    (hqx : q.Mem x) : r = q := by
  induction l with
  | nil => simp at hr
  | cons a l ih =>
    have hlt : ∀ p ∈ l, p.Mem x → a.Mem x → False := fun p hp hpx hax => by
      have := h.stop_le p hp
      simp only [Range.Mem, Range.stop] at hpx hax this
      omega
    rcases List.mem_cons.mp hr with hr | hr
    · rcases List.mem_cons.mp hq with hq | hq
      · rw [hr, hq]
      · exact (hlt q hq hqx (hr ▸ hrx)).elim
    · rcases List.mem_cons.mp hq with hq | hq
      · exact (hlt r hr hrx (hq ▸ hqx)).elim
      · exact ih h.tail hr hq

end Ascending

/-- What `add_to_range` does to the reversed output list: extend the tail node when the run
starts where it stops (64-bit sum), otherwise put a new node after it.  The empty list stands
for `dummy_head` alone, which never absorbs a run (see `Hashmap.addToRange`). -/
def pushRun : List Range → Range → List Range
  | t :: ts, r =>
    if (t.start + t.size) % 2 ^ 64 = r.start then { t with size := t.size + r.size } :: ts
    else r :: t :: ts
  | [], r => [r]

/-- The new run's sectors are added and nothing else. -/
lemma covers_pushRun (l : List Range) (r : Range) (x : Nat)
    (hstop : ∀ t ∈ l.head?, t.start + t.size < 2 ^ 64) :
    covers (pushRun l r) x ↔ covers l x ∨ r.Mem x := by
  cases l with
  | nil => simp [pushRun]
  | cons t ts =>
    have ht := hstop t rfl
    simp only [pushRun]
    split_ifs with h
    · rw [Nat.mod_eq_of_lt ht] at h
      have hsplit : (t.start ≤ x ∧ x < t.start + (t.size + r.size)) ↔
          (t.start ≤ x ∧ x < t.start + t.size) ∨ (r.start ≤ x ∧ x < r.start + r.size) := by
        omega
      simp only [covers_cons, Range.mem_iff, hsplit]
      exact or_right_comm
    · simp only [covers_cons]
      exact Or.comm

/-- Appending a nonempty run at or after the tail's end keeps the list canonical. -/
lemma revCanonical_pushRun {l : List Range} {r : Range} (hl : RevCanonical l)
    (hpos : 0 < r.size) (hafter : ∀ t ∈ l.head?, t.stop ≤ r.start)
    (hstop : ∀ t ∈ l.head?, t.start + t.size < 2 ^ 64) :
    RevCanonical (pushRun l r) := by
  obtain ⟨hc, hp⟩ := hl
  cases l with
  | nil => exact ⟨List.chain'_singleton _, by simpa [pushRun] using hpos⟩
  | cons t ts =>
    have ha := hafter t rfl
    have ht := hstop t rfl
    simp only [pushRun]
    split_ifs with h
    · rw [Nat.mod_eq_of_lt ht] at h
      refine ⟨?_, ?_⟩
      · cases ts with
        | nil => exact List.chain'_singleton _
        | cons u us =>
          rw [List.chain'_cons] at hc ⊢
          exact ⟨hc.1, hc.2⟩
      · intro q hq
        rcases List.mem_cons.mp hq with rfl | hq
        · have := hp t (List.mem_cons_self _ _)
          simp only
          omega
        · exact hp q (List.mem_cons_of_mem _ hq)
    · refine ⟨List.Chain'.cons ?_ hc, ?_⟩
      · simp only [Range.stop] at ha ⊢
        rw [Nat.mod_eq_of_lt ht] at h
        omega
      · intro q hq
        rcases List.mem_cons.mp hq with rfl | hq
        · exact hpos
        · exact hp q hq

/-- After `pushRun`, the tail stops where the new run stops. -/
lemma head_pushRun_stop (l : List Range) (r : Range)
    (hstop : ∀ t ∈ l.head?, t.start + t.size < 2 ^ 64) :
    ∀ t ∈ (pushRun l r).head?, t.stop = r.stop := by
  cases l with
  | nil => simp [pushRun]
  | cons t ts =>
    have ht := hstop t rfl
    simp only [pushRun]
    split_ifs with h
    · rw [Nat.mod_eq_of_lt ht] at h
      simp only [List.head?_cons, Option.mem_def, Option.some.injEq, forall_eq', Range.stop]
      omega
    · simp

end Imagezip
