import Imagezip.Hashmap.DeltaStep

/-!
# The drange cursor

The merge walks a copy of the allocation list: `drange` is an entry of it, or the tail of one
after a split at an `hreg` boundary (lines 925-935 and 1121-1130).  `Cursor cur hs ds` says that
`ds` is such a cursor over `cur`; the lemmas here are what the merge's invariants need of it.

* `Cursor.covers_of_covers`, `Cursor.covers_of_not_before`: below the cursor nothing of `cur`
  is left, and from the cursor on `ds` holds exactly the sectors of `cur`;
* `Cursor.ascending`, `Cursor.tail`, `Cursor.cut`: the cursor list stays in order when the merge
  bumps or splits its head;
* `Cursor.inside_iff`: the head of the cursor covers an `hreg` whole exactly when one entry of
  `cur` does, which is the test `hashmap_compute_delta` uses for `hash_free == 0`.
-/

namespace Imagezip.Hashmap

/-- Sector `x` lies before the cursor `ds` (every sector does once it is empty). -/
def Before (ds : List Range) (x : Nat) : Prop := ∀ d ∈ ds.head?, x < d.start

@[simp] lemma before_nil (x : Nat) : Before [] x := by simp [Before]

@[simp] lemma before_cons (d : Range) (ds : List Range) (x : Nat) :
    Before (d :: ds) x ↔ x < d.start := by simp [Before]

/-- `ds` is what the drange cursor has left of `cur`: nothing, or the rest of an entry `E` from
`a` on, followed by the entries after `E`.  A cursor that has cut into `E` did so at an `hreg`
boundary, so it starts at or before every region of `hs`. -/
def Cursor (cur : List Range) (hs : List HashRegion) (ds : List Range) : Prop :=
  ds = [] ∨ ∃ pre E rest a, cur = pre ++ E :: rest ∧ ds = ⟨a, E.stop - a⟩ :: rest ∧
    E.start ≤ a ∧ a < E.stop ∧ (E.start < a → ∀ h ∈ hs, a ≤ h.start)

end Imagezip.Hashmap

namespace Imagezip.Ascending

open Hashmap

/-- In an ascending list, a run before another stops before it starts. -/
lemma stop_le_of_append {l₁ l₂ : List Range} (h : Ascending (l₁ ++ l₂)) :
    ∀ p ∈ l₁, ∀ q ∈ l₂, p.stop ≤ q.start := by
  induction l₁ with
  | nil => simp
  | cons a l₁ ih =>
    intro p hp q hq
    rcases List.mem_cons.mp hp with rfl | hp
    · exact h.stop_le q (List.mem_append_right _ hq)
    · exact ih h.tail p hp q hq

variable {d : Range} {ds : List Range} {x : Nat}

/-- Before the head of an ascending list is before its rest. -/
lemma before_tail (h : Ascending (d :: ds)) (hx : Before (d :: ds) x) : Before ds x := by
  intro q hq
  have hdq := h.stop_le q (List.mem_of_mem_head? hq)
  have hd := h.2 d (List.mem_cons_self _ _)
  rw [before_cons] at hx
  simp only [Range.stop] at hdq
  omega

/-- A sector before the end of the head is before the rest. -/
lemma before_of_lt_stop (h : Ascending (d :: ds)) (hx : x < d.stop) : Before ds x :=
  fun q hq => lt_of_lt_of_le hx (h.stop_le q (List.mem_of_mem_head? hq))

/-- A covered sector before the rest lies in the head. -/
lemma mem_head (h : Ascending (d :: ds)) (hb : Before ds x) (hx : covers (d :: ds) x) :
    d.Mem x := by
  rcases (covers_cons _ _ _).mp hx with hx | hx
  · exact hx
  · cases ds with
    | nil => simp at hx
    | cons q qs => exact absurd hx (h.tail.not_covers_of_lt ((before_cons _ _ _).mp hb))

end Imagezip.Ascending

namespace Imagezip.Hashmap

namespace Cursor

variable {cur : List Range} {hs hs' : List HashRegion} {d : Range} {ds : List Range}

/-- The cursor over the whole allocation list. -/
lemma init (hcur : Ascending cur) : Cursor cur hs cur := by
  cases cur with
  | nil => exact .inl rfl
  | cons E rest =>
    refine .inr ⟨[], E, rest, E.start, rfl, ?_, le_rfl, ?_, fun h => absurd h (lt_irrefl _)⟩
    · simp [Range.stop]
    · have := hcur.2 E (List.mem_cons_self _ _)
      simp only [Range.stop]
      omega

/-- What the cursor holds is allocated. -/
lemma covers_of_covers (hc : Cursor cur hs ds) {x : Nat} (hx : covers ds x) : covers cur x := by
  rcases hc with rfl | ⟨pre, E, rest, a, rfl, rfl, hE, ha, -⟩
  · simp at hx
  · simp only [covers_cons, covers_append, Range.Mem, Range.stop_mk] at hx ⊢
    rcases hx with hx | hx
    · exact .inr (.inl ⟨by omega, by simp only [Range.stop] at ha hx ⊢; omega⟩)
    · exact .inr (.inr hx)

/-- From the cursor on, every allocated sector is still in it. -/
lemma covers_of_not_before (hcur : Ascending cur) (hc : Cursor cur hs ds) {x : Nat}
    (hb : ¬ Before ds x) (hx : covers cur x) : covers ds x := by
  rcases hc with rfl | ⟨pre, E, rest, a, rfl, rfl, hE, ha, -⟩
  · simp at hb
  · simp only [before_cons, not_lt] at hb
    simp only [covers_append, covers_cons] at hx
    rcases hx with ⟨p, hp, hpx⟩ | hx | hx
    · have := hcur.stop_le_of_append p hp E (List.mem_cons_self _ _)
      simp only [Range.Mem, Range.stop] at hpx this
      omega
    · simp only [covers_cons, Range.Mem, Range.stop_mk]
      simp only [Range.Mem, Range.stop] at hx ha ⊢
      omega
    · exact (covers_cons _ _ _).mpr (.inr hx)

/-- Every run of the cursor is the tail of an entry of `cur`. -/
lemma exists_entry (hc : Cursor cur hs ds) :
    ∀ q ∈ ds, ∃ E ∈ cur, E.start ≤ q.start ∧ q.stop = E.stop := by
  rcases hc with rfl | ⟨pre, E, rest, a, rfl, rfl, hE, ha, -⟩
  · simp
  · intro q hq
    rcases List.mem_cons.mp hq with rfl | hq
    · exact ⟨E, by simp, hE, by simp only [Range.stop_mk]; omega⟩
    · exact ⟨q, by simp [hq], le_rfl, rfl⟩

/-- The cursor is in order. -/
lemma ascending (hcur : Ascending cur) (hc : Cursor cur hs ds) : Ascending ds := by
  rcases hc with rfl | ⟨pre, E, rest, a, rfl, rfl, hE, ha, -⟩
  · exact ⟨List.chain'_nil, by simp⟩
  · have h := hcur.append_right
    refine ⟨?_, ?_⟩
    · cases rest with
      | nil => exact List.chain'_singleton _
      | cons q qs =>
        have hq := (List.chain'_cons.mp h.1)
        refine List.Chain'.cons ?_ hq.2
        simp only [Range.stop_mk]
        have := hq.1
        omega
    · intro q hq
      rcases List.mem_cons.mp hq with rfl | hq
      · simp only
        omega
      · exact h.2 q (List.mem_cons_of_mem _ hq)

/-- Bumping the cursor past its head. -/
lemma tail (hc : Cursor cur hs (d :: ds)) (hcur : Ascending cur) : Cursor cur hs' ds := by
  rcases hc with h | ⟨pre, E, rest, a, rfl, h, hE, ha, -⟩
  · cases h
  · obtain ⟨-, rfl⟩ := List.cons.inj h
    cases ds with
    | nil => exact .inl rfl
    | cons q qs =>
      have hq := hcur.2 q (by simp)
      refine .inr ⟨pre ++ [E], q, qs, q.start, by simp, ?_, le_rfl, ?_, fun h => absurd h (lt_irrefl _)⟩
      · simp [Range.stop]
      · simp only [Range.stop]
        omega

/-- Splitting the head at `a`, an `hreg` boundary inside it no later than the regions of
`hs'`. -/
lemma cut (hc : Cursor cur hs (d :: ds)) {a : Nat} (hda : d.start ≤ a) (had : a < d.stop)
    (hbound : ∀ h ∈ hs', a ≤ h.start) : Cursor cur hs' (⟨a, d.stop - a⟩ :: ds) := by
  rcases hc with h | ⟨pre, E, rest, a₀, rfl, h, hE, ha, -⟩
  · cases h
  · obtain ⟨rfl, rfl⟩ := List.cons.inj h
    simp only [Range.stop_mk] at hda had
    refine .inr ⟨pre, E, _, a, rfl, ?_, by omega, by omega, fun _ => hbound⟩
    simp only [Range.stop_mk, List.cons.injEq, Range.mk.injEq, and_true, true_and]
    omega

/-- A cursor for the regions `hs` is one for any regions among them. -/
lemma mono (hc : Cursor cur hs ds) (hsub : ∀ h ∈ hs', h ∈ hs) : Cursor cur hs' ds := by
  rcases hc with h | ⟨pre, E, rest, a, h1, h2, h3, h4, h5⟩
  · exact .inl h
  · exact .inr ⟨pre, E, rest, a, h1, h2, h3, h4, fun hlt h hh => h5 hlt h (hsub h hh)⟩

/-- Against an `hreg` that overlaps the cursor's head, the head covers the whole `hreg` exactly
when one entry of `cur` does. -/
lemma inside_iff (hcur : Ascending cur) {h : HashRegion} (hc : Cursor cur (h :: hs) (d :: ds))
    (hpos : 0 < h.size) (hlo : h.start < d.stop) (hhi : d.start < h.start + h.size) :
    (d.start ≤ h.start ∧ h.start + h.size ≤ d.stop) ↔
      ∃ r ∈ cur, r.start ≤ h.start ∧ h.start + h.size ≤ r.stop := by
  rcases hc with hd | ⟨pre, E, rest, a, rfl, hd, hE, ha, hcut⟩
  · cases hd
  obtain ⟨rfl, rfl⟩ := List.cons.inj hd
  simp only [Range.stop_mk] at hlo hhi ⊢
  constructor
  · rintro ⟨h1, h2⟩
    exact ⟨E, by simp, by omega, by omega⟩
  · rintro ⟨r, hr, hr1, hr2⟩
    have hrE : r = E := hcur.eq_of_mem hr (by simp) (x := max a h.start)
      ⟨by omega, by omega⟩ ⟨by omega, by omega⟩
    subst hrE
    have : a ≤ h.start := by
      by_contra hlt
      exact hlt (hcut (by omega) h (List.mem_cons_self _ _))
    omega

end Cursor

end Imagezip.Hashmap
