import Imagezip.Hashmap.Cursor

/-!
# The invariant of the merge

What `*nranges` should be, and the invariant the merge loop of `hashmap_compute_delta` keeps
while every sector it touches fits in 32 bits (the loop's `uint32_t` locals and the `uint32_t`
parameters of `add_to_range` then hold the true values).

* `Unchanged`, `InDelta`: the prior regions the engine may skip, and the sectors that belong in
  the delta;
* `OutInv`, `MergeInv`: the output list is canonical and holds exactly the delta before the
  drange cursor, the cursor is a cursor over the allocation, and the finished regions lie
  before it;
* `mergeInv_init`, `mergeInv_step`: the invariant holds when the merge starts and every step
  keeps it.
-/

namespace Imagezip.Hashmap

/-! ## What the delta should be -/

section Spec

variable (env : Env) (hf : HashFunc) (hashlen : Nat) (hashFree : Bool) (cur : List Range)

/-- The engine may skip the prior region `h`: it meets the allocation, the fixup module has
nothing for it, it lies inside one allocated range unless `hash_free` is set, and its stored
hash matches the disk in the first `hashlen` bytes. -/
def Unchanged (h : HashRegion) : Prop :=
  (∃ x, h.range.Mem x ∧ covers cur x) ∧ env.hasfixup h.start h.size = false ∧
  (hashFree = true ∨ ∃ r ∈ cur, r.start ≤ h.start ∧ h.start + h.size ≤ r.stop) ∧
  ∃ d, diskHash env hf h.start h.size = some d ∧ h.hash.take hashlen = d.take hashlen

/-- Sector `x` belongs in the delta: it is allocated and no region the engine may skip holds
it. -/
def InDelta (hregs : List HashRegion) (x : Nat) : Prop :=
  covers cur x ∧ ∀ h ∈ hregs, Unchanged env hf hashlen hashFree cur h → ¬ h.range.Mem x

end Spec

/-- The inputs of the exactness law: the allocation list and the prior regions in order, every
range ending below 2^32. -/
structure Small (cur : List Range) (H : List HashRegion) : Prop where
  cur_asc : Ascending cur
  cur_small : ∀ r ∈ cur, r.stop < 2 ^ 32
  regions_asc : Ascending (H.map HashRegion.range)
  regions_small : ∀ h ∈ H, h.start + h.size < 2 ^ 32

/-! ## The invariant -/

/-- The regions not finished yet: the one being worked on and those after it. -/
def Loc.pending (l : Loc) : List HashRegion :=
  match l.pc with
  | .drain h | .overlap h | .covered h _ => h :: l.hregs
  | _ => l.hregs

/-- The regions a cut drange starts at or before. -/
def Loc.cutBound (l : Loc) : List HashRegion :=
  match l.pc with
  | .drain h | .overlap h => h :: l.hregs
  | _ => l.hregs

section Inv

variable (env : Env) (hf : HashFunc) (hashlen : Nat) (hashFree : Bool) (cur : List Range)
  (H : List HashRegion)

/-- What holds in each loop: the overlap code has a drange reaching past the start of `hreg`,
the covered loop knows whether `hreg` is unchanged, and the merge leaves the `for` loop only
once one list is exhausted. -/
def PcInv (l : Loc) : Prop :=
  match l.pc with
  | .overlap h => ∀ d ∈ l.dranges.head?, h.start < d.stop
  | .covered h c =>
    (c = 0 ↔ Unchanged env hf hashlen hashFree cur h) ∧ ∀ d ∈ l.dranges.head?, h.start ≤ d.start
  | .trailing => l.dranges = [] ∨ l.hregs = []
  | .done => l.dranges = []
  | _ => True

/-- The merge's invariant for the output `rn` (tail first) at the cursors `l`. -/
structure OutInv (rn : List Range) (l : Loc) : Prop where
  /-- the output is canonical -/
  canon : RevCanonical rn
  /-- its tail ends below 2^32 -/
  small : ∀ t ∈ rn.head?, t.stop < 2 ^ 32
  /-- and at or before the cursor -/
  tail_le : ∀ t ∈ rn.head?, ∀ d ∈ l.dranges.head?, t.stop ≤ d.start
  /-- `drange` is a cursor over the allocation -/
  cursor : Cursor cur l.cutBound l.dranges
  /-- the finished regions lie before the cursor -/
  finished : ∃ pre, H = pre ++ l.pending ∧ ∀ h ∈ pre, ∀ x, h.range.Mem x → Before l.dranges x
  /-- the output is the delta before the cursor -/
  exact : ∀ x, covers rn x ↔ InDelta env hf hashlen hashFree cur H x ∧ Before l.dranges x
  /-- the loop's own facts -/
  pc : PcInv env hf hashlen hashFree cur l

/-- The invariant on the engine: the hash function of the prior signature, and an output list
(after `dummy_head`) meeting `OutInv`. -/
def MergeInv (l : Loc) (s : St) : Prop :=
  s.hashfunc = some hf ∧ s.hashlen = hashlen ∧
    ∃ rn, s.rchain = rn ++ [dummyHead] ∧ OutInv env hf hashlen hashFree cur H rn l

end Inv

/-! ## Facts the steps share -/

/-- Moving the cursor while adding the runs `N` to the output keeps the output equal to the
delta before the cursor when `N` is exactly the delta between the old and the new cursor. -/
lemma exact_advance {A A' P B B' N : Nat → Prop} (hex : ∀ x, A x ↔ P x ∧ B x)
    (hA' : ∀ x, A' x ↔ A x ∨ N x) (hmono : ∀ x, B x → B' x) (hnew : ∀ x, N x → P x ∧ B' x)
    (hgap : ∀ x, P x → B' x → ¬ B x → N x) : ∀ x, A' x ↔ P x ∧ B' x := by
  intro x
  rw [hA', hex]
  constructor
  · rintro (⟨hp, hb⟩ | hn)
    exacts [⟨hp, hmono x hb⟩, hnew x hn]
  · rintro ⟨hp, hb'⟩
    by_cases hb : B x
    exacts [.inl ⟨hp, hb⟩, .inr (hgap x hp hb' hb)]

/-- Adding a run at or after the tail, below 2^32: the output stays canonical, its tail is
the run's end, and it gains exactly the run's sectors. -/
lemma push_out {rn : List Range} {r : Range} (hc : RevCanonical rn)
    (hs : ∀ t ∈ rn.head?, t.stop < 2 ^ 32) (hafter : ∀ t ∈ rn.head?, t.stop ≤ r.start)
    (hpos : 0 < r.size) :
    RevCanonical (pushRun rn r) ∧ (∀ t ∈ (pushRun rn r).head?, t.stop = r.stop) ∧
      ∀ x, covers (pushRun rn r) x ↔ covers rn x ∨ r.Mem x := by
  have hstop : ∀ t ∈ rn.head?, t.start + t.size < 2 ^ 64 := fun t ht => by
    have := hs t ht
    simp only [Range.stop] at this
    omega
  exact ⟨revCanonical_pushRun hc hpos hafter hstop, head_pushRun_stop rn r hstop,
    fun x => covers_pushRun rn r x hstop⟩

/-- `push_out` for a run added only when `b` fails. -/
lemma push_out_if (b : Prop) [Decidable b] {rn : List Range} {r : Range} (hc : RevCanonical rn)
    (hs : ∀ t ∈ rn.head?, t.stop < 2 ^ 32) (hafter : ∀ t ∈ rn.head?, t.stop ≤ r.start)
    (hpos : 0 < r.size) (hr : r.stop < 2 ^ 32) :
    RevCanonical (if b then rn else pushRun rn r) ∧
      (∀ t ∈ (if b then rn else pushRun rn r).head?, t.stop ≤ r.stop ∧ t.stop < 2 ^ 32) ∧
      ∀ x, covers (if b then rn else pushRun rn r) x ↔ covers rn x ∨ (¬ b ∧ r.Mem x) := by
  split_ifs with hb
  · refine ⟨hc, fun t ht => ⟨?_, hs t ht⟩, fun x => by simp [hb]⟩
    have := hafter t ht
    simp only [Range.stop] at this ⊢
    omega
  · obtain ⟨hc', hhead, hcov⟩ := push_out hc hs hafter hpos
    exact ⟨hc', fun t ht => by rw [hhead t ht]; exact ⟨le_rfl, hr⟩,
      fun x => by simp [hcov, hb]⟩

namespace Small

variable {cur : List Range} {H : List HashRegion}

/-- The regions still to come are in order. -/
lemma pending_asc (hD : Small cur H) {pre rest : List HashRegion} (hH : H = pre ++ rest) :
    Ascending (rest.map HashRegion.range) := by
  have := hD.regions_asc
  rw [hH, List.map_append] at this
  exact this.append_right

/-- A later region starts after the current one ends. -/
lemma after (hD : Small cur H) {pre hs : List HashRegion} {h : HashRegion}
    (hH : H = pre ++ h :: hs) : ∀ h' ∈ hs, h.start + h.size ≤ h'.start := by
  intro h' hh'
  exact (hD.pending_asc hH).stop_le h'.range (List.mem_map_of_mem _ hh')

/-- Every prior region is nonempty. -/
lemma pos (hD : Small cur H) {h : HashRegion} (hh : h ∈ H) : 0 < h.size :=
  hD.regions_asc.2 h.range (List.mem_map_of_mem _ hh)

/-- A run of a cursor ends below 2^32. -/
lemma cursor_small (hD : Small cur H) {hs : List HashRegion} {ds : List Range}
    (hc : Cursor cur hs ds) : ∀ d ∈ ds, d.start + d.size < 2 ^ 32 := fun d hd => by
  obtain ⟨E, hE, -, hdE⟩ := hc.exists_entry d hd
  have := hD.cur_small E hE
  simp only [Range.stop] at hdE this
  omega

end Small

section Shared

variable {env : Env} {hf : HashFunc} {hashlen : Nat} {hashFree : Bool} {cur : List Range}
  {H : List HashRegion} {rn : List Range} {l : Loc}

/-- From the cursor on, a sector is in the delta when it is allocated and no unfinished region
the engine may skip holds it. -/
lemma OutInv.inDelta_iff (hO : OutInv env hf hashlen hashFree cur H rn l) {x : Nat}
    (hb : ¬ Before l.dranges x) :
    InDelta env hf hashlen hashFree cur H x ↔
      covers cur x ∧ ∀ h ∈ l.pending, Unchanged env hf hashlen hashFree cur h → ¬ h.range.Mem x := by
  obtain ⟨pre, hH, hpre⟩ := hO.finished
  simp only [InDelta, hH, List.mem_append]
  constructor
  · rintro ⟨hx, hall⟩
    exact ⟨hx, fun h hh => hall h (.inr hh)⟩
  · rintro ⟨hx, hall⟩
    refine ⟨hx, fun h hh hu hm => ?_⟩
    rcases hh with hh | hh
    exacts [hb (hpre h hh x hm), hall h hh hu hm]

end Shared

/-! ## One lemma per step shape -/

section Steps

variable {env : Env} {hf : HashFunc} {hashlen : Nat} {hashFree : Bool} {cur : List Range}
  {H : List HashRegion} {rn : List Range} {h : HashRegion} {hs : List HashRegion} {c : Nat}
  {d : Range} {ds : List Range}

/-- Leaving the `for` loop after the last region. -/
lemma OutInv.top_nil (hO : OutInv env hf hashlen hashFree cur H rn ⟨.top, [], ds⟩) :
    OutInv env hf hashlen hashFree cur H rn ⟨.trailing, [], ds⟩ :=
  ⟨hO.canon, hO.small, hO.tail_le, hO.cursor, hO.finished, hO.exact, .inr rfl⟩

/-- Taking the next region. -/
lemma OutInv.top_cons (hO : OutInv env hf hashlen hashFree cur H rn ⟨.top, h :: hs, ds⟩) :
    OutInv env hf hashlen hashFree cur H rn ⟨.drain h, hs, ds⟩ :=
  ⟨hO.canon, hO.small, hO.tail_le, hO.cursor, hO.finished, hO.exact, trivial⟩

/-- The drain loop runs out of dranges. -/
lemma OutInv.drain_nil (hO : OutInv env hf hashlen hashFree cur H rn ⟨.drain h, hs, []⟩) :
    OutInv env hf hashlen hashFree cur H rn ⟨.overlap h, hs, []⟩ :=
  ⟨hO.canon, hO.small, hO.tail_le, hO.cursor, hO.finished, hO.exact, by simp [PcInv]⟩

/-- The drain loop exits on a drange reaching past the start of the region. -/
lemma OutInv.drain_exit (hO : OutInv env hf hashlen hashFree cur H rn ⟨.drain h, hs, d :: ds⟩)
    (hlt : h.start < d.stop) :
    OutInv env hf hashlen hashFree cur H rn ⟨.overlap h, hs, d :: ds⟩ :=
  ⟨hO.canon, hO.small, hO.tail_le, hO.cursor, hO.finished, hO.exact, by simpa [PcInv] using hlt⟩

/-- Past the drain loop with no drange left. -/
lemma OutInv.overlap_nil (hO : OutInv env hf hashlen hashFree cur H rn ⟨.overlap h, hs, []⟩) :
    OutInv env hf hashlen hashFree cur H rn ⟨.trailing, h :: hs, []⟩ :=
  ⟨hO.canon, hO.small, hO.tail_le, hO.cursor, hO.finished, hO.exact, .inl rfl⟩

/-- The covered loop runs out of dranges. -/
lemma OutInv.covered_nil (hO : OutInv env hf hashlen hashFree cur H rn ⟨.covered h c, hs, []⟩) :
    OutInv env hf hashlen hashFree cur H rn ⟨.trailing, h :: hs, []⟩ :=
  ⟨hO.canon, hO.small, hO.tail_le, .inl rfl, hO.finished, hO.exact, .inl rfl⟩

/-- Past the trailing loop. -/
lemma OutInv.trailing_nil (hO : OutInv env hf hashlen hashFree cur H rn ⟨.trailing, hs, []⟩) :
    OutInv env hf hashlen hashFree cur H rn ⟨.done, hs, []⟩ :=
  ⟨hO.canon, hO.small, hO.tail_le, hO.cursor, hO.finished, hO.exact, rfl⟩

/-- A region finished before the drange: it joins the finished ones. -/
lemma OutInv.finish_region {pc : Pc}
    (hO : OutInv env hf hashlen hashFree cur H rn ⟨pc, hs, d :: ds⟩)
    (hpend : Loc.pending ⟨pc, hs, d :: ds⟩ = h :: hs) (hcut : ∀ h' ∈ hs, h' ∈ Loc.cutBound ⟨pc, hs, d :: ds⟩)
    (hle : h.start + h.size ≤ d.start) :
    OutInv env hf hashlen hashFree cur H rn ⟨.top, hs, d :: ds⟩ := by
  obtain ⟨pre, hH, hpre⟩ := hO.finished
  refine ⟨hO.canon, hO.small, hO.tail_le, hO.cursor.mono hcut, ⟨pre ++ [h], ?_, ?_⟩, hO.exact,
    trivial⟩
  · rw [hH, hpend]
    simp [Loc.pending]
  · intro h' hh' x hx
    rcases List.mem_append.mp hh' with hh' | hh'
    · exact hpre h' hh' x hx
    · obtain rfl := List.mem_singleton.mp hh'
      simp only [HashRegion.range, Range.Mem, Range.stop_mk] at hx
      exact (before_cons d ds x).mpr (by omega)

/-- The sectors before `h` lie in no region of `h :: hs`. -/
lemma not_mem_of_lt_start (hafter : ∀ h' ∈ hs, h.start + h.size ≤ h'.start) {x : Nat}
    (hx : x < h.start) : ∀ h' ∈ h :: hs, ¬ h'.range.Mem x := by
  intro h' hh' hm
  simp only [HashRegion.range, Range.Mem, Range.stop_mk] at hm
  rcases List.mem_cons.mp hh' with rfl | hh'
  · omega
  · have := hafter h' hh'
    omega

/-- The sectors of `h` lie in no region after it. -/
lemma not_mem_of_lt_stop (hafter : ∀ h' ∈ hs, h.start + h.size ≤ h'.start) {x : Nat}
    (hx : x < h.start + h.size) : ∀ h' ∈ hs, ¬ h'.range.Mem x := by
  intro h' hh' hm
  simp only [HashRegion.range, Range.Mem, Range.stop_mk] at hm
  have := hafter h' hh'
  omega

/-- The drain loop: a drange wholly before the region goes to the output. -/
lemma OutInv.drain_emit (hD : Small cur H)
    (hO : OutInv env hf hashlen hashFree cur H rn ⟨.drain h, hs, d :: ds⟩)
    (hle : d.stop ≤ h.start) :
    OutInv env hf hashlen hashFree cur H (pushRun rn d) ⟨.drain h, hs, ds⟩ := by
  have hasc := hO.cursor.ascending hD.cur_asc
  obtain ⟨hcanon, hhead, hcov⟩ := push_out hO.canon hO.small (fun t ht => hO.tail_le t ht d rfl)
    (hasc.2 d (List.mem_cons_self _ _))
  obtain ⟨pre, hH, hpre⟩ := hO.finished
  have hafter := hD.after hH
  refine ⟨hcanon, fun t ht => ?_, fun t ht q hq => ?_, hO.cursor.tail hD.cur_asc,
    ⟨pre, hH, fun h' hh' x hx => hasc.before_tail (hpre h' hh' x hx)⟩, ?_, trivial⟩
  · rw [hhead t ht]
    exact hD.cursor_small hO.cursor d (List.mem_cons_self _ _)
  · rw [hhead t ht]
    exact hasc.stop_le q (List.mem_of_mem_head? hq)
  refine exact_advance hO.exact hcov (fun x => hasc.before_tail) (fun x hx => ?_)
    (fun x hx hb' hb => hasc.mem_head hb' (hO.cursor.covers_of_not_before hD.cur_asc hb hx.1))
  have hb : ¬ Before (d :: ds) x := by
    rw [before_cons, not_lt]
    exact hx.1
  refine ⟨(hO.inDelta_iff hb).mpr ⟨hO.cursor.covers_of_covers ((covers_cons _ _ _).mpr (.inl hx)),
    fun h' hh' _ => not_mem_of_lt_start hafter (lt_of_lt_of_le hx.2 hle) h' hh'⟩,
    hasc.before_of_lt_stop hx.2⟩

/-- The overlap code on a drange starting inside the region: no head to split. -/
lemma OutInv.overlap_inside (hO : OutInv env hf hashlen hashFree cur H rn ⟨.overlap h, hs, d :: ds⟩)
    (hle : h.start ≤ d.start) (hcu : c = 0 ↔ Unchanged env hf hashlen hashFree cur h) :
    OutInv env hf hashlen hashFree cur H rn ⟨.covered h c, hs, d :: ds⟩ :=
  ⟨hO.canon, hO.small, hO.tail_le, hO.cursor.mono fun _ => List.mem_cons_of_mem _, hO.finished,
    hO.exact, hcu, by simpa using hle⟩

/-- The overlap code on a drange starting before the region: its head goes to the output and
the cursor is cut at the start of the region. -/
lemma OutInv.overlap_split (hD : Small cur H)
    (hO : OutInv env hf hashlen hashFree cur H rn ⟨.overlap h, hs, d :: ds⟩)
    (hlt : d.start < h.start) (hcu : c = 0 ↔ Unchanged env hf hashlen hashFree cur h) :
    OutInv env hf hashlen hashFree cur H (pushRun rn ⟨d.start, h.start - d.start⟩)
      ⟨.covered h c, hs, ⟨h.start, d.stop - h.start⟩ :: ds⟩ := by
  have hlo : h.start < d.stop := hO.pc d rfl
  obtain ⟨hcanon, hhead, hcov⟩ := push_out hO.canon hO.small (fun t ht => hO.tail_le t ht d rfl)
    (r := ⟨d.start, h.start - d.start⟩) (by simp only; omega)
  obtain ⟨pre, hH, hpre⟩ := hO.finished
  have hafter := hD.after hH
  have hsmall := hD.regions_small h (by rw [hH]; simp [Loc.pending])
  refine ⟨hcanon, fun t ht => ?_, fun t ht q hq => ?_,
    hO.cursor.cut (le_of_lt hlt) hlo fun h' hh' => le_trans (Nat.le_add_right _ _) (hafter h' hh'),
    ⟨pre, hH, fun h' hh' x hx => ?_⟩, ?_, hcu, by simp⟩
  · rw [hhead t ht]
    simp only [Range.stop_mk]
    omega
  · rw [hhead t ht]
    simp only [List.head?_cons, Option.mem_def, Option.some.injEq] at hq
    subst hq
    simp only [Range.stop_mk]
    omega
  · have := (before_cons _ _ _).mp (hpre h' hh' x hx)
    exact (before_cons _ _ _).mpr (by simp only; omega)
  refine exact_advance hO.exact hcov (fun x hx => ?_) (fun x hx => ?_) (fun x _ hb' hb => ?_)
  · have := (before_cons _ _ _).mp hx
    exact (before_cons _ _ _).mpr (by simp only; omega)
  · simp only [Range.Mem, Range.stop_mk] at hx
    have hb : ¬ Before (d :: ds) x := by
      rw [before_cons, not_lt]
      exact hx.1
    refine ⟨(hO.inDelta_iff hb).mpr ⟨hO.cursor.covers_of_covers ((covers_cons _ _ _).mpr
      (.inl ⟨hx.1, by omega⟩)), fun h' hh' _ => not_mem_of_lt_start hafter (by omega) h' hh'⟩,
      (before_cons _ _ _).mpr (by simp only; omega)⟩
  · rw [before_cons, not_lt] at hb
    have := (before_cons _ _ _).mp hb'
    simp only [Range.Mem, Range.stop_mk] at this ⊢
    omega

/-- One covered-loop iteration on a drange ending inside the region: unless the region is
unchanged the drange goes to the output, and the cursor is bumped. -/
lemma OutInv.covered_whole (hD : Small cur H)
    (hO : OutInv env hf hashlen hashFree cur H rn ⟨.covered h c, hs, d :: ds⟩)
    (hwhole : d.stop ≤ h.start + h.size) :
    OutInv env hf hashlen hashFree cur H (if c = 0 then rn else pushRun rn d)
      ⟨.covered h c, hs, ds⟩ := by
  have hasc := hO.cursor.ascending hD.cur_asc
  obtain ⟨hc0, hge⟩ : (c = 0 ↔ Unchanged env hf hashlen hashFree cur h) ∧ h.start ≤ d.start :=
    ⟨hO.pc.1, hO.pc.2 d rfl⟩
  obtain ⟨hcanon, htail, hcov⟩ := push_out_if (c = 0) hO.canon hO.small
    (fun t ht => hO.tail_le t ht d rfl) (hasc.2 d (List.mem_cons_self _ _))
    (hD.cursor_small hO.cursor d (List.mem_cons_self _ _))
  obtain ⟨pre, hH, hpre⟩ := hO.finished
  have hafter := hD.after hH
  have hhH : h ∈ H := by rw [hH]; simp [Loc.pending]
  refine ⟨hcanon, fun t ht => (htail t ht).2,
    fun t ht q hq => le_trans (htail t ht).1 (hasc.stop_le q (List.mem_of_mem_head? hq)),
    hO.cursor.tail hD.cur_asc, ⟨pre, hH, fun h' hh' x hx => hasc.before_tail (hpre h' hh' x hx)⟩,
    ?_, hc0, fun q hq => ?_⟩
  · refine exact_advance hO.exact hcov (fun x => hasc.before_tail) (fun x ⟨hc, hx⟩ => ?_)
      (fun x hx hb' hb => ?_)
    · have hb : ¬ Before (d :: ds) x := by
        rw [before_cons, not_lt]
        exact hx.1
      refine ⟨(hO.inDelta_iff hb).mpr ⟨hO.cursor.covers_of_covers
        ((covers_cons _ _ _).mpr (.inl hx)), fun h' hh' hu => ?_⟩, hasc.before_of_lt_stop hx.2⟩
      rcases List.mem_cons.mp hh' with rfl | hh'
      · exact absurd (hc0.mpr hu) hc
      · exact not_mem_of_lt_stop hafter (lt_of_lt_of_le hx.2 hwhole) h' hh'
    · have hdx := hasc.mem_head hb' (hO.cursor.covers_of_not_before hD.cur_asc hb hx.1)
      refine ⟨fun hc => hx.2 h hhH (hc0.mp hc) ?_, hdx⟩
      simp only [HashRegion.range, Range.Mem, Range.stop_mk]
      simp only [Range.Mem, Range.stop] at hdx hwhole
      omega
  · have := hasc.stop_le q (List.mem_of_mem_head? hq)
    simp only [Range.stop] at this
    omega

/-- One covered-loop iteration on a drange reaching past the region: unless the region is
unchanged its part inside the region goes to the output, and the cursor is cut at the region's
end. -/
lemma OutInv.covered_split (hD : Small cur H)
    (hO : OutInv env hf hashlen hashFree cur H rn ⟨.covered h c, hs, d :: ds⟩)
    (hin : d.start < h.start + h.size) (hsplit : h.start + h.size < d.stop) :
    OutInv env hf hashlen hashFree cur H
      (if c = 0 then rn else pushRun rn ⟨d.start, h.start + h.size - d.start⟩)
      ⟨.covered h c, hs, ⟨h.start + h.size, d.stop - (h.start + h.size)⟩ :: ds⟩ := by
  obtain ⟨hc0, hge⟩ : (c = 0 ↔ Unchanged env hf hashlen hashFree cur h) ∧ h.start ≤ d.start :=
    ⟨hO.pc.1, hO.pc.2 d rfl⟩
  obtain ⟨pre, hH, hpre⟩ := hO.finished
  have hafter := hD.after hH
  have hhH : h ∈ H := by rw [hH]; simp [Loc.pending]
  have hsmall := hD.regions_small h hhH
  obtain ⟨hcanon, htail, hcov⟩ := push_out_if (c = 0) hO.canon hO.small
    (fun t ht => hO.tail_le t ht d rfl) (r := ⟨d.start, h.start + h.size - d.start⟩)
    (by simp only; omega) (by simp only [Range.stop_mk]; omega)
  refine ⟨hcanon, fun t ht => (htail t ht).2, fun t ht q hq => ?_,
    hO.cursor.cut (le_of_lt hin) hsplit hafter, ⟨pre, hH, fun h' hh' x hx => ?_⟩, ?_, hc0,
    by simp⟩
  · simp only [List.head?_cons, Option.mem_def, Option.some.injEq] at hq
    subst hq
    have := (htail t ht).1
    simp only [Range.stop_mk] at this ⊢
    omega
  · have := (before_cons _ _ _).mp (hpre h' hh' x hx)
    exact (before_cons _ _ _).mpr (by simp only; omega)
  refine exact_advance hO.exact hcov (fun x hx => ?_) (fun x ⟨hc, hx⟩ => ?_)
    (fun x hx hb' hb => ?_)
  · have := (before_cons _ _ _).mp hx
    exact (before_cons _ _ _).mpr (by simp only; omega)
  · simp only [Range.Mem, Range.stop_mk] at hx
    have hb : ¬ Before (d :: ds) x := by
      rw [before_cons, not_lt]
      exact hx.1
    refine ⟨(hO.inDelta_iff hb).mpr ⟨hO.cursor.covers_of_covers ((covers_cons _ _ _).mpr
      (.inl ⟨hx.1, by omega⟩)), fun h' hh' hu => ?_⟩, (before_cons _ _ _).mpr (by simp only; omega)⟩
    rcases List.mem_cons.mp hh' with rfl | hh'
    · exact absurd (hc0.mpr hu) hc
    · exact not_mem_of_lt_stop hafter (by omega) h' hh'
  · rw [before_cons, not_lt] at hb
    have := (before_cons _ _ _).mp hb'
    simp only at this
    refine ⟨fun hc => hx.2 h hhH (hc0.mp hc) ?_, ?_⟩
    · simp only [HashRegion.range, Range.Mem, Range.stop_mk]
      omega
    · simp only [Range.Mem, Range.stop_mk]
      omega

/-- The trailing loop: with every region finished, a drange goes to the output. -/
lemma OutInv.trailing_emit (hD : Small cur H)
    (hO : OutInv env hf hashlen hashFree cur H rn ⟨.trailing, [], d :: ds⟩) :
    OutInv env hf hashlen hashFree cur H (pushRun rn d) ⟨.trailing, [], ds⟩ := by
  have hasc := hO.cursor.ascending hD.cur_asc
  obtain ⟨hcanon, hhead, hcov⟩ := push_out hO.canon hO.small (fun t ht => hO.tail_le t ht d rfl)
    (hasc.2 d (List.mem_cons_self _ _))
  obtain ⟨pre, hH, hpre⟩ := hO.finished
  refine ⟨hcanon, fun t ht => ?_, fun t ht q hq => ?_, hO.cursor.tail hD.cur_asc,
    ⟨pre, hH, fun h' hh' x hx => hasc.before_tail (hpre h' hh' x hx)⟩, ?_, .inr rfl⟩
  · rw [hhead t ht]
    exact hD.cursor_small hO.cursor d (List.mem_cons_self _ _)
  · rw [hhead t ht]
    exact hasc.stop_le q (List.mem_of_mem_head? hq)
  refine exact_advance hO.exact hcov (fun x => hasc.before_tail) (fun x hx => ?_)
    (fun x hx hb' hb => hasc.mem_head hb' (hO.cursor.covers_of_not_before hD.cur_asc hb hx.1))
  have hb : ¬ Before (d :: ds) x := by
    rw [before_cons, not_lt]
    exact hx.1
  exact ⟨(hO.inDelta_iff hb).mpr ⟨hO.cursor.covers_of_covers ((covers_cons _ _ _).mpr (.inl hx)),
    fun h' hh' => by simp [Loc.pending] at hh'⟩, hasc.before_of_lt_stop hx.2⟩

end Steps

/-! ## The engine's state -/

section State

variable {env : Env} {newhashfile : Bool} {hf : HashFunc} {hashlen : Nat} {hashFree : Bool}
  {cur : List Range} {H : List HashRegion} {rn : List Range} {s s' s₁ : St}

/-- The fields of the state the merge's invariant reads are kept. -/
def Frame (s s' : St) : Prop :=
  s'.rchain = s.rchain ∧ s'.hashfunc = s.hashfunc ∧ s'.hashlen = s.hashlen

lemma Frame.trans {s'' : St} (h1 : Frame s s') (h2 : Frame s' s'') : Frame s s'' :=
  ⟨h2.1.trans h1.1, h2.2.1.trans h1.2.1, h2.2.2.trans h1.2.2⟩

/-- `add_to_hashmap` leaves the output and the hash function alone. -/
lemma addToHashmap_frame {a n : Nat} {rh : Option (List UInt8)}
    (H : addToHashmap env a n rh s = .ok () s') : Frame s s' := by
  obtain ⟨-, -, _, rfl⟩ := addToHashmap_ok H
  exact ⟨rfl, rfl, rfl⟩

/-- So does `if (newhashfile) add_to_hashmap(...)`. -/
lemma optional_frame {c : Prop} [Decidable c] {a n : Nat} {rh : Option (List UInt8)}
    (H : if c then addToHashmap env a n rh s = .ok () s' else s' = s) : Frame s s' := by
  split_ifs at H
  · exact addToHashmap_frame H
  · subst H
    exact ⟨rfl, rfl, rfl⟩

/-- `add_to_range` of a run below 2^32, then code that keeps the frame. -/
lemma emit_state {a n : Nat} (hrn : s.rchain = rn ++ [dummyHead]) (ha : a < 2 ^ 32)
    (hn : n < 2 ^ 32) (h1 : addToRange env a n s = .ok () s₁) (h2 : Frame s₁ s') :
    s'.rchain = pushRun rn ⟨a, n⟩ ++ [dummyHead] ∧ s'.hashfunc = s.hashfunc ∧
      s'.hashlen = s.hashlen := by
  obtain ⟨k, rfl⟩ := addToRange_ok hrn h1
  rw [Nat.mod_eq_of_lt ha, Nat.mod_eq_of_lt hn] at h2
  exact h2

/-- What `emitCovered` does to the output. -/
lemma emitCovered_state {c a n : Nat} (hrn : s.rchain = rn ++ [dummyHead]) (ha : a < 2 ^ 32)
    (hn : n < 2 ^ 32) (H : emitCovered env newhashfile c a n s = .ok () s') :
    s'.rchain = (if c = 0 then rn else pushRun rn ⟨a, n⟩) ++ [dummyHead] ∧
      s'.hashfunc = s.hashfunc ∧ s'.hashlen = s.hashlen := by
  rcases emitCovered_ok H with ⟨rfl, rfl⟩ | ⟨hc, s₂, h1, h2⟩
  · exact ⟨by simp [hrn], rfl, rfl⟩
  · rw [if_neg hc]
    exact emit_state hrn ha hn h1 (optional_frame h2)

/-- `changed` is 0 exactly for a region the engine may skip. -/
lemma decideChanged_spec (hcur : Ascending cur) {h : HashRegion} {hs : List HashRegion}
    {d d₁ : Range} {ds : List Range} {c : Nat} (hc : Cursor cur (h :: hs) (d :: ds))
    (hpos : 0 < h.size) (hdpos : 0 < d.size) (hlo : h.start < d.stop)
    (hhi : d.start < h.start + h.size)
    (hd₁ : d₁.start = max d.start h.start) (hd₁' : d₁.stop = d.stop)
    (hhf : s.hashfunc = some hf) (hhl : s.hashlen = hashlen)
    (H : decideChanged env newhashfile hashFree h d₁ s = .ok c s') :
    (c = 0 ↔ Unchanged env hf hashlen hashFree cur h) ∧ Frame s s' := by
  have hcond : (hashFree = true ∨ (d₁.start = h.start ∧ d₁.size ≥ h.size)) ↔
      (hashFree = true ∨ ∃ r ∈ cur, r.start ≤ h.start ∧ h.start + h.size ≤ r.stop) := by
    rw [← hc.inside_iff hcur hpos hlo hhi]
    refine or_congr_right ?_
    simp only [Range.stop] at hd₁' hlo ⊢
    omega
  have hmeet : ∃ x, h.range.Mem x ∧ covers cur x := by
    refine ⟨max d.start h.start, ?_, hc.covers_of_covers ((covers_cons _ _ _).mpr (.inl ?_))⟩
    · simp only [HashRegion.range, Range.Mem, Range.stop_mk]
      omega
    · simp only [Range.Mem, Range.stop] at hlo ⊢
      omega
  rcases decideChanged_ok H with ⟨hnc, rfl, rfl⟩ | ⟨hcnd, ⟨hfx, rfl, rfl⟩ | ⟨hfx, hash, s₂, h1, h2⟩⟩
  · exact ⟨⟨fun h0 => absurd h0 (by decide), fun hu => absurd (hcond.mpr hu.2.2.1) hnc⟩,
      rfl, rfl, rfl⟩
  · exact ⟨⟨fun h0 => absurd h0 (by decide), fun hu => by simp [hu.2.1] at hfx⟩, rfl, rfl, rfl⟩
  · obtain ⟨hf', hhf', hdisk, -, rfl, hs₂⟩ := hashAndCmp_ok h1
    simp only [hhf, Option.some.injEq] at hhf'
    subst hhf'
    have hfr₂ : Frame s s₂ := by
      subst hs₂
      exact ⟨rfl, rfl, rfl⟩
    refine ⟨?_, hfr₂.trans (optional_frame h2)⟩
    simp only [hhl]
    constructor
    · intro h0
      refine ⟨hmeet, hfx, hcond.mp hcnd, hash, hdisk, ?_⟩
      by_contra hne
      simp [hne] at h0
    · rintro ⟨-, -, -, d', hd', heq⟩
      rw [hdisk, Option.some.injEq] at hd'
      subst hd'
      simp [heq]

/-- **Step lemma**: every step of the merge keeps `MergeInv`. -/
theorem mergeInv_step (hD : Small cur H) {l l' : Loc}
    (hI : MergeInv env hf hashlen hashFree cur H l s) (hd : l.pc ≠ .done)
    (hstep : step env newhashfile hashFree l s = .ok l' s') :
    MergeInv env hf hashlen hashFree cur H l' s' := by
  obtain ⟨hhf, hhl, rn, hrn, hO⟩ := hI
  obtain ⟨pc, hregs, ds⟩ := l
  cases pc with
  | top =>
    cases hregs with
    | nil =>
      obtain ⟨rfl, rfl⟩ := step_top_nil hstep
      exact ⟨hhf, hhl, rn, hrn, hO.top_nil⟩
    | cons h hs =>
      obtain ⟨-, rfl, rfl⟩ := step_top_cons hstep
      exact ⟨hhf, hhl, rn, hrn, hO.top_cons⟩
  | drain h =>
    cases ds with
    | nil =>
      obtain ⟨rfl, rfl⟩ := step_drain_nil hstep
      exact ⟨hhf, hhl, rn, hrn, hO.drain_nil⟩
    | cons d ds =>
      rcases step_drain_cons hstep with ⟨hle, -, rfl, s₂, h1, h2⟩ | ⟨hlt, rfl, rfl⟩
      · have hsm := hD.cursor_small hO.cursor d (List.mem_cons_self _ _)
        obtain ⟨hr, hf', hl'⟩ := emit_state hrn (by omega) (by omega) h1 (optional_frame h2)
        exact ⟨hf'.trans hhf, hl'.trans hhl, _, hr, hO.drain_emit hD hle⟩
      · exact ⟨hhf, hhl, rn, hrn, hO.drain_exit hlt⟩
  | overlap h =>
    cases ds with
    | nil =>
      obtain ⟨rfl, rfl⟩ := step_overlap_nil hstep
      exact ⟨hhf, hhl, rn, hrn, hO.overlap_nil⟩
    | cons d ds =>
      obtain ⟨hlo, ⟨hle, rfl, rfl⟩ | ⟨hin, d₁, s₂, hsplit, -, c, hdc, rfl⟩⟩ :=
        step_overlap_cons hstep
      · exact ⟨hhf, hhl, rn, hrn, hO.finish_region rfl (fun _ => List.mem_cons_of_mem _) hle⟩
      obtain ⟨pre, hH, -⟩ := hO.finished
      have hpos := hD.pos (h := h) (by rw [hH]; simp [Loc.pending])
      have hsm := hD.regions_small h (by rw [hH]; simp [Loc.pending])
      have hdpos := (hO.cursor.ascending hD.cur_asc).2 d (List.mem_cons_self _ _)
      rcases headSplit_ok hsplit with ⟨hle, rfl, rfl⟩ | ⟨hlt, rfl, s₃, h1, h2⟩
      · obtain ⟨hcu, hfr⟩ := decideChanged_spec hD.cur_asc hO.cursor hpos hdpos hlo hin
          (by omega) rfl hhf hhl hdc
        exact ⟨hfr.2.1.trans hhf, hfr.2.2.trans hhl, rn, hfr.1.trans hrn,
          hO.overlap_inside hle hcu⟩
      · have hmod : (h.start - d.start) % 2 ^ 32 = h.start - d.start :=
          Nat.mod_eq_of_lt (by omega)
        rw [hmod] at h1 h2 hdc ⊢
        obtain ⟨hr, hf', hl'⟩ := emit_state hrn (by
          have := hD.cursor_small hO.cursor d (List.mem_cons_self _ _); omega) (by omega) h1
          (optional_frame h2)
        have hd₁ : (⟨d.start + (h.start - d.start), d.size - (h.start - d.start)⟩ : Range) =
            ⟨h.start, d.stop - h.start⟩ := by
          simp only [Range.stop, Range.mk.injEq]
          omega
        rw [hd₁] at hdc ⊢
        obtain ⟨hcu, hfr⟩ := decideChanged_spec hD.cur_asc hO.cursor hpos hdpos hlo hin
          (by simp only; omega) (by simp only [Range.stop] at hlo ⊢; omega)
          (hf'.trans hhf) (hl'.trans hhl) hdc
        exact ⟨hfr.2.1.trans (hf'.trans hhf), hfr.2.2.trans (hl'.trans hhl), _, hfr.1.trans hr,
          hO.overlap_split hD hlt hcu⟩
  | covered h c =>
    cases ds with
    | nil =>
      obtain ⟨rfl, rfl⟩ := step_covered_nil hstep
      exact ⟨hhf, hhl, rn, hrn, hO.covered_nil⟩
    | cons d ds =>
      rcases step_covered_cons hstep with ⟨hin, hit⟩ | ⟨hle, rfl, rfl⟩
      · obtain ⟨pre, hH, -⟩ := hO.finished
        have hsm := hD.regions_small h (by rw [hH]; simp [Loc.pending])
        have hdsm := hD.cursor_small hO.cursor d (List.mem_cons_self _ _)
        obtain ⟨-, hem, hl'⟩ := coveredIter_ok_small hdsm hsm hin hit
        obtain ⟨hr, hf', hl''⟩ := emitCovered_state hrn (by omega) (by omega) hem
        refine ⟨hf'.trans hhf, hl''.trans hhl, _, hr, ?_⟩
        split_ifs at hl' with hsplit
        · subst hl'
          rw [Nat.min_eq_right (le_of_lt hsplit)]
          exact hO.covered_split hD hin hsplit
        · obtain ⟨-, rfl⟩ := hl'
          have hwhole : d.stop ≤ h.start + h.size := by
            simp only [Range.stop]
            omega
          rw [Nat.min_eq_left (show d.start + d.size ≤ h.start + h.size from hwhole),
            show d.start + d.size - d.start = d.size by omega]
          exact hO.covered_whole hD hwhole
      · exact ⟨hhf, hhl, rn, hrn, hO.finish_region rfl (fun _ h => h) hle⟩
  | trailing =>
    cases ds with
    | nil =>
      obtain ⟨rfl, rfl⟩ := step_trailing_nil hstep
      exact ⟨hhf, hhl, rn, hrn, hO.trailing_nil⟩
    | cons d ds =>
      obtain ⟨rfl, -, rfl, s₂, h1, h2⟩ := step_trailing_cons hstep
      have hsm := hD.cursor_small hO.cursor d (List.mem_cons_self _ _)
      obtain ⟨hr, hf', hl'⟩ := emit_state hrn (by omega) (by omega) h1 (optional_frame h2)
      exact ⟨hf'.trans hhf, hl'.trans hhl, _, hr, hO.trailing_emit hD⟩
  | done => exact absurd rfl hd

end State

end Imagezip.Hashmap
