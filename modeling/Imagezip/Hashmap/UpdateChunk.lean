import Imagezip.Hashmap.State

/-!
# Chunk numbers in the new signature

Once the chunk assembler has placed the sectors `[ssect, lsect)` in chunk `chunkno`, it calls
`hashmap_update_chunk(ssect, lsect, chunkno)`, which walks `nhinfo` and numbers every region that
starts in the chunk, with the span bit when the region runs past `lsect`.  A region that starts
before `ssect` and reaches into the chunk must already carry the span bit.  The loop reads each
region's first and last sector into `uint32_t`s.

* `updateChunkRegions_eq`: one call on regions below sector 2^32;
* `updateChunks_annotate`: calls over consecutive chunks give every region below sector 2^32
  the number of the chunk its start lies in;
* `updateChunk_wraps_at_2_32`: a region at sector 2^32 keeps the number of chunk 0.
-/

namespace Imagezip.Hashmap

/-! ## The span bit -/

/-- `HASH_CHUNKSPANMASK`, the span bit of a `uint32_t` `chunkno`.  `imagehash.h` is not among the
sources; the model takes the spec's "one bit" to be the top one. -/
def chunkSpanMask : Nat := 2 ^ 31

/-- `HASH_CHUNKSETSPAN(c)`. -/
def chunkSetSpan (c : Nat) : Nat := c ||| chunkSpanMask

/-- `HASH_CHUNKDOESSPAN(c)`. -/
def chunkDoesSpan (c : Nat) : Bool := c &&& chunkSpanMask != 0

@[simp] lemma chunkDoesSpan_chunkSetSpan (c : Nat) : chunkDoesSpan (chunkSetSpan c) = true := by
  have hbit : (chunkSetSpan c &&& chunkSpanMask).testBit 31 = true := by
    rw [Nat.testBit_and, chunkSetSpan, Nat.testBit_or, chunkSpanMask, Nat.testBit_two_pow_self,
      Bool.or_true, Bool.and_self]
  rw [chunkDoesSpan, bne_iff_ne, ne_eq]
  intro h
  rw [h, Nat.zero_testBit] at hbit
  exact Bool.false_ne_true hbit

/-! ## The code -/

/-- The `for` loop of `hashmap_update_chunk` over the regions from `i` on, with `lsect` already
decremented and `chunkno` converted to `uint32_t`; `none` when the `assert` fails.  After a
`break` the remaining regions stay as they are. -/
def updateChunkRegions (ssect lsect chunkno : Nat) : List HashRegion → Option (List HashRegion)
  | [] => some []
  | hreg :: rest =>
    let hrssect := hreg.start % 2 ^ 32
    let hrlsect := (hrssect + hreg.size + 2 ^ 32 - 1) % 2 ^ 32
    if hrlsect < ssect then (updateChunkRegions ssect lsect chunkno rest).map (hreg :: ·)
    else if hrssect > lsect then some (hreg :: rest)
    else if hrssect < ssect then
      if chunkDoesSpan hreg.chunkno then
        (updateChunkRegions ssect lsect chunkno rest).map (hreg :: ·)
      else none
    else
      let chunkno' := if hrlsect ≤ lsect then chunkno else chunkSetSpan chunkno
      (updateChunkRegions ssect lsect chunkno rest).map ({ hreg with chunkno := chunkno' } :: ·)

/-- `hashmap_update_chunk(ssect, lsect, chunkno)`: `ssect` and `lsect` are `uint64_t`,
`chunkno` an `int`.  Reading a freed `nhinfo` stops the process, as elsewhere in the model. -/
def hashmapUpdateChunk (ssect lsect : Nat) (chunkno : Int) : EngM Unit := do
  assertM (0 ≤ chunkno)
  let s ← getSt
  match s.nhinfo with
  | .null => pure ()
  | .freed => abortM
  | .live hi =>
    match updateChunkRegions ssect ((lsect + 2 ^ 64 - 1) % 2 ^ 64) (chunkno.toNat % 2 ^ 32)
        hi.regions with
    | some regions => modifySt fun s => { s with nhinfo := .live { hi with regions := regions } }
    | none => abortM

/-- The assembler's calls for consecutive chunks: chunk `i` is `[bᵢ, bᵢ₊₁)` of the boundaries
`b₀ < b₁ < ⋯`, numbered on from `chunkno`. -/
def updateChunks (chunkno : Nat) : List Nat → EngM Unit
  | ssect :: lsect :: bs => do
    hashmapUpdateChunk ssect lsect chunkno
    updateChunks (chunkno + 1) (lsect :: bs)
  | _ => pure ()

/-! ## What the calls should do -/

/-- A region numbered `chunkno` in a chunk that ends at `lsect`: with the span bit exactly when
the region runs past `lsect`. -/
def HashRegion.inChunk (chunkno lsect : Nat) (r : HashRegion) : HashRegion :=
  { r with chunkno := if lsect < r.start + r.size then chunkSetSpan chunkno else chunkno }

@[simp] lemma HashRegion.start_inChunk (c l : Nat) (r : HashRegion) :
    (r.inChunk c l).start = r.start := rfl

@[simp] lemma HashRegion.size_inChunk (c l : Nat) (r : HashRegion) :
    (r.inChunk c l).size = r.size := rfl

/-- The spec's annotation of a region by the chunks `[bᵢ, bᵢ₊₁)`, numbered from `i`: the first
chunk that ends past the region's start numbers it.  Regions past the last boundary keep their
number. -/
def annotate (i : Nat) : List Nat → HashRegion → HashRegion
  | _ :: b' :: bs, r => if r.start < b' then r.inChunk i b' else annotate (i + 1) (b' :: bs) r
  | _, r => r

/-- The chunk that numbers a region is the one its start lies in: chunk `k` is
`[bₖ, bₖ₊₁)`. -/
lemma annotate_of_mem {i b k : Nat} {bs : List Nat} {r : HashRegion}
    (hbs : (b :: bs).Chain' (· < ·)) (hk : k + 1 < (b :: bs).length)
    (hlo : (b :: bs)[k] ≤ r.start) (hhi : r.start < (b :: bs)[k + 1]) :
    annotate i (b :: bs) r = r.inChunk (i + k) (b :: bs)[k + 1] := by
  induction bs generalizing i b k with
  | nil => simp at hk
  | cons c cs ih =>
    obtain ⟨-, hcs⟩ := List.chain'_cons.1 hbs
    cases k with
    | zero => simp [annotate, show r.start < c from hhi]
    | succ k =>
      have hmin : ∀ x ∈ c :: cs, c ≤ x := by
        intro x hx
        rcases List.mem_cons.1 hx with rfl | hx
        exacts [le_rfl, ((List.pairwise_cons.1 (List.chain'_iff_pairwise.1 hcs)).1 x hx).le]
      have hc : c ≤ r.start := (hmin _ (List.getElem_mem _)).trans hlo
      rw [annotate, if_neg (by omega)]
      exact (ih hcs (by simpa using hk) hlo hhi).trans (by rw [Nat.add_right_comm]; rfl)

/-! ## Regions below sector 2^32 -/

/-- The regions `hashmap_update_chunk` handles as the spec intends: strictly ascending and
disjoint, each non-empty and ending at or below sector 2^32, where `uint32_t` sector numbers
still hold them. -/
structure Regions32 (rs : List HashRegion) : Prop where
  sorted : rs.Pairwise fun a b => a.start + a.size ≤ b.start
  pos : ∀ r ∈ rs, 0 < r.size
  fits : ∀ r ∈ rs, r.start + r.size ≤ 2 ^ 32

namespace Regions32

variable {r : HashRegion} {rs : List HashRegion}

lemma tail (h : Regions32 (r :: rs)) : Regions32 rs :=
  ⟨(List.pairwise_cons.1 h.sorted).2, fun x hx => h.pos x (.tail _ hx),
    fun x hx => h.fits x (.tail _ hx)⟩

/-- Renumbering keeps the layout. -/
lemma map (h : Regions32 rs) {f : HashRegion → HashRegion}
    (hf : ∀ r, (f r).start = r.start ∧ (f r).size = r.size) : Regions32 (rs.map f) where
  sorted := List.pairwise_map.2 (h.sorted.imp fun {a b} hab => by rw [(hf a).1, (hf a).2, (hf b).1]; exact hab)
  pos := by simpa [(hf _).2] using h.pos
  fits := by simpa [(hf _).1, (hf _).2] using h.fits

end Regions32

/-- **Step lemma**: on regions below sector 2^32, the loop of one call numbers the regions that
start in `[ssect, lsect)` and leaves the others as they are, once those reaching into the chunk
from before carry the span bit. -/
lemma updateChunkRegions_eq {ssect lsect c : Nat} {rs : List HashRegion} (hr : Regions32 rs)
    (hsl : ssect < lsect)
    (hspan : ∀ r ∈ rs, r.start < ssect → ssect < r.start + r.size → chunkDoesSpan r.chunkno) :
    updateChunkRegions ssect (lsect - 1) c rs =
      some (rs.map fun r => if ssect ≤ r.start ∧ r.start < lsect then r.inChunk c lsect else r) := by
  induction rs with
  | nil => rfl
  | cons r rs ih =>
    have hp := hr.pos r (.head _)
    have hf := hr.fits r (.head _)
    have hs : r.start % 2 ^ 32 = r.start := Nat.mod_eq_of_lt (by omega)
    have hl : (r.start + r.size + 2 ^ 32 - 1) % 2 ^ 32 = r.start + r.size - 1 := by
      rw [show r.start + r.size + 2 ^ 32 - 1 = r.start + r.size - 1 + 2 ^ 32 by omega,
        Nat.add_mod_right, Nat.mod_eq_of_lt (by omega)]
    have ih' := ih hr.tail fun x hx => hspan x (.tail _ hx)
    simp only [updateChunkRegions, hs, hl]
    split_ifs with h1 h2 h3 h4 h5
    · -- the region ends before the chunk
      simp [ih', show ¬ ssect ≤ r.start by omega]
    · -- it starts past the chunk, and so do all after it: `break`
      refine congrArg some (List.cons_eq_cons.2 ⟨(if_neg (by omega)).symm, ?_⟩)
      refine (List.map_congr_left fun x hx => ?_).trans (List.map_id _) |>.symm
      have := (List.pairwise_cons.1 hr.sorted).1 x hx
      exact if_neg (by omega)
    · -- it reaches into the chunk from before and spans
      simp [ih', show ¬ ssect ≤ r.start by omega]
    · exact absurd (hspan r (.head _) h3 (by omega)) h4
    · -- it starts in the chunk and ends in it
      simp [ih', HashRegion.inChunk, show ssect ≤ r.start ∧ r.start < lsect by omega,
        show ¬ lsect < r.start + r.size by omega]
    · -- it starts in the chunk and runs past it
      simp [ih', HashRegion.inChunk, show ssect ≤ r.start ∧ r.start < lsect by omega,
        show lsect < r.start + r.size by omega]

/-- One call on a live signature below sector 2^32. -/
lemma hashmapUpdateChunk_eq {ssect lsect c : Nat} {s : St} {hi : HashInfo}
    (hnh : s.nhinfo = .live hi) (hr : Regions32 hi.regions) (hsl : ssect < lsect)
    (hl : lsect < 2 ^ 64) (hc : c < 2 ^ 32)
    (hspan : ∀ r ∈ hi.regions, r.start < ssect → ssect < r.start + r.size →
      chunkDoesSpan r.chunkno) :
    hashmapUpdateChunk ssect lsect c s = .ok () { s with nhinfo := .live { hi with
      regions := hi.regions.map fun r =>
        if ssect ≤ r.start ∧ r.start < lsect then r.inChunk c lsect else r } } := by
  have hl' : (lsect + 2 ^ 64 - 1) % 2 ^ 64 = lsect - 1 := by
    rw [show lsect + 2 ^ 64 - 1 = lsect - 1 + 2 ^ 64 by omega, Nat.add_mod_right,
      Nat.mod_eq_of_lt (by omega)]
  simp only [hashmapUpdateChunk, bind_apply, assertM_apply, Int.ofNat_nonneg, if_true, getSt_apply, hnh, hl',
    Int.toNat_ofNat, Nat.mod_eq_of_lt hc, updateChunkRegions_eq hr hsl hspan]
  rfl

/-- **Run lemma**: the calls for the chunks between the boundaries `b :: bs`, numbered from `i`,
annotate the regions from `b` on and leave those before it, once the regions reaching past `b`
from before carry the span bit. -/
lemma updateChunks_eq {i b : Nat} {bs : List Nat} {s : St} {hi : HashInfo}
    (hnh : s.nhinfo = .live hi) (hr : Regions32 hi.regions) (hbs : (b :: bs).Chain' (· < ·))
    (hb : ∀ x ∈ bs, x < 2 ^ 64) (hn : i + bs.length ≤ 2 ^ 31)
    (hspan : ∀ r ∈ hi.regions, r.start < b → b < r.start + r.size → chunkDoesSpan r.chunkno) :
    updateChunks i (b :: bs) s = .ok () { s with nhinfo := .live { hi with
      regions := hi.regions.map fun r => if b ≤ r.start then annotate i (b :: bs) r else r } } := by
  induction bs generalizing i b s hi with
  | nil => simp [updateChunks, annotate, ← hnh]
  | cons c cs ih =>
    obtain ⟨hbc, hcs⟩ := List.chain'_cons.1 hbs
    rw [updateChunks, bind_apply,
      hashmapUpdateChunk_eq hnh hr hbc (hb c (.head _)) (by simp at hn; omega) hspan]
    dsimp only
    rw [ih rfl (hr.map fun r => by split_ifs <;> simp) hcs (fun x hx => hb x (.tail _ hx))
      (by simp at hn ⊢; omega)]
    · refine congrArg (fun l => Res.ok () { s with nhinfo := .live { hi with regions := l } })
        ((List.map_map _ _ _).trans (List.map_congr_left fun r _ => ?_))
      by_cases h2 : r.start < c
      · by_cases h1 : b ≤ r.start <;> simp [annotate, h1, h2]
      · simp [annotate, h2, show b ≤ r.start by omega]
    · -- regions reaching past `c` from before: numbered in this chunk, or already spanning
      intro r' hr' h1 h2
      obtain ⟨r, hr, rfl⟩ := List.mem_map.1 hr'
      by_cases hin : b ≤ r.start ∧ r.start < c
      · rw [if_pos hin] at h2 ⊢
        simp only [HashRegion.size_inChunk, HashRegion.start_inChunk] at h2
        simp [HashRegion.inChunk, h2]
      · simp only [hin, if_false] at h1 h2 ⊢
        exact hspan r hr (by omega) (by omega)

/-- **Chunk numbers below sector 2^32**: the calls over the chunk boundaries all return and
annotate each region with the chunk its start lies in. -/
theorem updateChunks_annotate {s : St} {hi : HashInfo} {b : Nat} {bs : List Nat}
    (hnh : s.nhinfo = .live hi) (hr : Regions32 hi.regions) (hb₀ : ∀ r ∈ hi.regions, b ≤ r.start)
    (hbs : (b :: bs).Chain' (· < ·)) (hb : ∀ x ∈ bs, x < 2 ^ 64) (hn : bs.length ≤ 2 ^ 31) :
    updateChunks 0 (b :: bs) s = .ok ()
      { s with nhinfo := .live { hi with regions := hi.regions.map (annotate 0 (b :: bs)) } } := by
  rw [updateChunks_eq hnh hr hbs hb (by omega) fun r hr h _ => absurd (hb₀ r hr) (by omega)]
  exact congrArg (fun l => Res.ok () { s with nhinfo := .live { hi with regions := l } })
    (List.map_congr_left fun r hr => if_pos (hb₀ r hr))

/-- Three chunks over two regions: `[10, 12)` runs from chunk 0 into chunk 1, `[20, 21)` lies in
chunk 2. -/
theorem updateChunks_annotate_three :
    updateChunks 0 [10, 11, 15, 30]
        { St.init with nhinfo := .live ⟨true, 3, 3, 128, [⟨10, 2, 5, []⟩, ⟨20, 1, 5, []⟩]⟩ } =
      .ok () { St.init with
        nhinfo := .live ⟨true, 3, 3, 128, [⟨10, 2, chunkSetSpan 0, []⟩, ⟨20, 1, 2, []⟩]⟩ } :=
  (@updateChunks_annotate { St.init with
      nhinfo := .live ⟨true, 3, 3, 128, [⟨10, 2, 5, []⟩, ⟨20, 1, 5, []⟩]⟩ }
    ⟨true, 3, 3, 128, [⟨10, 2, 5, []⟩, ⟨20, 1, 5, []⟩]⟩ 10 [11, 15, 30] rfl
    ⟨by decide, by decide, by decide⟩ (by decide) (by simp) (by decide) (by decide)).trans rfl

/-! ## Regions at and above sector 2^32 -/

/-- **The loop truncates sectors to 32 bits**: a region at sector `2^32` keeps chunk number 0
where its start lies in chunk 1. -/
theorem updateChunk_wraps_at_2_32 :
    updateChunks 0 [0, 2 ^ 32, 2 ^ 32 + 1]
        { St.init with nhinfo := .live ⟨true, 3, 3, 128, [⟨2 ^ 32, 1, 7, []⟩]⟩ } =
      .ok () { St.init with nhinfo := .live ⟨true, 3, 3, 128, [⟨2 ^ 32, 1, 0, []⟩]⟩ } ∧
    annotate 0 [0, 2 ^ 32, 2 ^ 32 + 1] ⟨2 ^ 32, 1, 7, []⟩ = ⟨2 ^ 32, 1, 1, []⟩ :=
  ⟨rfl, by decide⟩

end Imagezip.Hashmap
