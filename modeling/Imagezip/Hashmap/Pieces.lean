import Imagezip.Hashmap.Helpers

/-!
# How `add_to_hashmap` cuts a range

`add_to_hashmap(&nhinfo, rstart, rsize, rhash)` cuts `[rstart, rstart + rsize)` at the
boundaries of the `hashblksize`-sector blocks measured from the partition's first sector
`poffset`, and appends one region per piece.  Its loop takes what is left of the first block,
then whole blocks, then the rest.  `rstart` is a `uint64_t`, so a range that runs past sector
`2^64 - 1` goes on at sector 0.

* `pieces_cut`: the loop's pieces tile the range in order, each inside one block, one per
  block the range touches;
* `addToHashmap_cuts_blocks`: a call that returns appends such pieces for every range of
  sectors;
* `addToHashmap_wraps`: a range through sector `2^64 - 1` gets a piece at sector 0.
-/

namespace Imagezip.Hashmap

/-- The spec's cut of `[rstart, rstart + rsize)` at the `blksize`-sector blocks measured from
`poffset`: pieces in ascending order that partition the range, each inside one block, one per
block the range touches. -/
structure BlockCut (poffset blksize rstart rsize : Nat) (ps : List Range) : Prop where
  ascending : Ascending ps
  partition : ∀ x, covers ps x ↔ rstart ≤ x ∧ x < rstart + rsize
  /-- The piece's offset in its block, plus its size, is at most a block. -/
  inBlock : ∀ p ∈ ps, (p.start - poffset) % blksize + p.size ≤ blksize
  count : ps.length = (rstart + rsize - 1 - poffset) / blksize - (rstart - poffset) / blksize + 1

lemma pieces_zero (blksize fuel rstart offset : Nat) : pieces blksize fuel rstart 0 offset = [] := by
  cases fuel <;> simp [pieces]

/-- One piece: not empty, not past the range, inside the block; it is the rest of the range or
it ends on the block's boundary. -/
lemma pieceSize_spec {blksize rsize offset : Nat} (ho : offset < blksize) (hn : 0 < rsize) :
    0 < pieceSize blksize rsize offset ∧ pieceSize blksize rsize offset ≤ rsize ∧
      offset + pieceSize blksize rsize offset ≤ blksize ∧
      (pieceSize blksize rsize offset = rsize ∨ offset + pieceSize blksize rsize offset = blksize) := by
  unfold pieceSize
  split_ifs <;> omega

/-- A start `o` sectors into its block, moved past the rest of the block, is on a boundary. -/
lemma add_rest_mod {x o blksize : Nat} (hx : x % blksize = o) (ho : o ≤ blksize) :
    (x + (blksize - o)) % blksize = 0 := by
  have h := Nat.div_add_mod x blksize
  rw [show x + (blksize - o) = blksize * (x / blksize + 1) by rw [Nat.mul_add_one]; omega]
  exact Nat.mul_mod_right _ _

/-- **The loop cuts blocks.**  From a start `a` at least `poffset`, `offset` sectors into its
block, `n > 0` sectors ending by sector `2^64`, with fuel for `n` iterations: the pieces start
at `a`, tile `[a, a + n)` in order, each inside one block, one per block touched. -/
lemma pieces_cut {poffset blksize : Nat} (hB : 0 < blksize) {fuel a n : Nat}
    (hp : poffset ≤ a) (hn : 0 < n) (hfuel : n ≤ fuel) (hend : a + n ≤ 2 ^ 64) :
    (∀ p ∈ (pieces blksize fuel a n ((a - poffset) % blksize)).head?, p.start = a) ∧
      Ascending (pieces blksize fuel a n ((a - poffset) % blksize)) ∧
      (∀ x, covers (pieces blksize fuel a n ((a - poffset) % blksize)) x ↔ a ≤ x ∧ x < a + n) ∧
      (∀ p ∈ pieces blksize fuel a n ((a - poffset) % blksize),
        (p.start - poffset) % blksize + p.size ≤ blksize) ∧
      (pieces blksize fuel a n ((a - poffset) % blksize)).length =
        ((a - poffset) % blksize + n - 1) / blksize + 1 := by
  induction fuel generalizing a n with
  | zero => omega
  | succ fuel ih =>
    set o := (a - poffset) % blksize with ho
    obtain ⟨hpos, hle, hin, hend'⟩ := pieceSize_spec (Nat.mod_lt _ hB) hn
    set sz := pieceSize blksize n o
    rw [pieces, if_neg (by omega)]
    by_cases hrest : n - sz = 0
    · -- the piece is the rest of the range
      rw [hrest, pieces_zero]
      have hsz : sz = n := by omega
      refine ⟨by simp, ⟨by simp, by simp [hpos]⟩, fun x => by simp [Range.Mem]; omega,
        by simpa using ho ▸ hin, ?_⟩
      rw [List.length_singleton, Nat.div_eq_of_lt (by omega)]
    · -- the piece ends on the block's boundary and the rest starts a block
      have hsz : o + sz = blksize := hend'.resolve_left (by omega)
      have hnext : (a + sz) % 2 ^ 64 = a + sz := Nat.mod_eq_of_lt (by omega)
      have halign : (a + sz - poffset) % blksize = 0 := by
        rw [Nat.sub_add_comm hp, show sz = blksize - o by omega]
        exact add_rest_mod ho.symm (by omega)
      obtain ⟨ih0, ihasc, ihcov, ihblk, ihlen⟩ :=
        ih (a := a + sz) (n := n - sz) (by omega) (by omega) (by omega) (by omega)
      rw [halign] at ih0 ihasc ihcov ihblk ihlen
      rw [hnext]
      refine ⟨by simp, ⟨List.chain'_cons'.2 ⟨fun q hq => by simp [ih0 q hq], ihasc.1⟩,
        List.forall_mem_cons.2 ⟨hpos, ihasc.2⟩⟩, fun x => ?_,
        List.forall_mem_cons.2 ⟨by simpa using ho ▸ hin, ihblk⟩, ?_⟩
      · simp only [covers_cons, ihcov, Range.mem_iff]
        omega
      · -- one block more than the rest touches
        rw [List.length_cons, ihlen, show o + n - 1 = 0 + (n - sz) - 1 + blksize by omega,
          Nat.add_div_right _ hB]

/-- `add_to_hashmap`'s block offset of a sector at or after `poffset`. -/
lemma blockOffset_eq {poffset blksize x : Nat} (hp : poffset ≤ x) (hx : x < 2 ^ 64) :
    blockOffset poffset blksize x = (x - poffset) % blksize := by
  rw [blockOffset, show x + 2 ^ 64 - poffset = x - poffset + 2 ^ 64 by omega, Nat.add_mod_right,
    Nat.mod_eq_of_lt (show x - poffset < 2 ^ 64 by omega)]

/-- The pieces of a range of sectors are its cut at the blocks. -/
lemma cutPieces_blockCut {poffset blksize rstart rsize : Nat} (hB : 0 < blksize)
    (hp : poffset ≤ rstart) (hpos : 0 < rsize) (hr : rsize < 2 ^ 32)
    (hend : rstart + rsize ≤ 2 ^ 64) :
    BlockCut poffset blksize rstart rsize (cutPieces poffset blksize rstart rsize) := by
  rw [cutPieces, Nat.mod_eq_of_lt hr, blockOffset_eq hp (by omega)]
  obtain ⟨-, hasc, hcov, hblk, hlen⟩ := pieces_cut hB hp hpos le_rfl hend
  refine ⟨hasc, hcov, hblk, ?_⟩
  -- count the blocks from the one `rstart` is in
  have hdiv := Nat.div_add_mod (rstart - poffset) blksize
  rw [hlen, show rstart + rsize - 1 - poffset =
      blksize * ((rstart - poffset) / blksize) + ((rstart - poffset) % blksize + rsize - 1) by omega,
    Nat.mul_add_div hB, Nat.add_sub_cancel_left]

/-- A region inside one hash block is stored as one piece. -/
lemma cutPieces_single {poffset blksize a n : Nat} (hpos : 0 < n) (hn : n < 2 ^ 32)
    (hblk : blockOffset poffset blksize a + n ≤ blksize) :
    cutPieces poffset blksize a n = [⟨a, n⟩] := by
  have hsize : pieceSize blksize n (blockOffset poffset blksize a) = n := by
    unfold pieceSize
    split_ifs <;> omega
  obtain ⟨m, rfl⟩ : ∃ m, n = m + 1 := ⟨n - 1, by omega⟩
  simp only [cutPieces, Nat.mod_eq_of_lt hn, pieces, hsize, Nat.sub_self, pieces_zero,
    Nat.add_one_ne_zero, if_false]

/-- **`add_to_hashmap` cuts at the blocks**: one region per piece of the range cut at the
`hashblksize` blocks measured from `poffset`. -/
theorem addToHashmap_cuts_blocks {env : Env} {rstart rsize : Nat} {rhash : Option (List UInt8)}
    {s s' : St} (H : addToHashmap env rstart rsize rhash s = .ok () s')
    (hp : s.poffset ≤ rstart) (hpos : 0 < rsize) (hr : rsize < 2 ^ 32)
    (hend : rstart + rsize ≤ 2 ^ 64) :
    ∃ ps, BlockCut s.poffset s.hashblksize rstart rsize ps ∧
      s'.nhinfo = pushRegions s.nhinfo (ps.map (pieceRegion env s.hashfunc rhash)) := by
  obtain ⟨hB, -, n, rfl⟩ := addToHashmap_ok H
  exact ⟨_, cutPieces_blockCut hB hp hpos hr hend, rfl⟩

/-- 300 sectors from sector 100 in 128-sector blocks: four pieces. -/
theorem addToHashmap_cuts_blocks_four :
    ∃ s', addToHashmap Env.plain 100 300 (some [7])
        { St.init with poffset := 0, hashblksize := 128 } = .ok () s' ∧
      ∃ ps, BlockCut 0 128 100 300 ps ∧
        s'.nhinfo = pushRegions .null (ps.map (pieceRegion Env.plain none (some [7]))) :=
  ⟨_, rfl, addToHashmap_cuts_blocks (rfl : addToHashmap Env.plain 100 300 (some [7])
    { St.init with poffset := 0, hashblksize := 128 } = _) (by decide) (by decide) (by decide)
    (by decide)⟩

/-- **`rstart` wraps.**  Two sectors from sector `2^64 - 1`, with `poffset` 0 and 128-sector
blocks: the call returns and appends `[2^64 - 1, 2^64)` and then `[0, 1)`, a sector outside the
range. -/
theorem addToHashmap_wraps :
    addToHashmap Env.plain (2 ^ 64 - 1) 2 (some [7])
        { St.init with poffset := 0, hashblksize := 128 } =
      .ok () { St.init with
        poffset := 0, hashblksize := 128, nalloc := 1
        nhinfo := .live ⟨false, 0, 0, 0, [⟨2 ^ 64 - 1, 1, 0, hashBuf [7]⟩, ⟨0, 1, 0, hashBuf [7]⟩]⟩ } :=
  rfl

end Imagezip.Hashmap
