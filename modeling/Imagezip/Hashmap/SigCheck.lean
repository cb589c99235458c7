import Imagezip.Hashmap.SigWrite
import Imagezip.Hashmap.Delta

/-!
# What `readhashinfo` checks

`readhashinfo` rejects a file without the magic, of an unknown version, or with fewer record
bytes than `nbytes = nregions * sizeof(record)`.  `nbytes` is an `int`, so the last check only
holds while that product fits in 32 bits.  A region larger than `blksize` is not rejected: it
fails an `assert`, which stops the process.

* `readhashinfo_reads_records`: a file `readhashinfo` accepts has the magic and a known
  version and, when its record bytes fit in 32 bits, holds all its records, from which the
  regions are read;
* `short_sigfile_accepted`: a V3 file of 53687092 regions with 64 record bytes is accepted;
* `oversized_region_aborts`: `hashmap_compute_delta` on a signature whose region is larger than
  its `blksize` fails an `assert`.
-/

namespace Imagezip.Hashmap

variable {env : Env}

/-- The size of a record of the file's version. -/
def recordWidth (env : Env) (bytes : List UInt8) : Nat :=
  if sigIs32 env bytes then region32Size else regionSize

/-- A count in 32 bits that `toInt32` does not make negative is below `2^31`. -/
lemma lt_of_toInt32_nonneg {x : Nat} (hx : x < 2 ^ 32) (h : ¬ toInt32 x < 0) : x < 2 ^ 31 := by
  by_contra hge
  rw [toInt32, Nat.mod_eq_of_lt hx, if_neg hge] at h
  omega

/-- **What a file `readhashinfo` accepts holds**: the magic, a known version, and, when they fit
in `2^32` bytes, the records the regions are read from. -/
theorem readhashinfo_reads_records {file : Option (List UInt8)} {s s' : St} {hinfo : HashInfo}
    (H : readhashinfo env file s = .ok hinfo s') :
    ∃ bytes, file = some bytes ∧ slice (memOf env bytes) 0 5 = hashMagic ∧
      (sigVersion env bytes = hashVersion1 ∨ sigVersion env bytes = hashVersion2 ∨
        sigVersion env bytes = hashVersion3) ∧
      (sigNregions env bytes * recordWidth env bytes < 2 ^ 32 →
        hdrSize env + sigNregions env bytes * recordWidth env bytes ≤ bytes.length ∧
        hinfo.regions = (readRecords env (sigIs32 env bytes)
            ((bytes.drop (hdrSize env)).take (sigNregions env bytes * recordWidth env bytes))
            (sigNregions env bytes)).map
          fun r => { r with start := (r.start + s.poffset) % 2 ^ 64 }) := by
  obtain ⟨bytes, rfl, hhdr, hmagic, hver, hnb, -, rfl, -⟩ := readhashinfo_ok H
  refine ⟨bytes, rfl, hmagic, hver, fun hfit => ?_⟩
  -- the byte count is not negative, so it did not wrap
  have hnb' : sigNbytes env bytes = sigNregions env bytes * recordWidth env bytes := by
    have h31 := lt_of_toInt32_nonneg hfit fun h => hnb (.inl h)
    exact toInt32_of_lt h31
  rw [hnb', List.length_drop] at hnb
  refine ⟨by omega, ?_⟩
  simp only [sigRegions, hnb', Int.toNat_ofNat]
  rfl

/-- A V3 file of one region at sector 5. -/
def oneRegionFile : List UInt8 := encodeHdr 8 true hashVersion3 hashTypeMd5 1 128 ++ encodeRegion ⟨5, 1, 0, []⟩

/-- The 112-byte file of one region is read whole. -/
theorem readhashinfo_reads_records_one :
    ∃ hinfo s', readhashinfo Env.plain (some oneRegionFile) { St.init with poffset := 0 } =
        .ok hinfo s' ∧
      ∃ bytes, some oneRegionFile = some bytes ∧ slice (memOf Env.plain bytes) 0 5 = hashMagic ∧
        (sigVersion Env.plain bytes = hashVersion1 ∨ sigVersion Env.plain bytes = hashVersion2 ∨
          sigVersion Env.plain bytes = hashVersion3) ∧
        (sigNregions Env.plain bytes * recordWidth Env.plain bytes < 2 ^ 32 →
          hdrSize Env.plain + sigNregions Env.plain bytes * recordWidth Env.plain bytes ≤
            bytes.length ∧
          hinfo.regions = (readRecords Env.plain (sigIs32 Env.plain bytes)
              ((bytes.drop (hdrSize Env.plain)).take
                (sigNregions Env.plain bytes * recordWidth Env.plain bytes))
              (sigNregions Env.plain bytes)).map
            fun r => { r with start := (r.start + 0) % 2 ^ 64 }) :=
  ⟨_, _, rfl, readhashinfo_reads_records
    (rfl : readhashinfo Env.plain (some oneRegionFile) { St.init with poffset := 0 } = _)⟩

/-- **A short file is accepted.**  A V3 header with 53687092 regions of 128 sectors, then 64
zero bytes: 96 bytes where the records alone take `53687092 * 80 = 2^32 + 64`.  `nbytes`
wraps to 64, so `readhashinfo` returns `0` with 53687092 regions. -/
theorem short_sigfile_accepted :
    (encodeHdr 8 true hashVersion3 hashTypeSha256 53687092 128 ++ List.replicate 64 0).length <
        hdrSize Env.plain + 53687092 * regionSize ∧
      ∃ hinfo t, readhashinfo Env.plain
          (some (encodeHdr 8 true hashVersion3 hashTypeSha256 53687092 128 ++ List.replicate 64 0))
          { St.init with poffset := 0 } = .ok hinfo t ∧
        hinfo.regions.length = 53687092 := by
  set F := encodeHdr 8 true hashVersion3 hashTypeSha256 53687092 128 ++ List.replicate 64 0
  -- every record is read from zero bytes or the zero heap of `Env.plain`
  have hmem : memOf Env.plain ((F.drop (hdrSize Env.plain)).take (sigNbytes Env.plain F).toNat) =
      fun _ => 0 := by
    rw [show (F.drop (hdrSize Env.plain)).take (sigNbytes Env.plain F).toNat =
      List.replicate 64 0 by decide]
    funext k
    rw [memOf, List.getD_eq_getElem?_getD, List.getElem?_replicate]
    split_ifs <;> rfl
  have hregs : sigRegions Env.plain F = (List.range 53687092).map fun i =>
      regionAt (fun _ => 0) (i * regionSize) := by
    simp only [sigRegions, hmem, show sigIs32 Env.plain F = false by decide,
      show sigNregions Env.plain F = 53687092 by decide, Bool.false_eq_true, if_false]
  have hsizes : ∀ r ∈ sigRegions Env.plain F, r.size ≤ sigBlksize Env.plain F := by
    rw [hregs]
    simp only [List.mem_map]
    rintro _ ⟨i, -, rfl⟩
    simp only [regionAt, field, slice, List.map_const', List.length_range]
    decide
  refine ⟨by decide, _, _, readhashinfo_of_valid (by decide) (by decide) (by decide) (by decide)
    (by decide) hsizes fun _ _ => rfl, ?_⟩
  rw [List.length_map, hregs, List.length_map, List.length_range]

/-- **A region larger than `blksize` stops the process.**  A V3 signature of one region of 2
sectors in blocks of 1 sector: `readhashinfo` sets `hashblksize` to 1 and fails
`assert(hreg->size <= hashblksize)`, so `hashmap_compute_delta` does not return. -/
theorem oversized_region_aborts :
    hashmapComputeDelta Env.plain false false 1 [⟨0, 1⟩]
        (some (some (encodeHdr 8 true hashVersion3 hashTypeSha256 1 1 ++
          encodeRegion ⟨0, 2, 0, []⟩))) 0 0 St.init =
      .abort { St.init with imagefd := 0, poffset := 0, hashblksize := 1, nalloc := 1 } :=
  rfl

end Imagezip.Hashmap
