import Imagezip.Bytes
import Imagezip.Hashmap.Helpers

/-!
# The signature file

`readhashinfo` reads a signature file into the in-memory `struct hashinfo`.  The file is the raw
memory of the structs of `imagehash.h` (not among the sources; the layout below is the spec's,
"Signature file (on-disk)"): a header `magic[8]`, `version`, `hashtype`, `nregions`, `blksize`
and a pad, then `nregions` records, 32 bytes each in V1 and V2 (`struct hashregion_32`: 32-bit
start, size, chunkno and a 20-byte hash) and 80 bytes in V3 (`struct hashregion`: 64-bit start,
32-bit size and chunkno, a `HASH_MAXSIZE`-byte hash).

The byte counts are `int`s in the code (`nbytes`), so the model computes them as C does
(`toInt32`), and a region the read did not reach holds whatever the heap held (`Env.junk`).
-/

namespace Imagezip.Hashmap

/-- `HASH_MAGIC` and its terminating NUL, as `strcmp` compares them.  Modelled from the spec:
the magic is `"hash"`. -/
def hashMagic : List UInt8 := [104, 97, 115, 104, 0]

/-- `sizeof(struct hashinfo)`. -/
def hdrSize (env : Env) : Nat := 24 + env.hashinfoPad

/-- `sizeof(struct hashregion_32)`. -/
def region32Size : Nat := 32

/-- Hash bytes of a `struct hashregion_32`: enough for SHA-1, too few for SHA-256 (the spec:
V2 cannot carry a SHA-256 hash). -/
def hash32Len : Nat := 20

/-- `sizeof(struct hashregion)`. -/
def regionSize : Nat := 80

/-- Memory holding `bytes` at its start and fresh heap contents after them. -/
def memOf (env : Env) (bytes : List UInt8) (k : Nat) : UInt8 := bytes.getD k (env.junk k)

/-- The `n` bytes of `mem` from offset `off`. -/
def slice (mem : Nat → UInt8) (off n : Nat) : List UInt8 := (List.range n).map fun i => mem (off + i)

/-- The little-endian word of `n` bytes at `off`. -/
def field (mem : Nat → UInt8) (off n : Nat) : Nat := leNat (slice mem off n)

/-- `struct hashregion_32` at `off`, widened as `readhashinfo` does: the 20 hash bytes are
zero-extended. -/
def region32At (mem : Nat → UInt8) (off : Nat) : HashRegion :=
  ⟨field mem off 4, field mem (off + 4) 4, field mem (off + 8) 4,
    slice mem (off + 12) hash32Len ++ List.replicate (hashMaxsize - hash32Len) 0⟩

/-- `struct hashregion` at `off`. -/
def regionAt (mem : Nat → UInt8) (off : Nat) : HashRegion :=
  ⟨field mem off 8, field mem (off + 8) 4, field mem (off + 12) 4,
    slice mem (off + 16) hashMaxsize⟩

/-- `magic[8]` as `strcpy(magic, HASH_MAGIC)` leaves a zeroed field. -/
def magicField (hasMagic : Bool) : List UInt8 :=
  if hasMagic then hashMagic ++ List.replicate 3 0 else List.replicate 8 0

/-- The bytes of a `struct hashinfo` header: `magic`, `version`, `hashtype`, `nregions`,
`blksize` and a zero pad. -/
def encodeHdr (pad : Nat) (hasMagic : Bool) (version hashtype nregions blksize : Nat) :
    List UInt8 :=
  magicField hasMagic ++ leBytes 4 version ++ leBytes 4 hashtype ++ leBytes 4 nregions ++
    leBytes 4 blksize ++ List.replicate pad 0

/-- The bytes of a `struct hashregion`. -/
def encodeRegion (r : HashRegion) : List UInt8 :=
  leBytes 8 r.start ++ leBytes 4 r.size ++ leBytes 4 r.chunkno ++ hashBuf r.hash

/-- The bytes of a `struct hashregion_32`, filled from a `struct hashregion` as the V2
conversion of `hashmap_write_hashfile` does. -/
def encodeRegion32 (r : HashRegion) : List UInt8 :=
  leBytes 4 r.start ++ leBytes 4 r.size ++ leBytes 4 r.chunkno ++ (hashBuf r.hash).take hash32Len

/-! ## What `readhashinfo` reads from a file -/

section Decode

variable (env : Env) (bytes : List UInt8)

/-- The header's `version`. -/
def sigVersion : Nat := field (memOf env bytes) 8 4

/-- The header's `nregions`. -/
def sigNregions : Nat := field (memOf env bytes) 16 4

/-- `blksize`: the header's, or `bytestosec(HASHBLK_SIZE)` for V1. -/
def sigBlksize : Nat :=
  if sigVersion env bytes = hashVersion1 then env.hashblkSize / secsize
  else field (memOf env bytes) 20 4

/-- V1 and V2 files carry `struct hashregion_32` records. -/
def sigIs32 : Bool := sigVersion env bytes ≠ hashVersion3

/-- `nbytes = hi.nregions * sizeof(record)`, an `int`. -/
def sigNbytes : Int :=
  toInt32 (sigNregions env bytes * if sigIs32 env bytes then region32Size else regionSize)

/-- The `nregions` records as read into memory, widened for V1 and V2; records past the
`nbytes` that were read hold heap contents. -/
def sigRegions : List HashRegion :=
  let mem := memOf env ((bytes.drop (hdrSize env)).take (sigNbytes env bytes).toNat)
  (List.range (sigNregions env bytes)).map fun i =>
    if sigIs32 env bytes then region32At mem (i * region32Size) else regionAt mem (i * regionSize)

end Decode

variable (env : Env)

/-- `readhashinfo(hname, &hinfo)`, `file` being the file's contents (`none`: `open` fails).
It sets `hashblksize` and returns the signature with region starts made absolute. -/
def readhashinfo (file : Option (List UInt8)) : EngM HashInfo := do
  let s ← getSt
  assertM (s.poffset ≠ 2 ^ 64 - 1)
  let some bytes := file | errM
  -- `read(fd, &hi, sizeof(hi))`
  failIf (bytes.length < hdrSize env)
  let version := sigVersion env bytes
  failIf (¬ (slice (memOf env bytes) 0 5 = hashMagic ∧
      (version = hashVersion1 ∨ version = hashVersion2 ∨ version = hashVersion3)))
  let is32 := sigIs32 env bytes
  let nbytes := sigNbytes env bytes
  -- `cvtbuf = malloc(nbytes)` for V1 and V2, then `hinfo = malloc(...)`
  whenM is32 (mallocM env)
  mallocM env
  -- `cc = read(fd, buf, nbytes)` on the rest of the file
  failIf (nbytes < 0 ∨ ((bytes.drop (hdrSize env)).length : Int) < nbytes)
  -- `hashblksize = hinfo->blksize`, then compensate for the partition offset
  let blksize := sigBlksize env bytes
  modifySt fun s => { s with hashblksize := blksize }
  assertM (∀ r ∈ sigRegions env bytes, r.size ≤ blksize)
  -- `hashdata = malloc(sectobytes(hashblksize))`
  mallocM env
  pure ⟨true, if is32 then hashVersion else version, field (memOf env bytes) 12 4, blksize,
    (sigRegions env bytes).map fun r => { r with start := (r.start + s.poffset) % 2 ^ 64 }⟩

/-! ## What a successful read returns -/

/-- A little-endian field of four bytes holds a `uint32_t`. -/
lemma field_lt (mem : Nat → UInt8) (off : Nat) : field mem off 4 < 2 ^ 32 := by
  have := leNat_lt (slice mem off 4)
  simpa [field, slice] using this

/-- Every record's `size` is a `uint32_t`. -/
lemma size_lt_of_mem_sigRegions {bytes : List UInt8} {r : HashRegion}
    (hr : r ∈ sigRegions env bytes) : r.size < 2 ^ 32 := by
  simp only [sigRegions, List.mem_map] at hr
  obtain ⟨i, -, rfl⟩ := hr
  split_ifs
  · exact field_lt _ _
  · exact field_lt _ _

variable {env}

/-- A successful `readhashinfo`: the file has a valid header and its records, the signature
returned is what they describe with region starts shifted by `poffset`, and only `hashblksize`
and the allocation count changed. -/
theorem readhashinfo_ok {file : Option (List UInt8)} {s s' : St} {hinfo : HashInfo}
    (H : readhashinfo env file s = .ok hinfo s') :
    ∃ bytes, file = some bytes ∧ ¬ bytes.length < hdrSize env ∧
      slice (memOf env bytes) 0 5 = hashMagic ∧
      (sigVersion env bytes = hashVersion1 ∨ sigVersion env bytes = hashVersion2 ∨
        sigVersion env bytes = hashVersion3) ∧
      ¬ (sigNbytes env bytes < 0 ∨ ((bytes.drop (hdrSize env)).length : Int) < sigNbytes env bytes) ∧
      (∀ r ∈ sigRegions env bytes, r.size ≤ sigBlksize env bytes) ∧
      hinfo = ⟨true, if sigIs32 env bytes then hashVersion else sigVersion env bytes,
        field (memOf env bytes) 12 4, sigBlksize env bytes,
        (sigRegions env bytes).map fun r => { r with start := (r.start + s.poffset) % 2 ^ 64 }⟩ ∧
      ∃ n, s' = { s with hashblksize := sigBlksize env bytes, nalloc := n } := by
  cases file with
  | none => simp [readhashinfo, bind_apply] at H; split_ifs at H
  | some bytes =>
    dsimp only [readhashinfo] at H
    simp only [bind_eq_ok, getSt_apply, Res.ok.injEq, assertM_apply, failIf_apply, whenM_ok] at H
    obtain ⟨_, _, ⟨rfl, rfl⟩, _, _, h1, _, _, h2, _, _, h3, _, _, h4, _, _, h5, _, _, h6, _, _, h7,
      _, _, h8, _, _, h9, h10⟩ := H
    split_ifs at h1 h2 h3 h6 h8 with g1 g2 g3 g6 g8
    obtain ⟨-, rfl⟩ := Res.ok.inj h1
    obtain ⟨-, rfl⟩ := Res.ok.inj h2
    obtain ⟨-, rfl⟩ := Res.ok.inj h3
    obtain ⟨-, rfl⟩ := Res.ok.inj h6
    obtain ⟨-, rfl⟩ := Res.ok.inj h7
    obtain ⟨-, rfl⟩ := Res.ok.inj h8
    obtain ⟨rfl, rfl⟩ := Res.ok.inj h10
    obtain ⟨-, rfl⟩ := mallocM_ok h9
    obtain ⟨-, rfl⟩ := mallocM_ok h5
    refine ⟨bytes, rfl, g2, g3.1, g3.2, g6, g8, rfl, ?_⟩
    replace h4 := whenM_ok.mp h4
    split_ifs at h4
    · obtain ⟨-, rfl⟩ := mallocM_ok h4
      dsimp only
      exact ⟨_, rfl⟩
    · subst h4
      dsimp only
      exact ⟨_, rfl⟩

end Imagezip.Hashmap
