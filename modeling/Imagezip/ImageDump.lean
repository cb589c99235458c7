import Imagezip.ImageHdr

/-!
# The checks of `imagedump`

`dumpfile` reads an image one 1 MiB chunk at a time: the first `DEFAULTREGIONSIZE` bytes of each
chunk, at the chunk's offset, or under `-c` (kept only for V6 and later) the whole chunk.  It
checks the magic of chunk 0 against
`[COMPRESSED_MAGIC_BASE, COMPRESSED_MAGIC_CURRENT]`, keeps chunk 0's `blocktotal` as
`chunkcount` and, for V5, its `imageid`, and hands every chunk to `dumpchunk`.  `dumpchunk`
accepts any of the versions it knows, whatever chunk 0's is.  It compares `hdr->size` with
`CHUNKSIZE - hdr->regionsize` as unsigned numbers, so a `regionsize` above `CHUNKSIZE` passes.

The model keeps what decides the value `dumpfile` returns.  The printing, the statistics and
the loops over the regions and relocations of a chunk only print and count; they are modelled
in `Imagezip.DumpStats`, with what `dumpfile` accepts when their reads stay in `chunkbuf`.
The file is a regular file (not `stdin`), given by its size and its bytes.  The header is read
at the offsets of the LP64 layout of `struct blockhdr_V5` and `struct blockhdr_V6`.  The
`WITH_CRYPTO` checksum check is never reached: `checksums` needs chunk 0 at V6, above
`COMPRESSED_MAGIC_CURRENT`.

* `dumpfile_checks_every_chunk`: when `dumpfile` returns 0 (without `-q`), every chunk passes
  `dumpchunk` against what chunk 0 set;
* `dumpfile_accepts_mixed_versions`: a V3 chunk followed by a V2 chunk with `regionsize`
  `CHUNKSIZE + 1` gives no error.
-/

namespace Imagezip.Dump

/-- `CHUNKSIZE`: `F_BLOCKSIZE * F_BLOCKSPERCHUNK`. -/
def chunkSize : Nat := 1024 * 1024

/-- `DEFAULTREGIONSIZE`: the bytes of a chunk `dumpfile` reads. -/
def defaultRegionSize : Nat := 4096

/-- The bytes `dumpfile` reads of a chunk: the whole chunk when `checksums` is set, else
`DEFAULTREGIONSIZE`. -/
def readCount (checksums : Bool) : Nat := if checksums then chunkSize else defaultRegionSize

lemma defaultRegionSize_le_readCount (checksums : Bool) : defaultRegionSize ≤ readCount checksums := by
  cases checksums <;> decide

/-- `UUID_LENGTH`. -/
def uuidLength : Nat := 16

/-- An image file: its size and its bytes. -/
structure ImageFile where
  size : Nat
  byte : Nat → UInt8

/-- The little-endian word of `n` bytes at `off` of `mem`. -/
def word (mem : Nat → UInt8) (off n : Nat) : Nat := leNat ((List.range n).map fun i => mem (off + i))

/-- The header fields `dumpfile` and `dumpchunk` check, at their LP64 offsets; the fields only the
printing reads are left at their defaults. -/
def readHdr (buf : Nat → UInt8) : BlockHdr where
  magic := word buf 0 4
  size := word buf 4 4
  blockindex := toInt32 (word buf 8 4)
  blocktotal := toInt32 (word buf 12 4)
  regionsize := toInt32 (word buf 16 4)
  imageid := (List.range uuidLength).map fun i => buf (56 + i)
  encCipher := word buf 72 2
  csumType := word buf 74 2

/-- The header of chunk `k`: `read` fills `chunkbuf` from the chunk's offset. -/
def chunkHdr (f : ImageFile) (k : Nat) : BlockHdr := readHdr fun i => f.byte (k * chunkSize + i)

/-- An image laid out from the first bytes of its chunks, zero elsewhere. -/
def chunksImage (size : Nat) (chunks : List (List UInt8)) : ImageFile :=
  ⟨size, fun i => (chunks.getD (i / chunkSize) []).getD (i % chunkSize) 0⟩

/-- The first fields of a chunk header: `magic`, `size`, `blockindex`, `blocktotal` and
`regionsize`. -/
def hdrBytes (magic size blockindex blocktotal regionsize : Nat) : List UInt8 :=
  leBytes 4 magic ++ leBytes 4 size ++ leBytes 4 blockindex ++ leBytes 4 blocktotal ++
    leBytes 4 regionsize

/-- The flags that change what `dumpfile` returns: `-q`, `-i`, and `checksums` (`-c`) as the
file finds it, which a file below V6 clears for the files after it. -/
structure Opts where
  quickcheck : Bool := false
  ignorev1 : Bool := false
  checksums : Bool := false

/-- What `dumpchunk` checks a chunk against: the globals `magic`, `chunkcount`, `imageid`,
`sigtype`, `enctype` and `checksums` as chunk 0 left them, and `dumpfile`'s `checkindex`. -/
structure DumpCtx where
  magic : Nat
  chunkcount : Int
  checkindex : Bool
  imageid : List UInt8
  sigtype : Nat
  enctype : Nat
  checksums : Bool

/-- `CSUM_SHA1`. -/
def csumSha1 : Nat := 1

/-- The `switch (hdr->magic)` of `dumpchunk`: a version it knows, and for V5 and V6 after chunk
0 the image ID (and for V6 the checksum and cipher types) of chunk 0. -/
def magicOk (ctx : DumpCtx) (hdr : BlockHdr) (chunkno : Nat) : Bool :=
  if hdr.magic = compressedV1 ∨ hdr.magic = compressedV2 ∨ hdr.magic = compressedV3 then true
  else if hdr.magic = compressedV5 then chunkno = 0 ∨ hdr.imageid = ctx.imageid
  else if hdr.magic = compressedV6 then
    (chunkno = 0 ∨ ctx.sigtype = hdr.csumType ∧ ctx.enctype = hdr.encCipher ∧
        hdr.imageid = ctx.imageid) ∧
      ¬ (ctx.checksums ∧ hdr.csumType ≠ 0 ∧ hdr.csumType % 256 ≠ csumSha1)
  else false

/-- `dumpchunk(name, buf, chunkno, checkindex)`: `1` when a check fails, else `0`.  `size` is
unsigned, so `CHUNKSIZE - hdr->regionsize` is compared modulo `2^32`. -/
def dumpchunk (ctx : DumpCtx) (hdr : BlockHdr) (chunkno : Nat) : Nat :=
  if !magicOk ctx hdr chunkno then 1
  else if ctx.checkindex ∧ hdr.blockindex ≠ chunkno then 1
  else if ctx.chunkcount ≠ 0 ∧ hdr.blocktotal ≠ ctx.chunkcount then 1
  else if (hdr.size : Int) > (chunkSize - hdr.regionsize) % 2 ^ 32 then 1
  else 0

/-- The loop of `dumpfile` from chunk `k > 0` on: `read` finds the end of the file (`goto
done`), or fewer bytes than it asks (`short read`, `return 1`), or the chunk for `dumpchunk`. -/
def chunkLoop (f : ImageFile) (ctx : DumpCtx) (k : Nat) : Nat :=
  if f.size ≤ k * chunkSize then 0
  else if f.size < k * chunkSize + readCount ctx.checksums then 1
  else if dumpchunk ctx (chunkHdr f k) k ≠ 0 then 1
  else chunkLoop f ctx (k + 1)
termination_by f.size - k * chunkSize
decreasing_by
  have : 0 < chunkSize := by decide
  rw [Nat.succ_mul]
  omega

/-- What `dumpfile` sets from chunk 0 (lines 281-363); `imageid` is `prevId`, left by an
earlier file, unless chunk 0 is V5 or later. -/
def chunk0Ctx (opts : Opts) (prevId : List UInt8) (filesize : Nat) (hdr : BlockHdr) : DumpCtx where
  magic := hdr.magic
  chunkcount := if opts.ignorev1 then 0 else hdr.blocktotal
  checkindex := !opts.ignorev1 &&
    !decide (((filesize / chunkSize : Nat) : Int) ≠ hdr.blocktotal ∧ hdr.blocktotal = 0 ∧
      hdr.magic = compressedV1)
  imageid := if compressedV5 ≤ hdr.magic then hdr.imageid else prevId
  sigtype := if compressedV6 ≤ hdr.magic then hdr.csumType else 0
  enctype := if compressedV6 ≤ hdr.magic then hdr.encCipher else 0
  checksums := opts.checksums && decide (compressedV6 ≤ hdr.magic)

/-- `dumpfile(name, fd)`: the number of errors it returns. -/
def dumpfile (opts : Opts) (prevId : List UInt8) (f : ImageFile) : Nat :=
  if f.size = 0 then 0
  else if f.size < readCount opts.checksums then 1
  else if (chunkHdr f 0).magic < compressedMagicBase ∨
      (chunkHdr f 0).magic > compressedMagicCurrent then 1
  else if opts.quickcheck then 0
  else if dumpchunk (chunk0Ctx opts prevId f.size (chunkHdr f 0)) (chunkHdr f 0) 0 ≠ 0 then 1
  else chunkLoop f (chunk0Ctx opts prevId f.size (chunkHdr f 0)) 1

/-! ## What a chunk that passes carries -/

/-- A chunk that passes `dumpchunk`: a known version; after chunk 0, a V5 or V6 chunk carries
the image ID (and V6 the checksum and cipher types) chunk 0 set; its index and total where they
are checked; `size` within `CHUNKSIZE - regionsize` taken modulo `2^32`. -/
structure ChunkOk (ctx : DumpCtx) (hdr : BlockHdr) (k : Nat) : Prop where
  known : hdr.magic = compressedV1 ∨ hdr.magic = compressedV2 ∨ hdr.magic = compressedV3 ∨
    hdr.magic = compressedV5 ∨ hdr.magic = compressedV6
  imageid : 0 < k → compressedV5 ≤ hdr.magic → hdr.imageid = ctx.imageid
  types : 0 < k → hdr.magic = compressedV6 → hdr.csumType = ctx.sigtype ∧ hdr.encCipher = ctx.enctype
  index : ctx.checkindex = true → hdr.blockindex = k
  total : ctx.chunkcount ≠ 0 → hdr.blocktotal = ctx.chunkcount
  size : (hdr.size : Int) ≤ (chunkSize - hdr.regionsize) % 2 ^ 32

/-- What the version check of `dumpchunk` passes: a known version, and after chunk 0 the image
ID of V5 and V6 chunks and the types of V6 chunks. -/
lemma magicOk_spec {ctx : DumpCtx} {hdr : BlockHdr} {k : Nat} (h : magicOk ctx hdr k = true) :
    (hdr.magic = compressedV1 ∨ hdr.magic = compressedV2 ∨ hdr.magic = compressedV3 ∨
      hdr.magic = compressedV5 ∨ hdr.magic = compressedV6) ∧
    (0 < k → compressedV5 ≤ hdr.magic → hdr.imageid = ctx.imageid) ∧
    (0 < k → hdr.magic = compressedV6 → hdr.csumType = ctx.sigtype ∧ hdr.encCipher = ctx.enctype) := by
  unfold magicOk at h
  split_ifs at h with g1 g5 g6
  · -- V1, V2 and V3 are below V5
    have hlt : hdr.magic < compressedV5 := by
      rcases g1 with g | g | g <;> rw [g] <;> decide
    exact ⟨g1.imp_right (Or.imp_right .inl), fun _ h5 => absurd h5 (by omega),
      fun _ h6 => absurd (h6 ▸ hlt) (by decide)⟩
  · rw [decide_eq_true_eq] at h
    exact ⟨.inr (.inr (.inr (.inl g5))), fun hk _ => h.resolve_left (by omega),
      fun _ h6 => absurd (g5 ▸ h6) (by decide)⟩
  · rw [decide_eq_true_eq] at h
    have hk : ∀ _ : 0 < k, ctx.sigtype = hdr.csumType ∧ ctx.enctype = hdr.encCipher ∧
        hdr.imageid = ctx.imageid := fun hk => h.1.resolve_left (by omega)
    exact ⟨.inr (.inr (.inr (.inr g6))), fun k0 _ => (hk k0).2.2,
      fun k0 _ => ⟨(hk k0).1.symm, (hk k0).2.1.symm⟩⟩

/-- The checks `dumpchunk` passes. -/
lemma chunkOk_of_dumpchunk {ctx : DumpCtx} {hdr : BlockHdr} {k : Nat}
    (h : dumpchunk ctx hdr k = 0) : ChunkOk ctx hdr k := by
  unfold dumpchunk at h
  split_ifs at h with h1 h2 h3 h4
  obtain ⟨hknown, hid, htypes⟩ := magicOk_spec (by simpa using h1)
  simp only [not_and, not_not] at h2 h3
  exact ⟨hknown, hid, htypes, h2, h3, Int.not_lt.1 h4⟩

/-! ## The chunk loop -/

/-- **Step lemma**: a loop that ends without error from chunk `k` has found the end of the file
there, or has read chunk `k` whole, passed it, and ends without error from chunk `k + 1`. -/
lemma chunkLoop_eq_zero {f : ImageFile} {ctx : DumpCtx} {k : Nat} (h : chunkLoop f ctx k = 0) :
    f.size ≤ k * chunkSize ∨ k * chunkSize + readCount ctx.checksums ≤ f.size ∧
      dumpchunk ctx (chunkHdr f k) k = 0 ∧ chunkLoop f ctx (k + 1) = 0 := by
  rw [chunkLoop] at h
  split_ifs at h with h1 h2 h3
  · exact .inl h1
  · exact .inr ⟨by omega, not_not.1 h3, h⟩

/-- A loop that ends without error from chunk `k` ends without error from every later chunk of
the file. -/
lemma chunkLoop_zero_of_le {f : ImageFile} {ctx : DumpCtx} {k : Nat} (h : chunkLoop f ctx k = 0)
    {j : Nat} (hkj : k ≤ j) (hj : j * chunkSize < f.size) : chunkLoop f ctx j = 0 := by
  induction j, hkj using Nat.le_induction with
  | base => exact h
  | succ j _ ih =>
    have hj' : j * chunkSize < f.size := by rw [Nat.succ_mul] at hj; omega
    exact ((chunkLoop_eq_zero (ih hj')).resolve_left (by omega)).2.2

/-- **Run lemma**: a loop that ends without error from chunk `k` has read and passed every later
chunk of the file. -/
lemma chunkLoop_checks {f : ImageFile} {ctx : DumpCtx} {k : Nat} (h : chunkLoop f ctx k = 0)
    {j : Nat} (hkj : k ≤ j) (hj : j * chunkSize < f.size) :
    j * chunkSize + readCount ctx.checksums ≤ f.size ∧ dumpchunk ctx (chunkHdr f j) j = 0 :=
  ((chunkLoop_eq_zero (chunkLoop_zero_of_le h hkj hj)).resolve_left (by omega)).imp_right And.left

/-- **Run lemma, converse**: a loop from chunk `k` on a file whose later chunks are all read
whole and all pass `dumpchunk` ends without error. -/
lemma chunkLoop_zero_of_checks {f : ImageFile} {ctx : DumpCtx} (k : Nat)
    (h : ∀ j, k ≤ j → j * chunkSize < f.size →
      j * chunkSize + readCount ctx.checksums ≤ f.size ∧ dumpchunk ctx (chunkHdr f j) j = 0) :
    chunkLoop f ctx k = 0 := by
  induction k using chunkLoop.induct f ctx with
  | case1 k hend => rw [chunkLoop, if_pos hend]
  | case2 k hend hshort => exact absurd (h k le_rfl (by omega)).1 (by omega)
  | case3 k hend _ hbad => exact absurd (h k le_rfl (by omega)).2 hbad
  | case4 k hend hshort hok ih =>
    rw [chunkLoop, if_neg hend, if_neg hshort, if_neg hok]
    exact ih fun j hj => h j (by omega)

/-! ## The whole file -/

/-- A `dumpfile` without `-q` that returns 0: the file is empty, or chunk 0 has a magic in
range, passes `dumpchunk`, and the loop ends without error from chunk 1. -/
lemma dumpfile_eq_zero {opts : Opts} {prevId : List UInt8} {f : ImageFile}
    (h : dumpfile opts prevId f = 0) (hq : opts.quickcheck = false) :
    f.size = 0 ∨ dumpchunk (chunk0Ctx opts prevId f.size (chunkHdr f 0)) (chunkHdr f 0) 0 = 0 ∧
      chunkLoop f (chunk0Ctx opts prevId f.size (chunkHdr f 0)) 1 = 0 := by
  unfold dumpfile at h
  generalize readCount opts.checksums = count at h
  simp only [hq, Bool.false_eq_true, if_false] at h
  split_ifs at h with h1 h2 h3 h4
  · exact .inl h1
  · exact .inr ⟨not_not.1 h4, h⟩

/-- **What a file `dumpfile` accepts holds**: every chunk passes the checks of `dumpchunk`
against what chunk 0 set. -/
theorem dumpfile_checks_every_chunk {opts : Opts} {prevId : List UInt8} {f : ImageFile}
    (h : dumpfile opts prevId f = 0) (hq : opts.quickcheck = false) {j : Nat}
    (hj : j * chunkSize < f.size) :
    ChunkOk (chunk0Ctx opts prevId f.size (chunkHdr f 0)) (chunkHdr f j) j := by
  rcases dumpfile_eq_zero h hq with h0 | ⟨h0, hloop⟩
  · omega
  · rcases Nat.eq_zero_or_pos j with rfl | hpos
    · exact chunkOk_of_dumpchunk h0
    · exact chunkOk_of_dumpchunk (chunkLoop_checks hloop hpos hj).2

/-- Two V3 chunks that agree, with `blocktotal` 2. -/
def twoChunkImage : ImageFile :=
  chunksImage (2 * chunkSize)
    [hdrBytes compressedV3 0 0 2 defaultRegionSize, hdrBytes compressedV3 0 1 2 defaultRegionSize]

/-- Chunk 1 of `twoChunkImage` passes. -/
theorem dumpfile_checks_every_chunk_two :
    ChunkOk (chunk0Ctx {} (List.replicate uuidLength 0) twoChunkImage.size
      (chunkHdr twoChunkImage 0)) (chunkHdr twoChunkImage 1) 1 :=
  dumpfile_checks_every_chunk
    (by rw [dumpfile, if_neg (by decide), if_neg (by decide), if_neg (by decide), if_neg (by decide),
      if_neg (by decide), chunkLoop, if_neg (by decide), if_neg (by decide), if_neg (by decide),
      chunkLoop, if_pos (by decide)])
    rfl (by decide)

/-! ## Mixed versions and a wide region -/

/-- Two chunks: a V3 chunk, then a V2 chunk with 100 compressed bytes and a `regionsize` of
`CHUNKSIZE + 1`. -/
def mixedImage : ImageFile :=
  chunksImage (2 * chunkSize)
    [hdrBytes compressedV3 0 0 0 defaultRegionSize, hdrBytes compressedV2 100 1 0 (chunkSize + 1)]

/-- **`dumpfile` accepts mixed versions and a region past the chunk**: `CHUNKSIZE - regionsize`
is `-1`, which as an unsigned number no `size` exceeds. -/
theorem dumpfile_accepts_mixed_versions :
    dumpfile {} (List.replicate uuidLength 0) mixedImage = 0 ∧
      (chunkHdr mixedImage 0).magic = compressedV3 ∧ (chunkHdr mixedImage 1).magic = compressedV2 ∧
      (chunkHdr mixedImage 1).regionsize = chunkSize + 1 ∧ (chunkHdr mixedImage 1).size = 100 := by
  refine ⟨?_, by decide, by decide, by decide, by decide⟩
  have h2 : chunkLoop mixedImage
      (chunk0Ctx {} (List.replicate uuidLength 0) mixedImage.size (chunkHdr mixedImage 0)) 2 = 0 := by
    rw [chunkLoop, if_pos (by decide)]
  have h1 : chunkLoop mixedImage
      (chunk0Ctx {} (List.replicate uuidLength 0) mixedImage.size (chunkHdr mixedImage 0)) 1 = 0 := by
    rw [chunkLoop, if_neg (by decide), if_neg (by decide), if_neg (by decide), h2]
  rw [dumpfile, if_neg (by decide), if_neg (by decide), if_neg (by decide), if_neg (by decide),
    if_neg (by decide), h1]

end Imagezip.Dump
