import Imagezip.ImageHdr
import Imagezip.Hashmap.SigFile

/-!
# Writing the signature file

`hashmap_write_hashfile` makes the region starts of `nhinfo` relative to the partition again and
writes the struct's memory to the file: as it is (V3), or converted to `struct hashregion_32`
records (V2) when the image predates V5, the hash fits in 20 bytes and every start fits in 32
bits.  The byte count `count` it hands to `write` is an `int`.

* `regionAt_flatten`, `region32At_flatten`: a record reads back as written, narrowed to its
  fields' widths;
* `readhashinfo_encodeInfo`, `readhashinfo_encodeInfo32`: what `readhashinfo` makes of a whole
  file of either layout;
* `sigfile_round_trip`: while `count` fits in an `int`, the signature read back is the one
  written;
* `sigfile_count_wraps`: with 53687092 regions `count` wraps to 96 bytes, the write still
  returns `0`, and the signature read back has other regions.
-/

namespace Imagezip.Hashmap

/-- The memory of a `struct hashinfo` with its `struct hashregion` records. -/
def encodeInfo (pad : Nat) (hi : HashInfo) : List UInt8 :=
  encodeHdr pad hi.hasMagic hi.version hi.hashtype hi.regions.length hi.blksize ++
    (hi.regions.map encodeRegion).flatten

/-- The memory of the V2 `struct hashinfo` the conversion builds: `HASH_MAGIC`,
`HASH_VERSION_2`, `hashtype` and `nregions` of `nhinfo`, `blksize = hashblksize`, a zero pad and
the narrowed records. -/
def encodeInfo32 (pad blksize : Nat) (hi : HashInfo) : List UInt8 :=
  encodeHdr pad true hashVersion2 hi.hashtype hi.regions.length blksize ++
    (hi.regions.map encodeRegion32).flatten

/-- What `nhinfo` points to after the conversion, with each record's hash cut to the 20 bytes a
`struct hashregion_32` keeps. -/
def HashInfo.toV2 (blksize : Nat) (hi : HashInfo) : HashInfo :=
  ⟨true, hashVersion2, hi.hashtype, blksize,
    hi.regions.map fun r => { r with hash := (hashBuf r.hash).take hash32Len }⟩

/-- `nhinfo` with its region starts made relative to the partition again (lines 427-434). -/
def HashInfo.relative (poffset : Nat) (hi : HashInfo) : HashInfo :=
  { hi with regions := hi.regions.map fun r => { r with start := r.start - poffset } }

/-- `count = sizeof(*nhinfo) + nhinfo->nregions * sizeof(record)`, an `int`. -/
def writeCount (env : Env) (n size : Nat) : Int := toInt32 (hdrSize env + n * size)

variable (env : Env)

/-- The buffer and `count` handed to `write` (lines 472-529): the V3 struct as it is, or the V2
struct when `ivers < COMPRESSED_V5`, the hash type is not SHA256, the `malloc` succeeds and no
start is above `UINT32_MAX`; otherwise `convertfailed`. -/
def convertHashinfo (ivers : Nat) (hi : HashInfo) : EngM (List UInt8 × Int) :=
  let v3 := (encodeInfo env.hashinfoPad hi, writeCount env hi.regions.length regionSize)
  if ivers < compressedV5 ∧ hi.hashtype ≠ hashTypeSha256 then
    catchErr (mallocM env)
      (fun _ => if ∀ r ∈ hi.regions, r.start ≤ 2 ^ 32 - 1 then do
          let s ← getSt
          modifySt fun s => { s with nhinfo := .live (hi.toV2 s.hashblksize) }
          pure (encodeInfo32 env.hashinfoPad s.hashblksize hi,
            writeCount env hi.regions.length region32Size)
        else pure v3)
      (pure v3)
  else pure v3

/-- The signature `nhinfo` points to: `NULL` returns `-1`, and a freed one is used after
`free`. -/
def liveNhinfo : EngM HashInfo := fun s =>
  match s.nhinfo with
  | .live hi => .ok hi s
  | .null => .err s
  | .freed => .abort s

/-- `hashmap_write_hashfile(fname, iname, ivers)`: `0` with the contents of the file written, or
`-1`.  Setting the modtime does not change the result. -/
def hashmapWriteHashfile (ivers : Nat) : EngM (List UInt8) := do
  let s ← getSt
  assertM (s.poffset ≠ 2 ^ 64 - 1)
  -- "No hashinfo to write!?"
  let hi ← liveNhinfo
  -- compensate for partition offset; a failing `assert` stops the process
  assertM (∀ r ∈ hi.regions, r.size ≤ hi.blksize ∧ s.poffset ≤ r.start)
  let hi := hi.relative s.poffset
  modifySt fun s => { s with nhinfo := .live hi }
  -- the file name, then a second one for the `/tmp` fallback
  mallocM env
  whenM (env.openOk 0 = false) do
    mallocM env
    failIf (env.openOk 1 = false)
  let (mem, count) ← convertHashinfo env ivers hi
  -- `cc = write(ofd, nhinfo, count); if (cc != count) return -1`: a negative `count` is a
  -- `size_t` beyond any buffer, which `write` does not return
  failIf (count < 0)
  pure (mem.take count.toNat)

/-! ## Reading back what was written -/

section Read

variable (env : Env)
lemma slice_memOf {bytes : List UInt8} {off n : Nat} (h : off + n ≤ bytes.length) :
    slice (memOf env bytes) off n = (bytes.drop off).take n := by
  apply List.ext_getElem
  · simp only [slice, List.length_map, List.length_range, List.length_take, List.length_drop]
    omega
  · intro i h1 _
    have : off + i < bytes.length := by simp [slice] at h1; omega
    simp [slice, memOf, List.getElem?_eq_getElem this]

section Blocks

variable {k : Nat} {L : List (List UInt8)} (hk : ∀ x ∈ L, x.length = k)
include hk

/-- Reading `m` bytes at offset `j` of the `i`-th block. -/
lemma slice_flatten {i j m : Nat} (hi : i < L.length) (hj : j + m ≤ k) :
    slice (memOf env L.flatten) (i * k + j) m = (L[i].drop j).take m := by
  have hlen : i * k + j + m ≤ L.flatten.length := by
    rw [length_flatten_blocks hk]
    have : (i + 1) * k ≤ L.length * k := Nat.mul_le_mul_right _ hi
    rw [Nat.succ_mul] at this
    omega
  rw [slice_memOf env hlen, drop_flatten_block hk hi hj]
end Blocks

lemma regionAt_flatten (L : List HashRegion) {i : Nat} (hi : i < L.length) :
    regionAt (memOf env (L.map encodeRegion).flatten) (i * regionSize) =
      ⟨L[i].start % 2 ^ 64, L[i].size % 2 ^ 32, L[i].chunkno % 2 ^ 32, hashBuf L[i].hash⟩ := by
  have hk : ∀ x ∈ L.map encodeRegion, x.length = regionSize := by
    simp [encodeRegion, regionSize, hashMaxsize]
  have e := fun j m (hj : j + m ≤ regionSize) =>
    slice_flatten env hk (i := i) (j := j) (m := m) (by simpa using hi) hj
  simp only [List.getElem_map] at e
  have e0 := e 0 8 (by decide)
  rw [Nat.add_zero] at e0
  simp only [regionAt, field, e0, e 8 4 (by decide), e 12 4 (by decide), e 16 hashMaxsize (by decide)]
  simp [encodeRegion, leNat_leBytes, List.take_append_eq_append_take, List.drop_append_eq_append_drop,
    List.drop_eq_nil_of_le, List.take_of_length_le]

lemma region32At_flatten (L : List HashRegion) {i : Nat} (hi : i < L.length) :
    region32At (memOf env (L.map encodeRegion32).flatten) (i * region32Size) =
      ⟨L[i].start % 2 ^ 32, L[i].size % 2 ^ 32, L[i].chunkno % 2 ^ 32,
        (hashBuf L[i].hash).take hash32Len ++ List.replicate (hashMaxsize - hash32Len) 0⟩ := by
  have hk : ∀ x ∈ L.map encodeRegion32, x.length = region32Size := by
    simp [encodeRegion32, region32Size, hash32Len, hashMaxsize]
  have e := fun j m (hj : j + m ≤ region32Size) =>
    slice_flatten env hk (i := i) (j := j) (m := m) (by simpa using hi) hj
  simp only [List.getElem_map] at e
  have e0 := e 0 4 (by decide)
  rw [Nat.add_zero] at e0
  simp only [region32At, field, e0, e 4 4 (by decide), e 8 4 (by decide), e 12 hash32Len (by decide)]
  simp [encodeRegion32, leNat_leBytes, List.take_append_eq_append_take,
    List.drop_append_eq_append_drop, List.drop_eq_nil_of_le, List.take_of_length_le, hash32Len, hashMaxsize]

@[simp] lemma length_magicField (m : Bool) : (magicField m).length = 8 := by
  cases m <;> rfl

lemma length_encodeHdr (pad : Nat) (m : Bool) (v t n b : Nat) :
    (encodeHdr pad m v t n b).length = 24 + pad := by
  simp [encodeHdr]; omega

section Header

variable {pad : Nat} {m : Bool} {v t n b : Nat} {rest : List UInt8}

lemma slice_hdr {off k : Nat} (h : off + k ≤ 24) :
    slice (memOf env (encodeHdr pad m v t n b ++ rest)) off k =
      ((encodeHdr pad m v t n b).drop off).take k := by
  rw [slice_memOf env (by simp [length_encodeHdr]; omega), List.drop_append_eq_append_drop,
    List.take_append_eq_append_take]
  simp [length_encodeHdr]; omega

/-- The header fields read back as written, narrowed to 32 bits. -/
lemma hdr_fields :
    sigVersion env (encodeHdr pad m v t n b ++ rest) = v % 2 ^ 32 ∧
      field (memOf env (encodeHdr pad m v t n b ++ rest)) 12 4 = t % 2 ^ 32 ∧
      sigNregions env (encodeHdr pad m v t n b ++ rest) = n % 2 ^ 32 ∧
      field (memOf env (encodeHdr pad m v t n b ++ rest)) 20 4 = b % 2 ^ 32 := by
  simp only [sigVersion, sigNregions, field, slice_hdr env (by decide : 8 + 4 ≤ 24),
    slice_hdr env (by decide : 12 + 4 ≤ 24), slice_hdr env (by decide : 16 + 4 ≤ 24),
    slice_hdr env (by decide : 20 + 4 ≤ 24)]
  simp [encodeHdr, leNat_leBytes, List.take_append_eq_append_take, List.drop_append_eq_append_drop,
    List.drop_eq_nil_of_le, List.take_of_length_le]

@[simp] lemma sigVersion_hdr : sigVersion env (encodeHdr pad m v t n b ++ rest) = v % 2 ^ 32 :=
  (hdr_fields env).1

@[simp] lemma hashtype_hdr :
    field (memOf env (encodeHdr pad m v t n b ++ rest)) 12 4 = t % 2 ^ 32 :=
  (hdr_fields env).2.1

@[simp] lemma sigNregions_hdr : sigNregions env (encodeHdr pad m v t n b ++ rest) = n % 2 ^ 32 :=
  (hdr_fields env).2.2.1

@[simp] lemma blksize_hdr :
    field (memOf env (encodeHdr pad m v t n b ++ rest)) 20 4 = b % 2 ^ 32 :=
  (hdr_fields env).2.2.2

@[simp] lemma magic_hdr : slice (memOf env (encodeHdr pad true v t n b ++ rest)) 0 5 = hashMagic := by
  rw [slice_hdr env (by decide)]
  simp [encodeHdr, magicField, hashMagic, List.take_append_eq_append_take]

end Header

variable {env}

/-- `readhashinfo` on a file that passes its checks. -/
lemma readhashinfo_of_valid {bytes : List UInt8} {s : St} (hp : s.poffset ≠ 2 ^ 64 - 1)
    (h1 : ¬ bytes.length < hdrSize env) (h2 : slice (memOf env bytes) 0 5 = hashMagic)
    (h3 : sigVersion env bytes = hashVersion1 ∨ sigVersion env bytes = hashVersion2 ∨
      sigVersion env bytes = hashVersion3)
    (h4 : ¬ (sigNbytes env bytes < 0 ∨
      ((bytes.drop (hdrSize env)).length : Int) < sigNbytes env bytes))
    (h5 : ∀ r ∈ sigRegions env bytes, r.size ≤ sigBlksize env bytes)
    (halloc : ∀ k < 3, env.allocOk (s.nalloc + k) = true) :
    readhashinfo env (some bytes) s =
      .ok ⟨true, if sigIs32 env bytes then hashVersion else sigVersion env bytes,
        field (memOf env bytes) 12 4, sigBlksize env bytes,
        (sigRegions env bytes).map fun r => { r with start := (r.start + s.poffset) % 2 ^ 64 }⟩
        { s with
          hashblksize := sigBlksize env bytes, nalloc := s.nalloc + if sigIs32 env bytes then 3 else 2 } := by
  have a0 := halloc 0 (by decide)
  have a1 := halloc 1 (by decide)
  have a2 := halloc 2 (by decide)
  simp only [Nat.add_zero] at a0
  rw [List.length_drop] at h4
  cases h32 : sigIs32 env bytes <;>
    simp only [readhashinfo, ne_eq, whenM, h32, Bool.false_eq_true, ↓reduceIte, bind_apply,
      getSt_apply, assertM_apply, hp, not_false_eq_true, failIf_apply, h1, h2, h3, and_self,
      not_true_eq_false, mallocM, a0, a1, a2, List.length_drop, h4, modifySt, if_pos h5, Nat.add_assoc,
      Nat.reduceAdd, pure_apply]

/-- `toInt32` keeps a count below `2^31`. -/
lemma toInt32_of_lt {x : Nat} (h : x < 2 ^ 31) : toInt32 x = x := by
  have hx : x % 2 ^ 32 = x := Nat.mod_eq_of_lt (by omega)
  rw [toInt32, hx, if_pos h]
  exact Int.emod_eq_of_lt (by omega) (by omega)

/-- The list of `f i` over the indices of `L` is `L` mapped, when `f i` is `g L[i]`. -/
lemma map_range_length {α β : Type} (L : List α) {f : Nat → β} {g : α → β}
    (h : ∀ i (hi : i < L.length), f i = g L[i]) : (List.range L.length).map f = L.map g := by
  refine List.ext_getElem (by simp) fun i h1 _ => ?_
  simp [h i (by simpa using h1)]

/-- A record as a read narrows it: 64-bit start, 32-bit size and chunk, the hash buffer. -/
def HashRegion.narrow (r : HashRegion) : HashRegion :=
  ⟨r.start % 2 ^ 64, r.size % 2 ^ 32, r.chunkno % 2 ^ 32, hashBuf r.hash⟩

/-- A `struct hashregion_32` as a read narrows and widens it. -/
def HashRegion.narrow32 (r : HashRegion) : HashRegion :=
  ⟨r.start % 2 ^ 32, r.size % 2 ^ 32, r.chunkno % 2 ^ 32,
    (hashBuf r.hash).take hash32Len ++ List.replicate (hashMaxsize - hash32Len) 0⟩


/-- The records a V2 (`is32`) or V3 file holds in `recs`, as `readhashinfo` reads them. -/
def readRecords (env : Env) (is32 : Bool) (recs : List UInt8) (n : Nat) : List HashRegion :=
  (List.range n).map fun i =>
    if is32 then region32At (memOf env recs) (i * region32Size)
    else regionAt (memOf env recs) (i * regionSize)

/-- A file of a V2 (`is32`) or V3 header and `n` whole records reads back as that header and
those records, each start shifted by `poffset`. -/
lemma readhashinfo_hdr {is32 : Bool} {t n b : Nat} {recs : List UInt8} {s : St}
    (hp : s.poffset ≠ 2 ^ 64 - 1)
    (hlen : recs.length = n * if is32 then region32Size else regionSize)
    (hfit : hdrSize env + recs.length < 2 ^ 31)
    (hsz : ∀ r ∈ readRecords env is32 recs n, r.size ≤ b % 2 ^ 32)
    (halloc : ∀ k < 3, env.allocOk (s.nalloc + k) = true) :
    readhashinfo env (some (encodeHdr env.hashinfoPad true
        (if is32 then hashVersion2 else hashVersion3) t n b ++ recs)) s =
      .ok ⟨true, hashVersion, t % 2 ^ 32, b % 2 ^ 32,
        (readRecords env is32 recs n).map fun r => { r with start := (r.start + s.poffset) % 2 ^ 64 }⟩
        { s with hashblksize := b % 2 ^ 32, nalloc := s.nalloc + if is32 then 3 else 2 } := by
  have hn : n % 2 ^ 32 = n := Nat.mod_eq_of_lt <| by
    have : n ≤ recs.length := by
      rw [hlen]; exact Nat.le_mul_of_pos_right n (by split_ifs <;> decide)
    simp only [hdrSize] at hfit; omega
  have hdrop : (encodeHdr env.hashinfoPad true (if is32 then hashVersion2 else hashVersion3) t n b
      ++ recs).drop (hdrSize env) = recs := List.drop_left' (length_encodeHdr ..)
  have hver : sigVersion env (encodeHdr env.hashinfoPad true
      (if is32 then hashVersion2 else hashVersion3) t n b ++ recs) =
      if is32 then hashVersion2 else hashVersion3 := by
    rw [sigVersion_hdr]; cases is32 <;> rfl
  have h32 : sigIs32 env (encodeHdr env.hashinfoPad true
      (if is32 then hashVersion2 else hashVersion3) t n b ++ recs) = is32 := by
    cases is32 <;> simp [sigIs32, hver, hashVersion2, hashVersion3]
  have hnb : sigNbytes env (encodeHdr env.hashinfoPad true
      (if is32 then hashVersion2 else hashVersion3) t n b ++ recs) = recs.length := by
    rw [sigNbytes, h32, sigNregions_hdr, hn, ← hlen]
    exact toInt32_of_lt (by simp only [hdrSize] at hfit; omega)
  have hblk : sigBlksize env (encodeHdr env.hashinfoPad true
      (if is32 then hashVersion2 else hashVersion3) t n b ++ recs) = b % 2 ^ 32 := by
    cases is32 <;> simp [sigBlksize, hver, hashVersion1, hashVersion2, hashVersion3]
  have hreg : sigRegions env (encodeHdr env.hashinfoPad true
      (if is32 then hashVersion2 else hashVersion3) t n b ++ recs) = readRecords env is32 recs n := by
    simp only [sigRegions, h32, hnb, hdrop, Int.toNat_ofNat, List.take_length, sigNregions_hdr, hn]
    rfl
  rw [readhashinfo_of_valid hp (by simp [hdrSize, length_encodeHdr]) (by simp)
    (by rw [hver]; cases is32 <;> decide) (by rw [hdrop, hnb]; omega) (by rw [hreg, hblk]; exact hsz)
    halloc, h32, hblk, hreg, hashtype_hdr, hver]
  cases is32 <;> rfl

/-- A whole V3 file reads back as the signature, narrowed. -/
lemma readhashinfo_encodeInfo {hi : HashInfo} {s : St} (hp : s.poffset ≠ 2 ^ 64 - 1)
    (hm : hi.hasMagic = true) (hv : hi.version = hashVersion)
    (hsz : ∀ r ∈ hi.regions, r.size % 2 ^ 32 ≤ hi.blksize % 2 ^ 32)
    (hfit : hdrSize env + hi.regions.length * regionSize < 2 ^ 31)
    (halloc : ∀ k < 3, env.allocOk (s.nalloc + k) = true) :
    readhashinfo env (some (encodeInfo env.hashinfoPad hi)) s =
      .ok ⟨true, hashVersion, hi.hashtype % 2 ^ 32, hi.blksize % 2 ^ 32,
        hi.regions.map fun r => { r.narrow with start := (r.start % 2 ^ 64 + s.poffset) % 2 ^ 64 }⟩
        { s with hashblksize := hi.blksize % 2 ^ 32, nalloc := s.nalloc + 2 } := by
  obtain ⟨m, v, t, b, L⟩ := hi
  simp only at hm hv hsz hfit
  subst hm hv
  have hk : ∀ x ∈ L.map encodeRegion, x.length = regionSize := by
    simp [encodeRegion, regionSize, hashMaxsize]
  have hrec : readRecords env false (L.map encodeRegion).flatten L.length = L.map HashRegion.narrow :=
    map_range_length L (g := HashRegion.narrow) fun i hi => regionAt_flatten env L hi
  have hlen := length_flatten_blocks hk
  rw [List.length_map] at hlen
  rw [encodeInfo, show hashVersion = if false then hashVersion2 else hashVersion3 from rfl,
    readhashinfo_hdr hp (by simpa using hlen) (by rwa [hlen])
      (by simpa [hrec, HashRegion.narrow] using hsz) halloc]
  simp [hrec, List.map_map, Function.comp_def, HashRegion.narrow, hashVersion]

/-- A whole V2 file reads back as the signature, narrowed to `struct hashregion_32`. -/
lemma readhashinfo_encodeInfo32 {blksize : Nat} {hi : HashInfo} {s : St}
    (hp : s.poffset ≠ 2 ^ 64 - 1) (hsz : ∀ r ∈ hi.regions, r.size % 2 ^ 32 ≤ blksize % 2 ^ 32)
    (hfit : hdrSize env + hi.regions.length * region32Size < 2 ^ 31)
    (halloc : ∀ k < 3, env.allocOk (s.nalloc + k) = true) :
    readhashinfo env (some (encodeInfo32 env.hashinfoPad blksize hi)) s =
      .ok ⟨true, hashVersion, hi.hashtype % 2 ^ 32, blksize % 2 ^ 32,
        hi.regions.map fun r =>
          { r.narrow32 with start := (r.start % 2 ^ 32 + s.poffset) % 2 ^ 64 }⟩
        { s with hashblksize := blksize % 2 ^ 32, nalloc := s.nalloc + 3 } := by
  have hk : ∀ x ∈ hi.regions.map encodeRegion32, x.length = region32Size := by
    simp [encodeRegion32, region32Size, hash32Len, hashMaxsize]
  have hrec : readRecords env true (hi.regions.map encodeRegion32).flatten hi.regions.length =
      hi.regions.map HashRegion.narrow32 :=
    map_range_length hi.regions (g := HashRegion.narrow32) fun i h => region32At_flatten env _ h
  have hlen := length_flatten_blocks hk
  rw [List.length_map] at hlen
  rw [encodeInfo32, show hashVersion2 = if true then hashVersion2 else hashVersion3 from rfl,
    readhashinfo_hdr hp (by simpa using hlen) (by rwa [hlen])
      (by simpa [hrec, HashRegion.narrow32] using hsz) halloc]
  simp [hrec, List.map_map, Function.comp_def, HashRegion.narrow32]

end Read


/-! ## What a write that returns leaves in the file -/

section Write

variable {env : Env}

lemma liveNhinfo_ok {s s' : St} {hi : HashInfo} (H : liveNhinfo s = .ok hi s') :
    s.nhinfo = .live hi ∧ s' = s := by
  unfold liveNhinfo at H
  split at H <;> cases H
  exact ⟨by assumption, rfl⟩

/-- The buffer and count the conversion hands on: the V3 struct, or the V2 one when the
conversion goes through. -/
lemma convertHashinfo_ok {ivers : Nat} {hi : HashInfo} {s s' : St} {mem : List UInt8}
    {count : Int} (H : convertHashinfo env ivers hi s = .ok (mem, count) s') :
    (mem, count) = (encodeInfo env.hashinfoPad hi, writeCount env hi.regions.length regionSize) ∨
      ivers < compressedV5 ∧ hi.hashtype ≠ hashTypeSha256 ∧ (∀ r ∈ hi.regions, r.start ≤ 2 ^ 32 - 1) ∧
        (mem, count) = (encodeInfo32 env.hashinfoPad s.hashblksize hi,
          writeCount env hi.regions.length region32Size) := by
  unfold convertHashinfo at H
  by_cases hc : ivers < compressedV5 ∧ hi.hashtype ≠ hashTypeSha256
  swap
  · rw [if_neg hc] at H
    exact .inl (Res.ok.inj H).1.symm
  rw [if_pos hc] at H
  cases ha : env.allocOk s.nalloc
  · simp only [catchErr, mallocM, ha, Bool.false_eq_true, if_false, pure_apply, Res.ok.injEq] at H
    exact .inl H.1.symm
  by_cases hs : ∀ r ∈ hi.regions, r.start ≤ 2 ^ 32 - 1
  · simp only [catchErr, mallocM, ha, if_true, if_pos hs, bind_apply, getSt_apply, modifySt,
      pure_apply, Res.ok.injEq] at H
    exact .inr ⟨hc.1, hc.2, hs, H.1.symm⟩
  · simp only [catchErr, mallocM, ha, if_true, if_neg hs, pure_apply, Res.ok.injEq] at H
    exact .inl H.1.symm

/-- A write that returns: `nhinfo` was live and passed the `assert`s, and the file holds the
first `count` bytes of the V3 or the V2 struct, `count` not negative. -/
lemma hashmapWriteHashfile_ok {ivers : Nat} {s s' : St} {file : List UInt8}
    (H : hashmapWriteHashfile env ivers s = .ok file s') :
    s.poffset ≠ 2 ^ 64 - 1 ∧ ∃ hi, s.nhinfo = .live hi ∧
      (∀ r ∈ hi.regions, r.size ≤ hi.blksize ∧ s.poffset ≤ r.start) ∧
      ∃ mem count, 0 ≤ count ∧ file = mem.take count.toNat ∧
        ((mem, count) = (encodeInfo env.hashinfoPad (hi.relative s.poffset),
            writeCount env hi.regions.length regionSize) ∨
          ivers < compressedV5 ∧ hi.hashtype ≠ hashTypeSha256 ∧
            (∀ r ∈ hi.regions, r.start - s.poffset ≤ 2 ^ 32 - 1) ∧
            (mem, count) = (encodeInfo32 env.hashinfoPad s.hashblksize (hi.relative s.poffset),
              writeCount env hi.regions.length region32Size)) := by
  simp only [hashmapWriteHashfile, bind_eq_ok, getSt_apply, Res.ok.injEq, assertM_ok, modifySt,
    failIf_apply] at H
  obtain ⟨a, s₀, ⟨e₀, e₁⟩, H⟩ := H
  subst a s₀
  obtain ⟨_, s₁, ⟨hp, e₂⟩, hi, s₄, hl, H⟩ := H
  subst s₁
  obtain ⟨hnh, e₃⟩ := liveNhinfo_ok hl
  subst s₄
  obtain ⟨_, s₅, ⟨hregs, e₄⟩, _, _, ⟨-, rfl⟩, _, s₂, hm, _, s₃, ho, ⟨mem, count⟩, _, hconv, _, _, hf,
    hret⟩ := H
  subst s₅
  obtain ⟨-, rfl⟩ := mallocM_ok hm
  have hblk : s₃.hashblksize = s.hashblksize := by
    rw [whenM_ok] at ho
    split_ifs at ho
    · obtain ⟨_, _, h1, h2⟩ := bind_eq_ok.mp ho
      obtain ⟨-, rfl⟩ := mallocM_ok h1
      rw [failIf_apply] at h2
      split_ifs at h2
      cases h2
      rfl
    · subst ho
      rfl
  split_ifs at hf with hc
  cases hf
  refine ⟨hp, hi, hnh, hregs, mem, count, by omega, (Res.ok.inj hret).1.symm, ?_⟩
  rcases convertHashinfo_ok hconv with h | ⟨h1, h2, h3, h4⟩
  · exact .inl (by simpa [HashInfo.relative] using h)
  · refine .inr ⟨h1, h2, fun r hr => ?_, by simpa [HashInfo.relative, hblk] using h4⟩
    simpa [HashInfo.relative] using h3 _ (List.mem_map_of_mem _ hr)

end Write

/-! ## The round trip -/

/-- What a round trip keeps of a region: its sectors, its chunk, and the first `hashlen` bytes of
its hash. -/
def HashRegion.key (hashlen : Nat) (r : HashRegion) : Nat × Nat × Nat × List UInt8 :=
  (r.start, r.size, r.chunkno, (hashBuf r.hash).take hashlen)

section RoundTrip

variable {env : Env}

lemma length_encodeInfo (pad : Nat) (hi : HashInfo) :
    (encodeInfo pad hi).length = 24 + pad + hi.regions.length * regionSize := by
  rw [encodeInfo, List.length_append, length_encodeHdr,
    length_flatten_blocks (k := regionSize) (by simp [encodeRegion, regionSize, hashMaxsize]),
    List.length_map]

lemma length_encodeInfo32 (pad blksize : Nat) (hi : HashInfo) :
    (encodeInfo32 pad blksize hi).length = 24 + pad + hi.regions.length * region32Size := by
  rw [encodeInfo32, List.length_append, length_encodeHdr,
    length_flatten_blocks (k := region32Size)
      (by simp [encodeRegion32, region32Size, hash32Len, hashMaxsize]),
    List.length_map]

/-- A start made relative and shifted back by a read is the start again. -/
lemma start_shift_back {p a w : Nat} (h1 : p ≤ a) (h2 : a < 2 ^ 64) (hw : a - p < 2 ^ w) :
    ((a - p) % 2 ^ w + p) % 2 ^ 64 = a := by
  rw [Nat.mod_eq_of_lt hw, Nat.sub_add_cancel h1, Nat.mod_eq_of_lt h2]

/-- The hash bytes of a `struct hashregion_32`, zero-extended, start as the hash did. -/
lemma take_hash32 (h : List UInt8) {l : Nat} (hl : l ≤ hash32Len) :
    (hashBuf ((hashBuf h).take hash32Len ++ List.replicate (hashMaxsize - hash32Len) 0)).take l =
      (hashBuf h).take l := by
  rw [hashBuf_eq_self (by simp [hash32Len, hashMaxsize]), List.take_append_of_le_length
    (by simpa [hash32Len, hashMaxsize] using hl), List.take_take, Nat.min_eq_left hl]

/-- Without SHA256 a hash fits in a `struct hashregion_32`. -/
lemma hashlen_le_hash32Len {t : Nat} (ht : t ≠ hashTypeSha256) :
    (hashFuncOf t).1 ≤ hash32Len := by
  unfold hashFuncOf
  split_ifs <;> trivial

/-- **Round trip of the signature file**: `readhashinfo` reads back what
`hashmap_write_hashfile` wrote, in the V3 and in the V2 layout. -/
theorem sigfile_round_trip {ivers : Nat} {s s' t : St} {hi : HashInfo} {file : List UInt8}
    (hnh : s.nhinfo = .live hi) (hm : hi.hasMagic = true) (hv : hi.version = hashVersion)
    (hblk : hi.blksize = s.hashblksize) (hb : hi.blksize < 2 ^ 32) (ht : hi.hashtype < 2 ^ 32)
    (hregs : ∀ r ∈ hi.regions, r.start < 2 ^ 64 ∧ r.chunkno < 2 ^ 32)
    (hfit : hdrSize env + hi.regions.length * regionSize < 2 ^ 31)
    (H : hashmapWriteHashfile env ivers s = .ok file s')
    (hpoff : t.poffset = s.poffset) (halloc : ∀ k < 3, env.allocOk (t.nalloc + k) = true) :
    ∃ hinfo t', readhashinfo env (some file) t = .ok hinfo t' ∧
      hinfo.hashtype = hi.hashtype ∧ hinfo.blksize = hi.blksize ∧
      hinfo.regions.length = hi.regions.length ∧
      hinfo.regions.map (HashRegion.key (hashFuncOf hi.hashtype).1) =
        hi.regions.map (HashRegion.key (hashFuncOf hi.hashtype).1) := by
  obtain ⟨hp, hi', hnh', hasserts, mem, count, -, rfl, hw⟩ := hashmapWriteHashfile_ok H
  obtain rfl : hi = hi' := Ptr.live.inj (hnh.symm.trans hnh')
  have hsz : ∀ r ∈ (hi.relative s.poffset).regions, r.size % 2 ^ 32 ≤ hi.blksize % 2 ^ 32 := by
    simp only [HashInfo.relative, List.mem_map]
    rintro _ ⟨r, hr, rfl⟩
    have := (hasserts r hr).1
    show r.size % 2 ^ 32 ≤ _
    rw [Nat.mod_eq_of_lt hb, Nat.mod_eq_of_lt (by omega)]
    exact this
  rcases hw with hw | ⟨-, hsha, hstart, hw⟩
  · obtain ⟨rfl, rfl⟩ := Prod.mk.inj hw
    rw [writeCount, toInt32_of_lt hfit, Int.toNat_ofNat, List.take_of_length_le
      (by simp [length_encodeInfo, HashInfo.relative, hdrSize]), readhashinfo_encodeInfo (hpoff ▸ hp)
        (show (hi.relative s.poffset).hasMagic = true from hm)
        (show (hi.relative s.poffset).version = hashVersion from hv) hsz
        (by simpa [HashInfo.relative] using hfit) halloc]
    refine ⟨_, _, rfl, Nat.mod_eq_of_lt ht, Nat.mod_eq_of_lt hb, by simp [HashInfo.relative], ?_⟩
    simp only [HashInfo.relative, List.map_map]
    refine List.map_congr_left fun r hr => ?_
    have hr' := hregs r hr
    simp only [hpoff, Nat.mod_add_mod, HashRegion.narrow, Function.comp_apply, HashRegion.key,
      Nat.sub_add_cancel (hasserts r hr).2, Nat.mod_eq_of_lt hr'.1, Nat.mod_eq_of_lt hr'.2,
      Nat.mod_eq_of_lt (show r.size < 2 ^ 32 by have := (hasserts r hr).1; omega),
      hashBuf_eq_self (length_hashBuf _)]
  · obtain ⟨rfl, rfl⟩ := Prod.mk.inj hw
    have hfit32 : hdrSize env + hi.regions.length * region32Size < 2 ^ 31 := by
      simp only [regionSize, region32Size] at hfit ⊢; omega
    rw [writeCount, toInt32_of_lt hfit32, Int.toNat_ofNat, List.take_of_length_le
      (by simp [length_encodeInfo32, HashInfo.relative, hdrSize]), readhashinfo_encodeInfo32 (hpoff ▸ hp) (by rwa [← hblk])
        (by simpa [HashInfo.relative] using hfit32) halloc]
    refine ⟨_, _, rfl, Nat.mod_eq_of_lt ht, by rw [← hblk, Nat.mod_eq_of_lt hb],
      by simp [HashInfo.relative], ?_⟩
    simp only [HashInfo.relative, List.map_map]
    refine List.map_congr_left fun r hr => ?_
    have hr' := hregs r hr
    simp only [hpoff, HashRegion.narrow32, Function.comp_apply, HashRegion.key,
      start_shift_back (hasserts r hr).2 hr'.1 (show r.start - s.poffset < 2 ^ 32 by
        have := hstart r hr; omega),
      Nat.mod_eq_of_lt (show r.size < 2 ^ 32 by have := (hasserts r hr).1; omega),
      Nat.mod_eq_of_lt hr'.2, take_hash32 _ (hashlen_le_hash32Len hsha)]

/-- The round trip for a one-region SHA1 signature written in the V2 layout. -/
theorem sigfile_round_trip_v2 :
    ∃ file s', hashmapWriteHashfile Env.plain 0
        { St.init with
          hashblksize := 128, poffset := 0
          nhinfo := .live ⟨true, hashVersion, hashTypeSha1, 128, [⟨5, 1, 0, hashBuf [0]⟩]⟩ } =
        .ok file s' ∧
      ∃ hinfo t', readhashinfo Env.plain (some file) { St.init with poffset := 0 } = .ok hinfo t' ∧
        hinfo.hashtype = hashTypeSha1 ∧ hinfo.blksize = 128 ∧ hinfo.regions.length = 1 ∧
        hinfo.regions.map (HashRegion.key 20) = [(5, 1, 0, (hashBuf [0]).take 20)] :=
  have hw : hashmapWriteHashfile Env.plain 0
      { St.init with
        hashblksize := 128, poffset := 0
        nhinfo := .live ⟨true, hashVersion, hashTypeSha1, 128, [⟨5, 1, 0, hashBuf [0]⟩]⟩ } =
      .ok ((encodeInfo32 8 128 ⟨true, hashVersion, hashTypeSha1, 128, [⟨5, 1, 0, hashBuf [0]⟩]⟩))
        { St.init with
          hashblksize := 128, poffset := 0, nalloc := 2
          nhinfo := .live ((HashInfo.toV2 128 ⟨true, hashVersion, hashTypeSha1, 128,
            [⟨5, 1, 0, hashBuf [0]⟩]⟩)) } := rfl
  ⟨_, _, hw, sigfile_round_trip rfl rfl rfl rfl (by decide) (by decide) (by decide) (by decide) hw
    (by rfl) fun _ _ => rfl⟩

end RoundTrip


/-! ## A `count` that wraps -/

section Wrap

/-- A write that keeps the V3 layout, from a live `nhinfo` that passes the `assert`s, with the
allocation and the `open` succeeding. -/
lemma hashmapWriteHashfile_v3 (env : Env) (ivers : Nat) {s : St} {hi : HashInfo}
    (hp : s.poffset ≠ 2 ^ 64 - 1) (hnh : s.nhinfo = .live hi)
    (hregs : ∀ r ∈ hi.regions, r.size ≤ hi.blksize ∧ s.poffset ≤ r.start)
    (ha : env.allocOk s.nalloc = true) (ho : env.openOk 0 = true)
    (hv3 : ¬ (ivers < compressedV5 ∧ hi.hashtype ≠ hashTypeSha256))
    (hc : 0 ≤ writeCount env hi.regions.length regionSize) :
    hashmapWriteHashfile env ivers s =
      .ok ((encodeInfo env.hashinfoPad (hi.relative s.poffset)).take
          (writeCount env hi.regions.length regionSize).toNat)
        { s with nhinfo := .live (hi.relative s.poffset), nalloc := s.nalloc + 1 } := by
  simp only [hashmapWriteHashfile, ne_eq, HashInfo.relative, whenM, ho, Bool.true_eq_false,
    ↓reduceIte, convertHashinfo, List.length_map, bind_apply, getSt_apply, assertM_apply, hp,
    not_false_eq_true, liveNhinfo, hnh, hv3, if_pos hregs, modifySt, mallocM, ha, failIf_apply,
    if_neg (Int.not_lt.mpr hc), pure_apply]

/-- Bytes past the end of what was read hold heap contents. -/
lemma slice_memOf_past {env : Env} {bytes : List UInt8} {off n : Nat} (h : bytes.length ≤ off) :
    slice (memOf env bytes) off n = slice env.junk off n :=
  List.map_congr_left fun i _ => by
    simp [memOf, List.getElem?_eq_none (show bytes.length ≤ off + i by omega)]

/-- A record past the end of what was read is made of heap contents. -/
lemma regionAt_past {env : Env} {bytes : List UInt8} {off : Nat} (h : bytes.length ≤ off) :
    regionAt (memOf env bytes) off = regionAt env.junk off := by
  simp only [regionAt, field, slice_memOf_past h, slice_memOf_past (by omega : bytes.length ≤ off + 8),
    slice_memOf_past (by omega : bytes.length ≤ off + 12),
    slice_memOf_past (by omega : bytes.length ≤ off + 16)]

/-- The first `24 + pad + k` bytes of a V3 struct: its header and the first `k` bytes of its
first record. -/
lemma take_encodeInfo {pad k : Nat} {hi : HashInfo} {r : HashRegion}
    (hr : hi.regions.head? = some r) (hk : k ≤ regionSize) :
    (encodeInfo pad hi).take (24 + pad + k) =
      encodeHdr pad hi.hasMagic hi.version hi.hashtype hi.regions.length hi.blksize ++
        (encodeRegion r).take k := by
  obtain ⟨rs, hrs⟩ : ∃ rs, hi.regions = r :: rs := by
    cases h : hi.regions with
    | nil => simp [h] at hr
    | cons r' rs => simp only [h, List.head?_cons, Option.some.injEq] at hr; exact ⟨rs, hr ▸ rfl⟩
  rw [encodeInfo, hrs, List.map_cons, List.flatten_cons, List.take_append_eq_append_take,
    List.take_of_length_le (by rw [length_encodeHdr]; omega), length_encodeHdr,
    show 24 + pad + k - (24 + pad) = k by omega,
    List.take_append_of_le_length (by simpa [encodeRegion, hashMaxsize, regionSize] using hk)]

/-- The heap of `Env.plain` is zero. -/
lemma regionAt_plain_junk (off : Nat) :
    regionAt Env.plain.junk off = ⟨0, 0, 0, List.replicate hashMaxsize 0⟩ := by
  simp [regionAt, field, slice, Env.plain]
  decide

/-- A signature of 53687092 one-sector regions, every other sector from 0, with the header
`hashmap_compute_delta` gives a new signature: SHA256 and 128-sector hash blocks. -/
def wideSig : HashInfo :=
  ⟨true, hashVersion, hashTypeSha256, 128,
    (List.range' 0 53687092).map fun i => ⟨2 * i, 1, 0, hashBuf [0]⟩⟩

/-- **`count` wraps**: `count = 32 + 53687092 * 80` is 96 as an `int`, and `readhashinfo` reads
53687092 regions out of the 96 bytes written. -/
theorem sigfile_count_wraps :
    ∃ file s' hinfo t', hashmapWriteHashfile Env.plain compressedV5
        { St.init with hashblksize := 128, poffset := 0, nhinfo := .live wideSig } = .ok file s' ∧
      file.length = 96 ∧
      readhashinfo Env.plain (some file) { St.init with poffset := 0 } = .ok hinfo t' ∧
      hinfo.regions.length = wideSig.regions.length ∧
      hinfo.regions[1]?.map HashRegion.start = some 0 ∧
      wideSig.regions[1]?.map HashRegion.start = some 2 := by
  have hlen : wideSig.regions.length = 53687092 := by
    simp only [wideSig, List.length_map, List.length_range']
  have hregs : ∀ r ∈ wideSig.regions, r.size ≤ wideSig.blksize ∧ 0 ≤ r.start := by
    simp only [wideSig, List.mem_map]
    rintro _ ⟨i, -, rfl⟩
    exact ⟨by show 1 ≤ 128; decide, Nat.zero_le _⟩
  have hcount : writeCount Env.plain wideSig.regions.length regionSize = 96 := by
    rw [hlen]; rfl
  -- the 96 bytes written: the header and 64 bytes of the first record
  have hfile : (encodeInfo Env.plain.hashinfoPad (wideSig.relative 0)).take (96 : Int).toNat =
      encodeHdr 8 true hashVersion hashTypeSha256 53687092 128 ++
        (encodeRegion ⟨0, 1, 0, hashBuf [0]⟩).take 64 := by
    have hhead : (wideSig.relative 0).regions.head? = some ⟨0, 1, 0, hashBuf [0]⟩ := by
      simp only [HashInfo.relative, wideSig, List.head?_map, List.head?_range']
      rfl
    have hlen' : (wideSig.relative 0).regions.length = 53687092 := by
      simp only [HashInfo.relative, wideSig, List.length_map, List.length_range']
    rw [show (96 : Int).toNat = 24 + Env.plain.hashinfoPad + 64 from rfl,
      take_encodeInfo hhead (by decide), hlen']
    rfl
  have hw := hashmapWriteHashfile_v3 Env.plain compressedV5
    (s := { St.init with hashblksize := 128, poffset := 0, nhinfo := .live wideSig })
    (by decide) rfl hregs rfl rfl (by decide) (by rw [hcount]; decide)
  rw [hcount] at hw
  dsimp only at hw
  rw [hfile] at hw
  -- what `readhashinfo` makes of those 96 bytes
  set F := encodeHdr 8 true hashVersion hashTypeSha256 53687092 128 ++
    (encodeRegion ⟨0, 1, 0, hashBuf [0]⟩).take 64 with hF
  have hF32 : sigIs32 Env.plain F = false := by decide
  have hnreg : sigNregions Env.plain F = 53687092 := by decide
  have hnb : (sigNbytes Env.plain F).toNat = 64 := by decide
  have hrecs : (F.drop (hdrSize Env.plain)).take 64 = (encodeRegion ⟨0, 1, 0, hashBuf [0]⟩).take 64 := by
    decide
  -- the records past the first 64 bytes are heap contents
  have hregs' : sigRegions Env.plain F = (List.range 53687092).map fun i =>
      regionAt (memOf Env.plain ((encodeRegion ⟨0, 1, 0, hashBuf [0]⟩).take 64)) (i * regionSize) := by
    simp only [sigRegions, hnreg, hF32, hnb, hrecs, Bool.false_eq_true, if_false]
  have hpast : ∀ i, regionAt (memOf Env.plain ((encodeRegion ⟨0, 1, 0, hashBuf [0]⟩).take 64))
      ((i + 1) * regionSize) = ⟨0, 0, 0, List.replicate hashMaxsize 0⟩ := fun i => by
    rw [regionAt_past (by simp [encodeRegion, regionSize, hashMaxsize]; omega), regionAt_plain_junk]
  have hsizes : ∀ r ∈ sigRegions Env.plain F, r.size ≤ sigBlksize Env.plain F := by
    rw [hregs', show sigBlksize Env.plain F = 128 by decide]
    simp only [List.mem_map]
    rintro _ ⟨i, -, rfl⟩
    cases i with
    | zero => decide
    | succ i => rw [hpast]; decide
  have hread := readhashinfo_of_valid (s := { St.init with poffset := 0 }) (by decide) (by decide)
    (by decide) (by decide) (by decide) hsizes fun _ _ => rfl
  refine ⟨_, _, _, _, hw, by decide, hread, ?_, ?_, ?_⟩
  · rw [List.length_map, hregs', List.length_map, List.length_range, hlen]
  · have h1 := hpast 0
    rw [Nat.zero_add] at h1
    rw [List.getElem?_map, hregs', List.getElem?_map, List.getElem?_range (by decide),
      Option.map_some', Option.map_some', Option.map_some', h1]
    rfl
  · simp only [wideSig, List.getElem?_map, List.getElem?_range' 0 1 (by decide : 1 < 53687092)]
    rfl

end Wrap

end Imagezip.Hashmap
