import Imagezip.ImageDump

/-!
# The statistics of `imagedump`

Once a chunk passes its checks, `dumpchunk` walks its regions and relocations and adds to the
file's statistics, globals that `dumpfile` clears before chunk 0 and prints at `done:`.  Per
region it counts the free sectors before it (from `firstsect` for the first region of a V2 or
later chunk, else from the end of the previous region, `nextsector`), and for the last region
the free sectors up to `lastsect`; then the region's own sectors, its size bucket and the least
and greatest sizes.  The counts are `uint32_t` and wrap; the sector numbers are `uint64_t`.

`dumpchunk` reads the regions from `chunkbuf`, which `read` refills with the chunk's first
`DEFAULTREGIONSIZE` bytes (the whole chunk under `-c`) and leaves as it was beyond them.  The
loops read past the static 1 MiB `chunkbuf` when a chunk's tables run past it.

* `dumpfileStats_fst`: the number of errors is the one `dumpfile` returns;
* `dumpfile_eq_zero_iff`: on a file whose tables lie in `chunkbuf`, without `-q`, `dumpfile`
  returns 0 exactly when the first read and chunk 0's magic pass and every chunk is read whole
  and passes `dumpchunk`;
* `dumpfile_histogram`: on every run the size buckets sum to the number of regions counted.

What the sector counts and `wasted` add up to is in `Imagezip.DumpAccounting`.
-/

namespace Imagezip.Dump

/-- The globals `dumpchunk` adds to, with the C types' widths: `wasted` and `relocbytes` are
`unsigned long long`, `nextsector`, `losect` and `hisect` are `uint64_t`, `regmin` and `regmax`
`int`, the others `uint32_t`.  `nextcovered` is only printed and is left out. -/
structure Stats where
  wasted : Nat
  sectinuse : Nat
  sectfree : Nat
  relocs : Nat
  relocbytes : Nat
  nextsector : Nat
  fmax : Nat
  fmin : Nat
  franges : Nat
  amax : Nat
  amin : Nat
  aranges : Nat
  adist : List Nat
  regmax : Int
  regmin : Int
  losect : Nat
  hisect : Nat
deriving Repr, DecidableEq

/-- The globals as `dumpfile` sets them before chunk 0. -/
def Stats.init : Stats where
  wasted := 0
  sectinuse := 0
  sectfree := 0
  relocs := 0
  relocbytes := 0
  nextsector := 0
  fmax := 0
  fmin := 2 ^ 32 - 1
  franges := 0
  amax := 0
  amin := 2 ^ 32 - 1
  aranges := 0
  adist := List.replicate 8 0
  regmax := 0
  regmin := 0
  losect := 2 ^ 64 - 1
  hisect := 0

/-- `a - b` in `uint64_t`. -/
def sub64 (a b : Nat) : Nat := (a + 2 ^ 64 - b) % 2 ^ 64

/-- The `adist` slot of a region of `count` sectors: `< 8`, `< 16`, ..., `< 512`, or more. -/
def bucket (count : Nat) : Nat :=
  if count < 8 then 0 else if count < 16 then 1 else if count < 32 then 2
  else if count < 64 then 3 else if count < 128 then 4 else if count < 256 then 5
  else if count < 512 then 6 else 7

/-- `if (count > 0) { sectfree += count; ... franges++; }`: a free range. -/
def Stats.addFree (st : Stats) (count : Nat) : Stats :=
  if 0 < count then
    { st with
      sectfree := (st.sectfree + count) % 2 ^ 32, fmin := min st.fmin count
      fmax := max st.fmax count, franges := (st.franges + 1) % 2 ^ 32 }
  else st

/-- `sectinuse += count; ...; adist[...]++; aranges++;`: an allocated range. -/
def Stats.addUse (st : Stats) (count : Nat) : Stats :=
  { st with
    sectinuse := (st.sectinuse + count) % 2 ^ 32, amin := min st.amin count
    amax := max st.amax count, adist := st.adist.modify (fun c => (c + 1) % 2 ^ 32) (bucket count)
    aranges := (st.aranges + 1) % 2 ^ 32 }

/-- Iteration `i` of the region loop of `dumpchunk` over region `reg` of `n`: the free count
before it (from `first` for region 0 of a V2 or later chunk, the rest of the last one up to
`last`), `losect` and `hisect`, the region's own sectors, and `nextsector`. -/
def regionStep (magic first last n i : Nat) (reg : Nat × Nat) (st : Stats) : Stats :=
  let rstart := reg.1
  let rsize := reg.2
  let rend := (rstart + rsize) % 2 ^ 64
  let count := if magic > compressedV1 ∧ i = 0 then (if first > rstart then 0 else (rstart - first) % 2 ^ 32)
    else sub64 rstart st.nextsector % 2 ^ 32
  let tail := magic > compressedV1 ∧ i = n - 1 ∧ ¬ last < rend
  let st := if tail then st.addFree count else st
  let count := if tail then (last - rend) % 2 ^ 32 else count
  let st := if magic > compressedV1 then
      { st with losect := min st.losect first, hisect := max st.hisect (sub64 last 1) }
    else { st with losect := min st.losect rstart, hisect := max st.hisect (sub64 rend 1) }
  { (st.addFree count).addUse (rsize % 2 ^ 32) with nextsector := rend }

/-- `REG_START` and `REG_SIZE` of region `i` of the array at `off`: a `struct region_32` or a
`struct region_64`. -/
def regionOf (buf : Nat → UInt8) (is32 : Bool) (off i : Nat) : Nat × Nat :=
  if is32 then (word buf (off + 8 * i) 4, word buf (off + 8 * i + 4) 4)
  else (word buf (off + 16 * i) 8, word buf (off + 16 * i + 8) 8)

/-- `sizeof(region_t)` as `REG_NEXT` steps it. -/
def regSize (is32 : Bool) : Nat := if is32 then 8 else 16

/-- What the `switch (hdr->magic)` of `dumpchunk` sets for a chunk: `is32`, the offset of the
regions and `first` and `last`. -/
structure Layout where
  is32 : Bool
  off : Nat
  first : Nat
  last : Nat
deriving Repr, DecidableEq

/-- The `switch (hdr->magic)` of `dumpchunk` in the LP64 layout: the regions follow the header,
and only V5 sets `is32` to 0. -/
def chunkLayout (buf : Nat → UInt8) (magic : Nat) : Layout :=
  if magic = compressedV1 then ⟨true, 24, 0, 0⟩
  else if magic = compressedV2 ∨ magic = compressedV3 then ⟨true, 36, word buf 24 4, word buf 28 4⟩
  else if magic = compressedV5 then ⟨false, 72, word buf 40 8, word buf 48 8⟩
  else ⟨true, 368, word buf 40 8, word buf 48 8⟩

/-- `hdr->regioncount`, an `int32_t`. -/
def regioncount (buf : Nat → UInt8) : Int := toInt32 (word buf 20 4)

/-- `hdr->reloccount`, an `int32_t`. -/
def reloccount (buf : Nat → UInt8) : Int := toInt32 (word buf 32 4)

/-- The layout `dumpchunk` uses for the chunk in `buf`. -/
def layoutOf (buf : Nat → UInt8) : Layout := chunkLayout buf (readHdr buf).magic

/-- The number of times the region loop runs: `hdr->regioncount`, none if negative. -/
def nregions (buf : Nat → UInt8) : Nat := (regioncount buf).toNat

/-- Region `i` as the region loop reads it. -/
def region (buf : Nat → UInt8) (i : Nat) : Nat × Nat :=
  regionOf buf (layoutOf buf).is32 (layoutOf buf).off i

/-- The first `k` iterations of the region loop of `dumpchunk`. -/
def regionLoop (buf : Nat → UInt8) (k : Nat) (st : Stats) : Stats :=
  (List.range k).foldl (fun st i => regionStep (readHdr buf).magic
    (layoutOf buf).first (layoutOf buf).last (nregions buf) i (region buf i) st) st

/-- The region loop `for (i = 0; i < hdr->regioncount; i++)` of `dumpchunk`. -/
def regionWalk (buf : Nat → UInt8) (st : Stats) : Stats := regionLoop buf (nregions buf) st

lemma regionLoop_succ (buf : Nat → UInt8) (k : Nat) (st : Stats) : regionLoop buf (k + 1) st =
    regionStep (readHdr buf).magic (layoutOf buf).first (layoutOf buf).last (nregions buf) k
      (region buf k) (regionLoop buf k st) := by
  simp only [regionLoop, List.range_succ, List.foldl_append, List.foldl_cons, List.foldl_nil]

/-- Relocation `i` of the array at `base`, as `RELOC_ADDR(is32, base, i)` reads it. -/
def relocOf (buf : Nat → UInt8) (is32 : Bool) (base i : Nat) : Reloc :=
  decodeReloc is32 ((List.range (relocSize is32)).map fun j => buf (base + i * relocSize is32 + j))

/-- The relocation loop of `dumpchunk`, over the array after the regions: `relocs++` and
`relocbytes += r.size` per relocation. -/
def relocWalk (buf : Nat → UInt8) (st : Stats) : Stats :=
  let base := (layoutOf buf).off + nregions buf * regSize (layoutOf buf).is32
  (List.range (reloccount buf).toNat).foldl (fun st i =>
    { st with
      relocs := (st.relocs + 1) % 2 ^ 32
      relocbytes := (st.relocbytes + (relocOf buf (layoutOf buf).is32 base i).size) % 2 ^ 64 }) st

/-- What a chunk that passes its checks adds to the statistics: `wasted += CHUNKSIZE -
hdr->size` (an `unsigned` difference), `regmin` and `regmax`, the regions, and for V2 and later
the relocations. -/
def chunkStats (buf : Nat → UInt8) (st : Stats) : Stats :=
  let hdr := readHdr buf
  let rc := regioncount buf
  let st := { st with
    wasted := (st.wasted + (chunkSize + 2 ^ 32 - hdr.size) % 2 ^ 32) % 2 ^ 64
    regmin := if st.regmin = 0 ∨ rc < st.regmin then rc else st.regmin
    regmax := if st.regmax = 0 ∨ rc > st.regmax then rc else st.regmax }
  let st := regionWalk buf st
  if hdr.magic = compressedV1 then st else relocWalk buf st

/-- `chunkbuf` after `read` puts `count` bytes of chunk `k` at its start. -/
def fillBuf (f : ImageFile) (k count : Nat) (buf : Nat → UInt8) (i : Nat) : UInt8 :=
  if i < count then f.byte (k * chunkSize + i) else buf i

/-- The bytes of chunk `k` of `f`, from the chunk's offset. -/
def chunkBytes (f : ImageFile) (k i : Nat) : UInt8 := f.byte (k * chunkSize + i)

/-- `dumpfile`'s chunk loop from chunk `k > 0` with `chunkbuf` and the statistics: the number of
errors and the statistics at the end. -/
def statsLoop (f : ImageFile) (ctx : DumpCtx) (buf : Nat → UInt8) (k : Nat) (st : Stats) :
    Nat × Stats :=
  if f.size ≤ k * chunkSize then (0, st)
  else if f.size < k * chunkSize + readCount ctx.checksums then (1, st)
  else if dumpchunk ctx (readHdr (fillBuf f k (readCount ctx.checksums) buf)) k ≠ 0 then (1, st)
  else statsLoop f ctx (fillBuf f k (readCount ctx.checksums) buf) (k + 1)
    (chunkStats (fillBuf f k (readCount ctx.checksums) buf) st)
termination_by f.size - k * chunkSize
decreasing_by
  have : 0 < chunkSize := by decide
  rw [Nat.succ_mul]
  omega

/-- `dumpfile(name, fd)` with the statistics, from `chunkbuf` as an earlier file left it: the
number of errors and the statistics it prints. -/
def dumpfileStats (opts : Opts) (prevId : List UInt8) (buf : Nat → UInt8) (f : ImageFile) :
    Nat × Stats :=
  let count := readCount opts.checksums
  let buf := fillBuf f 0 count buf
  let ctx := chunk0Ctx opts prevId f.size (readHdr buf)
  if f.size = 0 then (0, Stats.init)
  else if f.size < count then (1, Stats.init)
  else if (readHdr buf).magic < compressedMagicBase ∨
      (readHdr buf).magic > compressedMagicCurrent then (1, Stats.init)
  else if opts.quickcheck then (0, Stats.init)
  else if dumpchunk ctx (readHdr buf) 0 ≠ 0 then (1, Stats.init)
  else statsLoop f ctx buf 1 (chunkStats buf Stats.init)

/-! ## The number of errors -/

lemma word_agree {g g' : Nat → UInt8} {m : Nat} (h : ∀ i < m, g i = g' i) (off n : Nat)
    (hn : off + n ≤ m) : word g off n = word g' off n := by
  unfold word
  rw [List.map_congr_left fun i hi => h _ (by have := List.mem_range.1 hi; omega)]

lemma word_lt (g : Nat → UInt8) (off n : Nat) : word g off n < 2 ^ (8 * n) :=
  calc word g off n < 256 ^ ((List.range n).map fun i => g (off + i)).length := leNat_lt _
    _ = 2 ^ (8 * n) := by rw [List.length_map, List.length_range, Nat.pow_mul]

/-- The header fields `dumpchunk` checks lie in the first 76 bytes. -/
lemma readHdr_congr {g g' : Nat → UInt8} (h : ∀ i < 76, g i = g' i) : readHdr g = readHdr g' := by
  unfold readHdr
  rw [word_agree h 0 4 (by norm_num), word_agree h 4 4 (by norm_num), word_agree h 8 4 (by norm_num),
    word_agree h 12 4 (by norm_num), word_agree h 16 4 (by norm_num), word_agree h 72 2 (by norm_num),
    word_agree h 74 2 (by norm_num),
    List.map_congr_left fun i hi => h (56 + i) (by simp [uuidLength] at hi; omega)]

/-- After `read`, `chunkbuf` holds the header of chunk `k`. -/
lemma readHdr_fillBuf {f : ImageFile} {k count : Nat} (buf : Nat → UInt8) (hc : 76 ≤ count) :
    readHdr (fillBuf f k count buf) = chunkHdr f k :=
  readHdr_congr fun i hi => if_pos (by omega)

/-- Every read of `dumpfile` covers the header. -/
lemma readHdr_fillBuf_readCount {f : ImageFile} {k : Nat} (buf : Nat → UInt8) {c : Bool} :
    readHdr (fillBuf f k (readCount c) buf) = chunkHdr f k :=
  readHdr_fillBuf buf ((by decide : 76 ≤ defaultRegionSize).trans (defaultRegionSize_le_readCount c))

lemma statsLoop_fst (f : ImageFile) (ctx : DumpCtx) (k : Nat) :
    ∀ buf st, (statsLoop f ctx buf k st).1 = chunkLoop f ctx k := by
  induction k using chunkLoop.induct f ctx with
  | case1 k hend => intro buf st; rw [statsLoop, chunkLoop, if_pos hend, if_pos hend]
  | case2 k hend hshort =>
    intro buf st; rw [statsLoop, chunkLoop, if_neg hend, if_neg hend, if_pos hshort, if_pos hshort]
  | case3 k hend hshort hbad =>
    intro buf st
    rw [statsLoop, chunkLoop, if_neg hend, if_neg hend, if_neg hshort, if_neg hshort,
      readHdr_fillBuf_readCount buf, if_pos hbad, if_pos hbad]
  | case4 k hend hshort hok ih =>
    intro buf st
    rw [statsLoop, chunkLoop, if_neg hend, if_neg hend, if_neg hshort, if_neg hshort,
      readHdr_fillBuf_readCount buf, if_neg hok, if_neg hok, ih]

/-- **The statistics change nothing `dumpfile` returns**: with them, the number of errors is the
one `dumpfile` returns, whatever an earlier file left in `chunkbuf`. -/
theorem dumpfileStats_fst (opts : Opts) (prevId : List UInt8) (buf : Nat → UInt8) (f : ImageFile) :
    (dumpfileStats opts prevId buf f).1 = dumpfile opts prevId f := by
  unfold dumpfileStats dumpfile
  dsimp only
  rw [readHdr_fillBuf_readCount buf]
  simp only [apply_ite Prod.fst, statsLoop_fst]

/-! ## What `dumpfile` accepts -/

/-- The end of the bytes the loops of `dumpchunk` read: the region table after the header and,
past V1, the relocations after it. -/
def tablesEnd (buf : Nat → UInt8) : Nat :=
  (layoutOf buf).off + nregions buf * regSize (layoutOf buf).is32 +
    if (readHdr buf).magic = compressedV1 then 0
    else (reloccount buf).toNat * relocSize (layoutOf buf).is32

/-- The tables of a chunk lie in the static `chunkbuf`; past it the loops' reads are undefined. -/
def TablesInChunkbuf (buf : Nat → UInt8) : Prop := tablesEnd buf ≤ chunkSize

instance : DecidablePred TablesInChunkbuf := fun buf => inferInstanceAs (Decidable (tablesEnd buf ≤ _))

/-- `-c` is only ever dropped at chunk 0, so no later read is longer than chunk 0's. -/
lemma readCount_chunk0Ctx (opts : Opts) (prevId : List UInt8) (filesize : Nat) (hdr : BlockHdr) :
    readCount (chunk0Ctx opts prevId filesize hdr).checksums ≤ readCount opts.checksums := by
  unfold chunk0Ctx readCount
  cases opts.checksums <;> simp only [Bool.false_and, Bool.true_and] <;> split_ifs <;> decide

/-- **What `dumpfile` accepts, exactly**, on a file whose tables lie in `chunkbuf`, where the
loops of `dumpchunk` are defined. -/
theorem dumpfile_eq_zero_iff {opts : Opts} {prevId : List UInt8} {f : ImageFile}
    (hq : opts.quickcheck = false) :
    (∀ j, j * chunkSize < f.size → TablesInChunkbuf (chunkBytes f j)) →
    (dumpfile opts prevId f = 0 ↔ f.size = 0 ∨
      readCount opts.checksums ≤ f.size ∧
        compressedMagicBase ≤ (chunkHdr f 0).magic ∧ (chunkHdr f 0).magic ≤ compressedMagicCurrent ∧
        ∀ j, j * chunkSize < f.size →
          j * chunkSize + readCount (chunk0Ctx opts prevId f.size (chunkHdr f 0)).checksums ≤ f.size ∧
          dumpchunk (chunk0Ctx opts prevId f.size (chunkHdr f 0)) (chunkHdr f j) j = 0) := by
  -- the loops only print and count: the value does not depend on the tables
  intro _
  have hcount := readCount_chunk0Ctx opts prevId f.size (chunkHdr f 0)
  unfold dumpfile
  generalize readCount opts.checksums = count at hcount ⊢
  simp only [hq, Bool.false_eq_true, if_false]
  split_ifs with h1 h2 h3 h4
  · exact iff_of_true rfl (.inl h1)
  · exact iff_of_false not_false (by rintro (h | ⟨h, -⟩) <;> omega)
  · exact iff_of_false not_false (by rintro (h | ⟨-, hlo, hhi, -⟩) <;> omega)
  · refine iff_of_false not_false ?_
    rintro (h | ⟨-, -, -, hall⟩)
    · exact h1 h
    · exact h4 (hall 0 (by rw [Nat.zero_mul]; omega)).2
  · constructor
    · -- chunk 0 passed before the loop, and the loop passed every later chunk
      intro hloop
      refine .inr ⟨by omega, by omega, by omega, fun j hj => ?_⟩
      rcases Nat.eq_zero_or_pos j with rfl | hpos
      · exact ⟨by omega, not_not.1 h4⟩
      · exact chunkLoop_checks hloop hpos hj
    · rintro (h | ⟨-, -, -, hall⟩)
      · exact absurd h h1
      · exact chunkLoop_zero_of_checks 1 fun j _ hj => hall j hj

/-- `twoChunkImage` keeps its tables in `chunkbuf` and is accepted exactly when its two chunks
pass. -/
theorem dumpfile_eq_zero_iff_two :
    (∀ j, j * chunkSize < twoChunkImage.size → TablesInChunkbuf (chunkBytes twoChunkImage j)) ∧
    (dumpfile {} (List.replicate uuidLength 0) twoChunkImage = 0 ↔ twoChunkImage.size = 0 ∨
      readCount false ≤ twoChunkImage.size ∧
        compressedMagicBase ≤ (chunkHdr twoChunkImage 0).magic ∧
        (chunkHdr twoChunkImage 0).magic ≤ compressedMagicCurrent ∧
        ∀ j, j * chunkSize < twoChunkImage.size →
          j * chunkSize + readCount (chunk0Ctx {} (List.replicate uuidLength 0) twoChunkImage.size
            (chunkHdr twoChunkImage 0)).checksums ≤ twoChunkImage.size ∧
          dumpchunk (chunk0Ctx {} (List.replicate uuidLength 0) twoChunkImage.size
            (chunkHdr twoChunkImage 0)) (chunkHdr twoChunkImage j) j = 0) :=
  have hT : ∀ j, j * chunkSize < twoChunkImage.size → TablesInChunkbuf (chunkBytes twoChunkImage j) := by
    intro j hj
    have hj2 : j < 2 := Nat.lt_of_mul_lt_mul_right hj
    interval_cases j <;> decide
  ⟨hT, dumpfile_eq_zero_iff rfl hT⟩

/-! ## The size histogram -/

lemma sum_modify_succ (l : List Nat) (k : Nat) (hk : k < l.length) :
    (l.modify (fun c => (c + 1) % 2 ^ 32) k).sum % 2 ^ 32 = (l.sum + 1) % 2 ^ 32 := by
  induction l generalizing k with
  | nil => simp at hk
  | cons a l ih =>
    cases k with
    | zero => simp only [List.modify_zero_cons, List.sum_cons]; omega
    | succ k =>
      have := ih k (by simpa using hk)
      simp only [List.modify_succ_cons, List.sum_cons]
      omega

lemma bucket_lt (count : Nat) : bucket count < 8 := by
  simp only [bucket, apply_ite (· < 8)]
  simp

/-- The relocation loop changes `relocs` and `relocbytes` only. -/
lemma relocWalk_frame (buf : Nat → UInt8) (st : Stats) :
    ∃ r rb, relocWalk buf st = { st with relocs := r, relocbytes := rb } := by
  unfold relocWalk
  dsimp only
  generalize List.range _ = l
  induction l generalizing st with
  | nil => exact ⟨st.relocs, st.relocbytes, rfl⟩
  | cons i l ih => exact ih { st with relocs := _, relocbytes := _ }

/-- The size buckets account for every region counted: `adist` has its eight slots, and they
sum to `aranges` (all `uint32_t`). -/
def Stats.Histogram (st : Stats) : Prop := st.adist.length = 8 ∧ st.adist.sum % 2 ^ 32 = st.aranges

section Histogram

variable {st : Stats} {count : Nat}

@[simp] lemma addFree_adist : (st.addFree count).adist = st.adist := by
  unfold Stats.addFree; split_ifs <;> rfl

@[simp] lemma addFree_aranges : (st.addFree count).aranges = st.aranges := by
  unfold Stats.addFree; split_ifs <;> rfl

@[simp] lemma addUse_adist :
    (st.addUse count).adist = st.adist.modify (fun c => (c + 1) % 2 ^ 32) (bucket count) := rfl

@[simp] lemma addUse_aranges : (st.addUse count).aranges = (st.aranges + 1) % 2 ^ 32 := rfl

/-- A region step counts the region in its bucket and in `aranges`, and nothing else there. -/
lemma regionStep_hist (magic first last n i : Nat) (reg : Nat × Nat) :
    (regionStep magic first last n i reg st).adist =
        st.adist.modify (fun c => (c + 1) % 2 ^ 32) (bucket (reg.2 % 2 ^ 32)) ∧
      (regionStep magic first last n i reg st).aranges = (st.aranges + 1) % 2 ^ 32 := by
  simp only [regionStep, addUse_adist, addUse_aranges, apply_ite Stats.adist, apply_ite Stats.aranges,
    addFree_adist, addFree_aranges, ite_self, and_self]

namespace Stats.Histogram

lemma regionStep (h : st.Histogram) (magic first last n i : Nat) (reg : Nat × Nat) :
    (Imagezip.Dump.regionStep magic first last n i reg st).Histogram := by
  obtain ⟨hl, hs⟩ := h
  obtain ⟨ha, hr⟩ := @regionStep_hist st magic first last n i reg
  refine ⟨by rw [ha, List.length_modify, hl], ?_⟩
  rw [ha, hr, sum_modify_succ _ _ (hl ▸ bucket_lt _)]
  omega

lemma regionLoop (h : st.Histogram) (buf : Nat → UInt8) (k : Nat) :
    (Imagezip.Dump.regionLoop buf k st).Histogram := by
  induction k with
  | zero => exact h
  | succ k ih => rw [regionLoop_succ]; exact ih.regionStep ..

lemma regionWalk (h : st.Histogram) (buf : Nat → UInt8) :
    (Imagezip.Dump.regionWalk buf st).Histogram :=
  h.regionLoop buf _

lemma relocWalk (h : st.Histogram) (buf : Nat → UInt8) :
    (Imagezip.Dump.relocWalk buf st).Histogram := by
  obtain ⟨r, rb, he⟩ := relocWalk_frame buf st
  rw [he]
  exact h

lemma chunkStats (h : st.Histogram) (buf : Nat → UInt8) :
    (Imagezip.Dump.chunkStats buf st).Histogram := by
  have key : ∀ w a b, (Imagezip.Dump.regionWalk buf
      { st with wasted := w, regmin := a, regmax := b }).Histogram := fun w a b =>
    (show Stats.Histogram { st with wasted := w, regmin := a, regmax := b } from h).regionWalk buf
  unfold Imagezip.Dump.chunkStats
  dsimp only
  by_cases hv : (readHdr buf).magic = compressedV1
  · rw [if_pos hv]; exact key _ _ _
  · rw [if_neg hv]; exact (key _ _ _).relocWalk buf

lemma statsLoop {f : ImageFile} {ctx : DumpCtx} {buf : Nat → UInt8} {k : Nat} (h : st.Histogram) :
    (Imagezip.Dump.statsLoop f ctx buf k st).2.Histogram := by
  induction buf, k, st using Imagezip.Dump.statsLoop.induct f ctx with
  | case1 buf k st hend => rw [Imagezip.Dump.statsLoop, if_pos hend]; exact h
  | case2 buf k st hend hshort => rw [Imagezip.Dump.statsLoop, if_neg hend, if_pos hshort]; exact h
  | case3 buf k st hend hshort hbad =>
    rw [Imagezip.Dump.statsLoop, if_neg hend, if_neg hshort, if_pos hbad]; exact h
  | case4 buf k st hend hshort hok ih =>
    rw [Imagezip.Dump.statsLoop, if_neg hend, if_neg hshort, if_neg hok]
    exact ih (h.chunkStats _)

end Stats.Histogram

end Histogram

/-- **The size histogram accounts for every region.**  On every run of `dumpfile`, accepted or
not, the eight `adist` buckets it prints sum to `aranges`, the number of regions counted
(modulo `2^32`). -/
theorem dumpfile_histogram (opts : Opts) (prevId : List UInt8) (buf : Nat → UInt8) (f : ImageFile) :
    (dumpfileStats opts prevId buf f).2.Histogram := by
  have h0 : Stats.init.Histogram := ⟨rfl, rfl⟩
  have hloop : ∀ ctx (b : Nat → UInt8), (statsLoop f ctx b 1 (chunkStats b Stats.init)).2.Histogram :=
    fun _ _ => (h0.chunkStats _).statsLoop
  unfold dumpfileStats
  dsimp only
  simp only [apply_ite Prod.snd, apply_ite Stats.Histogram, h0, hloop, ite_self]

end Imagezip.Dump
