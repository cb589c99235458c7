import Imagezip.DumpStats

/-!
# What the statistics of `imagedump` add up to

On an image `dumpfile` accepts, the sums it prints describe the image:

* `dumpfile_accounts_sectors`: when the chunks are V2 or later, with regions in order inside
  `[firstsect, lastsect)`, the sectors counted in use and free add up to the sectors the chunks
  describe;
* `dumpfile_v1_counts_to_last_region`: when the chunks are V1 and their regions, chunk after
  chunk, are in order, the sectors counted add up to the end of the last region, `nextsector`
  carrying the count from one chunk into the next;
* `dumpfile_compressed_bytes`: for an image of whole chunks whose `regionsize` is at most
  `CHUNKSIZE`, the compressed size printed, `filesize - wasted`, is the sum of the chunks'
  `size`.

Each is a step lemma for one region, a run lemma for a chunk's region loop, a chunk lemma, and a
run lemma for `dumpfile`'s chunk loop.
-/

namespace Imagezip.Dump

/-! ## The sectors a chunk describes -/

/-- The sectors counted in use or free: `sectinuse + sectfree` as a `uint32_t`. -/
def Stats.counted (st : Stats) : Nat := (st.sectinuse + st.sectfree) % 2 ^ 32

section Counts

variable {st : Stats} {count : Nat}

@[simp] lemma counted_addFree : (st.addFree count).counted = (st.counted + count) % 2 ^ 32 := by
  unfold Stats.addFree Stats.counted
  split_ifs
  · dsimp only; omega
  · omega

@[simp] lemma counted_addUse : (st.addUse count).counted = (st.counted + count) % 2 ^ 32 := by
  unfold Stats.addUse Stats.counted
  dsimp only
  omega

@[simp] lemma counted_setNext (x : Nat) : ({ st with nextsector := x } : Stats).counted = st.counted :=
  rfl

@[simp] lemma counted_setSect (lo hi : Nat) :
    ({ st with losect := lo, hisect := hi } : Stats).counted = st.counted := rfl

@[simp] lemma counted_setChunk (w : Nat) (a b : Int) :
    ({ st with wasted := w, regmin := a, regmax := b } : Stats).counted = st.counted := rfl

lemma sub64_of_le {a b : Nat} (h : b ≤ a) (ha : a < 2 ^ 64) : sub64 a b = a - b := by
  unfold sub64; omega

/-- **Step lemma**: a region in order counts every sector from where its free count starts to its
end (on to `last` for the last region), and moves `nextsector` to its end. -/
lemma regionStep_counts {magic first last n i : Nat} {reg : Nat × Nat}
    (hv : compressedV1 < magic) (hbase : (if i = 0 then first else st.nextsector) ≤ reg.1)
    (hend : reg.1 + reg.2 ≤ last) (hlast : last < 2 ^ 64) :
    (regionStep magic first last n i reg st).nextsector = reg.1 + reg.2 ∧
      (regionStep magic first last n i reg st).counted =
        (st.counted + (reg.1 + reg.2 - if i = 0 then first else st.nextsector) +
          if i = n - 1 then last - (reg.1 + reg.2) else 0) % 2 ^ 32 := by
  obtain ⟨rstart, rsize⟩ := reg
  dsimp only at hbase hend ⊢
  have hrend : (rstart + rsize) % 2 ^ 64 = rstart + rsize := Nat.mod_eq_of_lt (by omega)
  have hcount : (if compressedV1 < magic ∧ i = 0 then (if first > rstart then 0 else (rstart - first) % 2 ^ 32)
      else sub64 rstart st.nextsector % 2 ^ 32) =
      (rstart - if i = 0 then first else st.nextsector) % 2 ^ 32 := by
    by_cases h0 : i = 0
    · rw [if_pos h0] at hbase; rw [if_pos (And.intro hv h0), if_neg (by omega), if_pos h0]
    · rw [if_neg h0] at hbase; rw [if_neg (by tauto), if_neg h0, sub64_of_le hbase (by omega)]
  unfold regionStep
  dsimp only
  rw [hrend, hcount]
  refine ⟨rfl, ?_⟩
  simp only [gt_iff_lt, hv, true_and, if_true, not_lt.2 hend, not_false_eq_true, and_true]
  clear hcount hrend hlast
  generalize (if i = 0 then first else st.nextsector) = base at hbase ⊢
  split_ifs <;>
    simp only [counted_addFree, counted_addUse, counted_setNext, counted_setSect] <;>
    omega

end Counts

/-- Where region `i` of the chunk in `buf` ends. -/
def regionEnd (buf : Nat → UInt8) (i : Nat) : Nat := (region buf i).1 + (region buf i).2

/-- The sectors a chunk describes, from `first` to `last`. -/
def extent (buf : Nat → UInt8) : Nat := (layoutOf buf).last - (layoutOf buf).first

/-- A V2 or later chunk with at least one region, whose region table lies in the first
`DEFAULTREGIONSIZE` bytes and whose regions come in order inside `[first, last)`. -/
structure RegionsInOrder (buf : Nat → UInt8) : Prop where
  later : compressedV1 < (readHdr buf).magic
  nonempty : 0 < nregions buf
  fit : (layoutOf buf).off + nregions buf * regSize (layoutOf buf).is32 ≤ defaultRegionSize
  first_le : (layoutOf buf).first ≤ (region buf 0).1
  chain : ∀ i, i + 1 < nregions buf → regionEnd buf i ≤ (region buf (i + 1)).1
  last_ge : regionEnd buf (nregions buf - 1) ≤ (layoutOf buf).last

lemma layoutOf_last_lt (buf : Nat → UInt8) : (layoutOf buf).last < 2 ^ 64 := by
  have h4 := word_lt buf 28 4
  have h8 := word_lt buf 48 8
  unfold layoutOf chunkLayout
  split_ifs <;> dsimp only <;> omega

section Agree

/-! Everything the region loop reads lies in the first `DEFAULTREGIONSIZE` bytes of a chunk
whose region table fits there, so it reads the same from `chunkbuf` as from the chunk. -/

variable {g g' : Nat → UInt8}

lemma layoutOf_agree (h : ∀ i < defaultRegionSize, g i = g' i) : layoutOf g = layoutOf g' := by
  unfold layoutOf chunkLayout
  rw [readHdr_congr fun i hi => h i (hi.trans_le (by decide)), word_agree h 24 4 (by decide),
    word_agree h 28 4 (by decide), word_agree h 40 8 (by decide), word_agree h 48 8 (by decide)]

lemma nregions_agree (h : ∀ i < defaultRegionSize, g i = g' i) : nregions g = nregions g' := by
  rw [nregions, nregions, regioncount, regioncount, word_agree h 20 4 (by decide)]

lemma region_agree (h : ∀ i < defaultRegionSize, g i = g' i) {i : Nat}
    (hi : (layoutOf g).off + (i + 1) * regSize (layoutOf g).is32 ≤ defaultRegionSize) :
    region g i = region g' i := by
  unfold region regionOf
  rw [← layoutOf_agree h]
  unfold regSize at hi
  split_ifs at hi ⊢ <;> exact Prod.ext (word_agree h _ _ (by omega)) (word_agree h _ _ (by omega))

lemma extent_agree (h : ∀ i < defaultRegionSize, g i = g' i) : extent g = extent g' := by
  rw [extent, extent, layoutOf_agree h]

lemma RegionsInOrder.of_agree (hw : RegionsInOrder g) (h : ∀ i < defaultRegionSize, g i = g' i) :
    RegionsInOrder g' := by
  have hl := layoutOf_agree h
  have hn := nregions_agree h
  have hr : ∀ i < nregions g, region g i = region g' i := fun i hi =>
    region_agree h (le_trans (Nat.add_le_add_left (Nat.mul_le_mul_right _ hi) _) hw.fit)
  have he : ∀ i < nregions g, regionEnd g i = regionEnd g' i := fun i hi => by
    rw [regionEnd, regionEnd, hr i hi]
  have h0 := hw.nonempty
  constructor
  · rw [← readHdr_congr fun i hi => h i (hi.trans_le (by decide))]; exact hw.later
  · rw [← hn]; exact h0
  · rw [← hl, ← hn]; exact hw.fit
  · rw [← hl, ← hr 0 h0]; exact hw.first_le
  · intro i hi
    rw [← hn] at hi
    rw [← he i (by omega), ← hr (i + 1) hi]
    exact hw.chain i hi
  · rw [← hl, ← hn, ← he (nregions g - 1) (by omega)]; exact hw.last_ge

/-- After `read`, the first `DEFAULTREGIONSIZE` bytes of `chunkbuf` are those of chunk `k`. -/
lemma fillBuf_agree (f : ImageFile) (k : Nat) (buf : Nat → UInt8) {count : Nat}
    (hc : defaultRegionSize ≤ count) :
    ∀ i < defaultRegionSize, chunkBytes f k i = fillBuf f k count buf i :=
  fun _ hi => (if_pos (hi.trans_le hc)).symm

end Agree

section Walk

variable {buf : Nat → UInt8}

namespace RegionsInOrder

lemma end_le_end (hw : RegionsInOrder buf) {i j : Nat} (hij : i ≤ j) (hj : j < nregions buf) :
    regionEnd buf i ≤ regionEnd buf j := by
  induction j, hij using Nat.le_induction with
  | base => exact le_rfl
  | succ j _ ih =>
    calc regionEnd buf i ≤ regionEnd buf j := ih (by omega)
      _ ≤ (region buf (j + 1)).1 := hw.chain j hj
      _ ≤ regionEnd buf (j + 1) := Nat.le_add_right _ _

lemma first_le_end (hw : RegionsInOrder buf) {i : Nat} (hi : i < nregions buf) :
    (layoutOf buf).first ≤ regionEnd buf i :=
  calc (layoutOf buf).first ≤ (region buf 0).1 := hw.first_le
    _ ≤ regionEnd buf 0 := Nat.le_add_right _ _
    _ ≤ regionEnd buf i := hw.end_le_end (Nat.zero_le i) hi

lemma end_le_last (hw : RegionsInOrder buf) {i : Nat} (hi : i < nregions buf) :
    regionEnd buf i ≤ (layoutOf buf).last :=
  (hw.end_le_end (Nat.le_sub_one_of_lt hi) (by omega)).trans hw.last_ge

lemma mod_add_sub_trans {c f a b : Nat} (t : Nat) (hfa : f ≤ a) (hab : a ≤ b) :
    ((c + (a - f) + 0) % 2 ^ 32 + (b - a) + t) % 2 ^ 32 = (c + (b - f) + t) % 2 ^ 32 := by
  omega

/-- **Prefix lemma**: after its first `k + 1` regions the loop stands at the end of region `k`
and has counted every sector from `first` to there, and on to `last` once the last region is
done. -/
lemma regionLoop_counts (hw : RegionsInOrder buf) (st : Stats) {k : Nat} (hk : k < nregions buf) :
    (regionLoop buf (k + 1) st).nextsector = regionEnd buf k ∧
      (regionLoop buf (k + 1) st).counted =
        (st.counted + (regionEnd buf k - (layoutOf buf).first) +
          if k = nregions buf - 1 then (layoutOf buf).last - regionEnd buf k else 0) % 2 ^ 32 := by
  induction k with
  | zero =>
    rw [regionLoop_succ]
    exact regionStep_counts hw.later (by rw [if_pos rfl]; exact hw.first_le) (hw.end_le_last hk)
      (layoutOf_last_lt buf)
  | succ k ih =>
    obtain ⟨hnext, hcount⟩ := ih (by omega)
    have hstart : (if k + 1 = 0 then (layoutOf buf).first else (regionLoop buf (k + 1) st).nextsector) ≤
        (region buf (k + 1)).1 := by
      rw [if_neg k.succ_ne_zero, hnext]; exact hw.chain k hk
    obtain ⟨h1, h2⟩ := regionStep_counts hw.later hstart (hw.end_le_last hk) (layoutOf_last_lt buf)
    rw [regionLoop_succ]
    refine ⟨h1, ?_⟩
    rw [h2, if_neg k.succ_ne_zero, hnext, hcount, if_neg (by omega)]
    exact mod_add_sub_trans _ (hw.first_le_end (i := k) (by omega)) (hw.end_le_end (Nat.le_add_right k 1) hk)

/-- The region loop of a chunk whose regions are in order counts its extent. -/
lemma regionWalk_counted (hw : RegionsInOrder buf) (st : Stats) :
    (regionWalk buf st).counted = (st.counted + extent buf) % 2 ^ 32 := by
  have hk : nregions buf - 1 < nregions buf := by have := hw.nonempty; omega
  have h := (hw.regionLoop_counts st hk).2
  rw [Nat.sub_add_cancel hw.nonempty, if_pos rfl] at h
  rw [regionWalk, h, extent]
  have := hw.first_le_end hk
  have := hw.end_le_last hk
  omega

end RegionsInOrder

lemma counted_relocWalk (st : Stats) : (relocWalk buf st).counted = st.counted := by
  obtain ⟨r, rb, h⟩ := relocWalk_frame buf st
  rw [h]
  rfl

/-- **Chunk lemma**: a chunk whose regions are in order adds its extent to the sectors
counted. -/
lemma RegionsInOrder.chunkStats_counted (hw : RegionsInOrder buf) (st : Stats) :
    (chunkStats buf st).counted = (st.counted + extent buf) % 2 ^ 32 := by
  unfold chunkStats
  dsimp only
  rw [if_neg hw.later.ne', counted_relocWalk, hw.regionWalk_counted, counted_setChunk]

end Walk

/-- The number of chunks of `f`: its size in `CHUNKSIZE`s, rounded up. -/
def nchunks (f : ImageFile) : Nat := (f.size + chunkSize - 1) / chunkSize

lemma lt_nchunks {f : ImageFile} {k : Nat} : k < nchunks f ↔ k * chunkSize < f.size := by
  have : 0 < chunkSize := by decide
  rw [nchunks, Nat.lt_iff_add_one_le, Nat.le_div_iff_mul_le this, Nat.succ_mul]
  omega

/-- From a chunk at or past the end of the file, no chunk is left. -/
lemma nchunks_sub_of_le {f : ImageFile} {k : Nat} (h : f.size ≤ k * chunkSize) : nchunks f - k = 0 :=
  Nat.sub_eq_zero_of_le (not_lt.1 (mt lt_nchunks.1 (by omega)))

/-- The chunks from one inside the file: it, then the chunks after it. -/
lemma range'_nchunks {f : ImageFile} {k : Nat} (h : ¬ f.size ≤ k * chunkSize) :
    List.range' k (nchunks f - k) = k :: List.range' (k + 1) (nchunks f - (k + 1)) := by
  have := lt_nchunks.2 (Nat.lt_of_not_le h)
  rw [show nchunks f - k = nchunks f - (k + 1) + 1 by omega, List.range'_succ]

/-- **Run lemma**: a chunk loop that ends without error from chunk `k`, over chunks whose regions
are in order, adds the extents of chunks `k` to the last. -/
lemma statsLoop_counted {f : ImageFile} {ctx : DumpCtx}
    (hwf : ∀ j, j * chunkSize < f.size → RegionsInOrder (chunkBytes f j))
    {buf : Nat → UInt8} {k : Nat} {st : Stats} (hz : chunkLoop f ctx k = 0) :
    (statsLoop f ctx buf k st).2.counted =
      (st.counted + ((List.range' k (nchunks f - k)).map fun j => extent (chunkBytes f j)).sum) %
        2 ^ 32 := by
  induction buf, k, st using statsLoop.induct f ctx with
  | case1 buf k st hend =>
    rw [statsLoop, if_pos hend, nchunks_sub_of_le hend, List.range'_zero, List.map_nil, List.sum_nil, Nat.add_zero]
    exact (Nat.mod_mod _ _).symm
  | case2 buf k st hend hshort =>
    exact absurd ((chunkLoop_eq_zero hz).resolve_left hend).1 (by omega)
  | case3 buf k st hend hshort hbad =>
    rw [readHdr_fillBuf_readCount buf] at hbad
    exact absurd ((chunkLoop_eq_zero hz).resolve_left hend).2.1 hbad
  | case4 buf k st hend hshort hok ih =>
    have hagree := fillBuf_agree f k buf (defaultRegionSize_le_readCount ctx.checksums)
    have hw := (hwf k (by omega)).of_agree hagree
    rw [statsLoop, if_neg hend, if_neg hshort, if_neg hok,
      ih ((chunkLoop_eq_zero hz).resolve_left hend).2.2, hw.chunkStats_counted, ← extent_agree hagree,
      range'_nchunks hend, List.map_cons, List.sum_cons]
    omega

/-- **Accepted image**: when `dumpfile` accepts a non-empty image without `-q`, chunk 0, read
from the first `count` bytes, passes `dumpchunk`, the chunk loop from chunk 1 ends without error,
and the statistics are chunk 0's and then the loop's. -/
lemma dumpfileStats_of_accepted {opts : Opts} {prevId : List UInt8} (buf : Nat → UInt8)
    {f : ImageFile} (hq : opts.quickcheck = false) (h0 : dumpfile opts prevId f = 0)
    (hpos : 0 < f.size) :
    ∃ count, defaultRegionSize ≤ count ∧
      dumpchunk (chunk0Ctx opts prevId f.size (chunkHdr f 0)) (chunkHdr f 0) 0 = 0 ∧
      chunkLoop f (chunk0Ctx opts prevId f.size (chunkHdr f 0)) 1 = 0 ∧
      (dumpfileStats opts prevId buf f).2 = (statsLoop f (chunk0Ctx opts prevId f.size (chunkHdr f 0))
        (fillBuf f 0 count buf) 1 (chunkStats (fillBuf f 0 count buf) Stats.init)).2 := by
  have hc := defaultRegionSize_le_readCount opts.checksums
  unfold dumpfileStats
  unfold dumpfile at h0
  dsimp only
  rw [readHdr_fillBuf_readCount buf]
  generalize readCount opts.checksums = count at hc h0 ⊢
  simp only [hq, hpos.ne', Bool.false_eq_true, if_false] at h0 ⊢
  split_ifs at h0 ⊢ with _ _ hok
  exact ⟨count, hc, not_not.1 hok, h0, rfl⟩

/-- The statistics of the empty file are the ones `dumpfile` starts from. -/
lemma dumpfileStats_empty (opts : Opts) (prevId : List UInt8) (buf : Nat → UInt8) {f : ImageFile}
    (hz : f.size = 0) : (dumpfileStats opts prevId buf f).2 = Stats.init := by
  unfold dumpfileStats
  simp only [hz, if_true]

lemma range_nchunks {f : ImageFile} (hpos : 0 < f.size) :
    List.range (nchunks f) = 0 :: List.range' 1 (nchunks f - 1) := by
  obtain ⟨m, hm⟩ := Nat.exists_eq_add_of_lt (lt_nchunks.2 (by rw [Nat.zero_mul]; exact hpos))
  rw [hm, List.range_eq_range', Nat.zero_add, List.range'_succ, Nat.add_sub_cancel]

/-- **Every sector a chunk describes is counted once**, for V2 and later chunks whose regions are
in order inside `[firstsect, lastsect)` (as `uint32_t` counts). -/
theorem dumpfile_accounts_sectors (opts : Opts) (prevId : List UInt8) (buf : Nat → UInt8)
    (f : ImageFile) (hq : opts.quickcheck = false) (h0 : dumpfile opts prevId f = 0)
    (hwf : ∀ j, j * chunkSize < f.size → RegionsInOrder (chunkBytes f j)) :
    (dumpfileStats opts prevId buf f).2.counted =
      ((List.range (nchunks f)).map fun j => extent (chunkBytes f j)).sum % 2 ^ 32 := by
  rcases Nat.eq_zero_or_pos f.size with hz | hpos
  · -- the empty file has no chunks
    rw [dumpfileStats_empty opts prevId buf hz, show nchunks f = 0 by rw [nchunks, hz]; decide]
    rfl
  · -- chunk 0, then the loop from chunk 1
    obtain ⟨count, hc, -, hloop, hst⟩ := dumpfileStats_of_accepted buf hq h0 hpos
    have hagree := fillBuf_agree f 0 buf hc
    have hw := (hwf 0 (by rw [Nat.zero_mul]; exact hpos)).of_agree hagree
    have hinit : Stats.init.counted = 0 := rfl
    rw [hst, statsLoop_counted hwf hloop, hw.chunkStats_counted, ← extent_agree hagree, hinit,
      range_nchunks hpos, List.map_cons, List.sum_cons]
    omega

/-- One V3 chunk of `DEFAULTREGIONSIZE` bytes describing sectors `[0, 100)`, with regions
`[10, 30)` and `[40, 70)`. -/
def twoRegionImage : ImageFile :=
  chunksImage defaultRegionSize
    [hdrBytes compressedV3 100 0 1 defaultRegionSize ++ leBytes 4 2 ++ leBytes 4 0 ++
      leBytes 4 100 ++ leBytes 4 0 ++ leBytes 4 10 ++ leBytes 4 20 ++ leBytes 4 40 ++ leBytes 4 30]

theorem dumpfile_accounts_sectors_two :
    (dumpfileStats {} (List.replicate uuidLength 0) (fun _ => 0) twoRegionImage).2.counted =
      ((List.range (nchunks twoRegionImage)).map fun j => extent (chunkBytes twoRegionImage j)).sum %
        2 ^ 32 :=
  dumpfile_accounts_sectors {} (List.replicate uuidLength 0) (fun _ => 0) twoRegionImage rfl
    (by rw [dumpfile, if_neg (by decide), if_neg (by decide), if_neg (by decide), if_neg (by decide),
      if_neg (by decide), chunkLoop, if_pos (by decide)])
    fun j hj => by
      obtain rfl : j = 0 := by
        change j * (1024 * 1024) < 4096 at hj
        omega
      have hn : nregions (chunkBytes twoRegionImage 0) = 2 := by decide
      refine ⟨by decide, by decide, by decide, by decide, fun i hi => ?_, by decide⟩
      obtain rfl : i = 0 := by omega
      decide


/-! ## Version 1 images

A V1 chunk carries no `firstsect` or `lastsect`: the free count before each region runs from
`nextsector`, where the region before it ended, in the same chunk or an earlier one. -/

/-- The regions of the chunk in `buf`, in the order the region loop reads them. -/
def chunkRegions (buf : Nat → UInt8) : List (Nat × Nat) := (List.range (nregions buf)).map (region buf)

/-- The regions of `f`, chunk after chunk. -/
def imageRegions (f : ImageFile) : List (Nat × Nat) :=
  (List.range (nchunks f)).flatMap fun j => chunkRegions (chunkBytes f j)

/-- Regions in order from sector `p`: each starts at or after the end of the one before it, the
first at or after `p`. -/
def InOrderFrom : Nat → List (Nat × Nat) → Prop
  | _, [] => True
  | p, r :: rs => p ≤ r.1 ∧ InOrderFrom (r.1 + r.2) rs

@[simp] lemma inOrderFrom_nil (p : Nat) : InOrderFrom p [] := trivial

lemma inOrderFrom_cons {p : Nat} {r : Nat × Nat} {rs : List (Nat × Nat)} :
    InOrderFrom p (r :: rs) ↔ p ≤ r.1 ∧ InOrderFrom (r.1 + r.2) rs := Iff.rfl

instance decInOrderFrom : ∀ p rs, Decidable (InOrderFrom p rs)
  | p, [] => isTrue (inOrderFrom_nil p)
  | _, r :: rs =>
    haveI := decInOrderFrom (r.1 + r.2) rs
    decidable_of_iff' _ inOrderFrom_cons

/- Past its two equations, elaboration never unfolds `InOrderFrom`: over a chunk's region table it
would evaluate the table's bytes. -/
attribute [irreducible] InOrderFrom

/-- Where the last of the regions `rs` ends; `p` if there are none. -/
def lastEnd (p : Nat) (rs : List (Nat × Nat)) : Nat := rs.foldl (fun _ r => r.1 + r.2) p

@[simp] lemma lastEnd_nil (p : Nat) : lastEnd p [] = p := rfl

@[simp] lemma lastEnd_cons (p : Nat) (r : Nat × Nat) (rs : List (Nat × Nat)) :
    lastEnd p (r :: rs) = lastEnd (r.1 + r.2) rs := rfl

lemma lastEnd_append (p : Nat) (rs rs' : List (Nat × Nat)) :
    lastEnd p (rs ++ rs') = lastEnd (lastEnd p rs) rs' :=
  List.foldl_append _ _ _ _

lemma inOrderFrom_append {p : Nat} {rs rs' : List (Nat × Nat)} :
    InOrderFrom p (rs ++ rs') ↔ InOrderFrom p rs ∧ InOrderFrom (lastEnd p rs) rs' := by
  induction rs generalizing p with
  | nil => simp
  | cons r rs ih => rw [List.cons_append, inOrderFrom_cons, inOrderFrom_cons, ih, lastEnd_cons, and_assoc]

lemma le_lastEnd {p : Nat} {rs : List (Nat × Nat)} (h : InOrderFrom p rs) : p ≤ lastEnd p rs := by
  induction rs generalizing p with
  | nil => exact le_rfl
  | cons r rs ih =>
    rw [inOrderFrom_cons] at h
    exact (Nat.le_add_right_of_le h.1).trans (ih h.2)

section V1

variable {st : Stats}

/-- The region loop reads neither the region's index nor `first`, `last` and the count of a V1
chunk. -/
lemma regionStep_v1_eq (first last n i : Nat) (reg : Nat × Nat) :
    regionStep compressedV1 first last n i reg st = regionStep compressedV1 0 0 0 0 reg st := by
  simp only [regionStep, gt_iff_lt, lt_irrefl, false_and, if_false]

/-- **Step lemma**: a region of a V1 chunk that starts at or after `nextsector` moves
`nextsector` to its end and counts, free or in use, every sector from `nextsector` to there. -/
lemma regionStep_v1 {reg : Nat × Nat} (hns : st.nextsector ≤ reg.1) (hend : reg.1 + reg.2 < 2 ^ 64) :
    (regionStep compressedV1 0 0 0 0 reg st).nextsector = reg.1 + reg.2 ∧
      (regionStep compressedV1 0 0 0 0 reg st).counted =
        (st.counted + (reg.1 + reg.2 - st.nextsector)) % 2 ^ 32 := by
  obtain ⟨rstart, rsize⟩ := reg
  dsimp only at hns hend ⊢
  simp only [regionStep, gt_iff_lt, lt_irrefl, false_and, if_false, Nat.mod_eq_of_lt hend,
    sub64_of_le hns (by omega : rstart < 2 ^ 64), counted_setNext, counted_addUse, counted_addFree,
    counted_setSect, true_and]
  omega

lemma counted_lt (st : Stats) : st.counted < 2 ^ 32 := Nat.mod_lt _ (by norm_num)

/-- **Run lemma** over regions: V1 regions in order from `nextsector` move it to the end of the
last of them and count every sector up to there. -/
lemma foldl_regionStep_v1 (rs : List (Nat × Nat)) (hlt : ∀ r ∈ rs, r.1 + r.2 < 2 ^ 64) :
    ∀ st : Stats, InOrderFrom st.nextsector rs →
      (rs.foldl (fun st r => regionStep compressedV1 0 0 0 0 r st) st).nextsector =
          lastEnd st.nextsector rs ∧
        (rs.foldl (fun st r => regionStep compressedV1 0 0 0 0 r st) st).counted =
          (st.counted + (lastEnd st.nextsector rs - st.nextsector)) % 2 ^ 32 := by
  induction rs with
  | nil =>
    intro st _
    refine ⟨rfl, ?_⟩
    rw [lastEnd_nil, Nat.sub_self, Nat.add_zero, List.foldl_nil, Nat.mod_eq_of_lt (counted_lt st)]
  | cons r rs ih =>
    intro st h
    obtain ⟨hns, hord⟩ := inOrderFrom_cons.1 h
    obtain ⟨h1, h2⟩ := @regionStep_v1 st r hns (hlt r (List.mem_cons_self r rs))
    obtain ⟨h3, h4⟩ := ih (fun r' hr' => hlt r' (List.mem_cons_of_mem r hr')) _ (by rw [h1]; exact hord)
    rw [h1] at h3 h4
    have hle := le_lastEnd hord
    refine ⟨h3, ?_⟩
    rw [List.foldl_cons, h4, h2, lastEnd_cons]
    omega

end V1

/-- A V1 chunk: its regions are `struct region_32`s, each ending below `2^33`. -/
lemma chunkRegions_lt {buf : Nat → UInt8} (hv : (readHdr buf).magic = compressedV1) :
    ∀ r ∈ chunkRegions buf, r.1 + r.2 < 2 ^ 64 := by
  intro r hr
  obtain ⟨i, -, rfl⟩ := List.mem_map.1 hr
  have h1 := word_lt buf (24 + 8 * i) 4
  have h2 := word_lt buf (24 + 8 * i + 4) 4
  simp only [region, regionOf, layoutOf, chunkLayout, hv, if_true] at h1 h2 ⊢
  omega

/-- **Chunk lemma**: a V1 chunk whose regions are in order from `nextsector` moves it to the end
of its last region and counts every sector up to there. -/
lemma chunkStats_v1 {buf : Nat → UInt8} (hv : (readHdr buf).magic = compressedV1) {st : Stats}
    (hord : InOrderFrom st.nextsector (chunkRegions buf)) :
    (chunkStats buf st).nextsector = lastEnd st.nextsector (chunkRegions buf) ∧
      (chunkStats buf st).counted =
        (st.counted + (lastEnd st.nextsector (chunkRegions buf) - st.nextsector)) % 2 ^ 32 := by
  have hwalk : ∀ st' : Stats, regionWalk buf st' =
      (chunkRegions buf).foldl (fun st r => regionStep compressedV1 0 0 0 0 r st) st' := fun st' => by
    rw [regionWalk, regionLoop, chunkRegions, List.foldl_map, hv]
    simp only [regionStep_v1_eq]
  obtain ⟨w, a, b, h⟩ : ∃ w a b, chunkStats buf st =
      regionWalk buf { st with wasted := w, regmin := a, regmax := b } :=
    ⟨_, _, _, if_pos hv⟩
  rw [h, hwalk]
  exact foldl_regionStep_v1 _ (chunkRegions_lt hv) { st with wasted := w, regmin := a, regmax := b } hord

/-- A V1 chunk whose region table lies in the first `DEFAULTREGIONSIZE` bytes. -/
def V1Chunk (buf : Nat → UInt8) : Prop :=
  (readHdr buf).magic = compressedV1 ∧ 24 + 8 * nregions buf ≤ defaultRegionSize

instance (buf : Nat → UInt8) : Decidable (V1Chunk buf) :=
  inferInstanceAs (Decidable (_ ∧ _))

lemma V1Chunk.of_agree {g g' : Nat → UInt8} (hv : V1Chunk g) (h : ∀ i < defaultRegionSize, g i = g' i) :
    V1Chunk g' ∧ chunkRegions g = chunkRegions g' := by
  have hhdr := readHdr_congr fun i hi => h i (hi.trans_le (by decide))
  have hn := nregions_agree h
  refine ⟨⟨hhdr ▸ hv.1, hn ▸ hv.2⟩, ?_⟩
  rw [chunkRegions, chunkRegions, ← hn]
  refine List.map_congr_left fun i hi => region_agree h ?_
  have hi := List.mem_range.1 hi
  simp only [layoutOf, chunkLayout, hv.1, if_true, regSize]
  have := hv.2
  omega

/-- **Run lemma**: a chunk loop that ends without error from chunk `k`, over V1 chunks whose
regions are in order from `nextsector`, moves it to the end of the last region and counts every
sector up to there. -/
lemma statsLoop_v1 {f : ImageFile} {ctx : DumpCtx}
    (hv1 : ∀ j, j * chunkSize < f.size → V1Chunk (chunkBytes f j))
    {buf : Nat → UInt8} {k : Nat} {st : Stats} (hz : chunkLoop f ctx k = 0)
    (hord : InOrderFrom st.nextsector
      ((List.range' k (nchunks f - k)).flatMap fun j => chunkRegions (chunkBytes f j))) :
    (statsLoop f ctx buf k st).2.counted =
      (st.counted + (lastEnd st.nextsector
        ((List.range' k (nchunks f - k)).flatMap fun j => chunkRegions (chunkBytes f j)) -
          st.nextsector)) % 2 ^ 32 := by
  induction buf, k, st using statsLoop.induct f ctx with
  | case1 buf k st hend =>
    rw [statsLoop, if_pos hend, nchunks_sub_of_le hend, List.range'_zero, List.flatMap_nil, lastEnd_nil,
      Nat.sub_self, Nat.add_zero, Nat.mod_eq_of_lt (counted_lt st)]
  | case2 buf k st hend hshort =>
    exact absurd ((chunkLoop_eq_zero hz).resolve_left hend).1 (by omega)
  | case3 buf k st hend hshort hbad =>
    rw [readHdr_fillBuf_readCount buf] at hbad
    exact absurd ((chunkLoop_eq_zero hz).resolve_left hend).2.1 hbad
  | case4 buf k st hend hshort hok ih =>
    obtain ⟨hv, hregs⟩ := (hv1 k (by omega)).of_agree (fillBuf_agree f k buf (defaultRegionSize_le_readCount ctx.checksums))
    rw [range'_nchunks hend, List.flatMap_cons, hregs, inOrderFrom_append] at hord
    obtain ⟨hA, hB⟩ := hord
    obtain ⟨hn, hc⟩ := chunkStats_v1 hv.1 hA
    rw [statsLoop, if_neg hend, if_neg hshort, if_neg hok,
      ih ((chunkLoop_eq_zero hz).resolve_left hend).2.2 (by rw [hn]; exact hB), hn, hc,
      range'_nchunks hend, List.flatMap_cons, hregs, lastEnd_append]
    have h1 := le_lastEnd hA
    have h2 := le_lastEnd hB
    omega

/-- **A V1 image counts every sector up to the end of its last region**: `nextsector` carries
the free count from one chunk into the next. -/
theorem dumpfile_v1_counts_to_last_region (opts : Opts) (prevId : List UInt8)
    (buf : Nat → UInt8) (f : ImageFile) (hq : opts.quickcheck = false)
    (h0 : dumpfile opts prevId f = 0)
    (hv1 : ∀ j, j * chunkSize < f.size → V1Chunk (chunkBytes f j))
    (hord : InOrderFrom 0 (imageRegions f)) :
    (dumpfileStats opts prevId buf f).2.counted = lastEnd 0 (imageRegions f) % 2 ^ 32 := by
  rcases Nat.eq_zero_or_pos f.size with hz | hpos
  · -- the empty file has no chunks
    rw [dumpfileStats_empty opts prevId buf hz, imageRegions, show nchunks f = 0 by rw [nchunks, hz]; decide]
    rfl
  · -- chunk 0, then the loop from chunk 1
    obtain ⟨count, hc, -, hloop, hst⟩ := dumpfileStats_of_accepted buf hq h0 hpos
    obtain ⟨hv, hregs⟩ := (hv1 0 (by rw [Nat.zero_mul]; exact hpos)).of_agree (fillBuf_agree f 0 buf hc)
    rw [imageRegions, range_nchunks hpos, List.flatMap_cons, hregs, inOrderFrom_append] at hord
    obtain ⟨hA, hB⟩ := hord
    have hinit : Stats.init.counted = 0 ∧ Stats.init.nextsector = 0 := ⟨rfl, rfl⟩
    rw [← hinit.2] at hA
    obtain ⟨hn, hcnt⟩ := chunkStats_v1 hv.1 hA
    rw [hinit.2] at hn hcnt hA
    rw [hst, statsLoop_v1 hv1 hloop (by rw [hn]; exact hB), hn, hcnt, hinit.1, imageRegions,
      range_nchunks hpos, List.flatMap_cons, hregs, lastEnd_append]
    have h1 := le_lastEnd hA
    have h2 := le_lastEnd hB
    omega

/-- Two V1 chunks that agree: regions `[10, 30)` and `[40, 70)`, then `[100, 105)`. -/
def v1Image : ImageFile :=
  chunksImage (2 * chunkSize)
    [hdrBytes compressedV1 0 0 2 defaultRegionSize ++ leBytes 4 2 ++ leBytes 4 10 ++ leBytes 4 20 ++
      leBytes 4 40 ++ leBytes 4 30,
     hdrBytes compressedV1 0 1 2 defaultRegionSize ++ leBytes 4 1 ++ leBytes 4 100 ++ leBytes 4 5]

theorem dumpfile_v1_counts_to_last_region_two :
    (dumpfileStats {} (List.replicate uuidLength 0) (fun _ => 0) v1Image).2.counted =
      lastEnd 0 (imageRegions v1Image) % 2 ^ 32 :=
  dumpfile_v1_counts_to_last_region {} (List.replicate uuidLength 0) (fun _ => 0) v1Image rfl
    (by rw [dumpfile, if_neg (by decide), if_neg (by decide), if_neg (by decide), if_neg (by decide),
      if_neg (by decide), chunkLoop, if_neg (by decide), if_neg (by decide), if_neg (by decide),
      chunkLoop, if_pos (by decide)])
    (fun j hj => by
      have hj2 : j = 0 ∨ j = 1 := by
        change j * (1024 * 1024) < 2 * (1024 * 1024) at hj
        omega
      rcases hj2 with rfl | rfl <;> decide)
    (by decide)

/-! ## The compressed size -/

/-- `cbytes`, `dbytes` and `tbytes` as `dumpfile` prints them at `done:`; an empty file counts as
`(chunkno + 1) * CHUNKSIZE` bytes. -/
def doneBytes (f : ImageFile) (st : Stats) : Nat × Nat × Nat :=
  let filesize := if f.size = 0 then chunkSize else f.size
  ((filesize + 2 ^ 64 - st.wasted) % 2 ^ 64, st.sectinuse * 512, st.counted * 512)

section Wasted

variable {st : Stats} {count : Nat}

@[simp] lemma addFree_wasted : (st.addFree count).wasted = st.wasted := by
  unfold Stats.addFree; split_ifs <;> rfl

@[simp] lemma addUse_wasted : (st.addUse count).wasted = st.wasted := rfl

lemma regionWalk_wasted (buf : Nat → UInt8) (st : Stats) : (regionWalk buf st).wasted = st.wasted := by
  unfold regionWalk regionLoop
  generalize List.range _ = l
  induction l generalizing st with
  | nil => rfl
  | cons i l ih =>
    rw [List.foldl_cons, ih]
    simp only [regionStep, addUse_wasted, addFree_wasted, apply_ite Stats.wasted, ite_self]

lemma relocWalk_wasted (buf : Nat → UInt8) (st : Stats) : (relocWalk buf st).wasted = st.wasted := by
  obtain ⟨r, rb, h⟩ := relocWalk_frame buf st
  rw [h]

/-- A chunk adds `CHUNKSIZE - size`, an `unsigned` difference, to `wasted`. -/
lemma chunkStats_wasted (buf : Nat → UInt8) (st : Stats) :
    (chunkStats buf st).wasted =
      (st.wasted + (chunkSize + 2 ^ 32 - (readHdr buf).size) % 2 ^ 32) % 2 ^ 64 := by
  unfold chunkStats
  dsimp only
  rw [apply_ite Stats.wasted, relocWalk_wasted, regionWalk_wasted, ite_self]

end Wasted

/-- A chunk that passes `dumpchunk` with `regionsize` in `[0, CHUNKSIZE]` has `size` at most
`CHUNKSIZE`, so `CHUNKSIZE - size` does not wrap. -/
lemma size_le_of_dumpchunk {ctx : DumpCtx} {hdr : BlockHdr} {k : Nat} (h : dumpchunk ctx hdr k = 0)
    (hr : 0 ≤ hdr.regionsize ∧ hdr.regionsize ≤ chunkSize) : hdr.size ≤ chunkSize := by
  have hsize := (chunkOk_of_dumpchunk h).size
  have hcs : chunkSize = 1048576 := rfl
  rw [hcs] at hr hsize ⊢
  omega

lemma wasted_add_chunk (w t : Nat) {s : Nat} (hs : s ≤ chunkSize) :
    ((w + (chunkSize + 2 ^ 32 - s) % 2 ^ 32) % 2 ^ 64 + t) % 2 ^ 64 = (w + (chunkSize - s + t)) % 2 ^ 64 := by
  have hcs : chunkSize = 1048576 := rfl
  rw [hcs] at hs ⊢
  omega

/-- **Run lemma**: a chunk loop that ends without error from chunk `k`, over chunks whose
`regionsize` is in `[0, CHUNKSIZE]`, adds `CHUNKSIZE - size` of chunks `k` to the last to
`wasted`, with no wrap of the `unsigned` differences. -/
lemma statsLoop_wasted {f : ImageFile} {ctx : DumpCtx}
    (hrs : ∀ j, j * chunkSize < f.size →
      0 ≤ (chunkHdr f j).regionsize ∧ (chunkHdr f j).regionsize ≤ chunkSize)
    {buf : Nat → UInt8} {k : Nat} {st : Stats} (hz : chunkLoop f ctx k = 0) (hw : st.wasted < 2 ^ 64) :
    (statsLoop f ctx buf k st).2.wasted =
      (st.wasted + ((List.range' k (nchunks f - k)).map fun j => chunkSize - (chunkHdr f j).size).sum) %
        2 ^ 64 := by
  induction buf, k, st using statsLoop.induct f ctx with
  | case1 buf k st hend =>
    rw [statsLoop, if_pos hend, nchunks_sub_of_le hend, List.range'_zero, List.map_nil, List.sum_nil, Nat.add_zero,
      Nat.mod_eq_of_lt hw]
  | case2 buf k st hend hshort =>
    exact absurd ((chunkLoop_eq_zero hz).resolve_left hend).1 (by omega)
  | case3 buf k st hend hshort hbad =>
    rw [readHdr_fillBuf_readCount buf] at hbad
    exact absurd ((chunkLoop_eq_zero hz).resolve_left hend).2.1 hbad
  | case4 buf k st hend hshort hok ih =>
    obtain ⟨-, hchunk, hnext⟩ := (chunkLoop_eq_zero hz).resolve_left hend
    rw [statsLoop, if_neg hend, if_neg hshort, if_neg hok,
      ih hnext (by rw [chunkStats_wasted]; exact Nat.mod_lt _ (by norm_num)), chunkStats_wasted,
      readHdr_fillBuf_readCount buf,
      range'_nchunks hend, List.map_cons, List.sum_cons]
    exact wasted_add_chunk _ _ (size_le_of_dumpchunk hchunk (hrs k (by omega)))

lemma sum_sub_add_sum (c : Nat) (a : Nat → Nat) (n : Nat) (h : ∀ j < n, a j ≤ c) :
    ((List.range n).map fun j => c - a j).sum + ((List.range n).map a).sum = n * c := by
  induction n with
  | zero => simp
  | succ n ih =>
    have := ih fun j hj => h j (by omega)
    have := h n (by omega)
    simp only [List.range_succ, List.map_append, List.sum_append, List.map_cons, List.map_nil,
      List.sum_cons, List.sum_nil, Nat.succ_mul]
    omega

/-- **The compressed size is the chunks' data**: `filesize - wasted` sums the `size` fields, no
`unsigned` difference wrapping while `regionsize` is in `[0, CHUNKSIZE]`. -/
theorem dumpfile_compressed_bytes (opts : Opts) (prevId : List UInt8) (buf : Nat → UInt8)
    (f : ImageFile) (hq : opts.quickcheck = false) (h0 : dumpfile opts prevId f = 0)
    (hpos : 0 < f.size) (hwhole : f.size % chunkSize = 0) (hsmall : f.size < 2 ^ 64)
    (hrs : ∀ j, j * chunkSize < f.size →
      0 ≤ (chunkHdr f j).regionsize ∧ (chunkHdr f j).regionsize ≤ chunkSize) :
    (doneBytes f (dumpfileStats opts prevId buf f).2).1 =
      ((List.range (nchunks f)).map fun j => (chunkHdr f j).size).sum := by
  obtain ⟨count, hc, hchunk0, hloop, hst⟩ := dumpfileStats_of_accepted buf hq h0 hpos
  have hsize : ∀ j < nchunks f, (chunkHdr f j).size ≤ chunkSize := fun j hj => by
    rcases Nat.eq_zero_or_pos j with rfl | hj0
    · exact size_le_of_dumpchunk hchunk0 (hrs 0 (by rw [Nat.zero_mul]; exact hpos))
    · exact size_le_of_dumpchunk (chunkLoop_checks hloop hj0 (lt_nchunks.1 hj)).2 (hrs j (lt_nchunks.1 hj))
  have hwasted : (dumpfileStats opts prevId buf f).2.wasted =
      ((List.range (nchunks f)).map fun j => chunkSize - (chunkHdr f j).size).sum % 2 ^ 64 := by
    have hinit : Stats.init.wasted = 0 := rfl
    rw [hst, statsLoop_wasted hrs hloop (by rw [chunkStats_wasted]; exact Nat.mod_lt _ (by norm_num)),
      chunkStats_wasted, readHdr_fillBuf buf (le_trans (by decide) hc),
      hinit, range_nchunks hpos, List.map_cons, List.sum_cons]
    rw [wasted_add_chunk 0 _ (hsize 0 (lt_nchunks.2 (by rw [Nat.zero_mul]; exact hpos))), Nat.zero_add]
  have hsum : ((List.range (nchunks f)).map fun j => chunkSize - (chunkHdr f j).size).sum +
      ((List.range (nchunks f)).map fun j => (chunkHdr f j).size).sum = nchunks f * chunkSize :=
    sum_sub_add_sum chunkSize (fun j => (chunkHdr f j).size) (nchunks f) hsize
  have hn : nchunks f * chunkSize = f.size := by
    unfold nchunks
    rw [show chunkSize = 1048576 from rfl] at hwhole ⊢
    omega
  unfold doneBytes
  dsimp only
  rw [if_neg hpos.ne', hwasted]
  omega


/-- Two V3 chunks that agree, holding 1000 and 2000 bytes of data. -/
def dataImage : ImageFile :=
  chunksImage (2 * chunkSize)
    [hdrBytes compressedV3 1000 0 2 defaultRegionSize, hdrBytes compressedV3 2000 1 2 defaultRegionSize]

theorem dumpfile_compressed_bytes_two :
    (doneBytes dataImage (dumpfileStats {} (List.replicate uuidLength 0) (fun _ => 0) dataImage).2).1 =
      ((List.range (nchunks dataImage)).map fun j => (chunkHdr dataImage j).size).sum :=
  dumpfile_compressed_bytes {} (List.replicate uuidLength 0) (fun _ => 0) dataImage rfl
    (by rw [dumpfile, if_neg (by decide), if_neg (by decide), if_neg (by decide), if_neg (by decide),
      if_neg (by decide), chunkLoop, if_neg (by decide), if_neg (by decide), if_neg (by decide),
      chunkLoop, if_pos (by decide)])
    (by decide) (by decide) (by decide) fun j hj => by
      have hj2 : j = 0 ∨ j = 1 := by
        change j * (1024 * 1024) < 2 * (1024 * 1024) at hj
        omega
      rcases hj2 with rfl | rfl <;> decide

end Imagezip.Dump
