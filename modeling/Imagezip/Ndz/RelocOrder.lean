import Mathlib
import Imagezip.Ndz.Reloc

/-!
# The order of the relocation table

The spec's relocation table keeps its records in ascending sector order, with `reloclo` and
`relochi` the least and greatest sector stored.  `ndz_reloc_get` only checks each new sector
against `reloclo`, and `ndz_reloc_free` keeps the bounds of the records it drops.  What the
code does keep is weaker: the records stay in order and inside `[reloclo, relochi]`.

* `relocGet_cases`: what a get that returns has done;
* `Built.sound`: tables built from `ndz_reloc_init` by gets of in-order records, frees and
  copies of the same width stay sorted and inside their bounds (run lemma);
* `free_keeps_bounds`: a free leaves the bounds of the dropped records, and a later get of a
  lower sector fails its `assert`.
-/

namespace Imagezip.Ndz

open NdzFile

/-! ## The spec -/

/-- The spec's count: the records with their sector in `[addr, addr + size - 1]`, or from
`addr` on when `size` is 0. -/
def countInRange (recs : List Reloc) (addr size : Nat) : Nat :=
  recs.countP fun r => addr ≤ r.sector ∧ (size = 0 ∨ r.sector ≤ addr + size - 1)

/-- A table as the spec has it, with bounds that bracket it: its block holds `relocentries`
records of the table's width, in ascending sector order and within `[reloclo, relochi]`. -/
structure Sound (ndz : NdzFile) : Prop where
  len : (ndz.relocdata.getD []).length = relocRsize ndz.reloc32 ndz.relocentries
  sorted : (ndz.records.map Reloc.sector).Sorted (· ≤ ·)
  lo : ∀ r ∈ ndz.records, ndz.reloclo ≤ r.sector
  hi : ∀ r ∈ ndz.records, r.sector ≤ ndz.relochi

/-- The records a get should receive: ascending, and not below a sector the table holds. -/
def InOrder (ndz : NdzFile) (recs : List Reloc) : Prop :=
  (recs.map Reloc.sector).Sorted (· ≤ ·) ∧ ∀ q ∈ ndz.records, ∀ r ∈ recs, q.sector ≤ r.sector

instance (ndz : NdzFile) (recs : List Reloc) : Decidable (InOrder ndz recs) :=
  inferInstanceAs (Decidable (_ ∧ _))

/-! ## Records -/

namespace NdzFile

variable (ndz : NdzFile)

@[simp] lemma length_records : ndz.records.length = ndz.relocentries := by simp [records]

@[simp] lemma records_relocInit : ndz.relocInit.records = [] := rfl

@[simp] lemma records_relocFree : ndz.relocFree.records = [] := rfl

end NdzFile

@[simp] lemma length_chunkRecords (hdr : BlockHdr) (buf : List UInt8) :
    (chunkRecords hdr buf).length = hdr.reloccount := by
  simp [chunkRecords]

lemma relocSize_pos (is32 : Bool) : 0 < relocSize is32 := by cases is32 <;> decide

lemma resize_of_length {l : List UInt8} {n : Nat} (h : l.length = n) : resize l n = l := by
  simp [resize, ← h]

lemma sector_relocAt_lt (is32 : Bool) (base : List UInt8) (ix : Nat) :
    (relocAt is32 base ix).sector < 2 ^ 64 := by
  cases is32
  · exact wordAt_lt _ 8 8
  · exact (wordAt_lt _ 4 4).trans (by decide)

/-- A sound table read in the width of a get that may append to it. -/
lemma Sound.width {ndz : NdzFile} (hs : Sound ndz) {w : Bool}
    (hw : ndz.relocdata.isSome → w = ndz.reloc32) :
    (ndz.relocdata.getD []).length = relocRsize w ndz.relocentries ∧
      ndz.records = (List.range ndz.relocentries).map (relocAt w (ndz.relocdata.getD [])) := by
  cases hd : ndz.relocdata with
  | some d => rw [hd] at hw; obtain rfl := hw rfl; exact ⟨by simpa [hd] using hs.len, by simp [records, hd]⟩
  | none =>
    have h0 : ndz.relocentries = 0 := by
      have := hs.len
      simp only [hd, Option.getD_none, List.length_nil, relocRsize] at this
      exact (Nat.mul_eq_zero.1 this.symm).resolve_right (relocSize_pos _).ne'
    simp [records, relocRsize, h0]

/-- Appending records in the table's width: the block reads as the old records, then the new. -/
lemma records_append {w : Bool} {d : List UInt8} {n : Nat} (hd : d.length = relocRsize w n)
    (recs : List Reloc) (hr : ∀ r ∈ recs, r.narrow w = r) :
    (List.range (n + recs.length)).map (relocAt w (d ++ (recs.map (encodeReloc w)).flatten)) =
      (List.range n).map (relocAt w d) ++ recs := by
  rw [List.range_add, List.map_append, List.map_map]
  congr 1
  · exact List.map_congr_left fun i hi =>
      relocAt_append_left (by rw [hd, relocRsize]; exact Nat.mul_le_mul_right _ (List.mem_range.1 hi))
  · refine List.ext_getElem (by simp) fun j h₁ h₂ => ?_
    simp only [List.getElem_map, List.getElem_range, Function.comp_apply]
    rw [relocAt_append_right hd, relocAt_flatten w recs h₂, hr _ (List.getElem_mem _)]

/-! ## Appending a chunk's records -/

/-- One sector of the bounds loop: `reloclo` does not go up and ends at or below the sector,
`relochi` does not go down and ends at or above it. -/
lemma addBound_spec {lo hi l₁ h₁ s : Nat} (hs : s < 2 ^ 64)
    (h : addBound (lo, hi) s = some (l₁, h₁)) : l₁ ≤ lo ∧ l₁ ≤ s ∧ hi ≤ h₁ ∧ s ≤ h₁ := by
  simp only [addBound] at h
  by_cases h1 : lo = ndzHiaddr <;> by_cases h2 : s > hi <;> simp [h1, h2] at h <;>
    simp only [ndzHiaddr] at * <;> omega

/-- The bounds loop of `ndz_reloc_get`: `reloclo` does not go up and ends at or below every new
sector, `relochi` does not go down and ends at or above every new sector. -/
lemma addBounds_spec {lo hi lo' hi' : Nat} {ss : List Nat} (hss : ∀ s ∈ ss, s < 2 ^ 64)
    (h : addBounds (lo, hi) ss = some (lo', hi')) :
    lo' ≤ lo ∧ hi ≤ hi' ∧ ∀ s ∈ ss, lo' ≤ s ∧ s ≤ hi' := by
  induction ss generalizing lo hi with
  | nil => cases h; simp
  | cons s ss ih =>
    simp only [addBounds, Option.bind_eq_some] at h
    obtain ⟨⟨l₁, h₁⟩, hb, hrest⟩ := h
    obtain ⟨hl₁, hls, hh₁, hsh⟩ := addBound_spec (hss s (.head _)) hb
    obtain ⟨hlo, hhi, hall⟩ := ih (fun x hx => hss x (.tail _ hx)) hrest
    refine ⟨hlo.trans hl₁, hh₁.trans hhi, fun x hx => ?_⟩
    rcases List.mem_cons.1 hx with rfl | hx
    exacts [⟨hlo.trans hls, hsh.trans hhi⟩, hall x hx]

/-- **Inversion lemma** for `ndz_reloc_get`: a get that returns either does nothing (no
relocations in the chunk), or has freed the table after a failed allocation, or has checked the
width and the bounds and appended the chunk's records. -/
lemma relocGet_cases {ok : Bool} {hdr : BlockHdr} {buf : List UInt8} {ndz ndz' : NdzFile}
    {ret : Int} (h : relocGet ok hdr buf ndz = some (ret, ndz')) :
    ndz' = ndz ∨ ndz' = { ndz with reloc32 := hdrIs32 hdr }.relocFree ∨
      (¬ hdr.magic < compressedV2 ∧ (ndz.relocdata.isSome → hdrIs32 hdr = ndz.reloc32) ∧
        ∃ lo hi, addBounds (ndz.reloclo, ndz.relochi) ((chunkRecords hdr buf).map Reloc.sector) =
          some (lo, hi) ∧ ndz' = { ndz with
            reloc32 := hdrIs32 hdr
            relocdata := some (resize (ndz.relocdata.getD [])
              (relocRsize (hdrIs32 hdr) ndz.relocentries) ++
              ((chunkRecords hdr buf).map (encodeReloc (hdrIs32 hdr))).flatten)
            relocentries := ndz.relocentries + hdr.reloccount
            reloclo := lo
            relochi := hi }) := by
  unfold relocGet at h
  split_ifs at h with h0 h1 h2
  · exact .inl (Prod.mk.inj (Option.some.inj h)).2.symm
  · simp only [Option.map_eq_some', Prod.mk.injEq] at h
    obtain ⟨⟨lo, hi⟩, hb, -, rfl⟩ := h
    refine .inr (.inr ⟨fun h => h0 (.inl h), fun hsome => ?_, lo, hi, hb, rfl⟩)
    by_contra hne
    exact h1 ⟨hsome, hne⟩
  · exact .inr (.inl (Prod.mk.inj (Option.some.inj h)).2.symm)

/-- **Step lemma** for `ndz_reloc_get`: a get of in-order records keeps a table sound. -/
lemma Sound.relocGet {ok : Bool} {hdr : BlockHdr} {buf : List UInt8} {ndz ndz' : NdzFile}
    {ret : Int} (hs : Sound ndz) (hin : InOrder ndz (chunkRecords hdr buf))
    (h : relocGet ok hdr buf ndz = some (ret, ndz')) : Sound ndz' := by
  rcases relocGet_cases h with rfl | rfl | ⟨-, hw, lo, hi, hb, rfl⟩
  · exact hs
  · exact ⟨by simp [relocFree, relocRsize], by simp, by simp, by simp⟩
  · obtain ⟨hlen, hrec⟩ := hs.width hw
    have hnarrow : ∀ r ∈ chunkRecords hdr buf, r.narrow (hdrIs32 hdr) = r := by
      simp [chunkRecords]
    have hrecs : (({ ndz with
        reloc32 := hdrIs32 hdr
        relocdata := some (resize (ndz.relocdata.getD [])
          (relocRsize (hdrIs32 hdr) ndz.relocentries) ++
          ((chunkRecords hdr buf).map (encodeReloc (hdrIs32 hdr))).flatten)
        relocentries := ndz.relocentries + hdr.reloccount
        reloclo := lo
        relochi := hi } : NdzFile).records) = ndz.records ++ chunkRecords hdr buf := by
      rw [records, hrec]
      simpa [resize_of_length hlen, chunkRecords] using records_append hlen _ hnarrow
    obtain ⟨hlo, hhi, hall⟩ := addBounds_spec (fun x hx => by
      obtain ⟨r, hr, rfl⟩ := List.mem_map.1 hx
      obtain ⟨i, -, rfl⟩ := List.mem_map.1 hr
      exact sector_relocAt_lt _ _ _) hb
    refine ⟨?_, ?_, ?_, ?_⟩
    · have hk : ∀ x ∈ (chunkRecords hdr buf).map (encodeReloc (hdrIs32 hdr)),
          x.length = relocSize (hdrIs32 hdr) := by simp
      simp only [Option.getD_some, List.length_append, length_flatten_blocks hk, List.length_map,
        resize, List.length_take, List.length_replicate, length_chunkRecords, relocRsize]
      rw [Nat.min_eq_left (by omega), Nat.add_mul]
    · rw [hrecs, List.map_append]
      exact List.pairwise_append.2 ⟨hs.sorted, hin.1, by simpa using hin.2⟩
    · rw [hrecs]
      intro r hr
      rcases List.mem_append.1 hr with hr | hr
      · exact hlo.trans (hs.lo r hr)
      · exact (hall _ (List.mem_map_of_mem _ hr)).1
    · rw [hrecs]
      intro r hr
      rcases List.mem_append.1 hr with hr | hr
      · exact (hs.hi r hr).trans hhi
      · exact (hall _ (List.mem_map_of_mem _ hr)).2

/-! ## Initialising, freeing and copying -/

lemma sound_relocInit (ndz : NdzFile) : Sound ndz.relocInit :=
  ⟨by simp [relocInit, relocRsize], by simp, by simp, by simp⟩

lemma sound_relocFree (ndz : NdzFile) : Sound ndz.relocFree :=
  ⟨by simp [relocFree, relocRsize], by simp, by simp, by simp⟩

/-- A copy that returns `0` from a sound table into an empty one of the same width reads as the
source: the same records and bounds. -/
lemma relocCopy_reads {ok : Bool} {src dst dst' : NdzFile} (hs : Sound src)
    (hw : dst.reloc32 = src.reloc32) (hd : dst.relocentries = 0) (hn : src.relocentries ≠ 0)
    (h : relocCopy ok src dst = (0, dst')) :
    dst'.records = src.records ∧ dst'.relocentries = src.relocentries ∧
      dst'.reloclo = src.reloclo ∧ dst'.relochi = src.relochi ∧
      dst'.relocdata = some (src.relocdata.getD []) := by
  unfold relocCopy at h
  rw [if_neg (by omega), if_neg hn] at h
  split_ifs at h
  · obtain ⟨-, rfl⟩ := Prod.mk.inj h
    simp [records, hw, resize_of_length hs.len]
  · exact absurd (Prod.mk.inj h).1 (by decide)

/-- **Step lemma** for `ndz_reloc_copy`: a copy between sound tables of the same width leaves
a sound table. -/
lemma Sound.relocCopy {ok : Bool} {src dst : NdzFile} (hs : Sound src) (hd : Sound dst)
    (hw : dst.reloc32 = src.reloc32) : Sound (relocCopy ok src dst).2 := by
  by_cases h1 : dst.relocentries > 0
  · simpa [Imagezip.Ndz.relocCopy, h1] using hd
  by_cases h2 : src.relocentries = 0
  · simpa [Imagezip.Ndz.relocCopy, h1, h2] using hd
  cases ok
  · have h0 : (Imagezip.Ndz.relocCopy false src dst).2 = dst.relocFree := by
      simp [Imagezip.Ndz.relocCopy, h1, h2, relocFree, show dst.relocentries = 0 by omega]
    exact h0 ▸ sound_relocFree dst
  · set t := (Imagezip.Ndz.relocCopy true src dst).2
    have hc : Imagezip.Ndz.relocCopy true src dst = (0, t) := by
      simp [t, Imagezip.Ndz.relocCopy, h1, h2]
    obtain ⟨hrec, hn, hlo, hhi, hdata⟩ := relocCopy_reads hs hw (by omega) h2 hc
    have ht : t.reloc32 = src.reloc32 := by simp [t, Imagezip.Ndz.relocCopy, h1, h2, hw]
    exact ⟨by rw [hdata, Option.getD_some, ht, hn, hs.len], hrec ▸ hs.sorted,
      hrec ▸ hlo ▸ hs.lo, hrec ▸ hhi ▸ hs.hi⟩

/-! ## Whole runs -/

/-- The tables the code builds: from `ndz_reloc_init`, by gets of in-order records whether
their allocation succeeds or not, by frees, and by copies from a built table of the same width
into a built one. -/
inductive Built : NdzFile → Prop
  | init (ndz : NdzFile) : Built ndz.relocInit
  | get {ok : Bool} {hdr : BlockHdr} {buf : List UInt8} {ndz ndz' : NdzFile} {ret : Int} :
      Built ndz → InOrder ndz (chunkRecords hdr buf) → relocGet ok hdr buf ndz = some (ret, ndz') →
      Built ndz'
  | free {ndz : NdzFile} : Built ndz → Built ndz.relocFree
  | copy {ok : Bool} {src dst : NdzFile} : Built src → Built dst → dst.reloc32 = src.reloc32 →
      Built (relocCopy ok src dst).2

/-- **Run lemma**: every built table is sound. -/
theorem Built.sound {ndz : NdzFile} (h : Built ndz) : Sound ndz := by
  induction h with
  | init ndz => exact sound_relocInit ndz
  | get _ hin hget ih => exact ih.relocGet hin hget
  | free _ _ => exact sound_relocFree _
  | copy _ _ hw ihs ihd => exact ihs.relocCopy ihd hw

/-- Records at sectors 5 and 10 from one chunk make a sound table. -/
theorem Built.sound_two :
    Sound ⟨true, some (encodeReloc true ⟨1, 5, 0, 4⟩ ++ encodeReloc true ⟨1, 10, 0, 4⟩),
      2, 5, 10, 512⟩ :=
  Built.sound
    (@Built.get true { magic := compressedV3, reloccount := 2 }
      (encodeReloc true ⟨1, 5, 0, 4⟩ ++ encodeReloc true ⟨1, 10, 0, 4⟩)
      (NdzFile.relocInit ⟨false, none, 0, 0, 0, 512⟩) _ 0 (.init _) (by decide) (by decide))

/-- **A free keeps the bounds.**  After `ndz_reloc_init` and a get of one record at sector 5,
`ndz_reloc_free` leaves a table with no record but `reloclo = relochi = 5`, not the sentinels.
A get of one record at sector 3, below no record the table holds, then fails its `assert`. -/
theorem free_keeps_bounds :
    relocGet true { magic := compressedV3, reloccount := 1 } (encodeReloc true ⟨1, 5, 0, 4⟩)
        (⟨false, none, 0, 0, 0, 512⟩ : NdzFile).relocInit =
      some (0, ⟨true, some (encodeReloc true ⟨1, 5, 0, 4⟩), 1, 5, 5, 512⟩) ∧
    (⟨true, some (encodeReloc true ⟨1, 5, 0, 4⟩), 1, 5, 5, 512⟩ : NdzFile).relocFree =
      ⟨true, none, 0, 5, 5, 512⟩ ∧
    InOrder ⟨true, none, 0, 5, 5, 512⟩
      (chunkRecords { magic := compressedV3, reloccount := 1 } (encodeReloc true ⟨1, 3, 0, 4⟩)) ∧
    relocGet true { magic := compressedV3, reloccount := 1 } (encodeReloc true ⟨1, 3, 0, 4⟩)
      ⟨true, none, 0, 5, 5, 512⟩ = none := by
  decide

end Imagezip.Ndz
