import Imagezip.Ndz.RelocOrder

/-!
# Reading the relocation table

`ndz_reloc_inrange` counts the records in an interval and `ndz_reloc_put` copies those in a
chunk's interval into the chunk's header.  Both skip the scan when the interval misses
`[reloclo, relochi]`, and `ndz_reloc_inrange` leaves its loop at the first record past the
interval.  On a built table these shortcuts agree with a full scan; with records out of order
the early `break` loses some.  `ndz_reloc_put` bounds a chunk by the header's 32-bit
`firstsect` and `lastsect` whatever the table's width, and `ndz_reloc_copy` does not copy the
width.

* `relocInrange_built`: on a built table `ndz_reloc_inrange` gives the spec's count;
* `inrange_misses_out_of_order`: records `5, 10` and then `7` pass the check of
  `ndz_reloc_get`, and `[7, 7]` counts none of them;
* `relocPut_built`: on a built table `ndz_reloc_put` writes the records in
  `[firstsect, lastsect)` in stored order, as many as `ndz_reloc_inrange` counts there;
* `put_reads_32bit_bounds`: a 64-bit chunk over `[2^32, 2^32 + 10)` gets no record at
  `2^32 + 5`;
* `relocCopy_same_width`: a copy into an empty table of the source's width and sector size
  answers every query as the source;
* `copy_drops_width`: a 64-bit table copied into a fresh one is read as 32-bit records.
-/

namespace Imagezip.Ndz

open NdzFile

/-! ## Counting -/

/-- The loop of `ndz_reloc_inrange` over records in ascending order counts every record in
`[addr, eaddr]`: those after the `break` are past `eaddr`. -/
lemma inrangeLoop_sorted {sectsize addr eaddr : Nat} {recs : List Reloc}
    (hs : (recs.map Reloc.sector).Sorted (· ≤ ·)) (hf : ∀ r ∈ recs, fitsSector sectsize r) :
    inrangeLoop sectsize addr eaddr recs =
      some (recs.countP fun r => addr ≤ r.sector ∧ r.sector ≤ eaddr) := by
  induction recs with
  | nil => rfl
  | cons r rs ih =>
    rw [List.map_cons, List.sorted_cons] at hs
    rw [inrangeLoop, if_pos (hf r (.head _))]
    by_cases he : r.sector > eaddr
    · -- `break`: the records after it lie past `eaddr` too
      rw [if_pos he, eq_comm, Option.some_inj, List.countP_eq_zero]
      intro q hq
      rcases List.mem_cons.1 hq with rfl | hq
      · simp only [decide_eq_true_eq]; omega
      · have := hs.1 _ (List.mem_map_of_mem _ hq)
        simp only [decide_eq_true_eq]; omega
    · rw [if_neg he, ih hs.2 fun q hq => hf q (.tail _ hq), Option.map_some', List.countP_cons]
      by_cases hin : addr ≤ r.sector ∧ r.sector ≤ eaddr <;> simp [hin]

/-- On a sound table whose records fit their sectors, `ndz_reloc_inrange` gives the spec's
count for every interval that ends by sector `2^64`. -/
lemma relocInrange_sound {ndz : NdzFile} (hs : Sound ndz)
    (hf : ∀ r ∈ ndz.records, fitsSector ndz.sectsize r) {addr size : Nat}
    (hw : addr + size ≤ 2 ^ 64) :
    relocInrange ndz addr size = some (countInRange ndz.records addr size) := by
  simp only [relocInrange]
  generalize he : (if size = 0 then (if ndz.relochi > addr then ndz.relochi else addr)
    else (addr + size - 1) % 2 ^ 64) = eaddr
  -- the code's interval `[addr, eaddr]` holds the stored records the spec counts
  have key : ∀ r ∈ ndz.records, (addr ≤ r.sector ∧ r.sector ≤ eaddr) ↔
      (addr ≤ r.sector ∧ (size = 0 ∨ r.sector ≤ addr + size - 1)) := by
    intro r hr
    have := hs.hi r hr
    by_cases h0 : size = 0
    · simp only [h0, if_true] at he
      split_ifs at he <;> simp only [h0, true_or, and_true] <;> omega
    · rw [if_neg h0, Nat.mod_eq_of_lt (by omega)] at he
      simp only [h0, false_or, he]
  split_ifs with hexit
  · -- the shortcut: no stored record is in the interval
    refine congrArg some (List.countP_eq_zero.2 fun r hr hP => ?_).symm
    rw [decide_eq_true_eq, ← key r hr] at hP
    have := hs.lo r hr
    have := hs.hi r hr
    rcases hexit with h | h | h
    · simp [records, h] at hr
    all_goals omega
  · rw [inrangeLoop_sorted hs.sorted hf, countInRange]
    exact congrArg some (List.countP_congr fun r hr => by simpa using key r hr)

/-- **Counting on a built table**: the shortcuts and the `break` of `ndz_reloc_inrange` agree
with a full scan. -/
theorem relocInrange_built {ndz : NdzFile} (hb : Built ndz)
    (hf : ∀ r ∈ ndz.records, fitsSector ndz.sectsize r) {addr size : Nat}
    (hw : addr + size ≤ 2 ^ 64) :
    relocInrange ndz addr size = some (countInRange ndz.records addr size) :=
  relocInrange_sound hb.sound hf hw

/-- Records at sectors 5 and 10 from one chunk: `[5, 10]` holds both. -/
theorem relocInrange_built_two :
    relocInrange ⟨true, some (encodeReloc true ⟨1, 5, 0, 4⟩ ++ encodeReloc true ⟨1, 10, 0, 4⟩),
        2, 5, 10, 512⟩ 5 6 =
      some (countInRange (NdzFile.records ⟨true, some (encodeReloc true ⟨1, 5, 0, 4⟩ ++
        encodeReloc true ⟨1, 10, 0, 4⟩), 2, 5, 10, 512⟩) 5 6) :=
  relocInrange_built
    (@Built.get true { magic := compressedV3, reloccount := 2 }
      (encodeReloc true ⟨1, 5, 0, 4⟩ ++ encodeReloc true ⟨1, 10, 0, 4⟩)
      (NdzFile.relocInit ⟨false, none, 0, 0, 0, 512⟩) _ 0 (.init _) (by decide) (by decide))
    (by decide) (by decide)

/-- **The early `break` loses records out of order**: a record at 7 stored after one at 10 is
not counted in `[7, 7]`. -/
theorem inrange_misses_out_of_order :
    relocGet true { magic := compressedV3, reloccount := 2 }
        (encodeReloc true ⟨1, 5, 0, 4⟩ ++ encodeReloc true ⟨1, 10, 0, 4⟩)
        (⟨false, none, 0, 0, 0, 512⟩ : NdzFile).relocInit =
      some (0, ⟨true, some (encodeReloc true ⟨1, 5, 0, 4⟩ ++ encodeReloc true ⟨1, 10, 0, 4⟩),
        2, 5, 10, 512⟩) ∧
    relocGet true { magic := compressedV3, reloccount := 1 } (encodeReloc true ⟨1, 7, 0, 4⟩)
        ⟨true, some (encodeReloc true ⟨1, 5, 0, 4⟩ ++ encodeReloc true ⟨1, 10, 0, 4⟩),
          2, 5, 10, 512⟩ =
      some (0, ⟨true, some (encodeReloc true ⟨1, 5, 0, 4⟩ ++ encodeReloc true ⟨1, 10, 0, 4⟩ ++
        encodeReloc true ⟨1, 7, 0, 4⟩), 3, 5, 10, 512⟩) ∧
    relocInrange ⟨true, some (encodeReloc true ⟨1, 5, 0, 4⟩ ++ encodeReloc true ⟨1, 10, 0, 4⟩ ++
        encodeReloc true ⟨1, 7, 0, 4⟩), 3, 5, 10, 512⟩ 7 1 = some 0 ∧
    countInRange (NdzFile.records ⟨true, some (encodeReloc true ⟨1, 5, 0, 4⟩ ++
        encodeReloc true ⟨1, 10, 0, 4⟩ ++ encodeReloc true ⟨1, 7, 0, 4⟩), 3, 5, 10, 512⟩) 7 1 = 1 := by
  decide

/-! ## Selecting a chunk's records -/

/-- The spec's selection for a chunk: the records with their sector in `[first, last)`, in
stored order. -/
def selectInRange (recs : List Reloc) (first last : Nat) : List Reloc :=
  recs.filter fun r => first ≤ r.sector ∧ r.sector < last

/-- The loop of `ndz_reloc_put` keeps the records in the chunk's interval when every record fits
its sector. -/
lemma putLoop_eq {sectsize first last : Nat} {recs : List Reloc}
    (hf : ∀ r ∈ recs, fitsSector sectsize r) :
    putLoop sectsize first last recs = some (selectInRange recs first last) := by
  induction recs with
  | nil => rfl
  | cons r rs ih =>
    rw [putLoop, if_pos (hf r (.head _)), ih fun q hq => hf q (.tail _ hq), Option.map_some']
    by_cases hin : first ≤ r.sector ∧ r.sector < last <;> simp [hin, selectInRange, List.filter_cons]

/-- On a sound table whose records fit their sectors, `ndz_reloc_put` writes the records in
`[firstsect, lastsect)`: its shortcut only skips tables with none there. -/
lemma relocPut_sound {ndz : NdzFile} (hs : Sound ndz)
    (hf : ∀ r ∈ ndz.records, fitsSector ndz.sectsize r) (hdr : BlockHdr) :
    relocPut hdr ndz = some ((selectInRange ndz.records hdr.firstsect hdr.lastsect).map
      (encodeReloc ndz.reloc32)).flatten := by
  rw [relocPut]
  split_ifs with hexit
  · -- the shortcut: no stored record is in the chunk
    suffices selectInRange ndz.records hdr.firstsect hdr.lastsect = [] by simp [this]
    refine List.filter_eq_nil_iff.2 fun r hr hP => ?_
    simp only [decide_eq_true_eq] at hP
    have := hs.lo r hr
    have := hs.hi r hr
    rcases hexit with h | h | h
    · simp [records, h] at hr
    all_goals omega
  · rw [putLoop_eq hf, Option.map_some']

/-- The spec's count over `[first, last)` is the number of records selected there. -/
lemma countInRange_eq_length_select (recs : List Reloc) {first last : Nat} (h : first < last) :
    countInRange recs first (last - first) = (selectInRange recs first last).length := by
  rw [selectInRange, ← List.countP_eq_length_filter, countInRange]
  exact List.countP_congr fun r _ => by simp only [decide_eq_true_eq]; omega

/-- **Selecting on a built table**: `ndz_reloc_put` writes the records in the header's interval,
as many as `ndz_reloc_inrange` counts there. -/
theorem relocPut_built {ndz : NdzFile} (hb : Built ndz)
    (hf : ∀ r ∈ ndz.records, fitsSector ndz.sectsize r) (hdr : BlockHdr) :
    relocPut hdr ndz = some ((selectInRange ndz.records hdr.firstsect hdr.lastsect).map
      (encodeReloc ndz.reloc32)).flatten ∧
    (hdr.firstsect < hdr.lastsect → hdr.lastsect ≤ 2 ^ 64 →
      relocInrange ndz hdr.firstsect (hdr.lastsect - hdr.firstsect) =
        some (selectInRange ndz.records hdr.firstsect hdr.lastsect).length) := by
  refine ⟨relocPut_sound hb.sound hf hdr, fun hlt hle => ?_⟩
  rw [relocInrange_sound hb.sound hf (by omega), countInRange_eq_length_select _ hlt]

/-- A 32-bit table with records at sectors 5 and 10, and a chunk over `[4, 8)`. -/
theorem relocPut_built_two :
    relocPut { magic := compressedV3, firstsect := 4, lastsect := 8 }
        ⟨true, some (encodeReloc true ⟨1, 5, 0, 4⟩ ++ encodeReloc true ⟨1, 10, 0, 4⟩),
          2, 5, 10, 512⟩ =
      some ((selectInRange (NdzFile.records ⟨true, some (encodeReloc true ⟨1, 5, 0, 4⟩ ++
        encodeReloc true ⟨1, 10, 0, 4⟩), 2, 5, 10, 512⟩) 4 8).map (encodeReloc true)).flatten ∧
    (4 < 8 → 8 ≤ 2 ^ 64 →
      relocInrange ⟨true, some (encodeReloc true ⟨1, 5, 0, 4⟩ ++ encodeReloc true ⟨1, 10, 0, 4⟩),
          2, 5, 10, 512⟩ 4 (8 - 4) =
        some (selectInRange (NdzFile.records ⟨true, some (encodeReloc true ⟨1, 5, 0, 4⟩ ++
          encodeReloc true ⟨1, 10, 0, 4⟩), 2, 5, 10, 512⟩) 4 8).length) :=
  relocPut_built
    (@Built.get true { magic := compressedV3, reloccount := 2 }
      (encodeReloc true ⟨1, 5, 0, 4⟩ ++ encodeReloc true ⟨1, 10, 0, 4⟩)
      (NdzFile.relocInit ⟨false, none, 0, 0, 0, 512⟩) _ 0 (.init _) (by decide) (by decide))
    (by decide) { magic := compressedV3, firstsect := 4, lastsect := 8 }

/-- **A 64-bit chunk is bounded by its 32-bit fields**: `ndz_reloc_put` compares `lastsect = 10`
and misses a record at `2^32 + 5` inside the chunk. -/
theorem put_reads_32bit_bounds :
    relocGet true { magic := compressedV5, reloccount := 1 } (encodeReloc false ⟨1, 2 ^ 32 + 5, 0, 4⟩)
        (⟨false, none, 0, 0, 0, 512⟩ : NdzFile).relocInit =
      some (0, ⟨false, some (encodeReloc false ⟨1, 2 ^ 32 + 5, 0, 4⟩), 1, 2 ^ 32 + 5, 2 ^ 32 + 5,
        512⟩) ∧
    relocPut
        { magic := compressedV5, firstsect := 0, lastsect := 10, firstsect64 := 2 ^ 32,
          lastsect64 := 2 ^ 32 + 10 }
        ⟨false, some (encodeReloc false ⟨1, 2 ^ 32 + 5, 0, 4⟩), 1, 2 ^ 32 + 5, 2 ^ 32 + 5, 512⟩ =
      some [] ∧
    relocInrange ⟨false, some (encodeReloc false ⟨1, 2 ^ 32 + 5, 0, 4⟩), 1, 2 ^ 32 + 5,
        2 ^ 32 + 5, 512⟩ (2 ^ 32) 10 = some 1 := by
  decide

/-! ## Copying -/

/-- **Copying within one width.**  A copy that returns `0` from a built table into a table with
no entries, of the source's width and sector size, answers every `ndz_reloc_inrange` and every
`ndz_reloc_put` as the source does. -/
theorem relocCopy_same_width {ok : Bool} {src dst dst' : NdzFile} (hb : Built src)
    (hd : dst.relocentries = 0) (hw : dst.reloc32 = src.reloc32)
    (hss : dst.sectsize = src.sectsize) (hc : relocCopy ok src dst = (0, dst')) :
    (∀ addr size, relocInrange dst' addr size = relocInrange src addr size) ∧
      ∀ hdr, relocPut hdr dst' = relocPut hdr src := by
  by_cases hn : src.relocentries = 0
  · -- nothing to copy: both tables are empty
    have : dst' = dst := by simpa [relocCopy, hd, hn] using hc.symm
    subst this
    exact ⟨fun _ _ => by simp [relocInrange, hd, hn], fun _ => by simp [relocPut, hd, hn]⟩
  obtain ⟨hrec, hent, hlo, hhi, -⟩ := relocCopy_reads hb.sound hw hd hn hc
  have hfield : dst'.reloc32 = src.reloc32 ∧ dst'.sectsize = src.sectsize := by
    unfold relocCopy at hc
    rw [if_neg (by omega), if_neg hn] at hc
    split_ifs at hc
    · obtain ⟨-, rfl⟩ := Prod.mk.inj hc
      exact ⟨hw, hss⟩
    · exact absurd (Prod.mk.inj hc).1 (by decide)
  exact ⟨fun _ _ => by simp only [relocInrange, hrec, hent, hlo, hhi, hfield.2],
    fun _ => by simp only [relocPut, hrec, hent, hlo, hhi, hfield]⟩

/-- A 32-bit table with one record at sector 5, copied into a fresh one. -/
theorem relocCopy_same_width_one :
    (∀ addr size, relocInrange (relocCopy true ⟨true, some (encodeReloc true ⟨1, 5, 0, 4⟩),
        1, 5, 5, 512⟩ (⟨false, none, 0, 0, 0, 512⟩ : NdzFile).relocInit).2 addr size =
      relocInrange ⟨true, some (encodeReloc true ⟨1, 5, 0, 4⟩), 1, 5, 5, 512⟩ addr size) ∧
    ∀ hdr, relocPut hdr (relocCopy true ⟨true, some (encodeReloc true ⟨1, 5, 0, 4⟩),
        1, 5, 5, 512⟩ (⟨false, none, 0, 0, 0, 512⟩ : NdzFile).relocInit).2 =
      relocPut hdr ⟨true, some (encodeReloc true ⟨1, 5, 0, 4⟩), 1, 5, 5, 512⟩ :=
  @relocCopy_same_width true _ (NdzFile.relocInit ⟨false, none, 0, 0, 0, 512⟩) _
    (@Built.get true { magic := compressedV3, reloccount := 1 } (encodeReloc true ⟨1, 5, 0, 4⟩)
      (NdzFile.relocInit ⟨false, none, 0, 0, 0, 512⟩) _ 0 (.init _) (by decide) (by decide))
    rfl rfl rfl rfl

/-- **A copy does not carry the width**: the copy reads a 24-byte record as 32-bit ones and
counts none where the source counts one. -/
theorem copy_drops_width :
    relocGet true { magic := compressedV5, reloccount := 1 } (encodeReloc false ⟨1, 5, 0, 4⟩)
        (⟨false, none, 0, 0, 0, 512⟩ : NdzFile).relocInit =
      some (0, ⟨false, some (encodeReloc false ⟨1, 5, 0, 4⟩), 1, 5, 5, 512⟩) ∧
    relocCopy true ⟨false, some (encodeReloc false ⟨1, 5, 0, 4⟩), 1, 5, 5, 512⟩
        (⟨false, none, 0, 0, 0, 512⟩ : NdzFile).relocInit =
      (0, ⟨true, some (encodeReloc false ⟨1, 5, 0, 4⟩), 1, 5, 5, 512⟩) ∧
    relocInrange ⟨false, some (encodeReloc false ⟨1, 5, 0, 4⟩), 1, 5, 5, 512⟩ 5 1 = some 1 ∧
    relocInrange ⟨true, some (encodeReloc false ⟨1, 5, 0, 4⟩), 1, 5, 5, 512⟩ 5 1 = some 0 ∧
    relocPut { magic := compressedV5, firstsect := 5, lastsect := 6 }
        ⟨false, some (encodeReloc false ⟨1, 5, 0, 4⟩), 1, 5, 5, 512⟩ =
      some (encodeReloc false ⟨1, 5, 0, 4⟩) ∧
    relocPut { magic := compressedV5, firstsect := 5, lastsect := 6 }
        ⟨true, some (encodeReloc false ⟨1, 5, 0, 4⟩), 1, 5, 5, 512⟩ = some [] := by
  decide

end Imagezip.Ndz
