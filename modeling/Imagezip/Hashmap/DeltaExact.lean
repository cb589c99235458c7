import Imagezip.Hashmap.MergeInv

/-!
# The delta list is exact while sectors fit in 32 bits

`*nranges` should hold exactly the allocated sectors that no skippable prior region covers
(`InDelta`), as a canonical range list.  The merge keeps `MergeInv` at every step, so when
`hashmap_compute_delta` returns `0` this holds as long as every range ends below 2^32.

Above that it fails: `add_to_range(&range_tail, start, size)` takes `uint32_t start`, so a run
at sector 2^32 is recorded at sector 0.

* `mergeInv_init`: the merge starts in its invariant;
* `delta_exact_below_2_32`: the law for every input below 2^32;
* `delta_wraps_at_2_32`: the run `[2^32, 2^32 + 1)` comes back as `[0, 1)`.
-/

namespace Imagezip.Hashmap

variable {env : Env} {newhashfile hashFree : Bool} {cur : List Range}

/-- The merge starts in its invariant: an empty output and the cursor at the first range. -/
lemma mergeInv_init (hcur : Ascending cur) (hinfo : HashInfo) (s : St) :
    MergeInv env (hashFuncOf hinfo.hashtype).2 (hashFuncOf hinfo.hashtype).1 hashFree cur
      hinfo.regions ⟨.top, hinfo.regions, cur⟩ (mergeStart newhashfile hinfo s) := by
  refine ⟨rfl, rfl, [], rfl, ⟨⟨List.chain'_nil, by simp⟩, by simp, by simp, Cursor.init hcur,
    ⟨[], by simp [Loc.pending], by simp⟩, fun x => ?_, trivial⟩⟩
  simp only [covers_nil, false_iff, not_and]
  intro hx hb
  cases cur with
  | nil => simpa using hx.1
  | cons E rest => exact hcur.not_covers_of_lt ((before_cons _ _ _).mp hb) hx.1

/-- **Delta exactness below 2^32**: `*nranges` is canonical and holds exactly the sectors of the
delta. -/
theorem delta_exact_below_2_32 {fuel : Nat} {hfile : Option (Option (List UInt8))} {infd : Int}
    {ssect : Nat} {hinfo : HashInfo} {s s₁ s' : St} {nranges : List Range}
    (hD : Small cur hinfo.regions)
    (hload : loadSig env hfile { s with imagefd := infd, poffset := ssect } = .ok hinfo s₁)
    (H : hashmapComputeDelta env newhashfile hashFree fuel cur hfile infd ssect s =
      .ok (0, some nranges) s') :
    Canonical nranges ∧ ∀ x, covers nranges x ↔
      InDelta env (hashFuncOf hinfo.hashtype).2 (hashFuncOf hinfo.hashtype).1 hashFree cur
        hinfo.regions x := by
  obtain ⟨-, ⟨s₂, hl, -⟩ | ⟨hinfo', s₂, hl, hdf⟩⟩ := hashmapComputeDelta_ok H
  · rw [hload] at hl
    cases hl
  rw [hload] at hl
  obtain ⟨rfl, rfl⟩ := Res.ok.inj hl
  rcases deltaFrom_ok hdf with ⟨l, sr, hrun, hfin⟩ | ⟨sr, -, hon⟩
  · obtain ⟨hr, -⟩ := finish_ok hfin
    obtain ⟨⟨-, -, rn, hrn, hO⟩, hdone⟩ := run_inv _ (fun _ _ _ _ hI hd h => mergeInv_step hD hI hd h)
      (mergeInv_init hD.cur_asc hinfo _) hrun
    have hnr : nranges = rn.reverse := by
      simp only [Prod.mk.injEq, Option.some.injEq, true_and] at hr
      simp [hr, hrn]
    obtain ⟨pc, hregs, ds⟩ := l
    simp only at hdone
    subst hdone hnr
    have hds : ds = [] := hO.pc
    subst hds
    exact ⟨canonical_reverse.mpr hO.canon, fun x => by simp [hO.exact x]⟩
  · obtain ⟨hr, -⟩ := onError_ok hon
    simp at hr

/-- The law on the allocation `[0, 3) ∪ [8, 18)` against a prior signature whose region
`[10, 14)` still matches the disk: the delta is the allocation less that region. -/
theorem delta_exact_below_2_32_prior :
    ∃ s₁ s', Small [⟨0, 3⟩, ⟨8, 10⟩] [(⟨10, 4, 0, hashBuf [0]⟩ : HashRegion)] ∧
      loadSig Env.plain
        (some (some (encodeHdr 8 true 3 hashTypeMd5 1 128 ++ encodeRegion ⟨10, 4, 0, [0]⟩)))
        { St.init with imagefd := 0, poffset := 0 } =
        .ok ⟨true, 3, hashTypeMd5, 128, [⟨10, 4, 0, hashBuf [0]⟩]⟩ s₁ ∧
      hashmapComputeDelta Env.plain true false 12 [⟨0, 3⟩, ⟨8, 10⟩]
        (some (some (encodeHdr 8 true 3 hashTypeMd5 1 128 ++ encodeRegion ⟨10, 4, 0, [0]⟩))) 0 0
        St.init = .ok (0, some [⟨0, 3⟩, ⟨8, 2⟩, ⟨14, 4⟩]) s' ∧
      (Canonical [⟨0, 3⟩, ⟨8, 2⟩, ⟨14, 4⟩] ∧ ∀ x, covers [⟨0, 3⟩, ⟨8, 2⟩, ⟨14, 4⟩] x ↔
        InDelta Env.plain (hashFuncOf hashTypeMd5).2 (hashFuncOf hashTypeMd5).1 false
          [⟨0, 3⟩, ⟨8, 10⟩] [⟨10, 4, 0, hashBuf [0]⟩] x) :=
  have hD : Small [⟨0, 3⟩, ⟨8, 10⟩] [(⟨10, 4, 0, hashBuf [0]⟩ : HashRegion)] :=
    ⟨⟨by simp [Range.stop], by simp⟩, by simp [Range.stop], ⟨List.chain'_singleton _, by simp⟩,
      by simp⟩
  ⟨_, _, hD, prior_region_load, prior_region_call,
    delta_exact_below_2_32 hD prior_region_load prior_region_call⟩

/-- **The 64-bit counterpart fails.**  A fresh signature and one allocated sector at 2^32:
`hashmap_compute_delta` returns `0` with `*nranges = [0, 1)`, which misses the changed sector
2^32 and names sector 0 instead. -/
theorem delta_wraps_at_2_32 :
    ∃ s', hashmapComputeDelta Env.plain false false 10 [⟨2 ^ 32, 1⟩] none 0 0 St.init =
        .ok (0, some [⟨0, 1⟩]) s' ∧
      InDelta Env.plain (hashFuncOf 3).2 (hashFuncOf 3).1 false [⟨2 ^ 32, 1⟩] [] (2 ^ 32) ∧
      ¬ covers [⟨0, 1⟩] (2 ^ 32) :=
  ⟨_, rfl, ⟨by simp [Range.Mem, Range.stop], by simp⟩, by simp [Range.Mem, Range.stop]⟩

end Imagezip.Hashmap
