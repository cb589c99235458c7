import Imagezip.Hashmap.DeltaStep

/-!
# The shape of the new signature

With a new signature, every allocated sector should end up in exactly one region of `nhinfo`,
and each region should be a prior one or lie inside the allocation.  The covered loop of
`hashmap_compute_delta` works on `uint32_t` copies of the drange and the `hreg`, so a prior
region at or above sector 2^32 is re-chunked at the truncated sectors.

* `newsig_wraps_at_2_32`: an allocation at 2^32 + 1 gives a signature holding sector 1.
-/

namespace Imagezip.Hashmap

/-- **The covered loop truncates to 32 bits**: a prior region at `2^32` gives the new signature
the region `[1, 2)`, outside the allocation. -/
theorem newsig_wraps_at_2_32 :
    ∃ s', hashmapComputeDelta Env.plain true false 20 [⟨2 ^ 32 + 1, 2⟩]
        (some (some (encodeHdr 8 true 3 3 1 128 ++ encodeRegion ⟨2 ^ 32, 2, 0, []⟩))) 0 0 St.init =
        .ok (0, some [⟨1, 1⟩]) s' ∧
      s'.nhinfo = .live ⟨true, 3, 3, 128, [⟨1, 1, 0, hashBuf [0]⟩]⟩ ∧
      ¬ covers [⟨2 ^ 32 + 1, 2⟩] 1 ∧ covers [⟨2 ^ 32 + 1, 2⟩] (2 ^ 32 + 1) ∧
      ¬ covers [⟨1, 1⟩] (2 ^ 32 + 1) :=
  have hload : loadSig Env.plain
      (some (some (encodeHdr 8 true 3 3 1 128 ++ encodeRegion ⟨2 ^ 32, 2, 0, []⟩)))
      { St.init with imagefd := 0, poffset := 0 } =
      .ok ⟨true, 3, 3, 128, [⟨2 ^ 32, 2, 0, hashBuf []⟩]⟩
        { St.init with imagefd := 0, poffset := 0, hashblksize := 128, nalloc := 2 } := rfl
  -- the `hreg`, and the state once the merge has started: the first three steps keep it
  have h1 : step Env.plain true false ⟨.top, [⟨2 ^ 32, 2, 0, hashBuf []⟩], [⟨2 ^ 32 + 1, 2⟩]⟩
      (mergeStart true ⟨true, 3, 3, 128, [⟨2 ^ 32, 2, 0, hashBuf []⟩]⟩
        { St.init with imagefd := 0, poffset := 0, hashblksize := 128, nalloc := 2 }) =
      .ok ⟨.drain ⟨2 ^ 32, 2, 0, hashBuf []⟩, [], [⟨2 ^ 32 + 1, 2⟩]⟩
        (mergeStart true ⟨true, 3, 3, 128, [⟨2 ^ 32, 2, 0, hashBuf []⟩]⟩
          { St.init with imagefd := 0, poffset := 0, hashblksize := 128, nalloc := 2 }) := rfl
  have h2 : step Env.plain true false ⟨.drain ⟨2 ^ 32, 2, 0, hashBuf []⟩, [], [⟨2 ^ 32 + 1, 2⟩]⟩
      (mergeStart true ⟨true, 3, 3, 128, [⟨2 ^ 32, 2, 0, hashBuf []⟩]⟩
        { St.init with imagefd := 0, poffset := 0, hashblksize := 128, nalloc := 2 }) =
      .ok ⟨.overlap ⟨2 ^ 32, 2, 0, hashBuf []⟩, [], [⟨2 ^ 32 + 1, 2⟩]⟩
        (mergeStart true ⟨true, 3, 3, 128, [⟨2 ^ 32, 2, 0, hashBuf []⟩]⟩
          { St.init with imagefd := 0, poffset := 0, hashblksize := 128, nalloc := 2 }) := rfl
  -- `drange` starts inside `hreg` but not at its start: `changed` is 2
  have h3 : step Env.plain true false ⟨.overlap ⟨2 ^ 32, 2, 0, hashBuf []⟩, [], [⟨2 ^ 32 + 1, 2⟩]⟩
      (mergeStart true ⟨true, 3, 3, 128, [⟨2 ^ 32, 2, 0, hashBuf []⟩]⟩
        { St.init with imagefd := 0, poffset := 0, hashblksize := 128, nalloc := 2 }) =
      .ok ⟨.covered ⟨2 ^ 32, 2, 0, hashBuf []⟩ 2, [], [⟨2 ^ 32 + 1, 2⟩]⟩
        (mergeStart true ⟨true, 3, 3, 128, [⟨2 ^ 32, 2, 0, hashBuf []⟩]⟩
          { St.init with imagefd := 0, poffset := 0, hashblksize := 128, nalloc := 2 }) := rfl
  -- `curstart` 1, `curend` 3, `hregend` 2: `[1, 2)` is emitted and `[2, 3)` is left over
  have h4 : step Env.plain true false ⟨.covered ⟨2 ^ 32, 2, 0, hashBuf []⟩ 2, [], [⟨2 ^ 32 + 1, 2⟩]⟩
      (mergeStart true ⟨true, 3, 3, 128, [⟨2 ^ 32, 2, 0, hashBuf []⟩]⟩
        { St.init with imagefd := 0, poffset := 0, hashblksize := 128, nalloc := 2 }) =
      .ok ⟨.covered ⟨2 ^ 32, 2, 0, hashBuf []⟩ 2, [], [⟨2, 1⟩]⟩
        { St.init with
          hashblksize := 128, hashlen := 32, hashfunc := some .sha256, poffset := 0, nalloc := 4
          nhinfo := .live ⟨false, 0, 0, 0, [⟨1, 1, 0, hashBuf [0]⟩]⟩, rchain := [⟨1, 1⟩, dummyHead]
          calls := [.savefixups, .readDisk 1 1, .hasfixup 1 1] } := rfl
  -- the leftover emits nothing and the merge ends
  have h5 : run Env.plain true false 16 ⟨.covered ⟨2 ^ 32, 2, 0, hashBuf []⟩ 2, [], [⟨2, 1⟩]⟩
        { St.init with
          hashblksize := 128, hashlen := 32, hashfunc := some .sha256, poffset := 0, nalloc := 4
          nhinfo := .live ⟨false, 0, 0, 0, [⟨1, 1, 0, hashBuf [0]⟩]⟩, rchain := [⟨1, 1⟩, dummyHead]
          calls := [.savefixups, .readDisk 1 1, .hasfixup 1 1] } =
      .ok ⟨.done, [⟨2 ^ 32, 2, 0, hashBuf []⟩], []⟩
        { St.init with
          hashblksize := 128, hashlen := 32, hashfunc := some .sha256, poffset := 0, nalloc := 4
          nhinfo := .live ⟨false, 0, 0, 0, [⟨1, 1, 0, hashBuf [0]⟩]⟩, rchain := [⟨1, 1⟩, dummyHead]
          calls := [.savefixups, .readDisk 1 1, .hasfixup 1 1] } := rfl
  have hrun := ((((run_succ_of_step (by decide) h1).trans (run_succ_of_step (by decide) h2)).trans
    (run_succ_of_step (by decide) h3)).trans (run_succ_of_step (by decide) h4)).trans h5
  ⟨_, hashmapComputeDelta_of_run (by simp) hload hrun rfl, rfl,
    by simp [Range.Mem, Range.stop], by simp [Range.Mem, Range.stop],
    by simp [Range.Mem, Range.stop]⟩

end Imagezip.Hashmap
