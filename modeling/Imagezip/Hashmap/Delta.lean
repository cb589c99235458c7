import Imagezip.Hashmap.SigFile

/-!
# `hashmap_compute_delta`

The merge of the prior signature's hash regions (`hreg`) with the current allocation
(`drange`) is a loop with three loops inside it.  The model runs it as a machine: `Pc` says
which loop the code is in, `Loc` holds the loop cursors, and `step` executes one iteration of
the loop the code is in (or the straight-line code between two loops).

* `step`: one iteration; each case cites the lines of `hashmap_compute_delta` it runs;
* `run`: at most `n` steps, ending in `.running` when the merge has not finished by then (the
  covered-drange loop need not terminate: see `curstart == drange->start`);
* `hashmapComputeDelta`: the whole function, reading or concocting the prior signature,
  bracketing the merge with `savefixups`/`restorefixups`, and cleaning up at `error:`.
-/

namespace Imagezip.Hashmap

/-- Where the merge loop is. -/
inductive Pc where
  /-- the head of `for (hreg = hinfo->regions; hreg < ereg; hreg++)` -/
  | top
  /-- in `while (drange && drange->start + drange->size <= hreg->start)` for `h` -/
  | drain (h : HashRegion)
  /-- after that loop: the overlap of `h` with `drange`, up to the covered-drange loop -/
  | overlap (h : HashRegion)
  /-- in `while (drange && drange->start < hreg->start + hreg->size)` -/
  | covered (h : HashRegion) (changed : Nat)
  /-- in the `while (drange)` after the `for` loop -/
  | trailing
  /-- past that loop -/
  | done
deriving DecidableEq

/-- The merge's cursors. -/
structure Loc where
  pc : Pc
  /-- `hreg .. ereg`: the hash regions after the one being worked on -/
  hregs : List HashRegion
  /-- `drange` (the local copy `COPYRANGE` made) followed by its `next` chain -/
  dranges : List Range

/-- `assert(drange == NULL || drange->size > 0)` after `drange = COPYRANGE(drange->next)`. -/
def NextOk (ds : List Range) : Prop := ∀ d ∈ ds.head?, 0 < d.size

instance (ds : List Range) : Decidable (NextOk ds) := inferInstanceAs (Decidable (∀ _ ∈ _, _))

variable (env : Env) (newhashfile hashFree : Bool)

/-- Leaving the `for` loop: `assert(drange == NULL || hreg == ereg)`. -/
def toTrailing (l : Loc) : EngM Loc := do
  assertM (l.dranges = [] ∨ l.hregs = [])
  pure { l with pc := .trailing }

/-- The head of `drange` before `hreg` is new data (lines 907-939): add it to the output and
the new signature, and keep what is left from `hreg->start` on. -/
def headSplit (h : HashRegion) (d : Range) : EngM Range :=
  if d.start < h.start then do
    let before := (h.start - d.start) % 2 ^ 32
    addToRange env d.start before
    whenM newhashfile (addToHashmap env d.start before none)
    pure ⟨d.start + before, d.size - before⟩
  else pure d

/-- `changed` for `h` once `drange` starts at or after it (lines 963-1015): a fixup forces 3,
a gap in the coverage without `hash_free` forces 2, else `hash_and_cmp` decides 0 or 1 and the
whole `hreg` goes into the new signature with the hash just computed. -/
def decideChanged (h : HashRegion) (d : Range) : EngM Nat :=
  if hashFree ∨ (d.start = h.start ∧ d.size ≥ h.size) then do
    logM (.hasfixup h.start h.size)
    if env.hasfixup h.start h.size then pure 3
    else do
      let (changed, hash) ← hashAndCmp env h
      whenM newhashfile (addToHashmap env h.start h.size (some hash))
      pure changed
  else pure 2

/-- A covered drange piece `[curstart, curstart + len)` (lines 1088-1106): unless the hash
still matches it goes to the output, and for `changed` 2 and 3 into the new signature too. -/
def emitCovered (changed curstart len : Nat) : EngM Unit :=
  if changed ≠ 0 then do
    addToRange env curstart len
    whenM (changed > 1 ∧ newhashfile) (addToHashmap env curstart len none)
  else pure ()

/-- One iteration of the covered-drange loop (lines 1054-1140) for `drange = d :: ds`, with the
loop body's `uint32_t` locals. -/
def coveredIter (l : Loc) (h : HashRegion) (changed : Nat) (d : Range) (ds : List Range) :
    EngM Loc := do
  let curstart := d.start % 2 ^ 32
  let curend := (curstart + d.size) % 2 ^ 32
  let hregstart := h.start % 2 ^ 32
  let hregend := (hregstart + h.size) % 2 ^ 32
  -- a final drange crossing the end of `hreg` is split
  let d' : Range := if curend > hregend then ⟨hregend, curend - hregend⟩ else d
  let curend := if curend > hregend then hregend else curend
  assertM (curstart ≥ hregstart)
  assertM (curend ≤ hregend)
  -- `curend - curstart` in `uint32_t`
  emitCovered env newhashfile changed curstart ((curend + 2 ^ 32 - curstart) % 2 ^ 32)
  -- unless the entry was split, bump `drange`
  if curstart = d'.start then do
    assertM (NextOk ds)
    pure { l with dranges := ds }
  else pure { l with dranges := d' :: ds }

/-- One iteration of the merge. -/
def step (l : Loc) : EngM Loc :=
  match l.pc with
  | .top =>
    match l.hregs with
    | [] => toTrailing l
    | h :: hs => do
      -- `assert(drange && drange->size > 0)`
      assertM (∃ d ∈ l.dranges.head?, 0 < d.size)
      pure { l with pc := .drain h, hregs := hs }
  | .drain h =>
    match l.dranges with
    | d :: ds =>
      if d.start + d.size ≤ h.start then do
        addToRange env d.start d.size
        whenM newhashfile (addToHashmap env d.start d.size none)
        assertM (NextOk ds)
        pure { l with dranges := ds }
      else pure { l with pc := .overlap h }
    | [] => pure { l with pc := .overlap h }
  | .overlap h =>
    match l.dranges with
    -- `if (drange == NULL) break;`
    | [] => toTrailing { l with hregs := h :: l.hregs }
    | d :: ds => do
      assertM (h.start < d.start + d.size)
      -- the blocks of `hreg` were deallocated: `continue`
      if h.start + h.size ≤ d.start then pure { l with pc := .top }
      else do
        assertM (h.start + h.size > d.start ∧ h.start < d.start + d.size)
        let d ← headSplit env newhashfile h d
        let changed ← decideChanged env newhashfile hashFree h d
        assertM (d.start < h.start + h.size)
        pure { l with pc := .covered h changed, dranges := d :: ds }
  | .covered h changed =>
    match l.dranges with
    -- `if (drange == NULL) break;`
    | [] => toTrailing { l with hregs := h :: l.hregs }
    | d :: ds =>
      if d.start < h.start + h.size then coveredIter env newhashfile l h changed d ds
      else do
        assertM (h.start + h.size ≤ d.start)
        pure { l with pc := .top }
  | .trailing =>
    match l.dranges with
    | d :: ds => do
      assertM (l.hregs = [])
      addToRange env d.start d.size
      whenM newhashfile (addToHashmap env d.start d.size none)
      assertM (NextOk ds)
      pure { l with dranges := ds }
    | [] => pure { l with pc := .done }
  | .done => pure l

/-- At most `n` steps of the merge; `.running` if it has not reached `.done` by then. -/
def run : Nat → Loc → EngM Loc
  | 0, l => fun s => if l.pc = .done then .ok l s else .running s
  | n + 1, l => if l.pc = .done then pure l else do run n (← step env newhashfile hashFree l)

/-- The signature `hashmap_compute_delta` concocts when there is no signature file: no
regions, SHA256 (as `HASH_VERSION` is V3), `HASHBLK_SIZE` blocks.  Its `calloc` is not
checked; the model lets it succeed. -/
def emptyHashinfo : EngM HashInfo := do
  let blksize := env.hashblkSize / secsize
  modifySt fun s => { s with hashblksize := blksize }
  mallocM env
  pure ⟨true, hashVersion, if hashVersion ≥ hashVersion3 then hashTypeSha256 else hashTypeSha1,
    blksize, []⟩

/-- The header lines 1248-1253 write into the new signature. -/
def withHeader (hinfo : HashInfo) (h : HashInfo) : HashInfo :=
  { h with hasMagic := true, version := hashVersion, hashtype := hinfo.hashtype,
           blksize := if hinfo.version = hashVersion1 then env.hashblkSize else hinfo.blksize }

/-- Lines 1245-1254: `calloc` a new signature if the merge added no region (`assert` that it
worked), then copy the header over from the prior one.  A freed `nhinfo` is written through the
dangling pointer; the model leaves it freed. -/
def sealNhinfo (hinfo : HashInfo) : EngM Unit := fun s =>
  match s.nhinfo with
  | .null =>
    if env.allocOk s.nalloc then
      .ok () { s with nalloc := s.nalloc + 1, nhinfo := .live (withHeader env hinfo HashInfo.zero) }
    else .abort { s with nalloc := s.nalloc + 1 }
  | .live h => .ok () { s with nhinfo := .live (withHeader env hinfo h) }
  | .freed => .ok () s

/-- The end of a successful call (lines 1238-1268): `*nranges`, the new signature's header,
`restorefixups(1)`. -/
def finish (hinfo : HashInfo) : EngM (Int × Option (List Range)) := do
  let s ← getSt
  whenM newhashfile (sealNhinfo env hinfo)
  whenM newhashfile (logM (.restorefixups true))
  pure (0, some s.rchain.reverse.tail)

/-- `if (nhinfo) free(nhinfo);` at `error:`; the static keeps pointing at the freed block, and
freeing it again stops the process. -/
def freeNhinfo : EngM Unit := fun s =>
  match s.nhinfo with
  | .live _ => .ok () { s with nhinfo := .freed }
  | .null => .ok () s
  | .freed => .abort s

/-- `error:` (lines 1270-1285): `restorefixups(0)`, free `nhinfo`, free the partial range list,
return `-1`. -/
def onError : EngM (Int × Option (List Range)) := do
  whenM newhashfile (logM (.restorefixups false))
  freeNhinfo
  pure (-1, none)

/-- Lines 754-778: the prior signature, read from `hfile` (`none` for a `NULL` path, else the
file's contents, themselves `none` when it cannot be opened) or concocted. -/
def loadSig (hfile : Option (Option (List UInt8))) : EngM HashInfo :=
  match hfile with
  | some file => readhashinfo env file
  | none => emptyHashinfo env

/-- Lines 780-1285, once the prior signature `hinfo` is in memory: the hash function, the
dummy head of the output, `savefixups`, the merge, and the exit through `finish` or `error:`. -/
def deltaFrom (fuel : Nat) (curranges : List Range) (hinfo : HashInfo) :
    EngM (Int × Option (List Range)) := do
  modifySt fun s =>
    { s with
      hashlen := (hashFuncOf hinfo.hashtype).1, hashfunc := some (hashFuncOf hinfo.hashtype).2
      rchain := [dummyHead] }
  whenM newhashfile (logM .savefixups)
  catchErr (run env newhashfile hashFree fuel ⟨.top, hinfo.regions, curranges⟩)
    (fun _ => finish env newhashfile hinfo)
    (onError newhashfile)

/-- `hashmap_compute_delta(curranges, hfile, infd, ssect, newhashfile, &nranges)` with a budget
of `fuel` merge steps.  Returns the value returned and what was stored in `*nranges`; a failed
`readhashinfo` returns `-1` at once. -/
def hashmapComputeDelta (fuel : Nat) (curranges : List Range)
    (hfile : Option (Option (List UInt8))) (infd : Int) (ssect : Nat) :
    EngM (Int × Option (List Range)) := do
  assertM (curranges ≠ [])
  modifySt fun s => { s with imagefd := infd, poffset := ssect }
  catchErr (loadSig env hfile) (deltaFrom env newhashfile hashFree fuel curranges)
    (pure (-1, none))

end Imagezip.Hashmap
