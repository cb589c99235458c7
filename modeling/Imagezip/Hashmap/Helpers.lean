import Imagezip.Hashmap.State

/-!
# The helpers of `hashmap.c`

`hash_range`, `hash_and_cmp`, `add_to_range`, `addhash` and `add_to_hashmap`, each with the
spec lemma its callers cite instead of unfolding it:

* `hashRange_ok`: a returning `hash_range` has read the range and hashed it (`diskHash`), and
  its only effect is the calls it logs (`hashRangeCalls`);
* `addToRange_ok`: a returning `add_to_range` did `pushRun` to the list after `dummy_head`;
* `addToHashmap_ok`: a returning `add_to_hashmap` appended one region per piece of `pieces`.

Every `return -1` of these helpers is followed by a jump to `error:` in every caller, so the
model takes them as that jump (`errM`).
-/

namespace Imagezip.Hashmap

variable (env : Env)

/-! ## `hash_range` and `hash_and_cmp` -/

/-- `hash_range(start, size, hash)`: read the sectors, fix them up if the fixup module has
something for them, and hash them. -/
def hashRange (start size : Nat) : EngM (List UInt8) := do
  let s ← getSt
  assertM (0 ≤ s.imagefd)
  let some hf := s.hashfunc | abortM
  assertM (s.hashlen ≠ 0)
  assertM (size ≤ s.hashblksize)
  logM (.readDisk start size)
  let some bytes := env.pread (sectobytes start) (sectobytes size) | errM
  let fix := env.hasfixup start size
  logM (.hasfixup start size)
  whenM fix (logM (.applyfixups (sectobytes start) (sectobytes size)))
  let buf := if fix then env.applyfixups (sectobytes start) (sectobytes size) bytes else bytes
  pure (hashBuf (env.digest hf buf))

/-- `hash_and_cmp(hreg, hash)`: hash the region's sectors now and compare the first `hashlen`
bytes with the stored hash; `0` when they agree, `1` when they differ. -/
def hashAndCmp (hreg : HashRegion) : EngM (Nat × List UInt8) := do
  let s ← getSt
  assertM (0 ≤ s.imagefd)
  assertM (s.hashfunc.isSome)
  assertM (s.hashlen ≠ 0)
  let hash ← hashRange env hreg.start hreg.size
  pure (if hreg.hash.take s.hashlen = hash.take s.hashlen then 0 else 1, hash)

/-- What `hash_range` stores for `[start, start + size)`: the digest of the sectors read, fixed
up when `hasfixup` says so; `none` when the read fails. -/
def diskHash (hf : HashFunc) (start size : Nat) : Option (List UInt8) :=
  (env.pread (sectobytes start) (sectobytes size)).map fun bytes =>
    hashBuf (env.digest hf (if env.hasfixup start size then
      env.applyfixups (sectobytes start) (sectobytes size) bytes else bytes))

/-- The calls a returning `hash_range` makes. -/
def hashRangeCalls (start size : Nat) : List Event :=
  [.readDisk start size, .hasfixup start size] ++
    if env.hasfixup start size then [.applyfixups (sectobytes start) (sectobytes size)] else []

variable {env}

/-- A returning `hash_range` hashed what is on the disk and only logged its calls. -/
theorem hashRange_ok {start size : Nat} {s s' : St} {h : List UInt8}
    (H : hashRange env start size s = .ok h s') :
    ∃ hf, s.hashfunc = some hf ∧ diskHash env hf start size = some h ∧ size ≤ s.hashblksize ∧
      s' = { s with calls := s.calls ++ hashRangeCalls env start size } := by
  cases hf : s.hashfunc with
  | none => simp [hashRange, bind_apply, hf] at H; split_ifs at H
  | some f =>
    cases hp : env.pread (sectobytes start) (sectobytes size) with
    | none => simp [hashRange, bind_apply, hf, hp] at H; split_ifs at H
    | some bytes =>
      cases hx : env.hasfixup start size <;>
      · simp [hashRange, bind_apply, hf, hp, hx, whenM] at H
        split_ifs at H with h1 h2 h3
        obtain ⟨rfl, rfl⟩ := H
        exact ⟨f, rfl, by simp [diskHash, hp, hx], h3, by simp [hashRangeCalls, hx, hf]⟩

/-- `hash_range` logs only calls of `hashRangeCalls`. -/
theorem hashRange_logs (start size : Nat) :
    LogsOnly (· ∈ hashRangeCalls env start size) (hashRange env start size) := by
  unfold hashRange
  repeat' first
    | intro _
    | apply LogsOnly.pure'
    | apply LogsOnly.assertM'
    | apply LogsOnly.errM'
    | apply LogsOnly.abortM'
    | apply LogsOnly.getSt'
    | apply LogsOnly.logM'
    | apply LogsOnly.whenM'
    | apply LogsOnly.bind'
    | split
  all_goals simp_all [hashRangeCalls]

/-- A returning `hash_and_cmp` compared the stored hash with `hash_range`'s. -/
theorem hashAndCmp_ok {hreg : HashRegion} {s s' : St} {c : Nat} {h : List UInt8}
    (H : hashAndCmp env hreg s = .ok (c, h) s') :
    ∃ hf, s.hashfunc = some hf ∧ diskHash env hf hreg.start hreg.size = some h ∧
      hreg.size ≤ s.hashblksize ∧
      c = (if hreg.hash.take s.hashlen = h.take s.hashlen then 0 else 1) ∧
      s' = { s with calls := s.calls ++ hashRangeCalls env hreg.start hreg.size } := by
  simp only [hashAndCmp, bind_apply, getSt_apply, assertM_apply] at H
  split_ifs at H
  cases hr : hashRange env hreg.start hreg.size s with
  | ok h' s₁ =>
    simp only [hr, pure_apply, Res.ok.injEq, Prod.mk.injEq] at H
    obtain ⟨⟨rfl, rfl⟩, rfl⟩ := H
    obtain ⟨hf, h1, h2, h3, rfl⟩ := hashRange_ok hr
    exact ⟨hf, h1, h2, h3, rfl, rfl⟩
  | _ => simp [hr] at H

/-- `hash_and_cmp` logs only the calls of `hash_range` on the region. -/
theorem hashAndCmp_logs (hreg : HashRegion) :
    LogsOnly (· ∈ hashRangeCalls env hreg.start hreg.size) (hashAndCmp env hreg) := by
  unfold hashAndCmp
  repeat' first
    | intro _
    | apply LogsOnly.pure'
    | apply LogsOnly.assertM'
    | apply LogsOnly.getSt'
    | apply hashRange_logs
    | apply LogsOnly.bind'

/-! ## `add_to_range` -/

variable (env)

/-- `add_to_range(&range_tail, start, size)`, whose `start` and `size` are `uint32_t`: grow the
tail when it stops where the run starts, otherwise link a new node after it. -/
def addToRange (start size : Nat) : EngM Unit := fun s =>
  let start := start % 2 ^ 32
  let size := size % 2 ^ 32
  let tail := s.rchain.headD dummyHead
  if (tail.start + tail.size) % 2 ^ 64 = start then
    .ok () { s with rchain := { tail with size := tail.size + size } :: s.rchain.tail }
  else if env.allocOk s.nalloc then
    .ok () { s with rchain := ⟨start, size⟩ :: tail :: s.rchain.tail, nalloc := s.nalloc + 1 }
  else .err { s with nalloc := s.nalloc + 1 }

variable {env}

/-- `add_to_range` only touches the range list and the allocation count. -/
theorem addToRange_frame {start size : Nat} {s s' : St}
    (H : addToRange env start size s = .ok () s') :
    ∃ rc n, s' = { s with rchain := rc, nalloc := n } := by
  simp only [addToRange] at H
  split_ifs at H
  · exact ⟨_, s.nalloc, (Res.ok.inj H).2.symm⟩
  · exact ⟨_, _, (Res.ok.inj H).2.symm⟩

/-- A returning `add_to_range` did `pushRun` on the nodes after `dummy_head`, and touched
nothing else but the allocation count. -/
theorem addToRange_ok {start size : Nat} {rn : List Range} {s s' : St}
    (hs : s.rchain = rn ++ [dummyHead]) (H : addToRange env start size s = .ok () s') :
    ∃ n, s' = { s with
      rchain := pushRun rn ⟨start % 2 ^ 32, size % 2 ^ 32⟩ ++ [dummyHead], nalloc := n } := by
  have hlt : start % 2 ^ 32 < 2 ^ 32 := Nat.mod_lt _ (Nat.two_pow_pos 32)
  cases rn with
  | nil =>
    simp only [addToRange, hs, List.nil_append, List.headD_cons, List.tail_cons, dummyHead] at H
    split_ifs at H with h1 h2
    · omega
    · cases H; exact ⟨_, rfl⟩
  | cons t ts =>
    simp only [addToRange, hs, List.cons_append, List.headD_cons, List.tail_cons] at H
    split_ifs at H with h1 h2
    · cases H; exact ⟨s.nalloc, by rw [pushRun, if_pos h1, List.cons_append]⟩
    · cases H; exact ⟨s.nalloc + 1, by rw [pushRun, if_neg h1, List.cons_append, List.cons_append]⟩

/-- `add_to_range` logs nothing. -/
theorem addToRange_logs {L : Event → Prop} (start size : Nat) :
    LogsOnly L (addToRange env start size) :=
  LogsOnly.of_calls fun s => by unfold addToRange; dsimp only; split_ifs <;> rfl

/-! ## `addhash` and `add_to_hashmap` -/

/-- `nhinfo` after `addhash` has appended `rs`: a `NULL` `nhinfo` is first `calloc`ed. -/
def pushRegions : Ptr HashInfo → List HashRegion → Ptr HashInfo
  | p, [] => p
  | .null, rs => .live { HashInfo.zero with regions := rs }
  | .live h, rs => .live { h with regions := h.regions ++ rs }
  | .freed, _ => .freed

@[simp] lemma pushRegions_nil (p : Ptr HashInfo) : pushRegions p [] = p := by
  cases p <;> rfl

lemma pushRegions_append (p : Ptr HashInfo) (rs rs' : List HashRegion) :
    pushRegions (pushRegions p rs) rs' = pushRegions p (rs ++ rs') := by
  cases rs <;> cases rs' <;> cases p <;> simp [pushRegions]

variable (env)

/-- `addhash(&nhinfo, start, size, hash)`: append a region with `chunkno` 0, growing the array by
`REGPERBLK`.  The `calloc` of a `NULL` `nhinfo` is taken to succeed; a freed one stops the
process. -/
def addhash (start size : Nat) (hash : List UInt8) : EngM Unit := fun s =>
  let region : HashRegion := ⟨start, size, 0, hashBuf hash⟩
  let push (h : HashInfo) : Res Unit :=
    if h.regions.length % regperblk = 0 then
      if env.allocOk s.nalloc then
        .ok () { s with
          nhinfo := .live { h with regions := h.regions ++ [region] }
          nalloc := s.nalloc + 1 }
      else .err { s with nalloc := s.nalloc + 1 }
    else .ok () { s with nhinfo := .live { h with regions := h.regions ++ [region] } }
  match s.nhinfo with
  | .null => push HashInfo.zero
  | .live h => push h
  | .freed => .abort s

variable {env}

/-- A returning `addhash` appended its region and touched nothing else but the allocation
count. -/
theorem addhash_ok {start size : Nat} {hash : List UInt8} {s s' : St}
    (H : addhash env start size hash s = .ok () s') :
    ∃ n, s' = { s with
      nhinfo := pushRegions s.nhinfo [⟨start, size, 0, hashBuf hash⟩], nalloc := n } := by
  unfold addhash at H
  cases hp : s.nhinfo with
  | null =>
    simp only [hp] at H
    split_ifs at H <;> cases H <;> exact ⟨_, rfl⟩
  | live h =>
    simp only [hp] at H
    split_ifs at H <;> cases H <;> exact ⟨_, rfl⟩
  | freed => simp [hp] at H

/-- `addhash` logs nothing. -/
theorem addhash_logs {L : Event → Prop} (start size : Nat) (hash : List UInt8) :
    LogsOnly L (addhash env start size hash) :=
  LogsOnly.of_calls fun s => by
    unfold addhash
    cases s.nhinfo <;> simp only <;> (try split_ifs) <;> rfl

/-- The size of the next piece `add_to_hashmap` cuts off `rsize` sectors whose first sector is
`offset` sectors into its block: up to the end of the block, else a whole block, else the
rest. -/
def pieceSize (blksize rsize offset : Nat) : Nat :=
  if offset ≠ 0 then min (blksize - offset) rsize
  else if rsize > blksize then blksize else rsize

/-- The pieces `add_to_hashmap` cuts `[rstart, rstart + rsize)` into, `fuel` bounding their
number; `rstart` is a `uint64_t`. -/
def pieces (blksize : Nat) : Nat → Nat → Nat → Nat → List Range
  | 0, _, _, _ => []
  | fuel + 1, rstart, rsize, offset =>
    if rsize = 0 then [] else
      ⟨rstart, pieceSize blksize rsize offset⟩ ::
        pieces blksize fuel ((rstart + pieceSize blksize rsize offset) % 2 ^ 64)
          (rsize - pieceSize blksize rsize offset) 0

variable (env)

/-- The `while (rsize > 0)` loop of `add_to_hashmap`, `fuel` bounding its iterations (one
sector per iteration at least, so `rsize` is enough).  `rstart += hsize` wraps at `2^64`. -/
def addToHashmapLoop (rhash : Option (List UInt8)) : Nat → Nat → Nat → Nat → EngM Unit
  | 0, _, _, _ => pure ()
  | fuel + 1, rstart, rsize, offset =>
    if rsize = 0 then pure () else do
      let s ← getSt
      let hsize := pieceSize s.hashblksize rsize offset
      let hash ← match rhash with
        | none => hashRange env rstart hsize
        | some h => pure h
      addhash env rstart hsize hash
      addToHashmapLoop rhash fuel ((rstart + hsize) % 2 ^ 64) (rsize - hsize) 0

/-- The block offset of sector `x` measured from `poffset`: `(rstart - poffset) % hashblksize`
in the engine's 64-bit arithmetic. -/
def blockOffset (poffset blksize x : Nat) : Nat := (x + 2 ^ 64 - poffset) % 2 ^ 64 % blksize

/-- `add_to_hashmap(&nhinfo, rstart, rsize, rhash)`: cut the range at `hashblksize` boundaries
measured from `poffset` and add a region per piece, hashing the piece unless a hash is given.
`rsize` is `uint32_t`. -/
def addToHashmap (rstart rsize : Nat) (rhash : Option (List UInt8)) : EngM Unit := do
  let s ← getSt
  assertM (s.poffset ≠ 2 ^ 64 - 1)
  -- `% hashblksize` traps on a zero block size
  assertM (s.hashblksize ≠ 0)
  let offset := blockOffset s.poffset s.hashblksize rstart
  addToHashmapLoop env rhash (rsize % 2 ^ 32) rstart (rsize % 2 ^ 32) offset

/-- The hash `add_to_hashmap` stores for a piece: the one it was given, or `hash_range`'s. -/
def pieceHash (hashfunc : Option HashFunc) (rhash : Option (List UInt8)) (p : Range) :
    List UInt8 :=
  match rhash, hashfunc with
  | some h, _ => h
  | none, some hf => (diskHash env hf p.start p.size).getD []
  | none, none => []

/-- The region `add_to_hashmap` stores for a piece. -/
def pieceRegion (hashfunc : Option HashFunc) (rhash : Option (List UInt8)) (p : Range) :
    HashRegion :=
  ⟨p.start, p.size, 0, hashBuf (pieceHash env hashfunc rhash p)⟩

/-- The calls `add_to_hashmap` makes for its pieces: `hash_range`'s, when it hashes them. -/
def piecesCalls (rhash : Option (List UInt8)) (ps : List Range) : List Event :=
  match rhash with
  | some _ => []
  | none => ps.flatMap fun p => hashRangeCalls env p.start p.size

variable {env}

/-- The piece loop reads the state's `hashblksize` and `hashfunc` only. -/
theorem addToHashmapLoop_ok {rhash : Option (List UInt8)} {fuel rstart rsize offset : Nat}
    {s s' : St} (H : addToHashmapLoop env rhash fuel rstart rsize offset s = .ok () s') :
    (rhash = none → ∀ p ∈ pieces s.hashblksize fuel rstart rsize offset,
      ∃ hf h, s.hashfunc = some hf ∧ diskHash env hf p.start p.size = some h ∧
        p.size ≤ s.hashblksize) ∧
    ∃ n, s' = { s with
      nhinfo := pushRegions s.nhinfo
        ((pieces s.hashblksize fuel rstart rsize offset).map (pieceRegion env s.hashfunc rhash))
      calls := s.calls ++ piecesCalls env rhash (pieces s.hashblksize fuel rstart rsize offset)
      nalloc := n } := by
  induction fuel generalizing rstart rsize offset s with
  | zero =>
    simp only [addToHashmapLoop, pure_apply, Res.ok.injEq, true_and] at H
    subst H
    exact ⟨by simp [pieces], s.nalloc, by cases rhash <;> simp [pieces, piecesCalls]⟩
  | succ fuel ih =>
    by_cases h0 : rsize = 0
    · simp only [addToHashmapLoop, h0, if_true, pure_apply, Res.ok.injEq, true_and] at H
      subst H
      exact ⟨by simp [pieces, h0], s.nalloc, by cases rhash <;> simp [pieces, piecesCalls, h0]⟩
    · cases rhash with
      | none =>
        simp only [addToHashmapLoop, h0, if_false, bind_assoc, bind_eq_ok, getSt_apply,
          Res.ok.injEq] at H
        obtain ⟨_, _, ⟨rfl, rfl⟩, hash, s₁, hh, _, s₂, ha, hl⟩ := H
        obtain ⟨hf, hhf, hd, hle, rfl⟩ := hashRange_ok hh
        obtain ⟨n₂, rfl⟩ := addhash_ok ha
        obtain ⟨hread, n, rfl⟩ := ih hl
        refine ⟨fun _ p hp => ?_, n, ?_⟩
        · simp only [pieces, h0, if_false, List.mem_cons] at hp
          rcases hp with rfl | hp
          exacts [⟨hf, hash, hhf, hd, hle⟩, hread rfl p hp]
        · simp [pieces, h0, piecesCalls, pushRegions_append, pieceRegion, pieceHash, hhf, hd]
      | some h =>
        simp only [addToHashmapLoop, h0, if_false, bind_assoc, bind_eq_ok, getSt_apply,
          pure_apply, Res.ok.injEq] at H
        obtain ⟨_, _, ⟨rfl, rfl⟩, _, _, ⟨rfl, rfl⟩, _, s₂, ha, hl⟩ := H
        obtain ⟨n₂, rfl⟩ := addhash_ok ha
        obtain ⟨-, n, rfl⟩ := ih hl
        refine ⟨nofun, n, ?_⟩
        simp [pieces, h0, piecesCalls, pushRegions_append, pieceRegion, pieceHash]

/-- The pieces `add_to_hashmap` cuts `rsize` sectors from `rstart` into. -/
def cutPieces (poffset blksize rstart rsize : Nat) : List Range :=
  pieces blksize (rsize % 2 ^ 32) rstart (rsize % 2 ^ 32) (blockOffset poffset blksize rstart)

/-- A returning `add_to_hashmap` appended one region per piece, hashed each piece it was not
given a hash for, and changed nothing else but the allocation count. -/
theorem addToHashmap_ok {rstart rsize : Nat} {rhash : Option (List UInt8)} {s s' : St}
    (H : addToHashmap env rstart rsize rhash s = .ok () s') :
    0 < s.hashblksize ∧
    (rhash = none → ∀ p ∈ cutPieces s.poffset s.hashblksize rstart rsize,
      ∃ hf h, s.hashfunc = some hf ∧ diskHash env hf p.start p.size = some h ∧
        p.size ≤ s.hashblksize) ∧
    ∃ n, s' = { s with
      nhinfo := pushRegions s.nhinfo
        ((cutPieces s.poffset s.hashblksize rstart rsize).map (pieceRegion env s.hashfunc rhash))
      calls := s.calls ++ piecesCalls env rhash (cutPieces s.poffset s.hashblksize rstart rsize)
      nalloc := n } := by
  simp only [addToHashmap, bind_eq_ok, getSt_apply, Res.ok.injEq, assertM_apply] at H
  obtain ⟨_, _, ⟨rfl, rfl⟩, _, _, h1, _, _, h2, H⟩ := H
  split_ifs at h1 h2 with g1 g2
  cases h1
  cases h2
  exact ⟨Nat.pos_of_ne_zero g2, addToHashmapLoop_ok H⟩

/-- A call to a collaborator made inside the merge: a fixup query or a disk read. -/
def Event.Inner : Event → Prop
  | .hasfixup _ _ | .applyfixups _ _ | .readDisk _ _ => True
  | .savefixups | .restorefixups _ => False

lemma inner_of_mem_hashRangeCalls {start size : Nat} {e : Event}
    (h : e ∈ hashRangeCalls env start size) : e.Inner := by
  simp only [hashRangeCalls] at h
  split_ifs at h <;> simp at h <;> rcases h with rfl | rfl | rfl <;> trivial

/-- The piece loop only reads the disk and asks the fixup module. -/
theorem addToHashmapLoop_logs (rhash : Option (List UInt8)) (fuel rstart rsize offset : Nat) :
    LogsOnly Event.Inner (addToHashmapLoop env rhash fuel rstart rsize offset) := by
  induction fuel generalizing rstart rsize offset with
  | zero => exact LogsOnly.pure' _
  | succ fuel ih =>
    unfold addToHashmapLoop
    repeat' first
      | intro _
      | apply LogsOnly.pure'
      | apply LogsOnly.getSt'
      | apply ih
      | apply addhash_logs
      | exact (hashRange_logs _ _).mono fun _ => inner_of_mem_hashRangeCalls
      | apply LogsOnly.bind'
      | split

/-- `add_to_hashmap` only reads the disk and asks the fixup module. -/
theorem addToHashmap_logs (rstart rsize : Nat) (rhash : Option (List UInt8)) :
    LogsOnly Event.Inner (addToHashmap env rstart rsize rhash) := by
  unfold addToHashmap
  repeat' first
    | intro _
    | apply LogsOnly.pure'
    | apply LogsOnly.getSt'
    | apply LogsOnly.assertM'
    | apply addToHashmapLoop_logs
    | apply LogsOnly.bind'

end Imagezip.Hashmap
