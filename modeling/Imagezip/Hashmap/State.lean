import Imagezip.Range

/-!
# The delta engine's state

`hashmap.c` keeps its state in module-level statics (`hashblksize`, `nhinfo`, `hashlen`,
`hashfunc`, `imagefd`, `poffset`) and talks to collaborators that are not among the sources:
the disk (`lseek`/`read` on `imagefd`), the fixup module (`hasfixup`, `applyfixups`,
`savefixups`, `restorefixups`), the allocator, and `open` of the signature file it writes.
The model gathers the statics, the output range list that `add_to_range` extends through its
tail pointer, the log of calls made to the collaborators and the allocation count into one
record `St`, and passes the collaborators as an environment `Env`.

Code of the engine is a state transformer `EngM` with four ways to end: it returns, it jumps to
`error:` (the `-1` paths), it stops the process (a failed `assert` or a division by zero), or,
for the merge loop run under a step budget, it has not finished yet.

`imagehash.h`, which declares `struct hashinfo`, `struct hashregion` and the hash constants, is
not among the sources; their shape is taken from the spec's description of the signature file.
-/

namespace Imagezip.Hashmap

/-- `HASH_MAXSIZE`: hash bytes a region keeps in memory (spec, "Constants"). -/
def hashMaxsize : Nat := 64

/-- `REGPERBLK`: regions added to `nhinfo` per `realloc`. -/
def regperblk : Nat := 8192

/-- `SECSIZE`. -/
def secsize : Nat := 512

/-- `sectobytes`. -/
def sectobytes (n : Nat) : Nat := n * secsize

/-- The `HASH_MAXSIZE`-byte buffer a digest is written into.  Bytes the hash function does not
write are left as they were in C; the model makes them zero. -/
def hashBuf (h : List UInt8) : List UInt8 := (h ++ List.replicate hashMaxsize 0).take hashMaxsize

@[simp] lemma length_hashBuf (h : List UInt8) : (hashBuf h).length = hashMaxsize := by
  simp [hashBuf, hashMaxsize]

lemma hashBuf_eq_self {l : List UInt8} (hl : l.length = hashMaxsize) : hashBuf l = l := by
  simp [hashBuf, ← hl]

/-- `struct hashregion`: a region of the disk and the hash of its contents. -/
structure HashRegion where
  start : Nat
  size : Nat
  chunkno : Nat
  hash : List UInt8
deriving Repr, DecidableEq

/-- The sectors a hash region describes. -/
def HashRegion.range (h : HashRegion) : Range := ⟨h.start, h.size⟩

@[simp] lemma HashRegion.range_start (h : HashRegion) : h.range.start = h.start := rfl
@[simp] lemma HashRegion.range_size (h : HashRegion) : h.range.size = h.size := rfl

/-- `struct hashinfo` in memory: the header fields and `regions[0 .. nregions)`.  The in-memory
`magic` is `HASH_MAGIC` once `hashmap_compute_delta` has set it (`hasMagic`). -/
structure HashInfo where
  hasMagic : Bool
  version : Nat
  hashtype : Nat
  blksize : Nat
  regions : List HashRegion
deriving Repr, DecidableEq

/-- A header as `calloc` leaves it. -/
def HashInfo.zero : HashInfo := ⟨false, 0, 0, 0, []⟩

/-- A pointer to a heap block: `NULL`, a live block, or a block already passed to `free`. -/
inductive Ptr (α : Type) where
  | null
  | live (a : α)
  | freed
deriving Repr, DecidableEq

/-- Signature versions.  Modelled from the spec: the file stores `version ∈ {1,2,3}` and the
engine writes V3 (`HASH_VERSION`). -/
def hashVersion1 : Nat := 1
/-- `HASH_VERSION_2`. -/
def hashVersion2 : Nat := 2
/-- `HASH_VERSION_3`. -/
def hashVersion3 : Nat := 3
/-- `HASH_VERSION`, the version the engine writes. -/
def hashVersion : Nat := hashVersion3

/-- Hash type codes.  Modelled from the spec: the codes live in `imagehash.h`; the model numbers
MD5, SHA1 and SHA256 in the spec's order. -/
def hashTypeMd5 : Nat := 1
/-- `HASH_TYPE_SHA1`. -/
def hashTypeSha1 : Nat := 2
/-- `HASH_TYPE_SHA256`. -/
def hashTypeSha256 : Nat := 3

/-- The three OpenSSL digests `hashfunc` can point to. -/
inductive HashFunc where
  | md5
  | sha1
  | sha256
deriving Repr, DecidableEq

/-- The `switch (hinfo->hashtype)` of `hashmap_compute_delta`: `hashlen` and `hashfunc`. -/
def hashFuncOf (hashtype : Nat) : Nat × HashFunc :=
  if hashtype = hashTypeSha1 then (20, .sha1)
  else if hashtype = hashTypeSha256 then (32, .sha256)
  else (16, .md5)

/-- A call the engine makes to one of its collaborators. -/
inductive Event where
  | savefixups
  | hasfixup (start size : Nat)
  | applyfixups (offset size : Nat)
  | restorefixups (commit : Bool)
  /-- `hash_range` reads `size` sectors of the disk at `start`. -/
  | readDisk (start size : Nat)
deriving Repr, DecidableEq

/-- The collaborators.  The fixup module is taken as its two queries, `hasfixup` a fixed function
of the range; `savefixups` and `restorefixups` only appear in the call log. -/
structure Env where
  /-- `lseek` to byte `offset` then `read` until `count` bytes are in; `none` when a call fails
  or the file ends first. -/
  pread : Nat → Nat → Option (List UInt8)
  hasfixup : Nat → Nat → Bool
  applyfixups : Nat → Nat → List UInt8 → List UInt8
  /-- `MD5`, `SHA1`, `SHA256`. -/
  digest : HashFunc → List UInt8 → List UInt8
  /-- Whether the `n`-th checked allocation of the process succeeds. -/
  allocOk : Nat → Bool
  /-- `HASHBLK_SIZE` (bytes), a constant of `imagehash.h`. -/
  hashblkSize : Nat
  /-- Length of `struct hashinfo`'s `pad`, which `imagehash.h` fixes. -/
  hashinfoPad : Nat
  /-- What a fresh heap block holds at each offset before anything is written to it. -/
  junk : Nat → UInt8
  /-- Whether `open(..., O_CREAT)` of a signature file for writing succeeds: `0` for the named
  file, `1` for the `/tmp` fallback. -/
  openOk : Nat → Bool

/-- An environment for examples: a disk of zero bytes with no fixups, allocations and `open`s
that always succeed, 64 KiB hash blocks, and a digest that keeps the first byte of its input. -/
def Env.plain : Env where
  pread _ n := some (List.replicate n 0)
  hasfixup _ _ := false
  applyfixups _ _ b := b
  digest _ b := b.take 1
  allocOk _ := true
  hashblkSize := 65536
  hashinfoPad := 8
  junk _ := 0
  openOk _ := true

/-- `dummy_head`: `start = ~0`, `size = 0`. -/
def dummyHead : Range := ⟨2 ^ 64 - 1, 0⟩

/-- The engine's statics, the range list under construction (`range_tail` first, `dummy_head`
last), the calls made so far and the allocations attempted so far. -/
structure St where
  hashblksize : Nat
  nhinfo : Ptr HashInfo
  hashlen : Nat
  hashfunc : Option HashFunc
  imagefd : Int
  poffset : Nat
  rchain : List Range
  calls : List Event
  nalloc : Nat

/-- The statics at process start: `poffset = ~0`, `nhinfo = NULL`. -/
def St.init : St := ⟨0, .null, 0, none, 0, 2 ^ 64 - 1, [], [], 0⟩

/-- How a piece of engine code ends. -/
inductive Res (α : Type) where
  /-- it returns `a` -/
  | ok (a : α) (s : St)
  /-- it jumps to `error:` (or returns `-1` directly) -/
  | err (s : St)
  /-- the process stops: an `assert` fails or a division by zero traps -/
  | abort (s : St)
  /-- the step budget ran out before the merge loop finished -/
  | running (s : St)

/-- The state a result ends in, whichever way it ends. -/
def Res.state {α : Type} : Res α → St
  | .ok _ s | .err s | .abort s | .running s => s

/-- Engine code: a state transformer with the ways out of `Res`. -/
def EngM (α : Type) : Type := St → Res α

instance : Monad EngM where
  pure a s := .ok a s
  bind x f s := match x s with
    | .ok a s' => f a s'
    | .err s' => .err s'
    | .abort s' => .abort s'
    | .running s' => .running s'

section Monad

variable {α β : Type}

lemma bind_apply (x : EngM α) (f : α → EngM β) (s : St) :
    (x >>= f) s = match x s with
      | .ok a s' => f a s'
      | .err s' => .err s'
      | .abort s' => .abort s'
      | .running s' => .running s' := rfl

@[simp] lemma pure_apply (a : α) (s : St) : (pure a : EngM α) s = .ok a s := rfl

/-- A composite returns exactly when both halves return. -/
lemma bind_eq_ok {x : EngM α} {f : α → EngM β} {s s'' : St} {b : β} :
    (x >>= f) s = .ok b s'' ↔ ∃ a s', x s = .ok a s' ∧ f a s' = .ok b s'' := by
  rw [bind_apply]
  cases x s with
  | ok a s' => exact ⟨fun h => ⟨a, s', rfl, h⟩, fun ⟨_, _, he, h⟩ => by cases he; exact h⟩
  | _ => simp

end Monad

/-- `assert(c)`. -/
def assertM (c : Prop) [Decidable c] : EngM Unit := fun s => if c then .ok () s else .abort s

/-- A jump to `error:`. -/
def errM {α : Type} : EngM α := fun s => .err s

/-- The process stops. -/
def abortM {α : Type} : EngM α := fun s => .abort s

/-- The statics and locals as they are now. -/
def getSt : EngM St := fun s => .ok s s

/-- A checked `malloc`: the code returns `-1` when it fails. -/
def mallocM (env : Env) : EngM Unit := fun s =>
  if env.allocOk s.nalloc then .ok () { s with nalloc := s.nalloc + 1 }
  else .err { s with nalloc := s.nalloc + 1 }

/-- Replace the state. -/
def modifySt (f : St → St) : EngM Unit := fun s => .ok () (f s)

/-- Run `x`; on a jump to `error:` run `handler` from the state it left. -/
def catchErr {α β : Type} (x : EngM α) (k : α → EngM β) (handler : EngM β) : EngM β := fun s =>
  match x s with
  | .ok a s' => k a s'
  | .err s' => handler s'
  | .abort s' => .abort s'
  | .running s' => .running s'

/-- `if (c) x;` -/
def whenM (c : Prop) [Decidable c] (x : EngM Unit) : EngM Unit := if c then x else pure ()

/-- `if (c) goto error;` (or `return -1`). -/
def failIf (c : Prop) [Decidable c] : EngM Unit := fun s => if c then .err s else .ok () s

/-- Record a call to a collaborator. -/
def logM (e : Event) : EngM Unit := fun s => .ok () { s with calls := s.calls ++ [e] }

@[simp] lemma assertM_apply (c : Prop) [Decidable c] (s : St) :
    assertM c s = if c then .ok () s else .abort s := rfl

@[simp] lemma errM_apply {α : Type} (s : St) : (errM : EngM α) s = .err s := rfl

@[simp] lemma abortM_apply {α : Type} (s : St) : (abortM : EngM α) s = .abort s := rfl

@[simp] lemma getSt_apply (s : St) : getSt s = .ok s s := rfl

/-- An `assert` that returned held. -/
lemma assertM_ok {c : Prop} [Decidable c] {s s' : St} {u : Unit} :
    assertM c s = .ok u s' ↔ c ∧ s' = s := by
  unfold assertM
  split_ifs with h <;> simp [h, eq_comm]

/-- A checked `malloc` that returned counted one allocation and succeeded. -/
lemma mallocM_ok {env : Env} {s s' : St} (H : mallocM env s = .ok () s') :
    env.allocOk s.nalloc ∧ s' = { s with nalloc := s.nalloc + 1 } := by
  unfold mallocM at H
  split_ifs at H with h
  exact ⟨h, (Res.ok.inj H).2.symm⟩

@[simp] lemma failIf_apply (c : Prop) [Decidable c] (s : St) :
    failIf c s = if c then .err s else .ok () s := rfl

/-- `if (c) x;` returns exactly when `x` does, or `c` is false and nothing changes. -/
lemma whenM_ok {c : Prop} [Decidable c] {x : EngM Unit} {s s' : St} :
    whenM c x s = .ok () s' ↔ if c then x s = .ok () s' else s' = s := by
  unfold whenM
  split_ifs <;> simp [eq_comm]

@[simp] lemma logM_apply (e : Event) (s : St) :
    logM e s = .ok () { s with calls := s.calls ++ [e] } := rfl

/-! ## What a piece of code logs -/

/-- Whichever way `x` ends, it has only appended calls satisfying `L` to the log. -/
structure LogsOnly {α : Type} (L : Event → Prop) (x : EngM α) : Prop where
  logs : ∀ s, ∃ es, (∀ e ∈ es, L e) ∧ (x s).state.calls = s.calls ++ es

namespace LogsOnly

variable {α β : Type} {L : Event → Prop}

lemma of_calls {x : EngM α} (h : ∀ s, (x s).state.calls = s.calls) : LogsOnly L x :=
  ⟨fun s => ⟨[], by simp, by simp [h]⟩⟩

lemma pure' (a : α) : LogsOnly L (pure a : EngM α) := of_calls fun _ => rfl

lemma assertM' (c : Prop) [Decidable c] : LogsOnly L (assertM c) :=
  of_calls fun s => by unfold assertM; split_ifs <;> rfl

lemma errM' : LogsOnly L (errM : EngM α) := of_calls fun _ => rfl

lemma abortM' : LogsOnly L (abortM : EngM α) := of_calls fun _ => rfl

lemma getSt' : LogsOnly L getSt := of_calls fun _ => rfl

lemma failIf' (c : Prop) [Decidable c] : LogsOnly L (failIf c) :=
  of_calls fun s => by unfold failIf; split_ifs <;> rfl

lemma whenM' {c : Prop} [Decidable c] {x : EngM Unit} (h : c → LogsOnly L x) :
    LogsOnly L (whenM c x) := by
  unfold whenM
  split_ifs with hc
  exacts [h hc, pure' ()]

lemma logM' {e : Event} (h : L e) : LogsOnly L (logM e) :=
  ⟨fun _ => ⟨[e], by simpa using h, rfl⟩⟩

lemma bind' {x : EngM α} {f : α → EngM β} (hx : LogsOnly L x) (hf : ∀ a, LogsOnly L (f a)) :
    LogsOnly L (x >>= f) := by
  refine ⟨fun s => ?_⟩
  obtain ⟨es, hes, hs⟩ := hx.logs s
  rw [bind_apply]
  cases h : x s with
  | ok a s' =>
    obtain ⟨es', hes', hs'⟩ := (hf a).logs s'
    rw [h] at hs
    refine ⟨es ++ es', fun e he => ?_, by rw [hs', show s'.calls = _ from hs, List.append_assoc]⟩
    rcases List.mem_append.mp he with he | he
    exacts [hes e he, hes' e he]
  | err s' => exact ⟨es, hes, by simpa [h, Res.state] using hs⟩
  | abort s' => exact ⟨es, hes, by simpa [h, Res.state] using hs⟩
  | running s' => exact ⟨es, hes, by simpa [h, Res.state] using hs⟩

lemma mono {L' : Event → Prop} {x : EngM α} (h : LogsOnly L x) (hL : ∀ e, L e → L' e) :
    LogsOnly L' x :=
  ⟨fun s => let ⟨es, hes, hs⟩ := h.logs s; ⟨es, fun e he => hL e (hes e he), hs⟩⟩

end LogsOnly

end Imagezip.Hashmap
