import Imagezip.Hashmap.MergeInv
import Imagezip.Hashmap.Pieces

/-!
# Every hash of the new signature is the hash of its own sectors

`add_to_hashmap` either hashes each piece it stores (`rhash == NULL`) or copies one hash given
to it onto every piece.  The merge gives it a hash only for a prior region it re-emits whole,
the hash `hash_and_cmp` just computed over that region, and with no fixup pending there.  When
every prior region lies in one hash block (as every signature this code writes does), that
region is stored as one piece, so every region of the new signature holds the hash of its own
sectors.  This needs no bound on the sectors: the 32-bit truncations of the covered loop change
which range is stored, not whether its hash is its own.

* `HashesOk`: every region of a signature holds the hash of its sectors;
* `cutPieces_single` (in `Pieces`): a region inside one block is stored whole;
* `hashInv_step`: every merge step keeps the invariant;
* `newsig_hashes_are_disk_hashes`: the law for `hashmap_compute_delta`.
-/

namespace Imagezip.Hashmap

/-- Every region of the signature `p` holds the hash of its own sectors as the disk holds them
now, fixups applied; a freed signature holds nothing usable. -/
def HashesOk (env : Env) (hf : HashFunc) : Ptr HashInfo → Prop
  | .null => True
  | .live hi => ∀ r ∈ hi.regions, diskHash env hf r.start r.size = some r.hash
  | .freed => False

/-- `h` lies in one hash block, as `add_to_hashmap` measures blocks from `poffset`. -/
def InBlock (poffset blksize : Nat) (h : HashRegion) : Prop :=
  blockOffset poffset blksize h.start + h.size ≤ blksize

lemma length_of_diskHash {env : Env} {hf : HashFunc} {a n : Nat} {d : List UInt8}
    (H : diskHash env hf a n = some d) : d.length = hashMaxsize := by
  simp only [diskHash, Option.map_eq_some'] at H
  obtain ⟨_, _, rfl⟩ := H
  simp

lemma HashesOk.push {env : Env} {hf : HashFunc} {p : Ptr HashInfo} {rs : List HashRegion}
    (hp : HashesOk env hf p) (hrs : ∀ r ∈ rs, diskHash env hf r.start r.size = some r.hash) :
    HashesOk env hf (pushRegions p rs) := by
  cases rs with
  | nil => simpa using hp
  | cons r rs =>
    cases p with
    | null => simpa [pushRegions, HashesOk] using hrs
    | live hi =>
      simp only [pushRegions, HashesOk, List.mem_append] at hp ⊢
      rintro q (hq | hq)
      exacts [hp q hq, hrs q hq]
    | freed => exact hp

/-! ## The state the hashes depend on -/

section State

variable {env : Env} {hf : HashFunc} {blksize poffset : Nat} {s s' : St}

/-- During the merge: the prior signature's hash function, block size and partition base, and
every hash stored so far correct. -/
def HashState (env : Env) (hf : HashFunc) (blksize poffset : Nat) (s : St) : Prop :=
  s.hashfunc = some hf ∧ s.hashblksize = blksize ∧ s.poffset = poffset ∧
    HashesOk env hf s.nhinfo

lemma HashState.of_frame (hs : HashState env hf blksize poffset s)
    (h : s'.hashfunc = s.hashfunc ∧ s'.hashblksize = s.hashblksize ∧ s'.poffset = s.poffset ∧
      s'.nhinfo = s.nhinfo) : HashState env hf blksize poffset s' := by
  obtain ⟨h1, h2, h3, h4⟩ := h
  rw [HashState, h1, h2, h3, h4]
  exact hs

lemma addToRange_hashState {a n : Nat} (H : addToRange env a n s = .ok () s')
    (hs : HashState env hf blksize poffset s) : HashState env hf blksize poffset s' := by
  obtain ⟨rc, k, rfl⟩ := addToRange_frame H
  exact hs.of_frame ⟨rfl, rfl, rfl, rfl⟩

/-- Pieces `add_to_hashmap` hashes itself hold their own hash. -/
lemma addToHashmap_none_hashState {a n : Nat} (H : addToHashmap env a n none s = .ok () s')
    (hs : HashState env hf blksize poffset s) : HashState env hf blksize poffset s' := by
  obtain ⟨-, hread, k, rfl⟩ := addToHashmap_ok H
  obtain ⟨hhf, h2, h3, h4⟩ := hs
  refine ⟨hhf, h2, h3, h4.push fun r hr => ?_⟩
  simp only [List.mem_map] at hr
  obtain ⟨p, hp, rfl⟩ := hr
  obtain ⟨hf', d, hhf', hd, -⟩ := hread rfl p hp
  rw [hhf, Option.some.injEq] at hhf'
  subst hhf'
  simp [pieceRegion, pieceHash, hhf, hd, hashBuf_eq_self (length_of_diskHash hd)]

/-- A region inside one block, given its own hash, is stored whole with that hash. -/
lemma addToHashmap_some_hashState {h : HashRegion} {hash : List UInt8}
    (H : addToHashmap env h.start h.size (some hash) s = .ok () s')
    (hs : HashState env hf blksize poffset s) (hd : diskHash env hf h.start h.size = some hash)
    (hpos : 0 < h.size) (hlt : h.size < 2 ^ 32) (hblk : InBlock poffset blksize h) :
    HashState env hf blksize poffset s' := by
  obtain ⟨-, -, k, rfl⟩ := addToHashmap_ok H
  obtain ⟨hhf, h2, h3, h4⟩ := hs
  refine ⟨hhf, h2, h3, h4.push fun r hr => ?_⟩
  rw [h2, h3, cutPieces_single hpos hlt hblk] at hr
  simp only [List.map_cons, List.map_nil, List.mem_singleton] at hr
  subst hr
  simp [pieceRegion, pieceHash, hd, hashBuf_eq_self (length_of_diskHash hd)]

lemma optional_hashState {c : Prop} [Decidable c] {a n : Nat}
    (H : if c then addToHashmap env a n none s = .ok () s' else s' = s)
    (hs : HashState env hf blksize poffset s) : HashState env hf blksize poffset s' := by
  split_ifs at H
  · exact addToHashmap_none_hashState H hs
  · exact H ▸ hs

lemma headSplit_hashState {newhashfile : Bool} {h : HashRegion} {d d₁ : Range}
    (H : headSplit env newhashfile h d s = .ok d₁ s') (hs : HashState env hf blksize poffset s) :
    HashState env hf blksize poffset s' := by
  rcases headSplit_ok H with ⟨-, -, rfl⟩ | ⟨-, -, s₁, h1, h2⟩
  · exact hs
  · exact optional_hashState h2 (addToRange_hashState h1 hs)

lemma emitCovered_hashState {newhashfile : Bool} {c a n : Nat}
    (H : emitCovered env newhashfile c a n s = .ok () s') (hs : HashState env hf blksize poffset s) :
    HashState env hf blksize poffset s' := by
  rcases emitCovered_ok H with ⟨-, rfl⟩ | ⟨-, s₁, h1, h2⟩
  · exact hs
  · exact optional_hashState h2 (addToRange_hashState h1 hs)

/-- Re-emitting a prior region inside one block stores the hash `hash_and_cmp` computed. -/
lemma decideChanged_hashState {newhashfile hashFree : Bool} {h : HashRegion} {d : Range}
    {c : Nat} (H : decideChanged env newhashfile hashFree h d s = .ok c s')
    (hs : HashState env hf blksize poffset s) (hpos : 0 < h.size) (hlt : h.size < 2 ^ 32)
    (hblk : InBlock poffset blksize h) : HashState env hf blksize poffset s' := by
  rcases decideChanged_ok H with ⟨-, -, rfl⟩ | ⟨-, ⟨-, -, rfl⟩ | ⟨-, hash, s₁, h1, h2⟩⟩
  · exact hs
  · exact hs.of_frame ⟨rfl, rfl, rfl, rfl⟩
  · obtain ⟨hf', hhf', hd, -, -, rfl⟩ := hashAndCmp_ok h1
    have hs₁ : HashState env hf blksize poffset
        { s with calls := s.calls ++ [.hasfixup h.start h.size] ++
          hashRangeCalls env h.start h.size } := hs.of_frame ⟨rfl, rfl, rfl, rfl⟩
    rw [hs.1, Option.some.injEq] at hhf'
    subst hhf'
    split_ifs at h2
    · exact addToHashmap_some_hashState h2 hs₁ hd hpos hlt hblk
    · exact h2 ▸ hs₁

end State

/-! ## The merge keeps it -/

section Merge

variable {env : Env} {newhashfile hashFree : Bool} {hf : HashFunc} {blksize poffset : Nat}
  {H : List HashRegion}

/-- The merge's invariant for the new signature's hashes: the state's, and the regions still
to come are prior ones. -/
def HashInv (env : Env) (hf : HashFunc) (blksize poffset : Nat) (H : List HashRegion) (l : Loc)
    (s : St) : Prop :=
  HashState env hf blksize poffset s ∧ ∀ h ∈ l.pending, h ∈ H

/-- **Step lemma**: every step keeps `HashInv` when the prior regions lie in one block each. -/
theorem hashInv_step (hH : ∀ h ∈ H, 0 < h.size ∧ h.size < 2 ^ 32 ∧ InBlock poffset blksize h)
    {l l' : Loc} {s s' : St} (hI : HashInv env hf blksize poffset H l s)
    (hstep : step env newhashfile hashFree l s = .ok l' s') :
    HashInv env hf blksize poffset H l' s' := by
  obtain ⟨hs, hp⟩ := hI
  obtain ⟨pc, hregs, ds⟩ := l
  have sub : ∀ {l₁ : Loc}, (∀ h ∈ l₁.pending, h ∈ Loc.pending ⟨pc, hregs, ds⟩) →
      ∀ h ∈ l₁.pending, h ∈ H := fun hsub h hh => hp h (hsub h hh)
  cases pc with
  | top =>
    cases hregs with
    | nil =>
      obtain ⟨rfl, rfl⟩ := step_top_nil hstep
      exact ⟨hs, hp⟩
    | cons h hs' =>
      obtain ⟨-, rfl, rfl⟩ := step_top_cons hstep
      exact ⟨hs, hp⟩
  | drain h =>
    cases ds with
    | nil =>
      obtain ⟨rfl, rfl⟩ := step_drain_nil hstep
      exact ⟨hs, hp⟩
    | cons d ds =>
      rcases step_drain_cons hstep with ⟨-, -, rfl, s₁, h1, h2⟩ | ⟨-, rfl, rfl⟩
      · exact ⟨optional_hashState h2 (addToRange_hashState h1 hs), hp⟩
      · exact ⟨hs, hp⟩
  | overlap h =>
    cases ds with
    | nil =>
      obtain ⟨rfl, rfl⟩ := step_overlap_nil hstep
      exact ⟨hs, hp⟩
    | cons d ds =>
      obtain ⟨-, ⟨-, rfl, rfl⟩ | ⟨-, d₁, s₁, h1, -, c, h2, rfl⟩⟩ := step_overlap_cons hstep
      · exact ⟨hs, sub fun h' hh' => List.mem_cons_of_mem _ hh'⟩
      · obtain ⟨hpos, hlt, hblk⟩ := hH h (hp h (List.mem_cons_self _ _))
        exact ⟨decideChanged_hashState h2 (headSplit_hashState h1 hs) hpos hlt hblk, hp⟩
  | covered h c =>
    cases ds with
    | nil =>
      obtain ⟨rfl, rfl⟩ := step_covered_nil hstep
      exact ⟨hs, hp⟩
    | cons d ds =>
      rcases step_covered_cons hstep with ⟨-, hit⟩ | ⟨-, rfl, rfl⟩
      · obtain ⟨a, n, hem, hpc, hre⟩ := coveredIter_emits hit
        obtain ⟨pc', hregs', ds'⟩ := l'
        simp only at hpc hre
        subst hpc hre
        exact ⟨emitCovered_hashState hem hs, hp⟩
      · exact ⟨hs, sub fun h' hh' => List.mem_cons_of_mem _ hh'⟩
  | trailing =>
    cases ds with
    | nil =>
      obtain ⟨rfl, rfl⟩ := step_trailing_nil hstep
      exact ⟨hs, hp⟩
    | cons d ds =>
      obtain ⟨-, -, rfl, s₁, h1, h2⟩ := step_trailing_cons hstep
      exact ⟨optional_hashState h2 (addToRange_hashState h1 hs), hp⟩
  | done =>
    simp only [step, pure_apply, Res.ok.injEq] at hstep
    obtain ⟨rfl, rfl⟩ := hstep
    exact ⟨hs, hp⟩

/-- Sealing the header keeps the regions, and leaves a live signature. -/
lemma HashesOk.sealHeader {hinfo : HashInfo} {p : Ptr HashInfo} (hp : HashesOk env hf p) :
    ∃ hi, sealHeader env hinfo p = .live hi ∧
      ∀ r ∈ hi.regions, diskHash env hf r.start r.size = some r.hash := by
  cases p with
  | null => exact ⟨_, rfl, by simp [withHeader, HashInfo.zero]⟩
  | live h => exact ⟨_, rfl, by simpa [withHeader] using hp⟩
  | freed => exact hp.elim

end Merge

/-- **The new signature's hashes are its regions' own**: each holds the image hash of its
sectors, fixups applied. -/
theorem newsig_hashes_are_disk_hashes {env : Env} {hashFree : Bool} {fuel : Nat}
    {cur : List Range} {hfile : Option (Option (List UInt8))} {infd : Int} {ssect : Nat}
    {hinfo : HashInfo} {s s₁ s' : St} {nranges : List Range}
    (hload : loadSig env hfile { s with imagefd := infd, poffset := ssect } = .ok hinfo s₁)
    (hblk : ∀ h ∈ hinfo.regions, 0 < h.size ∧ InBlock ssect hinfo.blksize h)
    (hnull : s.nhinfo = .null)
    (H : hashmapComputeDelta env true hashFree fuel cur hfile infd ssect s =
      .ok (0, some nranges) s') :
    ∃ hi, s'.nhinfo = .live hi ∧
      ∀ r ∈ hi.regions, diskHash env (hashFuncOf hinfo.hashtype).2 r.start r.size = some r.hash := by
  obtain ⟨-, ⟨s₂, hl, -⟩ | ⟨hinfo', s₂, hl, hdf⟩⟩ := hashmapComputeDelta_ok H
  · rw [hload] at hl
    cases hl
  rw [hload] at hl
  obtain ⟨rfl, rfl⟩ := Res.ok.inj hl
  obtain ⟨⟨k, hs₁⟩, hsize⟩ := loadSig_ok hload
  have hH : ∀ h ∈ hinfo.regions, 0 < h.size ∧ h.size < 2 ^ 32 ∧ InBlock ssect hinfo.blksize h :=
    fun h hh => ⟨(hblk h hh).1, (hsize h hh).1, (hblk h hh).2⟩
  have h0 : HashInv env (hashFuncOf hinfo.hashtype).2 hinfo.blksize ssect hinfo.regions
      ⟨.top, hinfo.regions, cur⟩ (mergeStart true hinfo s₁) := by
    subst hs₁
    exact ⟨⟨rfl, rfl, rfl, by simp [mergeStart, hnull, HashesOk]⟩, fun _ => id⟩
  rcases deltaFrom_ok hdf with ⟨l, sr, hrun, hfin⟩ | ⟨sr, -, hon⟩
  · obtain ⟨⟨⟨-, -, -, hok⟩, -⟩, -⟩ := run_inv _ (fun _ _ _ _ hI _ h => hashInv_step hH hI h) h0 hrun
    obtain ⟨-, n, rfl⟩ := finish_ok hfin
    exact hok.sealHeader
  · obtain ⟨hr, -⟩ := onError_ok hon
    simp at hr

/-- The law on the allocation `[0, 3) ∪ [8, 18)` against a prior signature whose region
`[10, 14)` still matches the disk: that region is re-emitted whole beside three new ones. -/
theorem newsig_hashes_are_disk_hashes_prior :
    ∃ s', loadSig Env.plain
        (some (some (encodeHdr 8 true 3 hashTypeMd5 1 128 ++ encodeRegion ⟨10, 4, 0, [0]⟩)))
        { St.init with imagefd := 0, poffset := 0 } =
        .ok ⟨true, 3, hashTypeMd5, 128, [⟨10, 4, 0, hashBuf [0]⟩]⟩
          { St.init with imagefd := 0, poffset := 0, hashblksize := 128, nalloc := 2 } ∧
      (∀ h ∈ [(⟨10, 4, 0, hashBuf [0]⟩ : HashRegion)], 0 < h.size ∧ InBlock 0 128 h) ∧
      St.init.nhinfo = .null ∧
      hashmapComputeDelta Env.plain true false 12 [⟨0, 3⟩, ⟨8, 10⟩]
        (some (some (encodeHdr 8 true 3 hashTypeMd5 1 128 ++ encodeRegion ⟨10, 4, 0, [0]⟩))) 0 0
        St.init = .ok (0, some [⟨0, 3⟩, ⟨8, 2⟩, ⟨14, 4⟩]) s' ∧
      ∃ hi, s'.nhinfo = .live hi ∧
        ∀ r ∈ hi.regions, diskHash Env.plain (hashFuncOf hashTypeMd5).2 r.start r.size = some r.hash :=
  have hblk : ∀ h ∈ [(⟨10, 4, 0, hashBuf [0]⟩ : HashRegion)], 0 < h.size ∧ InBlock 0 128 h := by
    simp [InBlock, blockOffset]
  ⟨_, prior_region_load, hblk, rfl, prior_region_call,
    newsig_hashes_are_disk_hashes prior_region_load hblk rfl prior_region_call⟩

end Imagezip.Hashmap
