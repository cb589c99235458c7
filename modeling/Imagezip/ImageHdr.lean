import Imagezip.Bytes

/-!
# Chunk headers and relocation records

What the relocation table reads from `imagehdr.h`: the magic numbers of the header versions, the
fields of a chunk header (`blockhdr_V2` and later) that `ndz_reloc_get` and `ndz_reloc_put` use,
and the two layouts of `blockreloc_t`.  A record is raw memory on a little-endian host.

* `decodeReloc_encodeReloc`: a record reads back as written, each field cut to its width;
* `relocAt_flatten`: the `i`-th record of an array of records.
-/

namespace Imagezip

/-- `COMPRESSED_MAGIC_BASE`. -/
def compressedMagicBase : Nat := 0x69696969

/-- `COMPRESSED_V2`: the first version with relocations. -/
def compressedV2 : Nat := compressedMagicBase + 1

/-- `COMPRESSED_V3`. -/
def compressedV3 : Nat := compressedMagicBase + 2

/-- `COMPRESSED_V5`: the first version with 64-bit sectors and records. -/
def compressedV5 : Nat := compressedMagicBase + 4

/-- `COMPRESSED_V1`. -/
def compressedV1 : Nat := compressedMagicBase

/-- `COMPRESSED_V6`. -/
def compressedV6 : Nat := compressedMagicBase + 5

/-- `COMPRESSED_MAGIC_CURRENT`. -/
def compressedMagicCurrent : Nat := compressedV5

/-- The fields of a chunk header that the modelled code reads: those of `blockhdr_t` (which is
`struct blockhdr_V5`) and the two type fields of `struct blockhdr_V6`.  `reloccount` is an
`int32_t`; the model takes the non-negative counts a chunk carries. -/
structure BlockHdr where
  magic : Nat
  size : Nat := 0
  blockindex : Int := 0
  blocktotal : Int := 0
  regionsize : Int := 0
  firstsect : Nat := 0
  lastsect : Nat := 0
  reloccount : Nat := 0
  firstsect64 : Nat := 0
  lastsect64 : Nat := 0
  imageid : List UInt8 := List.replicate 16 0
  encCipher : Nat := 0
  csumType : Nat := 0
deriving Repr, DecidableEq

/-! ## Relocation records -/

/-- A relocation record, `struct blockreloc_32` or `struct blockreloc_64`, with its fields as
numbers. -/
structure Reloc where
  type : Nat
  sector : Nat
  sectoff : Nat
  size : Nat
deriving Repr, DecidableEq

/-- `sizeof(struct blockreloc_32)` and `sizeof(struct blockreloc_64)`. -/
def relocSize (is32 : Bool) : Nat := if is32 then 16 else 24

/-- `RELOC_RSIZE(is32, num)`. -/
def relocRsize (is32 : Bool) (num : Nat) : Nat := num * relocSize is32

/-- The bytes of a record: `type`, `sector`, `sectoff`, `size` as 32-bit words in
`struct blockreloc_32`; `type`, `sectoff`, then `sector` and `size` as 64-bit words in
`struct blockreloc_64`. -/
def encodeReloc (is32 : Bool) (r : Reloc) : List UInt8 :=
  if is32 then leBytes 4 r.type ++ leBytes 4 r.sector ++ leBytes 4 r.sectoff ++ leBytes 4 r.size
  else leBytes 4 r.type ++ leBytes 4 r.sectoff ++ leBytes 8 r.sector ++ leBytes 8 r.size

/-- The little-endian word of `n` bytes at `off`; bytes past the end of `mem` read as zero. -/
def wordAt (mem : List UInt8) (off n : Nat) : Nat := leNat ((mem.drop off).take n)

/-- The fields of a record, read from its bytes. -/
def decodeReloc (is32 : Bool) (b : List UInt8) : Reloc :=
  if is32 then ⟨wordAt b 0 4, wordAt b 4 4, wordAt b 8 4, wordAt b 12 4⟩
  else ⟨wordAt b 0 4, wordAt b 8 8, wordAt b 4 4, wordAt b 16 8⟩

/-- The record `RELOC_ADDR(is32, base, ix)` points to. -/
def relocAt (is32 : Bool) (base : List UInt8) (ix : Nat) : Reloc :=
  decodeReloc is32 ((base.drop (ix * relocSize is32)).take (relocSize is32))

/-- A record as its fields' widths hold it. -/
def Reloc.narrow (is32 : Bool) (r : Reloc) : Reloc :=
  if is32 then ⟨r.type % 2 ^ 32, r.sector % 2 ^ 32, r.sectoff % 2 ^ 32, r.size % 2 ^ 32⟩
  else ⟨r.type % 2 ^ 32, r.sector % 2 ^ 64, r.sectoff % 2 ^ 32, r.size % 2 ^ 64⟩

@[simp] lemma length_encodeReloc (is32 : Bool) (r : Reloc) :
    (encodeReloc is32 r).length = relocSize is32 := by
  cases is32 <;> simp [encodeReloc, relocSize]

section Words

variable {A B : List UInt8} {off n : Nat}

lemma wordAt_append_left (h : off + n ≤ A.length) : wordAt (A ++ B) off n = wordAt A off n := by
  rw [wordAt, wordAt, List.drop_append_of_le_length (by omega),
    List.take_append_of_le_length (by simp; omega)]

lemma wordAt_append_right (h : A.length ≤ off) :
    wordAt (A ++ B) off n = wordAt B (off - A.length) n := by
  rw [wordAt, wordAt, List.drop_append_eq_append_drop, List.drop_eq_nil_of_le h, List.nil_append]

lemma wordAt_leBytes (x : Nat) : wordAt (leBytes n x) 0 n = x % 256 ^ n := by
  rw [wordAt, List.drop_zero, List.take_of_length_le (by simp), leNat_leBytes]

end Words

/-- A record reads back as written, each field cut to its width. -/
@[simp] lemma decodeReloc_encodeReloc (is32 : Bool) (r : Reloc) :
    decodeReloc is32 (encodeReloc is32 r) = r.narrow is32 := by
  cases is32 <;>
    simp [decodeReloc, encodeReloc, Reloc.narrow, wordAt_append_left, wordAt_append_right,
      wordAt_leBytes]

/-- The `i`-th record of an array of records. -/
lemma relocAt_flatten (is32 : Bool) (L : List Reloc) {i : Nat} (hi : i < L.length) :
    relocAt is32 (L.map (encodeReloc is32)).flatten i = L[i].narrow is32 := by
  have hk : ∀ x ∈ L.map (encodeReloc is32), x.length = relocSize is32 := by simp
  rw [relocAt, take_drop_flatten hk (by simpa using hi), List.getElem_map,
    decodeReloc_encodeReloc]

lemma wordAt_lt (mem : List UInt8) (off n : Nat) : wordAt mem off n < 2 ^ (8 * n) :=
  calc wordAt mem off n < 256 ^ ((mem.drop off).take n).length := leNat_lt _
    _ ≤ 256 ^ n := Nat.pow_le_pow_right (by decide) (List.length_take_le _ _)
    _ = 2 ^ (8 * n) := by rw [Nat.pow_mul]

/-- A record read from memory already fits its fields. -/
@[simp] lemma narrow_relocAt (is32 : Bool) (base : List UInt8) (ix : Nat) :
    (relocAt is32 base ix).narrow is32 = relocAt is32 base ix := by
  have h4 := wordAt_lt ((base.drop (ix * relocSize is32)).take (relocSize is32))
  cases is32 <;> simp only [relocAt, decodeReloc, Reloc.narrow, Bool.false_eq_true, if_true,
    if_false, Nat.mod_eq_of_lt (h4 _ 4), Nat.mod_eq_of_lt (h4 _ 8)]

/-- Records before the end of `A` are read from `A`. -/
lemma relocAt_append_left {is32 : Bool} {A B : List UInt8} {ix : Nat}
    (h : (ix + 1) * relocSize is32 ≤ A.length) : relocAt is32 (A ++ B) ix = relocAt is32 A ix := by
  rw [Nat.succ_mul] at h
  rw [relocAt, relocAt, List.drop_append_of_le_length (by omega),
    List.take_append_of_le_length (by simp; omega)]

/-- Records past the `n` of `A` are read from `B`. -/
lemma relocAt_append_right {is32 : Bool} {A B : List UInt8} {n : Nat}
    (h : A.length = n * relocSize is32) (j : Nat) :
    relocAt is32 (A ++ B) (n + j) = relocAt is32 B j := by
  rw [relocAt, relocAt, Nat.add_mul, List.drop_append_eq_append_drop,
    List.drop_eq_nil_of_le (by omega), List.nil_append, h, Nat.add_sub_cancel_left]

end Imagezip
