import Mathlib

/-!
# Little-endian machine words

The signature file and the relocation records are C structs written and read as raw memory on
a little-endian host.  `leBytes n x` is the `n`-byte image of `x mod 256^n`, `leNat` reads one
back; `leNat_leBytes` is the round trip.  Arrays of records are flattened lists of fixed-size blocks,
and `drop_flatten_block` reads inside one of them.
-/

namespace Imagezip

/-- The `n` bytes of `x mod 256^n`, least significant first. -/
def leBytes : Nat → Nat → List UInt8
  | 0, _ => []
  | n + 1, x => UInt8.ofNat (x % 256) :: leBytes n (x / 256)

/-- The number `bs` holds, least significant byte first. -/
def leNat : List UInt8 → Nat
  | [] => 0
  | b :: bs => b.toNat + 256 * leNat bs

/-- A number stored in an `int`: its low 32 bits as a two's-complement word.  The engine's
`size_t` byte counts and the `int32_t` fields of a chunk header are read so. -/
def toInt32 (x : Nat) : Int := if x % 2 ^ 32 < 2 ^ 31 then x % 2 ^ 32 else x % 2 ^ 32 - 2 ^ 32

@[simp] lemma length_leBytes (n x : Nat) : (leBytes n x).length = n := by
  induction n generalizing x <;> simp [leBytes, *]

lemma leNat_leBytes (n x : Nat) : leNat (leBytes n x) = x % 256 ^ n := by
  induction n generalizing x with
  | zero => simp [leBytes, leNat, Nat.mod_one]
  | succ n ih =>
    have hb : (UInt8.ofNat (x % 256)).toNat = x % 256 % 256 := rfl
    rw [leBytes, leNat, ih, hb, Nat.mod_mod, Nat.pow_succ, Nat.mul_comm _ 256]
    exact Nat.mod_mul.symm

lemma leNat_lt (bs : List UInt8) : leNat bs < 256 ^ bs.length := by
  induction bs with
  | nil => simp [leNat]
  | cons b bs ih =>
    simp only [leNat, List.length_cons, Nat.pow_succ]
    have := UInt8.toNat_lt_size b
    change b.toNat < 256 at this
    omega

/-! ## Arrays of fixed-size records -/

section Blocks

variable {k : Nat} {L : List (List UInt8)} (hk : ∀ x ∈ L, x.length = k)
include hk

lemma length_flatten_blocks : L.flatten.length = L.length * k := by
  induction L with
  | nil => simp
  | cons x L ih =>
    rw [List.flatten_cons, List.length_append, hk x (by simp), ih fun y hy => hk y (by simp [hy])]
    simp [Nat.succ_mul, Nat.add_comm]

/-- The `k`-byte blocks of a flattened list are where they were. -/
lemma take_drop_flatten {i : Nat} (hi : i < L.length) : (L.flatten.drop (i * k)).take k = L[i] := by
  induction L generalizing i with
  | nil => simp at hi
  | cons x L ih =>
    cases i with
    | zero => simp [List.take_left' (hk x (by simp))]
    | succ i =>
      rw [List.flatten_cons, Nat.succ_mul, Nat.add_comm, ← List.drop_drop,
        List.drop_left' (hk x (by simp))]
      exact ih (fun y hy => hk y (by simp [hy])) (by simpa using hi)

/-- The `m` bytes at offset `j` of the `i`-th block. -/
lemma drop_flatten_block {i j m : Nat} (hi : i < L.length) (hj : j + m ≤ k) :
    (L.flatten.drop (i * k + j)).take m = (L[i].drop j).take m := by
  rw [← take_drop_flatten hk hi, List.drop_take, List.take_take, ← List.drop_drop,
    Nat.min_eq_left (by omega)]

end Blocks

end Imagezip
