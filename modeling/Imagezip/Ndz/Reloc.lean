import Imagezip.ImageHdr

/-!
# The relocation table

`reloc.c` keeps the relocations of an image in its `struct ndz_file`: an array `relocdata` of
`relocentries` records, all of the width `reloc32` gives, and the least and greatest sector
stored, `reloclo` and `relochi`.  `ndz_reloc_get` appends the records of a chunk header,
`ndz_reloc_put` selects those of a chunk, `ndz_reloc_inrange` counts those in an interval,
`ndz_reloc_copy` clones a table into an empty one and `ndz_reloc_free` empties it.

The model keeps the array as the bytes of its block.  Each call to `malloc` or `realloc` is
told whether it succeeds, and a failed `assert` gives `none`.  `libndz.h`, which declares
`struct ndz_file`, `ndz_addr_t` and the sentinels, is not among the sources: the model takes
sectors to be 64-bit, as the 64-bit records have them.
-/

namespace Imagezip.Ndz

/-- `NDZ_LOADDR`: the least sector. -/
def ndzLoaddr : Nat := 0

/-- `NDZ_HIADDR`: the greatest sector. -/
def ndzHiaddr : Nat := 2 ^ 64 - 1

/-- The relocation fields of `struct ndz_file`, and the sector size that `ndz_reloc_inrange`
and `ndz_reloc_put` check records against. -/
structure NdzFile where
  reloc32 : Bool
  /-- `NULL`, or the bytes of the block. -/
  relocdata : Option (List UInt8)
  relocentries : Nat
  reloclo : Nat
  relochi : Nat
  sectsize : Nat
deriving Repr, DecidableEq

/-- A block of `n` bytes from `realloc`: the old bytes, then bytes the model takes as zero. -/
def resize (old : List UInt8) (n : Nat) : List UInt8 := (old ++ List.replicate n 0).take n

namespace NdzFile

/-- The records of the table, as every loop over it reads them. -/
def records (ndz : NdzFile) : List Reloc :=
  (List.range ndz.relocentries).map (relocAt ndz.reloc32 (ndz.relocdata.getD []))

/-- `ndz_reloc_init`. -/
def relocInit (ndz : NdzFile) : NdzFile :=
  { ndz with
    reloc32 := true, relocdata := none, relocentries := 0, reloclo := ndzHiaddr
    relochi := ndzLoaddr }

/-- `ndz_reloc_free`. -/
def relocFree (ndz : NdzFile) : NdzFile := { ndz with relocdata := none, relocentries := 0 }

end NdzFile

open NdzFile

/-! ## Appending a chunk's records -/

/-- The bounds after one more sector in the loop of `ndz_reloc_get`: `reloclo` is set while it
is `NDZ_HIADDR`, and must not exceed the sector (`assert`). -/
def addBound (lohi : Nat × Nat) (rsector : Nat) : Option (Nat × Nat) :=
  let lo := if lohi.1 = ndzHiaddr then rsector else lohi.1
  if lo ≤ rsector then some (lo, if rsector > lohi.2 then rsector else lohi.2) else none

/-- The bounds after the loop over the sectors of a chunk's records. -/
def addBounds : Nat × Nat → List Nat → Option (Nat × Nat)
  | lohi, [] => some lohi
  | lohi, r :: rs => (addBound lohi r).bind fun lohi' => addBounds lohi' rs

/-- The width of a chunk's records: `hdr->magic >= COMPRESSED_V5 ? 0 : 1`. -/
def hdrIs32 (hdr : BlockHdr) : Bool := decide (hdr.magic < compressedV5)

/-- The records of a chunk, as the loop of `ndz_reloc_get` reads them from `buf`. -/
def chunkRecords (hdr : BlockHdr) (buf : List UInt8) : List Reloc :=
  (List.range hdr.reloccount).map (relocAt (hdrIs32 hdr) buf)

/-- `ndz_reloc_get(ndz, hdr, buf)`, where `allocOk` says whether its `malloc` or `realloc`
succeeds: the value it returns and the table after it.  The loop copies each record field by
field, so the model appends the records as it read them. -/
def relocGet (allocOk : Bool) (hdr : BlockHdr) (buf : List UInt8) (ndz : NdzFile) :
    Option (Int × NdzFile) :=
  if hdr.magic < compressedV2 ∨ hdr.reloccount = 0 then some (0, ndz)
  else if ndz.relocdata.isSome ∧ hdrIs32 hdr ≠ ndz.reloc32 then none
  else
    let ndz := { ndz with reloc32 := hdrIs32 hdr }
    if allocOk then
      (addBounds (ndz.reloclo, ndz.relochi) ((chunkRecords hdr buf).map Reloc.sector)).map
        fun lohi => (0, { ndz with
          relocdata := some (resize (ndz.relocdata.getD []) (relocRsize ndz.reloc32 ndz.relocentries)
            ++ ((chunkRecords hdr buf).map (encodeReloc ndz.reloc32)).flatten)
          relocentries := ndz.relocentries + hdr.reloccount
          reloclo := lohi.1
          relochi := lohi.2 })
    else some (-1, ndz.relocFree)

/-! ## Reading the table -/

/-- Whether a record's patch fits in its sector: `assert(roffset + rsize <= ndz->sectsize)`. -/
def fitsSector (sectsize : Nat) (r : Reloc) : Prop := (r.sectoff + r.size) % 2 ^ 64 ≤ sectsize

instance (sectsize : Nat) (r : Reloc) : Decidable (fitsSector sectsize r) :=
  inferInstanceAs (Decidable (_ ≤ _))

/-- The loop of `ndz_reloc_inrange` from a record on: how many records have their sector in
`[addr, eaddr]` before the first past `eaddr` (`break`). -/
def inrangeLoop (sectsize addr eaddr : Nat) : List Reloc → Option Nat
  | [] => some 0
  | r :: rs =>
    if fitsSector sectsize r then
      if r.sector > eaddr then some 0
      else (inrangeLoop sectsize addr eaddr rs).map fun n =>
        if addr ≤ r.sector ∧ r.sector ≤ eaddr then n + 1 else n
    else none

/-- `ndz_reloc_inrange(ndz, addr, size)`: `size` 0 counts to the end. -/
def relocInrange (ndz : NdzFile) (addr size : Nat) : Option Nat :=
  let eaddr :=
    if size = 0 then (if ndz.relochi > addr then ndz.relochi else addr)
    else (addr + size - 1) % 2 ^ 64
  if ndz.relocentries = 0 ∨ addr > ndz.relochi ∨ eaddr < ndz.reloclo then some 0
  else inrangeLoop ndz.sectsize addr eaddr ndz.records

/-- The loop of `ndz_reloc_put`: the records with sector in `[firstsect, lastsect)`, in order. -/
def putLoop (sectsize firstsect lastsect : Nat) : List Reloc → Option (List Reloc)
  | [] => some []
  | r :: rs =>
    if fitsSector sectsize r then
      (putLoop sectsize firstsect lastsect rs).map fun out =>
        if firstsect ≤ r.sector ∧ r.sector < lastsect then r :: out else out
    else none

/-- `ndz_reloc_put(ndz, hdr, buf)`: the bytes it writes at the start of `buf`. -/
def relocPut (hdr : BlockHdr) (ndz : NdzFile) : Option (List UInt8) :=
  if ndz.relocentries = 0 ∨ hdr.firstsect > ndz.relochi ∨ hdr.lastsect ≤ ndz.reloclo then some []
  else (putLoop ndz.sectsize hdr.firstsect hdr.lastsect ndz.records).map fun out =>
    (out.map (encodeReloc ndz.reloc32)).flatten

/-! ## Copying a table -/

/-- `ndz_reloc_copy(ndzfrom, ndzto)`, where `allocOk` says whether its `malloc` succeeds: the
value it returns and `ndzto` after it. -/
def relocCopy (allocOk : Bool) (ndzfrom ndzto : NdzFile) : Int × NdzFile :=
  if ndzto.relocentries > 0 then (-1, ndzto)
  else if ndzfrom.relocentries = 0 then (0, ndzto)
  else if allocOk then
    (0, { ndzto with
      relocdata := some (resize (ndzfrom.relocdata.getD [])
        (relocRsize ndzfrom.reloc32 ndzfrom.relocentries))
      relocentries := ndzfrom.relocentries
      reloclo := ndzfrom.reloclo
      relochi := ndzfrom.relochi })
  else (-1, { ndzto with relocdata := none })

end Imagezip.Ndz
