import Uffs.Model.Ecc

/-
  The spare layouts of `InitSpareLayout` (`uffs_flash.c`) for
  every ECC size and for a device without ECC, and what
  `uffs_FlashMakeSpare` and `uffs_FlashUnloadSpare` do with
  them.

  Main declarations:
    * `segments`, `segmentsEnd`
    * `loadSegments`, `unloadSegments`
    * `SpareAttr`
    * `SpareAttr.dataLayout`, `SpareAttr.eccLayout`
    * `SpareAttr.spareDataSize`
    * `SpareAttr.makeSpare`
    * `SpareAttr.unloadTag`, `SpareAttr.unloadEcc`
-/

namespace Uffs

------------------------------------------------------------
-- Segments
------------------------------------------------------------

/- `TAG_STORE_SIZE` -/
def tagStoreSize : Nat := 8

/- A value that is stored in a `u8`. -/
def u8 (n : Nat) : Nat :=
  n % 256

/- The segments of a layout, each an offset and a size. -/
def segments : List Nat → List (Nat × Nat)
| ofs :: len :: rest =>
    if ofs = 0xFF then [] else (ofs, len) :: segments rest
| _ => []

/-
  A loop of `CalculateSpareDataSize`: the end of the last
  segment that is used for `size` bytes.
-/
def segmentsEnd :
    List (Nat × Nat) → Nat → Nat → Nat
| [], _, last => last
| (ofs, len) :: rest, size, last =>
    if size = 0 then
      last
    else
      let n := if len > size then size else len
      segmentsEnd rest (size - n) (ofs + n)

/- A loop of `uffs_FlashMakeSpare`. -/
def loadSegments :
    List (Nat × Nat) → List Byte → List Byte → List Byte
| [], _, spare => spare
| (ofs, len) :: rest, bytes, spare =>
    if bytes.isEmpty then
      spare
    else
      let n := if len > bytes.length then bytes.length else len
      loadSegments rest (bytes.drop n)
        (blit spare ofs (bytes.take n))

/- A loop of `uffs_FlashUnloadSpare`. -/
def unloadSegments :
    List (Nat × Nat) → Nat → List Byte → List Byte
| [], _, _ => []
| (ofs, len) :: rest, size, spare =>
    if size = 0 then
      []
    else
      let n := if len > size then size else len
      (spare.drop ofs).take n ++
        unloadSegments rest (size - n) spare

------------------------------------------------------------
-- Layouts
------------------------------------------------------------

/-
  `uffs_StorageAttrSt`: `ecc_size` and `block_status_offs`,
  and whether `ecc_opt` is `UFFS_ECC_NONE`.
-/
structure SpareAttr where
  eccNone : Bool
  eccSize : Nat
  blockStatusOffs : Nat
  -- `u8 block_status_offs`
  statusByte : blockStatusOffs < 256

namespace SpareAttr

/- The data layout of `InitSpareLayout`. -/
def dataLayout (a : SpareAttr) : List Nat :=
  let s := u8 a.blockStatusOffs
  if s < tagStoreSize then
    (if s > 0 then [0, s] else []) ++
      [u8 (s + 1), u8 (tagStoreSize - s), 0xFF, 0]
  else
    [0, tagStoreSize, 0xFF, 0]

/- The ECC layout of `InitSpareLayout`. -/
def eccLayout (a : SpareAttr) : List Nat :=
  let s := u8 a.blockStatusOffs
  (if a.eccNone then
    []
  else if s < tagStoreSize then
    [tagStoreSize + 1, u8 a.eccSize]
  else if s < tagStoreSize + a.eccSize then
    (if s > tagStoreSize then
      [tagStoreSize, u8 (s - tagStoreSize)]
    else []) ++
      [u8 (s + 1), u8 (tagStoreSize + a.eccSize - s)]
  else
    [tagStoreSize, u8 a.eccSize]) ++ [0xFF, 0]

/- The ECC bytes of a page; there are none without ECC. -/
def eccBytes (a : SpareAttr) : Nat :=
  if a.eccNone then 0 else a.eccSize

/- `CalculateSpareDataSize` -/
def spareDataSize (a : SpareAttr) : Nat :=
  let eccLast := segmentsEnd (segments a.eccLayout) a.eccBytes 0
  let tagLast :=
    segmentsEnd (segments a.dataLayout) tagStoreSize 0
  let n := if eccLast > tagLast then eccLast else tagLast
  let n :=
    if n > a.blockStatusOffs + 1 then n
    else a.blockStatusOffs + 1
  -- plus one seal byte
  n + 1

/- The place of `SEAL_BYTE` -/
def sealOffs (a : SpareAttr) : Nat :=
  a.spareDataSize - 1

/-
  `uffs_FlashMakeSpare`; `ecc` is empty when the source
  passes `NULL`.
-/
def makeSpare
    (a : SpareAttr)
    (ts ecc : List Byte) : List Byte :=
  let spare := List.replicate a.spareDataSize 0xFF
  let spare := spare.set a.sealOffs 0
  let spare := loadSegments (segments a.eccLayout) ecc spare
  loadSegments (segments a.dataLayout) ts spare

/- `uffs_FlashUnloadSpare` of the tag -/
def unloadTag (a : SpareAttr) (spare : List Byte) : List Byte :=
  unloadSegments (segments a.dataLayout) tagStoreSize spare

/- `uffs_FlashUnloadSpare` of the ECC -/
def unloadEcc (a : SpareAttr) (spare : List Byte) : List Byte :=
  unloadSegments (segments a.eccLayout) a.eccSize spare

end SpareAttr

end Uffs
