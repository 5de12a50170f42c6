import Mathlib.Data.BitVec
import Uffs.Model.Layout

/-
  The bytes of a flash page (`uffs_flash.c`), for the layout
  `UFFS_LAYOUT_UFFS` and the option `UFFS_ECC_SOFT` with the
  automatic ECC size, over a driver that provides `ReadPage`
  and `WritePage`.

  Main declarations:
    * `Geometry`, `Geometry.attr`
    * `TagStore`
    * `makeSpare`, `unloadTag`, `unloadEcc`
    * `writePageBytes`, `readPageBytes`, `readTagBytes`
    * `writePageCombine`
-/

namespace Uffs

------------------------------------------------------------
-- Geometries
------------------------------------------------------------

/- `UFFS_MAX_PAGE_SIZE` -/
def maxPageSize : Nat := 2048

/- `sizeof(struct uffs_MiniHeaderSt)` -/
def miniHeaderSize : Nat := 4

/-
  `uffs_StorageAttrSt`: `page_data_size`, `spare_size` and
  `block_status_offs`.
-/
structure Geometry where
  pageDataSize : Nat
  spareSize : Nat
  blockStatusOffs : Nat
deriving DecidableEq, Repr

namespace Geometry

/- `NOMINAL_ECC_SIZE` -/
def eccSize (g : Geometry) : Nat :=
  3 * ((g.pageDataSize - 1) / 256 + 1)

/-
  The attributes of `UFFS_LAYOUT_UFFS` with `UFFS_ECC_SOFT`
  and the automatic ECC size.
-/
def attr (g : Geometry) : SpareAttr where
  eccNone := false
  eccSize := g.eccSize
  blockStatusOffs := u8 g.blockStatusOffs
  statusByte := Nat.mod_lt _ (by decide)

/- `CalculateSpareDataSize` -/
def spareDataSize (g : Geometry) : Nat :=
  g.attr.spareDataSize

/-
  What `uffs_FlashInterfaceInit` accepts; `spare_size` and
  `block_status_offs` are of type `u8`, and a page has room
  for the mini header.
-/
structure Accepted (g : Geometry) : Prop where
  header : miniHeaderSize ≤ g.pageDataSize
  page : g.pageDataSize ≤ maxPageSize
  spareByte : g.spareSize < 256
  statusByte : g.blockStatusOffs < 256
  spare : g.spareDataSize ≤ g.spareSize

end Geometry

------------------------------------------------------------
-- Spare Bytes
------------------------------------------------------------

/- `SEAL_BYTE` -/
def sealByte (g : Geometry) (spare : List Byte) : Byte :=
  spare.getD g.attr.sealOffs 0

/- `uffs_FlashMakeSpare` -/
def makeSpare
    (g : Geometry)
    (ts ecc : List Byte) : List Byte :=
  g.attr.makeSpare ts ecc

/- `uffs_FlashUnloadSpare` of the tag -/
def unloadTag (g : Geometry) (spare : List Byte) : List Byte :=
  g.attr.unloadTag spare

/- `uffs_FlashUnloadSpare` of the ECC -/
def unloadEcc (g : Geometry) (spare : List Byte) : List Byte :=
  g.attr.unloadEcc spare

------------------------------------------------------------
-- Tags
------------------------------------------------------------

/-
  `uffs_TagStoreSt`: the bit fields are laid out from the
  lowest bit on.
-/
abbrev TagStore : Type := BitVec 64

namespace TagStore

def dirty (t : TagStore) : BitVec 1 := t.extractLsb' 0 1

def valid (t : TagStore) : BitVec 1 := t.extractLsb' 1 1

def type (t : TagStore) : BitVec 2 := t.extractLsb' 2 2

def blockTs (t : TagStore) : BitVec 2 := t.extractLsb' 4 2

def dataLen (t : TagStore) : BitVec 12 := t.extractLsb' 6 12

def serial (t : TagStore) : BitVec 14 := t.extractLsb' 18 14

def parent (t : TagStore) : BitVec 10 := t.extractLsb' 32 10

def pageId (t : TagStore) : BitVec 6 := t.extractLsb' 42 6

def reserved (t : TagStore) : BitVec 4 := t.extractLsb' 48 4

def tagEcc (t : TagStore) : BitVec 12 := t.extractLsb' 52 12

/- The fields below `tag_ecc`. -/
def fields (t : TagStore) : BitVec 52 := t.extractLsb' 0 52

/- `ts->tag_ecc = ecc` -/
def setTagEcc (t : TagStore) (ecc : BitVec 12) : TagStore :=
  ecc ++ t.fields

/- `TAG_DIRTY_BIT(tag) = TAG_DIRTY`, and the valid bit -/
def setWritten (t : TagStore) : TagStore :=
  t.extractLsb' 2 62 ++ 0#2

/- The bytes of a tag store, lowest first. -/
def bytes (t : TagStore) : List Byte :=
  (List.range 8).map fun i =>
    UInt8.ofBitVec (t.extractLsb' (8 * i) 8)

/- The tag store that eight bytes are. -/
def ofBytes (l : List Byte) : TagStore :=
  (l.getD 7 0).toBitVec ++ (l.getD 6 0).toBitVec ++
    (l.getD 5 0).toBitVec ++ (l.getD 4 0).toBitVec ++
    (l.getD 3 0).toBitVec ++ (l.getD 2 0).toBitVec ++
    (l.getD 1 0).toBitVec ++ (l.getD 0 0).toBitVec

/- `TagMakeEcc` -/
def makeEcc (t : TagStore) : TagStore :=
  let t := t.setTagEcc 0xFFF#12
  t.setTagEcc (BitVec.ofNat 12 (eccMake8 t.bytes))

/- `TagEccCorrect`: the result and the tag store -/
def eccCorrect (t : TagStore) : Int × TagStore :=
  let eccStore := t.tagEcc
  let t := t.setTagEcc 0xFFF#12
  let eccRead := eccMake8 t.bytes
  let q := eccCorrect8 t.bytes eccRead eccStore.toNat
    tagStoreSize
  -- restore tag ecc
  (q.1, (ofBytes q.2).setTagEcc eccStore)

end TagStore

------------------------------------------------------------
-- Pages
------------------------------------------------------------

/- The two bytes of a `u16`, lowest first. -/
def le16 (n : Nat) : List Byte :=
  [UInt8.ofNat n, UInt8.ofNat (n >>> 8)]

/- Read a `u16` stored lowest byte first. -/
def ofLe16 : List Byte → Nat
| a :: b :: _ => a.toNat + (b.toNat <<< 8)
| _ => 0

/-
  The mini header of a page that is written; `pageCrc` is
  `CONFIG_ENABLE_PAGE_DATA_CRC`.
-/
def miniHeader (pageCrc : Bool) (data : List Byte) :
    List Byte :=
  [0, 0xFF] ++
    if pageCrc then le16 (crc16sum data) else [0xFF, 0xFF]

/- `HEADER(buf)->crc` -/
def headerCrc (page : List Byte) : Nat :=
  ofLe16 (page.drop 2)

/- The data area, the bytes behind the mini header. -/
def pageData (page : List Byte) : List Byte :=
  page.drop miniHeaderSize

/- The page and spare bytes of a flash page. -/
structure RawPage where
  page : List Byte
  spare : List Byte
deriving DecidableEq

/-
  `uffs_FlashWritePageCombine` up to the call of the driver:
  the bytes that the driver is given.
-/
def writePageBytes
    (g : Geometry)
    (pageCrc : Bool)
    (data : List Byte)
    (tag : TagStore) : RawPage :=
  let page := miniHeader pageCrc data ++ data
  let ts := tag.setWritten.makeEcc
  { page := page
    spare := makeSpare g ts.bytes (eccMake page) }

/- The result code of an ECC correction. -/
def eccRet (ret : Int) : FlashRet :=
  if ret < 0 then .eccFail
  else if ret > 0 then .eccOk
  else .noErr

/-
  `uffs_FlashReadPage` with ECC, from the bytes that the
  driver read without an error on.
-/
def readPageBytes
    (g : Geometry)
    (pageCrc : Bool)
    (raw : RawPage) : FlashRet × List Byte :=
  if pageCrc &&
      headerCrc raw.page == crc16sum (pageData raw.page) then
    -- CRC is matched, no need to do ECC correction
    (.noErr, raw.page)
  else
    let q := Uffs.eccCorrect raw.page (unloadEcc g raw.spare)
      (eccMake raw.page)
    if (eccRet q.1).haveErr then
      (eccRet q.1, q.2)
    else if pageCrc &&
        headerCrc q.2 != crc16sum (pageData q.2) then
      (.crcErr, q.2)
    else
      (eccRet q.1, q.2)

/- What `uffs_FlashReadPageTag` returns. -/
structure TagRead where
  ret : FlashRet
  tag : TagStore
  sealed : Bool
deriving DecidableEq

/-
  `uffs_FlashReadPageTag`, from the bytes that the driver
  read without an error on; `TAG_IS_SEALED` is that the seal
  byte is not 0xFF.
-/
def readTagBytes (g : Geometry) (raw : RawPage) : TagRead :=
  let tag := TagStore.ofBytes (unloadTag g raw.spare)
  if sealByte g raw.spare = 0xFF then
    { ret := .noErr, tag := tag, sealed := false }
  else
    let q := tag.eccCorrect
    { ret := eccRet q.1, tag := q.2, sealed := true }

------------------------------------------------------------
-- Writing with Verification
------------------------------------------------------------

/- What one call of the driver's `ReadPage` yields. -/
structure RawRead where
  ret : FlashRet
  raw : RawPage
deriving DecidableEq

/-
  What `uffs_FlashWritePageCombine` is given on its way: the
  results of the driver, and whether the spare pool and the
  clone buffers have one left when it asks.
-/
structure WriteCalls where
  spare : Bool
  write : FlashRet
  clone : Bool
  dataSpare : Bool
  data : RawRead
  tagSpare : Bool
  tag : RawRead
deriving DecidableEq

/- A result code that no ECC correction replaces. -/
def FlashRet.orElse (q ret : FlashRet) : FlashRet :=
  if q = .noErr then ret else q

/- `uffs_FlashReadPage` with ECC -/
def readPageOf
    (g : Geometry)
    (pageCrc spare : Bool)
    (r : RawRead) : FlashRet × List Byte :=
  if !spare then
    (.unknownErr, [])
  else if r.ret.haveErr then
    (r.ret, r.raw.page)
  else
    let q := readPageBytes g pageCrc r.raw
    (q.1.orElse r.ret, q.2)

/- `uffs_FlashReadPageTag`: the result and the tag store -/
def readTagOf
    (g : Geometry)
    (spare : Bool)
    (r : RawRead) : FlashRet × TagStore :=
  if !spare then
    (.unknownErr, 0)
  else if r.ret.haveErr then
    (r.ret, 0)
  else
    let q := readTagBytes g r.raw
    (q.ret.orElse r.ret, q.tag)

/-
  The read back of the data with `CONFIG_PAGE_WRITE_VERIFY`:
  is the block bad?
-/
def verifyPageBytes
    (g : Geometry)
    (pageCrc : Bool)
    (page : List Byte)
    (c : WriteCalls) : Bool :=
  if c.clone then
    let q := readPageOf g pageCrc c.dataSpare c.data
    let ret :=
      if !q.1.haveErr && q.2 ≠ page then FlashRet.badBlk
      else q.1
    ret.isBadBlock
  else
    false

/- `uffs_FlashWritePageCombine` -/
def writePageCombine
    (g : Geometry)
    (pageCrc : Bool)
    (data : List Byte)
    (tag : TagStore)
    (c : WriteCalls) : FlashRet :=
  if !c.spare then
    .unknownErr
  else if c.write.haveErr then
    if c.write.isBadBlock then .badBlk else c.write
  else
    let page := (writePageBytes g pageCrc data tag).page
    let isBad := c.write.isBadBlock ||
      verifyPageBytes g pageCrc page c
    let chk := readTagOf g c.tagSpare c.tag
    if chk.1.haveErr then
      if isBad then .badBlk else chk.1
    else
      let ret :=
        if chk.2 ≠ tag.setWritten.makeEcc then FlashRet.badBlk
        else chk.1
      if isBad || ret.isBadBlock then .badBlk else ret

end Uffs
