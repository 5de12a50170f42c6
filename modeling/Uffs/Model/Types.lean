import Mathlib.Algebra.Order.Ring.Int
import Mathlib.Data.Nat.Notation

/-
  Values that travel between the layers of UFFS: result
  codes, page tags, flash pages and file headers.

  Bit fields and fixed-width integers are natural numbers;
  `Tag.store` cuts every field to its width in
  `uffs_TagStoreSt`.  The tag ECC and the page ECC are not
  stored here: what they do to a read is part of the result
  code of that read (see `Answer`).

  Main declarations:
    * `FlashRet`
    * `Tag`
    * `Page`
    * `FileInfo`
    * `makeSum16`
-/

namespace Uffs

------------------------------------------------------------
-- Result Codes
------------------------------------------------------------

/- `UFFS_FLASH_*`: result of a flash operation. -/
inductive FlashRet where
| noErr
| eccOk
| ioErr
| eccFail
| badBlk
| crcErr
| unknownErr
deriving DecidableEq, Repr

namespace FlashRet

/- `UFFS_FLASH_HAVE_ERR` -/
def haveErr : FlashRet → Bool
| .noErr => false
| .eccOk => false
| _ => true

/- `UFFS_FLASH_IS_BAD_BLOCK` (the policy is not strict) -/
def isBadBlock : FlashRet → Bool
| .eccFail => true
| .badBlk => true
| .crcErr => true
| _ => false

/- `UFFS_FLASH_IS_NON_RECOVER_BAD_BLOCK` -/
def isNonRecoverBadBlock : FlashRet → Bool
| .eccFail => true
| .crcErr => true
| _ => false

/- The result when no ECC decoding takes place. -/
def raw : FlashRet → FlashRet
| .eccOk => .noErr
| .eccFail => .noErr
| .crcErr => .noErr
| r => r

end FlashRet

/- `U_SUCC` and `U_FAIL` -/
inductive URet where
| succ
| fail
deriving DecidableEq, Repr

------------------------------------------------------------
-- Page Tags
------------------------------------------------------------

/- `UFFS_TYPE_*`, the two type bits of a tag -/
inductive BlockType where
| dir
| file
| data
| resv
deriving DecidableEq, Repr

/-
  `uffs_TagsSt`: the tag store and the seal byte.  A field
  `sealed` stands for a seal byte other than 0xFF.
-/
structure Tag where
  dirty : Nat
  valid : Nat
  type : BlockType
  blockTs : Nat
  dataLen : Nat
  serial : Nat
  parent : Nat
  pageId : Nat
  sealed : Bool
deriving DecidableEq, Repr

namespace Tag

/- The tag of an erased page: every bit is 1. -/
def erased : Tag where
  dirty := 1
  valid := 1
  type := .resv
  blockTs := 3
  dataLen := 4095
  serial := 16383
  parent := 1023
  pageId := 63
  sealed := false

/- `TAG_IS_DIRTY`: the first four bytes are not all 0xFF -/
def isDirty (t : Tag) : Bool :=
  !(t.dirty == 1 && t.valid == 1 && t.type == .resv &&
    t.blockTs == 3 && t.dataLen == 4095 &&
    t.serial == 16383)

/- `TAG_IS_VALID` -/
def isValid (t : Tag) : Bool :=
  t.valid == 0

/- `TAG_IS_GOOD` -/
def isGood (t : Tag) : Bool :=
  t.sealed && t.isValid

/-
  The tag that `uffs_FlashWritePageCombine` stores, with
  each field cut to its width.
-/
def store
    (type : BlockType)
    (blockTs dataLen serial parent pageId : Nat) : Tag where
  dirty := 0
  valid := 0
  type := type
  blockTs := blockTs % 4
  dataLen := dataLen % 4096
  serial := serial % 16384
  parent := parent % 1024
  pageId := pageId % 64
  sealed := true

end Tag

------------------------------------------------------------
-- Flash Pages
------------------------------------------------------------

/- A byte of page data. -/
abbrev Byte := UInt8

/-
  One flash page: the status byte of the mini header, the
  data area behind the mini header, and the tag kept in the
  spare area.
-/
structure Page where
  status : Nat
  data : List Byte
  tag : Tag
deriving DecidableEq, Repr

/- A page whose bytes are all 0xFF, spare included. -/
def Page.erased (pgDataSize : Nat) : Page where
  status := 0xFF
  data := List.replicate pgDataSize 0xFF
  tag := Tag.erased

/-
  A page whose programming was cut by a power failure: the
  mini header is programmed, the spare is still erased.
-/
def Page.torn (data : List Byte) : Page where
  status := 0
  data := data
  tag := Tag.erased

------------------------------------------------------------
-- Sums of Names
------------------------------------------------------------

/- `CRC16_TBL` -/
def crc16Tbl : List Nat := [
  0x0000, 0x1189, 0x2312, 0x329b, 0x4624, 0x57ad,
  0x6536, 0x74bf, 0x8c48, 0x9dc1, 0xaf5a, 0xbed3,
  0xca6c, 0xdbe5, 0xe97e, 0xf8f7, 0x1081, 0x0108,
  0x3393, 0x221a, 0x56a5, 0x472c, 0x75b7, 0x643e,
  0x9cc9, 0x8d40, 0xbfdb, 0xae52, 0xdaed, 0xcb64,
  0xf9ff, 0xe876, 0x2102, 0x308b, 0x0210, 0x1399,
  0x6726, 0x76af, 0x4434, 0x55bd, 0xad4a, 0xbcc3,
  0x8e58, 0x9fd1, 0xeb6e, 0xfae7, 0xc87c, 0xd9f5,
  0x3183, 0x200a, 0x1291, 0x0318, 0x77a7, 0x662e,
  0x54b5, 0x453c, 0xbdcb, 0xac42, 0x9ed9, 0x8f50,
  0xfbef, 0xea66, 0xd8fd, 0xc974, 0x4204, 0x538d,
  0x6116, 0x709f, 0x0420, 0x15a9, 0x2732, 0x36bb,
  0xce4c, 0xdfc5, 0xed5e, 0xfcd7, 0x8868, 0x99e1,
  0xab7a, 0xbaf3, 0x5285, 0x430c, 0x7197, 0x601e,
  0x14a1, 0x0528, 0x37b3, 0x263a, 0xdecd, 0xcf44,
  0xfddf, 0xec56, 0x98e9, 0x8960, 0xbbfb, 0xaa72,
  0x6306, 0x728f, 0x4014, 0x519d, 0x2522, 0x34ab,
  0x0630, 0x17b9, 0xef4e, 0xfec7, 0xcc5c, 0xddd5,
  0xa96a, 0xb8e3, 0x8a78, 0x9bf1, 0x7387, 0x620e,
  0x5095, 0x411c, 0x35a3, 0x242a, 0x16b1, 0x0738,
  0xffcf, 0xee46, 0xdcdd, 0xcd54, 0xb9eb, 0xa862,
  0x9af9, 0x8b70, 0x8408, 0x9581, 0xa71a, 0xb693,
  0xc22c, 0xd3a5, 0xe13e, 0xf0b7, 0x0840, 0x19c9,
  0x2b52, 0x3adb, 0x4e64, 0x5fed, 0x6d76, 0x7cff,
  0x9489, 0x8500, 0xb79b, 0xa612, 0xd2ad, 0xc324,
  0xf1bf, 0xe036, 0x18c1, 0x0948, 0x3bd3, 0x2a5a,
  0x5ee5, 0x4f6c, 0x7df7, 0x6c7e, 0xa50a, 0xb483,
  0x8618, 0x9791, 0xe32e, 0xf2a7, 0xc03c, 0xd1b5,
  0x2942, 0x38cb, 0x0a50, 0x1bd9, 0x6f66, 0x7eef,
  0x4c74, 0x5dfd, 0xb58b, 0xa402, 0x9699, 0x8710,
  0xf3af, 0xe226, 0xd0bd, 0xc134, 0x39c3, 0x284a,
  0x1ad1, 0x0b58, 0x7fe7, 0x6e6e, 0x5cf5, 0x4d7c,
  0xc60c, 0xd785, 0xe51e, 0xf497, 0x8028, 0x91a1,
  0xa33a, 0xb2b3, 0x4a44, 0x5bcd, 0x6956, 0x78df,
  0x0c60, 0x1de9, 0x2f72, 0x3efb, 0xd68d, 0xc704,
  0xf59f, 0xe416, 0x90a9, 0x8120, 0xb3bb, 0xa232,
  0x5ac5, 0x4b4c, 0x79d7, 0x685e, 0x1ce1, 0x0d68,
  0x3ff3, 0x2e7a, 0xe70e, 0xf687, 0xc41c, 0xd595,
  0xa12a, 0xb0a3, 0x8238, 0x93b1, 0x6b46, 0x7acf,
  0x4854, 0x59dd, 0x2d62, 0x3ceb, 0x0e70, 0x1ff9,
  0xf78f, 0xe606, 0xd49d, 0xc514, 0xb1ab, 0xa022,
  0x92b9, 0x8330, 0x7bc7, 0x6a4e, 0x58d5, 0x495c,
  0x3de3, 0x2c6a, 0x1ef1, 0x0f78]

/- `uffs_crc16update` -/
def crc16update (data : List Byte) (crc : Nat) : Nat :=
  data.foldl
    (fun crc b =>
      (crc >>> 8) ^^^
        crc16Tbl.getD ((crc ^^^ b.toNat) &&& 0xff) 0)
    crc

/- `uffs_crc16sum` -/
def crc16sum (data : List Byte) : Nat :=
  crc16update data 0xFFFF

/- `uffs_MakeSum16` -/
def makeSum16 (data : List Byte) : Nat :=
  crc16sum data

------------------------------------------------------------
-- File Headers
------------------------------------------------------------

/- `MAX_FILENAME_LENGTH` -/
def maxFilenameLength : Nat := 128

/- `uffs_FileInfoSt`, with the name cut to `name_len` bytes -/
structure FileInfo where
  attr : Nat
  createTime : Nat
  lastModify : Nat
  access : Nat
  reserved : Nat
  name : List Byte
deriving DecidableEq, Repr

/- The four bytes of a `u32`, lowest first. -/
def le32 (n : Nat) : List Byte :=
  [UInt8.ofNat n, UInt8.ofNat (n >>> 8),
    UInt8.ofNat (n >>> 16), UInt8.ofNat (n >>> 24)]

/- Read a `u32` stored lowest byte first. -/
def ofLe32 : List Byte → Nat
| a :: b :: c :: d :: _ =>
    a.toNat + (b.toNat <<< 8) + (c.toNat <<< 16) +
      (d.toNat <<< 24)
| _ => 0

/- `sizeof(uffs_FileInfo)` -/
def fileInfoSize : Nat := 24 + maxFilenameLength

/- The bytes of a file header in a page buffer. -/
def FileInfo.bytes (fi : FileInfo) : List Byte :=
  le32 fi.attr ++ le32 fi.createTime ++
    le32 fi.lastModify ++ le32 fi.access ++
    le32 fi.reserved ++ le32 fi.name.length ++
    fi.name ++
    List.replicate (maxFilenameLength - fi.name.length) 0

/- `fi->name_len` of the header at the start of a page -/
def fiNameLen (data : List Byte) : Nat :=
  ofLe32 (data.drop 20)

/- The first `fi->name_len` bytes of `fi->name`. -/
def fiName (data : List Byte) : List Byte :=
  (data.drop 24).take (fiNameLen data)

/- `memcpy(data + ofs, bytes, ...)` -/
def blit
    (data : List Byte)
    (ofs : Nat)
    (bytes : List Byte) : List Byte :=
  data.take ofs ++ bytes ++ data.drop (ofs + bytes.length)

end Uffs
