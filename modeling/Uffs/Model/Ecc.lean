import Uffs.Lib.Flip
import Uffs.Model.Types

/-
  The software ECC (`uffs_ecc.c`): three bytes for each 256
  bytes of a page, and twelve bits for the eight bytes of a
  tag.

  A `u8` of the source is a natural number below 256; its
  complement is `255 ^^^ x`.

  Main declarations:
    * `eccMake`, `eccCorrect`
    * `eccMake8`, `eccCorrect8`
-/

namespace Uffs

------------------------------------------------------------
-- Tables
------------------------------------------------------------

/- `bits_tbl` -/
def bitsTbl : List Nat := [
  0, 1, 1, 2, 1, 2, 2, 3, 1, 2, 2, 3, 2, 3, 3, 4,
  1, 2, 2, 3, 2, 3, 3, 4, 2, 3, 3, 4, 3, 4, 4, 5,
  1, 2, 2, 3, 2, 3, 3, 4, 2, 3, 3, 4, 3, 4, 4, 5,
  2, 3, 3, 4, 3, 4, 4, 5, 3, 4, 4, 5, 4, 5, 5, 6,
  1, 2, 2, 3, 2, 3, 3, 4, 2, 3, 3, 4, 3, 4, 4, 5,
  2, 3, 3, 4, 3, 4, 4, 5, 3, 4, 4, 5, 4, 5, 5, 6,
  2, 3, 3, 4, 3, 4, 4, 5, 3, 4, 4, 5, 4, 5, 5, 6,
  3, 4, 4, 5, 4, 5, 5, 6, 4, 5, 5, 6, 5, 6, 6, 7,
  1, 2, 2, 3, 2, 3, 3, 4, 2, 3, 3, 4, 3, 4, 4, 5,
  2, 3, 3, 4, 3, 4, 4, 5, 3, 4, 4, 5, 4, 5, 5, 6,
  2, 3, 3, 4, 3, 4, 4, 5, 3, 4, 4, 5, 4, 5, 5, 6,
  3, 4, 4, 5, 4, 5, 5, 6, 4, 5, 5, 6, 5, 6, 6, 7,
  2, 3, 3, 4, 3, 4, 4, 5, 3, 4, 4, 5, 4, 5, 5, 6,
  3, 4, 4, 5, 4, 5, 5, 6, 4, 5, 5, 6, 5, 6, 6, 7,
  3, 4, 4, 5, 4, 5, 5, 6, 4, 5, 5, 6, 5, 6, 6, 7,
  4, 5, 5, 6, 5, 6, 6, 7, 5, 6, 6, 7, 6, 7, 7, 8]

/- `line_parity_tbl` -/
def lineParityTbl : List Nat := [
  0x00, 0x02, 0x08, 0x0a, 0x20, 0x22, 0x28, 0x2a,
  0x80, 0x82, 0x88, 0x8a, 0xa0, 0xa2, 0xa8, 0xaa]

/- `line_parity_prime_tbl` -/
def lineParityPrimeTbl : List Nat := [
  0x00, 0x01, 0x04, 0x05, 0x10, 0x11, 0x14, 0x15,
  0x40, 0x41, 0x44, 0x45, 0x50, 0x51, 0x54, 0x55]

/- `column_parity_tbl` -/
def columnParityTbl : List Nat := [
  0x00, 0x55, 0x59, 0x0c, 0x65, 0x30, 0x3c, 0x69,
  0x69, 0x3c, 0x30, 0x65, 0x0c, 0x59, 0x55, 0x00,
  0x95, 0xc0, 0xcc, 0x99, 0xf0, 0xa5, 0xa9, 0xfc,
  0xfc, 0xa9, 0xa5, 0xf0, 0x99, 0xcc, 0xc0, 0x95,
  0x99, 0xcc, 0xc0, 0x95, 0xfc, 0xa9, 0xa5, 0xf0,
  0xf0, 0xa5, 0xa9, 0xfc, 0x95, 0xc0, 0xcc, 0x99,
  0x0c, 0x59, 0x55, 0x00, 0x69, 0x3c, 0x30, 0x65,
  0x65, 0x30, 0x3c, 0x69, 0x00, 0x55, 0x59, 0x0c,
  0xa5, 0xf0, 0xfc, 0xa9, 0xc0, 0x95, 0x99, 0xcc,
  0xcc, 0x99, 0x95, 0xc0, 0xa9, 0xfc, 0xf0, 0xa5,
  0x30, 0x65, 0x69, 0x3c, 0x55, 0x00, 0x0c, 0x59,
  0x59, 0x0c, 0x00, 0x55, 0x3c, 0x69, 0x65, 0x30,
  0x3c, 0x69, 0x65, 0x30, 0x59, 0x0c, 0x00, 0x55,
  0x55, 0x00, 0x0c, 0x59, 0x30, 0x65, 0x69, 0x3c,
  0xa9, 0xfc, 0xf0, 0xa5, 0xcc, 0x99, 0x95, 0xc0,
  0xc0, 0x95, 0x99, 0xcc, 0xa5, 0xf0, 0xfc, 0xa9,
  0xa9, 0xfc, 0xf0, 0xa5, 0xcc, 0x99, 0x95, 0xc0,
  0xc0, 0x95, 0x99, 0xcc, 0xa5, 0xf0, 0xfc, 0xa9,
  0x3c, 0x69, 0x65, 0x30, 0x59, 0x0c, 0x00, 0x55,
  0x55, 0x00, 0x0c, 0x59, 0x30, 0x65, 0x69, 0x3c,
  0x30, 0x65, 0x69, 0x3c, 0x55, 0x00, 0x0c, 0x59,
  0x59, 0x0c, 0x00, 0x55, 0x3c, 0x69, 0x65, 0x30,
  0xa5, 0xf0, 0xfc, 0xa9, 0xc0, 0x95, 0x99, 0xcc,
  0xcc, 0x99, 0x95, 0xc0, 0xa9, 0xfc, 0xf0, 0xa5,
  0x0c, 0x59, 0x55, 0x00, 0x69, 0x3c, 0x30, 0x65,
  0x65, 0x30, 0x3c, 0x69, 0x00, 0x55, 0x59, 0x0c,
  0x99, 0xcc, 0xc0, 0x95, 0xfc, 0xa9, 0xa5, 0xf0,
  0xf0, 0xa5, 0xa9, 0xfc, 0x95, 0xc0, 0xcc, 0x99,
  0x95, 0xc0, 0xcc, 0x99, 0xf0, 0xa5, 0xa9, 0xfc,
  0xfc, 0xa9, 0xa5, 0xf0, 0x99, 0xcc, 0xc0, 0x95,
  0x00, 0x55, 0x59, 0x0c, 0x65, 0x30, 0x3c, 0x69,
  0x69, 0x3c, 0x30, 0x65, 0x0c, 0x59, 0x55, 0x00]

------------------------------------------------------------
-- Parities
------------------------------------------------------------

/- `col_parity`, `line_parity` and `line_parity_prime` -/
@[ext] structure Parity where
  col : Nat
  line : Nat
  prime : Nat
deriving DecidableEq, Repr

/- One round of the loop over the bytes. -/
def Parity.add (p : Parity) (i : Nat) (x : Byte) : Parity :=
  let b := columnParityTbl.getD x.toNat 0
  if b &&& 1 ≠ 0 then
    -- odd number of bits in the byte
    { col := p.col ^^^ b
      line := p.line ^^^ (i % 256)
      prime := p.prime ^^^ (255 ^^^ (i % 256)) }
  else
    { p with col := p.col ^^^ b }

/- The loop over the bytes from index `i` on. -/
def parityFrom (p : Parity) (i : Nat) : List Byte → Parity
| [] => p
| x :: rest => parityFrom (p.add i x) (i + 1) rest

/- The parities of some bytes. -/
def parityOf (data : List Byte) : Parity :=
  parityFrom { col := 0, line := 0, prime := 0 } 0 data

/- The line parities of a nibble, packed. -/
def linePair (line prime : Nat) : Nat :=
  lineParityTbl.getD line 0 ||| lineParityPrimeTbl.getD prime 0

------------------------------------------------------------
-- Page ECC
------------------------------------------------------------

/- The three bytes of a chunk. -/
def Parity.ecc (p : Parity) : List Byte :=
  [UInt8.ofNat
      (255 ^^^ linePair (p.line &&& 0xf) (p.prime &&& 0xf)),
    UInt8.ofNat
      (255 ^^^ linePair (p.line >>> 4) (p.prime >>> 4)),
    UInt8.ofNat ((255 ^^^ p.col) ||| 0x03)]

/- `uffs_EccMakeChunk256` -/
def eccMakeChunk256 (data : List Byte) : List Byte :=
  (parityOf data).ecc

/- The loop of `uffs_EccMake` over at most `n` chunks. -/
def eccMakeFrom : Nat → List Byte → List Byte
| 0, _ => []
| n + 1, data =>
    if data.isEmpty then
      []
    else
      eccMakeChunk256 (data.take 256) ++
        eccMakeFrom n (data.drop 256)

/- `uffs_EccMake` -/
def eccMake (data : List Byte) : List Byte :=
  eccMakeFrom data.length data

/- The bit `out`, if the bit `bit` of `d` is set. -/
def bitTo (d bit out : Nat) : Nat :=
  if d &&& bit ≠ 0 then out else 0

/- The byte that the deltas point at. -/
def errByte (d0 d1 : Nat) : Nat :=
  bitTo d1 0x80 0x80 ||| bitTo d1 0x20 0x40 |||
    bitTo d1 0x08 0x20 ||| bitTo d1 0x02 0x10 |||
    bitTo d0 0x80 0x08 ||| bitTo d0 0x20 0x04 |||
    bitTo d0 0x08 0x02 ||| bitTo d0 0x02 0x01

/- The bit that the delta points at. -/
def errBit (d2 : Nat) : Nat :=
  bitTo d2 0x80 0x04 ||| bitTo d2 0x20 0x02 |||
    bitTo d2 0x08 0x01

/- Does each pair of bits of a delta differ? -/
def pairsDiffer (d mask : Nat) : Bool :=
  (d ^^^ (d >>> 1)) &&& mask == mask

/-
  `uffs_EccCorrectChunk256`: the result and the data; `d0`,
  `d1` and `d2` are the deltas.
-/
def eccCorrectDeltas
    (data : List Byte)
    (d0 d1 d2 errtop : Nat) : Int × List Byte :=
  if d0 ||| d1 ||| d2 = 0 then
    (0, data)
  else if pairsDiffer d0 0x55 && pairsDiffer d1 0x55 &&
      pairsDiffer d2 0x54 then
    -- single bit error in data
    if errByte d0 d1 ≥ errtop then
      (-1, data)
    else
      (1, flipBit data (errByte d0 d1) (errBit d2))
  else if bitsTbl.getD d0 0 + bitsTbl.getD d1 0 +
      bitsTbl.getD d2 0 = 1 then
    -- error in ecc
    (1, data)
  else
    (-1, data)

/- `uffs_EccCorrectChunk256` -/
def eccCorrectChunk256
    (data readEcc testEcc : List Byte)
    (errtop : Nat) : Int × List Byte :=
  eccCorrectDeltas data
    (readEcc.getD 0 0 ^^^ testEcc.getD 0 0).toNat
    (readEcc.getD 1 0 ^^^ testEcc.getD 1 0).toNat
    (readEcc.getD 2 0 ^^^ testEcc.getD 2 0).toNat errtop

/- The loop of `uffs_EccCorrect` over at most `n` chunks. -/
def eccCorrectFrom :
    Nat → Int → List Byte → List Byte → List Byte →
      Int × List Byte
| 0, total, data, _, _ => (total, data)
| n + 1, total, data, readEcc, testEcc =>
    if data.isEmpty then
      (total, data)
    else
      let chunk := data.take 256
      let q := eccCorrectChunk256 chunk readEcc testEcc
        chunk.length
      if q.1 < 0 then
        (q.1, q.2 ++ data.drop 256)
      else
        let r := eccCorrectFrom n (total + q.1)
          (data.drop 256) (readEcc.drop 3) (testEcc.drop 3)
        (r.1, q.2 ++ r.2)

/- `uffs_EccCorrect` -/
def eccCorrect
    (data readEcc testEcc : List Byte) : Int × List Byte :=
  eccCorrectFrom data.length 0 data readEcc testEcc

------------------------------------------------------------
-- Tag ECC
------------------------------------------------------------

/- The twelve bits of eight bytes. -/
def Parity.ecc8 (p : Parity) : Nat :=
  ((((65535 ^^^ linePair (p.line &&& 0xf) (p.prime &&& 0xf))
      <<< 6) % 65536) |||
    (((255 ^^^ p.col) >>> 2) &&& 0x3f)) &&& 0xfff

/- `uffs_EccMake8` -/
def eccMake8 (data : List Byte) : Nat :=
  (parityOf (data.take 8)).ecc8

/- The byte of a tag that the delta points at. -/
def errByte8 (d0 : Nat) : Nat :=
  bitTo d0 0x20 0x04 ||| bitTo d0 0x08 0x02 |||
    bitTo d0 0x02 0x01

/- The bit of a tag that the delta points at. -/
def errBit8 (d1 : Nat) : Nat :=
  bitTo d1 0x20 0x04 ||| bitTo d1 0x08 0x02 |||
    bitTo d1 0x02 0x01

/- `uffs_EccCorrect8`, of the deltas -/
def eccCorrect8Deltas
    (data : List Byte)
    (d0 d1 errtop : Nat) : Int × List Byte :=
  if d0 ||| d1 = 0 then
    (0, data)
  else if pairsDiffer d0 0x15 && pairsDiffer d1 0x15 then
    -- single bit error in data
    if errByte8 d0 ≥ errtop ∨ errBit8 d1 ≥ 8 then
      (-1, data)
    else
      (1, flipBit data (errByte8 d0) (errBit8 d1))
  else if bitsTbl.getD d0 0 + bitsTbl.getD d1 0 = 1 then
    -- error in ecc
    (1, data)
  else
    (-1, data)

/- `uffs_EccCorrect8` -/
def eccCorrect8
    (data : List Byte)
    (readEcc testEcc errtop : Nat) : Int × List Byte :=
  let read := readEcc &&& 0xfff
  let test := testEcc &&& 0xfff
  eccCorrect8Deltas data ((read >>> 6) ^^^ (test >>> 6))
    ((read &&& 0x3f) ^^^ (test &&& 0x3f)) errtop

end Uffs
