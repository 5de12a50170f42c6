import Uffs.Ecc.Spare

/-
  What is written to a flash page is read back, although at
  most one bit of each chunk with its ECC and one bit of the
  tag have changed.

  Main declarations:
    * `TagStore.eccCorrect_flip`
    * `RawPage.Flipped`
    * `writePageBytes_readBack`
    * `readBack_false`
-/

namespace Uffs

------------------------------------------------------------
-- Tag Stores
------------------------------------------------------------

namespace TagStore

/- The tag store with bit `n` only. -/
def bit (n : Nat) : TagStore :=
  1#64 <<< n

theorem getLsbD_bit
    {n : Nat}
    (i : Nat)
    (hn : n < 64) : (bit n).getLsbD i = decide (i = n) := by
  unfold bit
  rw [BitVec.getLsbD_shiftLeft, BitVec.getLsbD_one]
  by_cases hi : i = n
  · simp [hi, hn]
  · simp only [hi, decide_false]
    simp only [Bool.and_eq_false_iff, Bool.not_eq_false',
      decide_eq_false_iff_not, decide_eq_true_eq]
    omega

theorem getLsbD_setTagEcc
    (t : TagStore)
    (e : BitVec 12)
    (i : Nat) :
    (t.setTagEcc e).getLsbD i =
      if i < 52 then t.getLsbD i else e.getLsbD (i - 52) := by
  have hAppend := BitVec.getLsbD_append (x := e)
    (y := t.fields) (i := i)
  have hField : t.fields.getLsbD i =
      (decide (i < 52) && t.getLsbD i) := by
    unfold fields
    rw [BitVec.getLsbD_extractLsb', Nat.zero_add]
  unfold setTagEcc
  rw [hAppend, hField]
  split
  · rename_i hi
    rw [decide_eq_true hi, Bool.true_and]
  · rfl

theorem getLsbD_fields (t : TagStore) (i : Nat) :
    t.fields.getLsbD i =
      (decide (i < 52) && t.getLsbD i) := by
  unfold fields
  rw [BitVec.getLsbD_extractLsb', Nat.zero_add]

theorem getLsbD_tagEcc (t : TagStore) (i : Nat) :
    t.tagEcc.getLsbD i =
      (decide (i < 12) && t.getLsbD (52 + i)) := by
  unfold tagEcc
  rw [BitVec.getLsbD_extractLsb']

theorem fields_setTagEcc (t : TagStore) (e : BitVec 12) :
    (t.setTagEcc e).fields = t.fields := by
  apply BitVec.eq_of_getLsbD_eq
  intro i hi
  rw [getLsbD_fields, getLsbD_fields, getLsbD_setTagEcc,
    if_pos hi]

theorem tagEcc_setTagEcc (t : TagStore) (e : BitVec 12) :
    (t.setTagEcc e).tagEcc = e := by
  apply BitVec.eq_of_getLsbD_eq
  intro i hi
  rw [getLsbD_tagEcc, getLsbD_setTagEcc, if_neg (by omega),
    decide_eq_true hi, Bool.true_and, Nat.add_sub_cancel_left]

/- The fields and the ECC are all of a tag store. -/
theorem setTagEcc_congr
    {t t' : TagStore}
    (h : t.fields = t'.fields)
    (e : BitVec 12) : t.setTagEcc e = t'.setTagEcc e := by
  unfold setTagEcc
  rw [h]

/- A changed bit of the fields. -/
theorem tagEcc_xor_bit
    {n : Nat}
    (t : TagStore)
    (hn : n < 52) : (t ^^^ bit n).tagEcc = t.tagEcc := by
  apply BitVec.eq_of_getLsbD_eq
  intro i hi
  have hNe : ¬ 52 + i = n := by
    omega
  rw [getLsbD_tagEcc, getLsbD_tagEcc, BitVec.getLsbD_xor,
    getLsbD_bit _ (by omega), decide_eq_false hNe,
    Bool.xor_false]

theorem setTagEcc_xor_bit
    {n : Nat}
    (t : TagStore)
    (e : BitVec 12)
    (hn : n < 52) :
    (t ^^^ bit n).setTagEcc e = t.setTagEcc e ^^^ bit n := by
  apply BitVec.eq_of_getLsbD_eq
  intro i hi
  rw [getLsbD_setTagEcc, BitVec.getLsbD_xor, BitVec.getLsbD_xor,
    getLsbD_setTagEcc]
  split
  · rfl
  · rw [getLsbD_bit _ (by omega), decide_eq_false (by omega),
      Bool.xor_false]

/- A changed bit of the ECC. -/
theorem fields_xor_bit
    {n : Nat}
    (t : TagStore)
    (hn : n < 64)
    (h52 : 52 ≤ n) : (t ^^^ bit n).fields = t.fields := by
  apply BitVec.eq_of_getLsbD_eq
  intro i hi
  rw [getLsbD_fields, getLsbD_fields, BitVec.getLsbD_xor,
    getLsbD_bit _ hn, decide_eq_false (by omega : ¬ i = n),
    Bool.xor_false]

theorem tagEcc_xor_bit_high
    {n : Nat}
    (t : TagStore)
    (hn : n < 64)
    (h52 : 52 ≤ n) :
    (t ^^^ bit n).tagEcc.toNat =
      t.tagEcc.toNat ^^^ 1 <<< (n - 52) := by
  have hEq : (t ^^^ bit n).tagEcc =
      t.tagEcc ^^^ 1#12 <<< (n - 52) := by
    apply BitVec.eq_of_getLsbD_eq
    intro i hi
    have hOne : (1#12 <<< (n - 52)).getLsbD i =
        decide (52 + i = n) := by
      rw [BitVec.getLsbD_shiftLeft, BitVec.getLsbD_one]
      by_cases hEq : 52 + i = n
      · simp only [hEq, decide_true, Bool.and_eq_true,
          decide_eq_true_eq, Bool.not_eq_true',
          decide_eq_false_iff_not]
        omega
      · simp only [hEq, decide_false, Bool.and_eq_false_iff,
          Bool.not_eq_false', decide_eq_false_iff_not,
          decide_eq_true_eq]
        omega
    rw [getLsbD_tagEcc, BitVec.getLsbD_xor, BitVec.getLsbD_xor,
      getLsbD_tagEcc, getLsbD_bit _ hn, hOne,
      decide_eq_true hi, Bool.true_and, Bool.true_and]
  rw [hEq, BitVec.toNat_xor, BitVec.toNat_shiftLeft]
  congr 1
  have hSmall : n - 52 < 12 := by
    omega
  interval_cases n - 52 <;> rfl

------------------------------------------------------------
-- Bytes of a Tag Store
------------------------------------------------------------

theorem bytes_length (t : TagStore) : t.bytes.length = 8 :=
  rfl

theorem ofBytes_bytes (t : TagStore) : ofBytes t.bytes = t := by
  have hAll : ofBytes t.bytes =
      t.extractLsb' 56 8 ++ t.extractLsb' 48 8 ++
        t.extractLsb' 40 8 ++ t.extractLsb' 32 8 ++
        t.extractLsb' 24 8 ++ t.extractLsb' 16 8 ++
        t.extractLsb' 8 8 ++ t.extractLsb' 0 8 := rfl
  rw [hAll,
    BitVec.extractLsb'_append_extractLsb'_eq_extractLsb'
      (by decide : 56 = 48 + 8),
    BitVec.extractLsb'_append_extractLsb'_eq_extractLsb'
      (by decide : 48 = 40 + 8),
    BitVec.extractLsb'_append_extractLsb'_eq_extractLsb'
      (by decide : 40 = 32 + 8),
    BitVec.extractLsb'_append_extractLsb'_eq_extractLsb'
      (by decide : 32 = 24 + 8),
    BitVec.extractLsb'_append_extractLsb'_eq_extractLsb'
      (by decide : 24 = 16 + 8),
    BitVec.extractLsb'_append_extractLsb'_eq_extractLsb'
      (by decide : 16 = 8 + 8),
    BitVec.extractLsb'_append_extractLsb'_eq_extractLsb'
      (by decide : 8 = 0 + 8)]
  exact BitVec.extractLsb'_eq_self

theorem getElem?_bytes (t : TagStore) (j : Nat) :
    t.bytes[j]? =
      if j < 8 then
        some (UInt8.ofBitVec (t.extractLsb' (8 * j) 8))
      else
        none := by
  unfold bytes
  rw [List.getElem?_map]
  split
  · rename_i hj
    rw [List.getElem?_range hj]
    rfl
  · rename_i hj
    rw [List.getElem?_eq_none]
    · rfl
    · rw [List.length_range]
      omega

theorem bytes_flip
    {i k : Nat}
    (t : TagStore)
    (hi : i < 8)
    (hk : k < 8) :
    flipBit t.bytes i k = (t ^^^ bit (8 * i + k)).bytes := by
  have hByte : ∀ j < 8,
      (t ^^^ bit (8 * i + k)).extractLsb' (8 * j) 8 =
        if j = i then
          t.extractLsb' (8 * j) 8 ^^^ 1#8 <<< k
        else
          t.extractLsb' (8 * j) 8 := by
    intro j hj
    apply BitVec.eq_of_getLsbD_eq
    intro m hm
    rw [BitVec.getLsbD_extractLsb', BitVec.getLsbD_xor,
      getLsbD_bit _ (by omega), decide_eq_true hm,
      Bool.true_and]
    split
    · rename_i hji
      rw [BitVec.getLsbD_xor, BitVec.getLsbD_extractLsb',
        BitVec.getLsbD_shiftLeft, BitVec.getLsbD_one,
        decide_eq_true hm, Bool.true_and]
      congr 1
      rw [hji]
      by_cases hmk : m = k
      · simp [hmk]
      · have hNe : ¬ 8 * i + m = 8 * i + k := by
          omega
        rw [decide_eq_false hNe]
        symm
        simp only [Bool.and_eq_false_iff, Bool.not_eq_false',
          decide_eq_false_iff_not, decide_eq_true_eq]
        omega
    · rename_i hji
      rw [BitVec.getLsbD_extractLsb', decide_eq_true hm,
        Bool.true_and, decide_eq_false (by omega),
        Bool.xor_false]
  apply List.ext_getElem?
  intro j
  unfold flipBit
  rw [List.getElem?_modify, getElem?_bytes, getElem?_bytes]
  by_cases hj : j < 8
  · rw [if_pos hj, if_pos hj, hByte j hj]
    by_cases hji : j = i
    · have hBit : UInt8.ofNat (1 <<< k) =
          UInt8.ofBitVec (1#8 <<< k) := by
        interval_cases k <;> rfl
      rw [hji, if_pos rfl, hBit]
      dsimp only [Functor.map, Option.map]
      rw [if_pos rfl, UInt8.ofBitVec_xor]
    · rw [if_neg hji]
      dsimp only [Functor.map, Option.map]
      rw [if_neg (Ne.symm hji)]
  · rw [if_neg hj, if_neg hj]
    rfl

/- What a tag ECC is made of. -/
theorem makeEcc_eq (t : TagStore) :
    t.makeEcc =
      t.setTagEcc (BitVec.ofNat 12
        (eccMake8 (t.setTagEcc 0xFFF#12).bytes)) := by
  unfold makeEcc
  dsimp only
  apply setTagEcc_congr
  exact fields_setTagEcc t 0xFFF#12

theorem fields_makeEcc (t : TagStore) :
    t.makeEcc.fields = t.fields := by
  rw [makeEcc_eq, fields_setTagEcc]

theorem tagEcc_makeEcc (t : TagStore) :
    t.makeEcc.tagEcc.toNat =
      eccMake8 (t.setTagEcc 0xFFF#12).bytes := by
  rw [makeEcc_eq, tagEcc_setTagEcc, BitVec.toNat_ofNat]
  apply Nat.mod_eq_of_lt
  exact Parity.ecc8_lt _

/- The tag store that is checked for a written one. -/
theorem setTagEcc_makeEcc (t : TagStore) (e : BitVec 12) :
    t.makeEcc.setTagEcc e = t.setTagEcc e :=
  setTagEcc_congr (fields_makeEcc t) e

/- At most one bit of a stored tag is changed. -/
theorem eccCorrect_flip
    {t : TagStore}
    {l : List Byte}
    (hFlip : OneFlip t.makeEcc.bytes l) :
    0 ≤ (ofBytes l).eccCorrect.1 ∧
      (ofBytes l).eccCorrect.2.fields = t.fields := by
  unfold eccCorrect tagStoreSize
  dsimp only
  rw [fields_setTagEcc]
  rcases hFlip with rfl | ⟨i, k, hi, hk, rfl⟩
  · rw [ofBytes_bytes, tagEcc_makeEcc, setTagEcc_makeEcc,
      eccCorrect8_self, ofBytes_bytes, fields_setTagEcc]
    exact ⟨Int.le_refl _, rfl⟩
  · rw [bytes_length] at hi
    have hRead : ofBytes (flipBit t.makeEcc.bytes i k) =
        t.makeEcc ^^^ bit (8 * i + k) := by
      rw [bytes_flip _ hi hk, ofBytes_bytes]
    rw [hRead]
    by_cases hField : 8 * i + k < 52
    · -- the changed bit is found and changed back
      rw [tagEcc_xor_bit _ hField, tagEcc_makeEcc,
        setTagEcc_xor_bit _ _ hField, setTagEcc_makeEcc,
        ← bytes_flip _ hi hk,
        eccCorrect8_data (bytes_length _) hi hk, ofBytes_bytes,
        fields_setTagEcc]
      exact ⟨Int.one_nonneg, rfl⟩
    · -- a bit of the ECC itself
      rw [Nat.not_lt] at hField
      have hFields : (t.makeEcc ^^^ bit (8 * i + k)).setTagEcc
          0xFFF#12 = t.setTagEcc 0xFFF#12 := by
        apply setTagEcc_congr
        rw [fields_xor_bit _ (by omega) hField, fields_makeEcc]
      rw [tagEcc_xor_bit_high _ (by omega) hField, hFields,
        tagEcc_makeEcc, eccCorrect8_ecc _ _ _ (by omega),
        ofBytes_bytes, fields_setTagEcc]
      exact ⟨Int.one_nonneg, rfl⟩

/- The tag that is read back for the tag `tag`. -/
structure Written (tag t : TagStore) : Prop where
  dirty : t.dirty = 0#1
  valid : t.valid = 0#1
  type : t.type = tag.type
  blockTs : t.blockTs = tag.blockTs
  dataLen : t.dataLen = tag.dataLen
  serial : t.serial = tag.serial
  parent : t.parent = tag.parent
  pageId : t.pageId = tag.pageId
  reserved : t.reserved = tag.reserved

theorem extract_fields
    {a n : Nat}
    (t : TagStore)
    (h : a + n ≤ 52) :
    t.fields.extractLsb' a n = t.extractLsb' a n := by
  apply BitVec.eq_of_getLsbD_eq
  intro i hi
  rw [BitVec.getLsbD_extractLsb', BitVec.getLsbD_extractLsb',
    getLsbD_fields, decide_eq_true (by omega : a + i < 52),
    Bool.true_and]

theorem getLsbD_setWritten (t : TagStore) (i : Nat) :
    t.setWritten.getLsbD i =
      (decide (2 ≤ i) && t.getLsbD i) := by
  unfold setWritten
  rw [BitVec.getLsbD_append, BitVec.getLsbD_extractLsb',
    BitVec.getLsbD_zero]
  by_cases hLow : i < 2
  · rw [if_pos hLow, decide_eq_false (by omega),
      Bool.false_and]
  · rw [if_neg hLow, decide_eq_true (by omega : 2 ≤ i),
      Bool.true_and, (by omega : 2 + (i - 2) = i)]
    by_cases hi : i - 2 < 62
    · rw [decide_eq_true hi, Bool.true_and]
    · rw [decide_eq_false hi, Bool.false_and,
        BitVec.getLsbD_of_ge _ _ (by omega)]

theorem extract_setWritten
    {a n : Nat}
    (t : TagStore)
    (h : 2 ≤ a) :
    t.setWritten.extractLsb' a n = t.extractLsb' a n := by
  apply BitVec.eq_of_getLsbD_eq
  intro i hi
  rw [BitVec.getLsbD_extractLsb', BitVec.getLsbD_extractLsb',
    getLsbD_setWritten, decide_eq_true (by omega : 2 ≤ a + i),
    Bool.true_and]

/- The dirty and the valid bit. -/
theorem dirty_setWritten (t : TagStore) :
    t.setWritten.dirty = 0#1 := by
  unfold dirty
  apply BitVec.eq_of_getLsbD_eq
  intro i hi
  have hLow : ¬ 2 ≤ 0 + i := by
    omega
  rw [BitVec.getLsbD_extractLsb', getLsbD_setWritten,
    decide_eq_false hLow, Bool.false_and, Bool.and_false,
    BitVec.getLsbD_zero]

theorem valid_setWritten (t : TagStore) :
    t.setWritten.valid = 0#1 := by
  unfold valid
  apply BitVec.eq_of_getLsbD_eq
  intro i hi
  have hLow : ¬ 2 ≤ 1 + i := by
    omega
  rw [BitVec.getLsbD_extractLsb', getLsbD_setWritten,
    decide_eq_false hLow, Bool.false_and, Bool.and_false,
    BitVec.getLsbD_zero]

theorem Written.of_fields
    {tag t : TagStore}
    (hFields : t.fields = tag.setWritten.fields) :
    Written tag t := by
  have hField : ∀ {a n : Nat}, a + n ≤ 52 →
      t.extractLsb' a n = tag.setWritten.extractLsb' a n := by
    intro a n h
    rw [← extract_fields t h, hFields, extract_fields _ h]
  have hKept : ∀ {a n : Nat}, 2 ≤ a → a + n ≤ 52 →
      t.extractLsb' a n = tag.extractLsb' a n := by
    intro a n hLow h
    rw [hField h, extract_setWritten _ hLow]
  constructor
  · exact (hField (by decide)).trans (dirty_setWritten _)
  · exact (hField (by decide)).trans
      (valid_setWritten _)
  · exact hKept (by decide) (by decide)
  · exact hKept (by decide) (by decide)
  · exact hKept (by decide) (by decide)
  · exact hKept (by decide) (by decide)
  · exact hKept (by decide) (by decide)
  · exact hKept (by decide) (by decide)
  · exact hKept (by decide) (by decide)

end TagStore

------------------------------------------------------------
-- The Page CRC
------------------------------------------------------------

theorem crc16Tbl_lt :
    ∀ i < 256, crc16Tbl.getD i 0 < 2 ^ 16 := by
  decide +kernel

theorem crc16update_lt
    (data : List Byte) :
    ∀ crc, crc < 2 ^ 16 → crc16update data crc < 2 ^ 16 := by
  induction data with
  | nil =>
      intro crc hCrc
      exact hCrc
  | cons b data ih =>
      intro crc hCrc
      have hShift : crc >>> 8 < 2 ^ 16 := by
        rw [Nat.shiftRight_eq_div_pow]
        omega
      have hIndex : (crc ^^^ b.toNat) &&& 0xff < 256 := by
        have hAnd := Nat.and_le_right
          (n := crc ^^^ b.toNat) (m := 0xff)
        omega
      exact ih _ (Nat.xor_lt_two_pow hShift
        (crc16Tbl_lt _ hIndex))

theorem ofLe16_le16
    {n : Nat}
    (rest : List Byte)
    (h : n < 2 ^ 16) : ofLe16 (le16 n ++ rest) = n := by
  have hLow : (UInt8.ofNat n).toNat = n % 256 :=
    UInt8.toNat_ofNat
  have hHigh : (UInt8.ofNat (n >>> 8)).toNat = n >>> 8 := by
    apply UInt8.toNat_ofNat_of_lt'
    rw [Nat.shiftRight_eq_div_pow]
    exact Nat.div_lt_of_lt_mul h
  unfold le16
  rw [List.cons_append, List.cons_append, List.nil_append,
    ofLe16, hLow, hHigh, Nat.shiftLeft_eq,
    Nat.shiftRight_eq_div_pow]
  omega

section Headers

variable (pageCrc : Bool) (data : List Byte)

theorem miniHeader_length :
    (miniHeader pageCrc data).length = 4 := by
  cases pageCrc <;> rfl

theorem pageData_miniHeader :
    pageData (miniHeader pageCrc data ++ data) = data := by
  unfold pageData miniHeaderSize
  rw [← miniHeader_length pageCrc data, List.drop_left]

/- The CRC of a written page is the CRC of its data. -/
theorem headerCrc_miniHeader :
    headerCrc (miniHeader true data ++ data) =
      crc16sum data := by
  have hHeader : (miniHeader true data ++ data).drop 2 =
      le16 (crc16sum data) ++ data := rfl
  unfold headerCrc
  rw [hHeader]
  apply ofLe16_le16
  exact crc16update_lt data _ (by decide)

end Headers

------------------------------------------------------------
-- Flipped Pages
------------------------------------------------------------

/- The stored bytes of a tag. -/
def storedTag (g : Geometry) (spare : List Byte) : List Byte :=
  bytesAt (segmentsPlaces (segments g.attr.dataLayout)) spare

/- The three stored bytes of the ECC of chunk `c`. -/
def storedEcc
    (g : Geometry)
    (c : Nat)
    (spare : List Byte) : List Byte :=
  bytesAt
    (((segmentsPlaces (segments g.attr.eccLayout)).drop
      (3 * c)).take 3) spare

/-
  At most one bit of each chunk with its ECC and at most one
  bit of the tag are changed.
-/
structure RawPage.Flipped
    (g : Geometry)
    (raw raw' : RawPage) : Prop where
  page : raw'.page.length = raw.page.length
  spare : raw'.spare.length = raw.spare.length
  sealed : sealByte g raw'.spare = sealByte g raw.spare
  tag :
    OneFlip (storedTag g raw.spare) (storedTag g raw'.spare)
  chunks :
    ∀ c, OneFlip
      (chunk c raw.page ++ storedEcc g c raw.spare)
      (chunk c raw'.page ++ storedEcc g c raw'.spare)

section Stored

variable {g : Geometry} {spare : List Byte}

theorem storedTag_eq
    (g : Geometry)
    (hSpare : g.attr.tagEnd ≤ spare.length) :
    storedTag g spare = unloadTag g spare := by
  unfold storedTag unloadTag SpareAttr.unloadTag
  rw [g.attr.segments_dataLayout]
  symm
  exact unloadSegments_places g.attr.tag_ascending hSpare
    g.attr.tagSegments_size

theorem storedEcc_eq
    (c : Nat)
    (h : g.Accepted)
    (hSpare : g.attr.eccEnd ≤ spare.length) :
    storedEcc g c spare = chunkEcc c (unloadEcc g spare) := by
  have hPlaces : unloadSegments g.attr.eccSegments
        g.attr.eccBytes spare =
      bytesAt (segmentsPlaces g.attr.eccSegments) spare :=
    unloadSegments_places g.attr.ecc_ascending hSpare
      g.attr.eccSegments_size
  have hUnload : unloadEcc g spare =
      unloadSegments g.attr.eccSegments g.attr.eccBytes spare :=
    SpareAttr.unloadEcc_eq h.fits spare
  unfold storedEcc chunkEcc
  rw [h.fits.segments_eccLayout, hUnload, hPlaces]
  unfold bytesAt
  rw [List.map_take, List.map_drop]

end Stored

/- A changed bit is a changed bit of its chunk. -/
theorem chunk_flipBit
    (l : List Byte)
    (c i k : Nat) :
    chunk c (flipBit l i k) =
      if i / 256 = c then
        flipBit (chunk c l) (i % 256) k
      else
        chunk c l :=
  piece_flipBit l c i k (by decide)

------------------------------------------------------------
-- Reading Back
------------------------------------------------------------

theorem eccRet_ok
    {r : Int}
    (h : 0 ≤ r) : (eccRet r).haveErr = false := by
  unfold eccRet
  rw [if_neg (Int.not_lt.mpr h)]
  split
  · rfl
  · rfl

section ReadBack

variable
  {g : Geometry} {pageCrc : Bool} {data : List Byte}
  {tag : TagStore} {raw : RawPage}

theorem writePageBytes_eccSize
    (hData : data.length + miniHeaderSize = g.pageDataSize) :
    (eccMake (miniHeader pageCrc data ++ data)).length =
      g.eccSize := by
  rw [eccMake_length, List.length_append, miniHeader_length]
  unfold miniHeaderSize at hData
  unfold Geometry.eccSize
  omega

/- The ECC of the page that is read finds the page written. -/
theorem eccCorrect_writePageBytes
    (hAccepted : g.Accepted)
    (hData : data.length + miniHeaderSize = g.pageDataSize)
    (hFlipped :
      (writePageBytes g pageCrc data tag).Flipped g raw) :
    ∃ r : Int, 0 ≤ r ∧
      Uffs.eccCorrect raw.page (unloadEcc g raw.spare)
          (eccMake raw.page) =
        (r, miniHeader pageCrc data ++ data) := by
  have hEcc : (eccMake (miniHeader pageCrc data ++ data)).length
      = g.eccSize :=
    writePageBytes_eccSize hData
  have hTag := tag.setWritten.makeEcc.bytes_length
  have hSpare : (makeSpare g tag.setWritten.makeEcc.bytes
        (eccMake (miniHeader pageCrc data ++ data))).length =
      g.attr.spareDataSize :=
    makeSpare_length hAccepted hTag hEcc
  have hRoom := hAccepted.fits.room
  have hLength : raw.spare.length = g.attr.spareDataSize :=
    hFlipped.spare.trans hSpare
  apply eccCorrect_flips hFlipped.page
  intro c
  have hChunk : OneFlip
      (chunk c (miniHeader pageCrc data ++ data) ++
        storedEcc g c (makeSpare g tag.setWritten.makeEcc.bytes
          (eccMake (miniHeader pageCrc data ++ data))))
      (chunk c raw.page ++ storedEcc g c raw.spare) :=
    hFlipped.chunks c
  rw [storedEcc_eq c hAccepted (by omega),
    storedEcc_eq c hAccepted (by omega),
    unloadEcc_makeSpare hAccepted hTag hEcc] at hChunk
  exact hChunk

/- What is written to a page is read back. -/
theorem writePageBytes_readBack
    (hAccepted : g.Accepted)
    (hData : data.length + miniHeaderSize = g.pageDataSize)
    (hFlipped :
      (writePageBytes g pageCrc data tag).Flipped g raw)
    (hCrc :
      pageCrc = true →
        headerCrc raw.page = crc16sum (pageData raw.page) →
          pageData raw.page = data) :
    (readPageBytes g pageCrc raw).1.haveErr = false ∧
      pageData (readPageBytes g pageCrc raw).2 = data ∧
      (readTagBytes g raw).ret.haveErr = false ∧
      (readTagBytes g raw).sealed = true ∧
      TagStore.Written tag (readTagBytes g raw).tag := by
  have hEcc : (eccMake (miniHeader pageCrc data ++ data)).length
      = g.eccSize :=
    writePageBytes_eccSize hData
  have hTag := tag.setWritten.makeEcc.bytes_length
  have hSpare : (makeSpare g tag.setWritten.makeEcc.bytes
        (eccMake (miniHeader pageCrc data ++ data))).length =
      g.attr.spareDataSize :=
    makeSpare_length hAccepted hTag hEcc
  have hRoom := hAccepted.fits.room
  have hLength : raw.spare.length = g.attr.spareDataSize :=
    hFlipped.spare.trans hSpare
  have hSeal : sealByte g raw.spare = 0 :=
    hFlipped.sealed.trans (sealByte_makeSpare hAccepted hTag hEcc)
  have hSealed : ¬ sealByte g raw.spare = 0xFF := by
    rw [hSeal]
    decide
  have hTagFlip : OneFlip
      (storedTag g (makeSpare g tag.setWritten.makeEcc.bytes
        (eccMake (miniHeader pageCrc data ++ data))))
      (storedTag g raw.spare) :=
    hFlipped.tag
  rw [storedTag_eq g (by omega),
    storedTag_eq g (by omega),
    unloadTag_makeSpare hAccepted hTag hEcc] at hTagFlip
  rcases TagStore.eccCorrect_flip hTagFlip with ⟨hRet, hFields⟩
  rcases eccCorrect_writePageBytes hAccepted hData hFlipped with
    ⟨r, hr, hPage⟩
  have hRead :
      (readPageBytes g pageCrc raw).1.haveErr = false ∧
        pageData (readPageBytes g pageCrc raw).2 = data := by
    unfold readPageBytes
    dsimp only
    split
    · rename_i hMatch
      rw [Bool.and_eq_true, beq_iff_eq] at hMatch
      exact ⟨rfl, hCrc hMatch.1 hMatch.2⟩
    · rw [hPage, eccRet_ok hr, pageData_miniHeader]
      have hGood : (pageCrc &&
          headerCrc (miniHeader pageCrc data ++ data) !=
            crc16sum data) = false := by
        cases pageCrc with
        | false => rfl
        | true =>
            rw [headerCrc_miniHeader, bne_self_eq_false]
            rfl
      rw [hGood]
      exact ⟨eccRet_ok hr, pageData_miniHeader pageCrc data⟩
  refine ⟨hRead.1, hRead.2, ?_⟩
  unfold readTagBytes
  dsimp only
  rw [if_neg hSealed]
  exact ⟨eccRet_ok hRet, rfl, TagStore.Written.of_fields hFields⟩

end ReadBack

/- The chunks without a changed bit stay as they are. -/
theorem chunk_flipBits_other
    {c : Nat}
    (flips : List (Nat × Nat))
    (hOther : ∀ q ∈ flips, q.1 / 256 ≠ c) :
    ∀ l : List Byte, chunk c (flipBits l flips) = chunk c l := by
  induction flips with
  | nil =>
      intro l
      rfl
  | cons q flips ih =>
      intro l
      have hRest := ih (fun q' hq' =>
        hOther q' (List.mem_cons_of_mem _ hq'))
      have hHead := chunk_flipBit l c q.1 q.2
      rw [if_neg (hOther q List.mem_cons_self)] at hHead
      exact (hRest _).trans hHead

theorem chunk_flipBits
    {flips : List (Nat × Nat)}
    (c : Nat)
    (hChunks : flips.Pairwise fun q q' =>
      q.1 / 256 ≠ q'.1 / 256)
    (hBits : ∀ q ∈ flips, q.2 < 8) :
    ∀ l : List Byte, (∀ q ∈ flips, q.1 < l.length) →
      OneFlip (chunk c l) (chunk c (flipBits l flips)) := by
  induction flips with
  | nil =>
      intro l _
      exact OneFlip.refl _
  | cons q flips ih =>
      intro l hInside
      rw [List.pairwise_cons] at hChunks
      have hHead := chunk_flipBit l c q.1 q.2
      by_cases hc : q.1 / 256 = c
      · -- the other changed bits are in other chunks
        have hOther : ∀ q' ∈ flips, q'.1 / 256 ≠ c := by
          intro q' hq' hBad
          exact hChunks.1 q' hq' (hc.trans hBad.symm)
        have hRest : chunk c (flipBits l (q :: flips)) =
            chunk c (flipBit l q.1 q.2) :=
          chunk_flipBits_other flips hOther _
        have hLength := hInside q List.mem_cons_self
        rw [if_pos hc] at hHead
        rw [hRest, hHead]
        refine Or.inr ⟨q.1 % 256, q.2, ?_,
          hBits q List.mem_cons_self, rfl⟩
        unfold chunk
        rw [List.length_take, List.length_drop]
        omega
      · rw [if_neg hc] at hHead
        rw [← hHead]
        apply ih hChunks.2
        · intro q' hq'
          exact hBits q' (List.mem_cons_of_mem _ hq')
        · intro q' hq'
          rw [flipBit_length]
          exact hInside q' (List.mem_cons_of_mem _ hq')

/- Bits of the page only, at most one in each chunk. -/
theorem RawPage.Flipped.of_flipBits
    {flips : List (Nat × Nat)}
    (g : Geometry)
    (raw : RawPage)
    (hChunks : flips.Pairwise fun q q' =>
      q.1 / 256 ≠ q'.1 / 256)
    (hBits : ∀ q ∈ flips, q.2 < 8)
    (hInside : ∀ q ∈ flips, q.1 < raw.page.length) :
    raw.Flipped g { raw with page := flipBits raw.page flips }
    where
  page := flipBits_length flips raw.page
  spare := rfl
  sealed := rfl
  tag := OneFlip.refl _
  chunks c := by
    have hChunk : OneFlip (chunk c raw.page)
        (chunk c (flipBits raw.page flips)) :=
      chunk_flipBits c hChunks hBits raw.page hInside
    rcases hChunk with hEq | ⟨i, k, hi, hk, hEq⟩
    · dsimp only
      rw [hEq]
      exact OneFlip.refl _
    · dsimp only
      rw [hEq, ← flipBit_append_left hi]
      refine Or.inr ⟨i, k, ?_, hk, rfl⟩
      rw [List.length_append]
      omega

/- A page of 512 bytes with two changed bits. -/
theorem readBack_twoFlips :
    let g : Geometry :=
      { pageDataSize := 512, spareSize := 16,
        blockStatusOffs := 5 }
    let data : List Byte := List.replicate 508 7
    let raw := writePageBytes g false data 0x1234#64
    let raw' :=
      { raw with
        page := flipBits raw.page [(100, 3), (300, 5)] }
    (readPageBytes g false raw').1.haveErr = false ∧
      pageData (readPageBytes g false raw').2 = data ∧
      (readTagBytes g raw').ret.haveErr = false ∧
      (readTagBytes g raw').sealed = true ∧
      TagStore.Written 0x1234#64 (readTagBytes g raw').tag := by
  intro g data raw raw'
  have hAccepted : g.Accepted := by
    constructor <;> decide
  have hLength : raw.page.length = 512 := by
    decide +kernel
  have hData : data.length + miniHeaderSize = 512 := by
    decide +kernel
  apply writePageBytes_readBack hAccepted hData
  · apply RawPage.Flipped.of_flipBits
    · decide
    · decide
    · rw [hLength]
      decide
  · nofun

/- A page of 1024 bytes with the option of a page CRC. -/
def crcGeometry : Geometry where
  pageDataSize := 1024
  spareSize := 32
  blockStatusOffs := 5

def crcWritten : RawPage :=
  writePageBytes crcGeometry true (List.replicate 1020 0) 0

/- One changed bit in each of its four chunks. -/
def crcRead : RawPage :=
  { crcWritten with
    page := flipBits crcWritten.page
      [(2, 0), (299, 3), (512, 0), (779, 0)] }

/- The CRC matches, and the page is not corrected. -/
theorem readBack_false :
    ¬ ∀ (g : Geometry) (pageCrc : Bool) (data : List Byte)
        (tag : TagStore) (raw : RawPage),
      g.Accepted → data.length + miniHeaderSize = g.pageDataSize →
        (writePageBytes g pageCrc data tag).Flipped g raw →
          (readPageBytes g pageCrc raw).1.haveErr = false ∧
            pageData (readPageBytes g pageCrc raw).2 = data := by
  intro hAll
  have hAccepted : crcGeometry.Accepted := by
    constructor <;> decide
  have hData : (List.replicate 1020 (0 : Byte)).length +
      miniHeaderSize = 1024 := by
    decide +kernel
  have hLength : crcWritten.page.length = 1024 := by
    decide +kernel
  have hFlipped : crcWritten.Flipped crcGeometry crcRead := by
    apply RawPage.Flipped.of_flipBits
    · decide
    · decide
    · rw [hLength]
      decide
  have hRead := (hAll crcGeometry true (List.replicate 1020 0) 0
    crcRead hAccepted hData hFlipped).2
  have hWrong : pageData (readPageBytes crcGeometry true
      crcRead).2 ≠ List.replicate 1020 0 := by
    decide +kernel
  exact hWrong hRead

end Uffs
