import Mathlib.Tactic.Ring
import Uffs.Reading.Clean

/-
  Files of a volume as arrays of bytes.

  The pages of a file are numbered through: the FILE block
  has all but the first of its pages, each DATA block all of
  them.  A file holds an array of bytes when its pages hold
  the pieces of the array.  Reading at any place and of any
  length then gives the bytes of the array at that place.

  Main declarations:
    * `fdnOf`, `idOf`
    * `Volume.filePage`
    * `Volume.Holds`, `Volume.Stores`
    * `Volume.Holds.readFrom`
    * `Volume.runBytes`
    * `clean_readsBytes`
-/

namespace Uffs

open Prog

variable [Platform]

------------------------------------------------------------
-- Pages of a File
------------------------------------------------------------

/- The block of page `q` of a file. -/
def fdnOf (q : Nat) : Nat :=
  if q < headPages then 0
  else (q - headPages) / pagesPerBlock + 1

/- The page id of page `q` of a file in its block. -/
def idOf (q : Nat) : Nat :=
  if q < headPages then q + 1
  else (q - headPages) % pagesPerBlock

/- The number of pages that block numbers of 16 bits reach. -/
def maxFilePages : Nat :=
  headPages + 65535 * pagesPerBlock

theorem fdnOf_lt
    {q : Nat}
    (hq : q < maxFilePages) : fdnOf q < 65536 := by
  have hTwo := Platform.two_le_pagesPerBlock
  unfold fdnOf
  split
  · decide
  · unfold maxFilePages at hq
    have hDiv : (q - headPages) / pagesPerBlock < 65535 := by
      rw [Nat.div_lt_iff_lt_mul (by omega)]
      omega
    omega

theorem idOf_lt (q : Nat) : idOf q < pagesPerBlock := by
  have hTwo := Platform.two_le_pagesPerBlock
  unfold idOf
  split
  · rename_i hq
    unfold headPages at hq
    omega
  · exact Nat.mod_lt _ (by omega)

/- The block that the code takes for a place in a file. -/
theorem getFdnByOfs_eq
    {ofs : Nat}
    (hq : ofs / pgDataSize < maxFilePages) :
    getFdnByOfs headPages ofs = fdnOf (ofs / pgDataSize) := by
  have hPos := Platform.pgDataSize_pos
  have hLt := fdnOf_lt hq
  unfold getFdnByOfs fdnOf at *
  by_cases hHead : ofs < headPages * pgDataSize
  · rw [if_pos hHead, if_pos]
    rw [Nat.div_lt_iff_lt_mul hPos]
    exact hHead
  · have hNot : ¬ ofs / pgDataSize < headPages := by
      rw [Nat.div_lt_iff_lt_mul hPos]
      exact hHead
    rw [if_neg hNot] at hLt ⊢
    rw [if_neg hHead]
    have hDiv : (ofs - headPages * pgDataSize) /
        (pgDataSize * pagesPerBlock) =
          (ofs / pgDataSize - headPages) / pagesPerBlock := by
      rw [← Nat.div_div_eq_div_mul, Nat.mul_comm headPages,
        Nat.sub_mul_div]
    rw [hDiv, Nat.mod_eq_of_lt hLt]

/- The page id that the code takes for a place in a file. -/
theorem pageId_eq
    {ofs : Nat}
    (hq : ofs / pgDataSize < maxFilePages) :
    (ofs - getStartOfDataBlock headPages
        (getFdnByOfs headPages ofs)) / pgDataSize +
      (if getFdnByOfs headPages ofs = 0 then 1 else 0) =
        idOf (ofs / pgDataSize) := by
  have hPos := Platform.pgDataSize_pos
  rw [getFdnByOfs_eq hq]
  unfold getStartOfDataBlock fdnOf idOf
  by_cases hHead : ofs / pgDataSize < headPages
  · rw [if_pos hHead, if_pos hHead, if_pos rfl, if_pos rfl,
      Nat.sub_zero]
  · rw [if_neg hHead, if_neg hHead,
      if_neg (Nat.succ_ne_zero _), if_neg (Nat.succ_ne_zero _),
      Nat.add_sub_cancel, Nat.add_zero]
    have hStart : headPages * pgDataSize +
        (ofs / pgDataSize - headPages) / pagesPerBlock *
          (pgDataSize * pagesPerBlock) =
        pgDataSize * (headPages +
          pagesPerBlock *
            ((ofs / pgDataSize - headPages) /
              pagesPerBlock)) := by
      ring
    rw [hStart, Nat.sub_mul_div, ← Nat.sub_sub]
    have hMod := Nat.div_add_mod
      (ofs / pgDataSize - headPages) pagesPerBlock
    omega

namespace Volume

/- A page of a file. -/
def filePage (v : Volume) (n q : Nat) :
    Option (List Byte × Nat) :=
  (v.blockNode n (fdnOf q)).bind fun d => v.page d (idOf q)

/- The pages of a file hold the pieces of an array of bytes. -/
structure Holds
    (v : Volume)
    (n : Nat)
    (bytes : List Byte) : Prop where
  len : (v.tree.node n).len = bytes.length
  pages : bytes.length ≤ maxFilePages * pgDataSize
  size : bytes.length < 2 ^ 32
  page : ∀ q, q * pgDataSize < bytes.length →
    ∃ c, v.filePage n q = some c ∧
      c.2 = min pgDataSize (bytes.length - q * pgDataSize) ∧
      c.1.take c.2 =
        (bytes.drop (q * pgDataSize)).take pgDataSize

------------------------------------------------------------
-- Reading
------------------------------------------------------------

/- A part of a piece of an array. -/
theorem take_of_piece
    {data bytes : List Byte}
    {base len ofs size : Nat}
    (hPiece : data.take len = (bytes.drop base).take pgDataSize)
    (hSize : ofs + size ≤ len)
    (hLen : len ≤ pgDataSize) :
    (data.drop ofs).take size =
      (bytes.drop (base + ofs)).take size := by
  have hLeft : (data.drop ofs).take size =
      ((data.take len).drop ofs).take size := by
    rw [List.drop_take, List.take_take,
      Nat.min_eq_left (by omega)]
  have hRight : (bytes.drop (base + ofs)).take size =
      (((bytes.drop base).take pgDataSize).drop ofs).take
        size := by
    rw [List.drop_take, List.take_take, List.drop_drop,
      Nat.min_eq_left (by omega)]
  rw [hLeft, hRight, hPiece]

/- All bytes are copied. -/
omit [Platform] in
theorem copied_length
    {l : List Byte}
    {n : Nat}
    (h : l.length = n) : copied l n = l.map some := by
  apply List.ext_getElem?
  intro k
  unfold copied
  rw [List.getElem?_map, List.getElem?_map]
  by_cases hk : k < n
  · have hl : k < l.length := by omega
    rw [List.getElem?_range hk, List.getElem?_eq_getElem hl,
      Option.map_some, Option.map_some,
      List.getElem?_eq_getElem hl]
  · rw [List.getElem?_eq_none (by simpa using hk),
      List.getElem?_eq_none (by omega)]
    rfl

/-
  Reading a file gives the bytes of its array, up to the end
  of the file.
-/
theorem Holds.readFrom
    {v : Volume}
    {n : Nat}
    {bytes : List Byte}
    (h : v.Holds n bytes)
    (k : Nat) :
    ∀ start remain, remain ≤ k →
      v.readFrom headPages n k start remain =
        (((bytes.drop start).take remain).map some, none) := by
  have hPos := Platform.pgDataSize_pos
  induction k with
  | zero =>
      intro start remain hLe
      have hZero : remain = 0 := by omega
      rw [hZero, List.take_zero]
      rfl
  | succ k ih =>
      intro start remain hLe
      unfold Volume.readFrom
      rw [h.len]
      split
      · rename_i hEnd
        rcases hEnd with hZero | hEnd
        · rw [hZero, List.take_zero, List.map_nil]
        · rw [List.drop_eq_nil_of_le hEnd, List.take_nil,
            List.map_nil]
      · rename_i hEnd
        rw [not_or, ge_iff_le, Nat.not_le] at hEnd
        have hBase := Nat.div_add_mod' start pgDataSize
        have hOfs := Nat.mod_lt start hPos
        have hq : start / pgDataSize < maxFilePages := by
          rw [Nat.div_lt_iff_lt_mul hPos]
          exact Nat.lt_of_lt_of_le hEnd.2 h.pages
        rcases h.page (start / pgDataSize) (by omega) with
          ⟨c, hPage, hLen, hPiece⟩
        have hId := idOf_lt (start / pgDataSize)
        have hMost := Platform.pagesPerBlock_le
        unfold Volume.filePage at hPage
        rcases Option.bind_eq_some_iff.mp hPage with
          ⟨d, hBlock, hPage⟩
        dsimp only
        rw [pageId_eq hq, getFdnByOfs_eq hq, hBlock]
        dsimp only
        rw [Nat.mod_eq_of_lt (by omega), hPage]
        have hInside : ¬ start % pgDataSize ≥ c.2 := by
          omega
        dsimp only
        rw [if_neg hInside]
        have hSize : start % pgDataSize +
            min remain (c.2 - start % pgDataSize) ≤ c.2 := by
          omega
        rw [Nat.mod_eq_of_lt (a := start +
            min remain (c.2 - start % pgDataSize))
          (by have := h.size; omega), ih _ _ (by omega)]
        have hWhole : ((bytes.drop start).take
            (min remain (c.2 - start % pgDataSize))).length =
              min remain (c.2 - start % pgDataSize) := by
          rw [List.length_take, List.length_drop]
          omega
        unfold Volume.pageBytes
        rw [Nat.min_eq_left (a := min remain
            (c.2 - start % pgDataSize)) (by omega),
          take_of_piece hPiece hSize (by omega), hBase,
          copied_length hWhole, ← List.drop_drop]
        dsimp only
        rw [← List.map_append, ← List.take_add,
          Nat.add_sub_cancel' (Nat.min_le_left _ _)]

------------------------------------------------------------
-- Objects over Arrays of Bytes
------------------------------------------------------------

/- Each file holds the array of its serial number. -/
def Stores (v : Volume) (files : Nat → List Byte) : Prop :=
  ∀ n ∈ v.tree.region .file,
    v.Holds n (files (v.tree.node n).serial)

/- The array of the file of an object. -/
def bytesOf
    (v : Volume)
    (files : Nat → List Byte)
    (obj : Obj) : List Byte :=
  match obj.node with
  | none => []
  | some n => files (v.tree.node n).serial

/- Read from an array at the position of an object. -/
def readBytes
    (bytes : List Byte)
    (obj : Obj)
    (len : Nat) : List (Option Byte) × Obj :=
  if !obj.dev || !obj.openSucc || obj.type = .dir then
    ([], { obj with err := .badf })
  else if obj.pos > bytes.length then
    ([], obj)
  else if obj.oflag.wronly then
    ([], { obj with err := .acces })
  else
    let r := (bytes.drop obj.pos).take len
    (r.map some, { obj with pos := obj.pos + r.length })

/- One reading call over arrays of bytes. -/
def execBytes
    (v : Volume)
    (files : Nat → List Byte)
    (p : ObjPool) : Op → Reply × ObjPool
| .readObject h len =>
    onObject p h fun obj =>
      let r := readBytes (v.bytesOf files obj) obj len
      (.bytes r.1, r.2)
| .seekObject h offset origin =>
    onObject p h fun obj =>
      let r := seekTo (v.bytesOf files obj).length obj offset
        origin
      (.offset r.1, r.2)
| op => v.exec p op

/- Reading calls over arrays of bytes, and their replies. -/
def runBytes
    (v : Volume)
    (files : Nat → List Byte) :
    ObjPool → List Op → List Reply × ObjPool
| p, [] => ([], p)
| p, op :: rest =>
    let r := v.execBytes files p op
    let q := v.runBytes files r.2 rest
    (r.1 :: q.1, q.2)

section Arrays

variable {v : Volume} {files : Nat → List Byte} {obj : Obj}

theorem fileLen_eq
    (hStores : v.Stores files)
    (hFits : obj.Fits v)
    (hType : obj.type ≠ .dir) :
    v.fileLen obj = (v.bytesOf files obj).length := by
  unfold Volume.fileLen Volume.bytesOf
  cases hNode : obj.node with
  | none => rfl
  | some n =>
      exact (hStores n (hFits.region hType n hNode)).len

theorem seekTo_eq
    (offset : Int)
    (origin : Origin)
    (hStores : v.Stores files)
    (hFits : obj.Fits v) :
    seekTo (v.fileLen obj) obj offset origin =
      seekTo (v.bytesOf files obj).length obj offset
        origin := by
  by_cases hType : obj.type = .dir
  · unfold Volume.seekTo
    simp only [if_pos hType]
  · rw [fileLen_eq hStores hFits hType]

theorem readFile_eq
    (len : Nat)
    (hStores : v.Stores files)
    (hFits : obj.Fits v) :
    v.readFile obj len =
      readBytes (v.bytesOf files obj) obj len := by
  unfold Volume.readFile Volume.readBytes
  split
  · rfl
  · rename_i hOpen
    have hFile : obj.openSucc = true ∧ obj.type ≠ .dir := by
      simp only [Bool.or_eq_true, Bool.not_eq_true',
        decide_eq_true_eq, not_or, Bool.not_eq_false] at hOpen
      exact ⟨hOpen.1.2, hOpen.2⟩
    rcases hFits.file hFile.1 hFile.2 with ⟨hPages, hNode⟩
    unfold Volume.bytesOf
    cases hObj : obj.node with
    | none => exact absurd hObj hNode
    | some n =>
        have hHolds := hStores n (hFits.region hFile.2 n hObj)
        dsimp only
        rw [hHolds.len]
        split
        · rfl
        · rename_i hPos
          split
          · rfl
          · have hSize := hHolds.size
            rw [hPages, hHolds.readFrom len obj.pos len
              (Nat.le_refl len)]
            dsimp only
            rw [Option.getD_none, List.length_map,
              Nat.mod_eq_of_lt]
            rw [List.length_take, List.length_drop]
            omega

/- A reading call is one over arrays of bytes. -/
theorem exec_eq
    {p : ObjPool}
    (hStores : v.Stores files)
    (hFits : p.Fits v)
    (op : Op) : v.exec p op = v.execBytes files p op := by
  have hOn : ∀ h (f g : Obj → Reply × Obj),
      (∀ x : Obj, x.Fits v → f x = g x) →
        onObject p h f = onObject p h g := by
    intro h f g hSame
    unfold Volume.onObject
    cases hObj : p h with
    | none => rfl
    | some x =>
        dsimp only
        rw [hSame x (hFits h x hObj).1]
  cases op with
  | readObject h len =>
      apply hOn
      intro x hx
      rw [readFile_eq len hStores hx]
  | seekObject h offset origin =>
      apply hOn
      intro x hx
      rw [seekTo_eq offset origin hStores hx]
  | _ => rfl

theorem runOps_eq
    (ops : List Op)
    (hStores : v.Stores files) :
    ∀ {p : ObjPool}, p.Fits v →
      v.runOps p ops = v.runBytes files p ops := by
  induction ops with
  | nil =>
      intro p _
      rfl
  | cons op rest ih =>
      intro p hFits
      unfold Volume.runOps Volume.runBytes
      have hNext := fits_exec hFits op
      rw [exec_eq hStores hFits op] at hNext
      dsimp only
      rw [exec_eq hStores hFits op, ih hNext]

end Arrays

end Volume

/-
  On a device without dirty pages whose files hold arrays of
  bytes, the reading calls over any objects are those over
  the arrays.
-/
theorem clean_readsBytes
    {F : Flash}
    {T : Tree}
    {files : Nat → List Byte}
    {s : Dev}
    {p : ObjPool}
    (hClean : Clean F T idle s)
    (hApart : T.Apart)
    (hSums : (F.volume T).Summed)
    (hStores : (F.volume T).Stores files)
    (hFits : p.Fits (F.volume T))
    (ops : List Op)
    (hReads : ∀ op ∈ ops, op.reads = true)
    (hAdmits : (F.volume T).admitsAll p ops = true) :
    wp (runOps p ops)
      (fun q _ t => q = (F.volume T).runBytes files p ops ∧
        Clean F T idle t) s := by
  have hServing := clean_serving hApart hSums
  refine wp_mono (hServing.runOps ops p s hClean hFits hReads
    hAdmits) ?_
  intro q _ t ht
  rw [← Volume.runOps_eq ops hStores hFits]
  exact ⟨ht.2, ht.1⟩

end Uffs
