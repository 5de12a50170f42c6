import Mathlib.Tactic.SplitIfs
import Uffs.Model.Layout

/-
  The layouts of the spare bytes: the tag, the ECC, the
  status byte and the seal byte have places of their own,
  and what is made of a tag and an ECC is unloaded again.

  Main declarations:
    * `Ascending`
    * `unload_load`
    * `SpareAttr.tag_ascending`, `SpareAttr.ecc_ascending`
    * `SpareAttr.LaidOut`, `SpareAttr.Restores`
    * `SpareAttr.layout_invertible`
-/

namespace Uffs

------------------------------------------------------------
-- Segments
------------------------------------------------------------

/- Segments in ascending order from `lo` up to `hi`. -/
def Ascending : Nat → List (Nat × Nat) → Nat → Prop
| lo, [], hi => lo ≤ hi
| lo, (ofs, len) :: rest, hi =>
    lo ≤ ofs ∧ Ascending (ofs + len) rest hi

/- The number of bytes in some segments. -/
def segmentsSize (segs : List (Nat × Nat)) : Nat :=
  (segs.map fun q => q.2).sum

/- The places of the bytes in some segments. -/
def segmentsPlaces (segs : List (Nat × Nat)) : List Nat :=
  segs.flatMap fun q => List.range' q.1 q.2

/- The bytes at some places. -/
def bytesAt (places : List Nat) (l : List Byte) : List Byte :=
  places.map fun i => l.getD i 0

theorem Ascending.le
    {segs : List (Nat × Nat)} :
    ∀ {lo hi : Nat}, Ascending lo segs hi → lo ≤ hi := by
  induction segs with
  | nil =>
      intro lo hi h
      exact h
  | cons q rest ih =>
      intro lo hi h
      have hRest := ih h.2
      have hLo := h.1
      omega

theorem segmentsSize_cons
    (ofs len : Nat)
    (rest : List (Nat × Nat)) :
    segmentsSize ((ofs, len) :: rest) =
      len + segmentsSize rest := by
  unfold segmentsSize
  rw [List.map_cons, List.sum_cons]

theorem blit_length
    {l bytes : List Byte}
    {ofs : Nat}
    (h : ofs + bytes.length ≤ l.length) :
    (blit l ofs bytes).length = l.length := by
  unfold blit
  rw [List.length_append, List.length_append, List.length_take,
    List.length_drop]
  omega

theorem blit_below
    {l bytes : List Byte}
    {ofs i : Nat}
    (h : ofs ≤ l.length)
    (hi : i < ofs) : (blit l ofs bytes)[i]? = l[i]? := by
  unfold blit
  rw [List.append_assoc, List.getElem?_append_left,
    List.getElem?_take_of_lt hi]
  rw [List.length_take]
  omega

theorem blit_above
    {l bytes : List Byte}
    {ofs i : Nat}
    (h : ofs ≤ l.length)
    (hi : ofs + bytes.length ≤ i) :
    (blit l ofs bytes)[i]? = l[i]? := by
  have hFront : (l.take ofs ++ bytes).length =
      ofs + bytes.length := by
    rw [List.length_append, List.length_take, Nat.min_eq_left h]
  unfold blit
  rw [List.getElem?_append_right (by rw [hFront]; exact hi),
    hFront, List.getElem?_drop]
  congr 1
  omega

theorem blit_inside
    {l bytes : List Byte}
    {ofs : Nat}
    (h : ofs ≤ l.length) :
    ((blit l ofs bytes).drop ofs).take bytes.length = bytes :=
  by
  have hTake : (l.take ofs).length = ofs := by
    rw [List.length_take, Nat.min_eq_left h]
  unfold blit
  rw [List.append_assoc, List.drop_append_of_le_length
    (Nat.le_of_eq hTake.symm), List.drop_of_length_le
    (Nat.le_of_eq hTake), List.nil_append,
    List.take_left]

theorem loadSegments_nil
    (segs : List (Nat × Nat))
    (spare : List Byte) :
    loadSegments segs [] spare = spare := by
  cases segs with
  | nil => rfl
  | cons q rest => rfl

/- The bytes that are loaded fill the segments. -/
theorem loadSegments_cons
    {ofs len : Nat}
    {rest : List (Nat × Nat)}
    {bytes spare : List Byte}
    (hSize : segmentsSize ((ofs, len) :: rest) = bytes.length) :
    loadSegments ((ofs, len) :: rest) bytes spare =
      loadSegments rest (bytes.drop len)
        (blit spare ofs (bytes.take len)) := by
  rw [segmentsSize_cons] at hSize
  by_cases hNil : bytes = []
  · rw [hNil, List.take_nil, List.drop_nil, loadSegments_nil,
      loadSegments_nil]
    unfold blit
    rw [List.append_nil, List.length_nil, Nat.add_zero,
      List.take_append_drop]
  · have hSome : ¬ (bytes.isEmpty = true) := by
      rw [List.isEmpty_iff]
      exact hNil
    have hLen : ¬ len > bytes.length := by
      omega
    rw [loadSegments, if_neg hSome, if_neg hLen]

theorem unloadSegments_cons
    {ofs len size : Nat}
    {rest : List (Nat × Nat)}
    {spare : List Byte}
    (hSize : segmentsSize ((ofs, len) :: rest) = size) :
    unloadSegments ((ofs, len) :: rest) size spare =
      (spare.drop ofs).take len ++
        unloadSegments rest (size - len) spare := by
  rw [segmentsSize_cons] at hSize
  rw [unloadSegments]
  by_cases hZero : size = 0
  · have hLen : len = 0 := by
      omega
    rw [if_pos hZero, hLen, List.take_zero, List.nil_append,
      hZero]
    cases rest with
    | nil => rfl
    | cons q rest => rfl
  · have hLen : ¬ len > size := by
      omega
    rw [if_neg hZero, if_neg hLen]

section Loading

variable {segs : List (Nat × Nat)}

theorem loadSegments_length :
    ∀ {lo hi : Nat} {bytes spare : List Byte},
      Ascending lo segs hi → hi ≤ spare.length →
        segmentsSize segs = bytes.length →
          (loadSegments segs bytes spare).length =
            spare.length := by
  induction segs with
  | nil =>
      intro lo hi bytes spare _ _ _
      rfl
  | cons q rest ih =>
      rcases q with ⟨ofs, len⟩
      intro lo hi bytes spare hAsc hHi hSize
      have hEnd := hAsc.2.le
      have hRest := hSize
      rw [segmentsSize_cons] at hRest
      have hTake : (bytes.take len).length = len := by
        rw [List.length_take]
        omega
      have hBlit : (blit spare ofs (bytes.take len)).length =
          spare.length := by
        apply blit_length
        omega
      rw [loadSegments_cons hSize, ih hAsc.2, hBlit]
      · rw [hBlit]
        exact hHi
      · rw [List.length_drop]
        omega

/- Bytes outside the segments stay as they are. -/
theorem loadSegments_outside :
    ∀ {lo hi i : Nat} {bytes spare : List Byte},
      Ascending lo segs hi → hi ≤ spare.length →
        segmentsSize segs = bytes.length →
          i < lo ∨ hi ≤ i →
            (loadSegments segs bytes spare)[i]? = spare[i]? := by
  induction segs with
  | nil =>
      intro lo hi i bytes spare _ _ _ _
      rfl
  | cons q rest ih =>
      rcases q with ⟨ofs, len⟩
      intro lo hi i bytes spare hAsc hHi hSize hOut
      have hLo := hAsc.1
      have hEnd := hAsc.2.le
      have hRest := hSize
      rw [segmentsSize_cons] at hRest
      have hTake : (bytes.take len).length = len := by
        rw [List.length_take]
        omega
      have hBlit : (blit spare ofs (bytes.take len)).length =
          spare.length := by
        apply blit_length
        omega
      have hDrop : segmentsSize rest =
          (bytes.drop len).length := by
        rw [List.length_drop]
        omega
      have hNext : (loadSegments rest (bytes.drop len)
          (blit spare ofs (bytes.take len)))[i]? =
          (blit spare ofs (bytes.take len))[i]? :=
        ih hAsc.2 (by rw [hBlit]; exact hHi) hDrop (by omega)
      rw [loadSegments_cons hSize, hNext]
      rcases hOut with hBelow | hAbove
      · apply blit_below
        · omega
        · omega
      · apply blit_above
        · omega
        · omega

/- Unloading reads nothing but the segments. -/
theorem unloadSegments_congr :
    ∀ {lo hi size : Nat} {spare spare' : List Byte},
      Ascending lo segs hi → segmentsSize segs = size →
        (∀ i, lo ≤ i → i < hi → spare[i]? = spare'[i]?) →
          unloadSegments segs size spare =
            unloadSegments segs size spare' := by
  induction segs with
  | nil =>
      intro lo hi size spare spare' _ _ _
      rfl
  | cons q rest ih =>
      rcases q with ⟨ofs, len⟩
      intro lo hi size spare spare' hAsc hSize hSame
      have hLo := hAsc.1
      have hEnd := hAsc.2.le
      have hRest := hSize
      rw [segmentsSize_cons] at hRest
      have hNext : unloadSegments rest (size - len) spare =
          unloadSegments rest (size - len) spare' :=
        ih hAsc.2 (by omega)
          (fun i hi hi' => hSame i (by omega) hi')
      rw [unloadSegments_cons hSize, unloadSegments_cons hSize,
        hNext]
      congr 1
      apply List.ext_getElem?
      intro i
      rw [List.getElem?_take, List.getElem?_take]
      split
      · rw [List.getElem?_drop, List.getElem?_drop]
        apply hSame
        · omega
        · omega
      · rfl

/- What is loaded is unloaded. -/
theorem unload_load :
    ∀ {lo hi size : Nat} {bytes spare : List Byte},
      Ascending lo segs hi → hi ≤ spare.length →
        segmentsSize segs = size → bytes.length = size →
          unloadSegments segs size
            (loadSegments segs bytes spare) = bytes := by
  induction segs with
  | nil =>
      intro lo hi size bytes spare _ _ hSize hBytes
      rw [← hSize] at hBytes
      have hNil := List.length_eq_zero_iff.mp hBytes
      rw [hNil]
      rfl
  | cons q rest ih =>
      rcases q with ⟨ofs, len⟩
      intro lo hi size bytes spare hAsc hHi hSize hBytes
      have hEnd := hAsc.2.le
      have hRest := hSize
      rw [segmentsSize_cons] at hRest
      have hTake : (bytes.take len).length = len := by
        rw [List.length_take]
        omega
      have hBlit : (blit spare ofs (bytes.take len)).length =
          spare.length := by
        apply blit_length
        omega
      have hDrop : (bytes.drop len).length = size - len := by
        rw [List.length_drop]
        omega
      have hBlitHi :
          hi ≤ (blit spare ofs (bytes.take len)).length := by
        rw [hBlit]
        exact hHi
      have hNext : unloadSegments rest (size - len)
          (loadSegments rest (bytes.drop len)
            (blit spare ofs (bytes.take len))) =
          bytes.drop len :=
        ih hAsc.2 hBlitHi (by omega) hDrop
      have hInside : ((blit spare ofs (bytes.take len)).drop
          ofs).take (bytes.take len).length = bytes.take len :=
        blit_inside (by omega)
      rw [hTake] at hInside
      rw [unloadSegments_cons hSize,
        loadSegments_cons (hSize.trans hBytes.symm), hNext]
      have hFirst : ((loadSegments rest (bytes.drop len)
          (blit spare ofs (bytes.take len))).drop ofs).take len =
          bytes.take len := by
        rw [← hInside]
        apply List.ext_getElem?
        intro i
        rw [List.getElem?_take, List.getElem?_take]
        split
        · rw [List.getElem?_drop, List.getElem?_drop, hInside]
          apply loadSegments_outside hAsc.2 hBlitHi
          · omega
          · omega
        · rfl
      rw [hFirst, List.take_append_drop]

theorem segmentsPlaces_cons
    (ofs len : Nat)
    (rest : List (Nat × Nat)) :
    segmentsPlaces ((ofs, len) :: rest) =
      List.range' ofs len ++ segmentsPlaces rest := by
  unfold segmentsPlaces
  rw [List.flatMap_cons]

theorem Ascending.places_bound :
    ∀ {lo hi i : Nat}, Ascending lo segs hi →
      i ∈ segmentsPlaces segs → lo ≤ i ∧ i < hi := by
  induction segs with
  | nil =>
      intro lo hi i _ hi'
      cases hi'
  | cons q rest ih =>
      rcases q with ⟨ofs, len⟩
      intro lo hi i hAsc hMem
      have hLo := hAsc.1
      have hEnd := hAsc.2.le
      rw [segmentsPlaces_cons, List.mem_append] at hMem
      rcases hMem with hHere | hRest
      · rw [List.mem_range'_1] at hHere
        omega
      · have hBound := ih hAsc.2 hRest
        omega

theorem Ascending.places_nodup :
    ∀ {lo hi : Nat}, Ascending lo segs hi →
      (segmentsPlaces segs).Nodup := by
  induction segs with
  | nil =>
      intro lo hi _
      exact List.nodup_nil
  | cons q rest ih =>
      rcases q with ⟨ofs, len⟩
      intro lo hi hAsc
      rw [segmentsPlaces_cons, List.nodup_append]
      refine ⟨List.nodup_range', ih hAsc.2, ?_⟩
      intro i hi j hj hEq
      have hBound := hAsc.2.places_bound hj
      rw [List.mem_range'_1] at hi
      omega

/- Bytes in no segment stay as they are. -/
theorem loadSegments_free :
    ∀ {lo hi i : Nat} {bytes spare : List Byte},
      Ascending lo segs hi → hi ≤ spare.length →
        segmentsSize segs = bytes.length →
          i ∉ segmentsPlaces segs →
            (loadSegments segs bytes spare)[i]? = spare[i]? := by
  induction segs with
  | nil =>
      intro lo hi i bytes spare _ _ _ _
      rfl
  | cons q rest ih =>
      rcases q with ⟨ofs, len⟩
      intro lo hi i bytes spare hAsc hHi hSize hFree
      have hEnd := hAsc.2.le
      have hRest := hSize
      rw [segmentsSize_cons] at hRest
      rw [segmentsPlaces_cons, List.mem_append, not_or,
        List.mem_range'_1] at hFree
      have hTake : (bytes.take len).length = len := by
        rw [List.length_take]
        omega
      have hBlit : (blit spare ofs (bytes.take len)).length =
          spare.length := by
        apply blit_length
        omega
      have hDrop : segmentsSize rest =
          (bytes.drop len).length := by
        rw [List.length_drop]
        omega
      have hNext : (loadSegments rest (bytes.drop len)
          (blit spare ofs (bytes.take len)))[i]? =
          (blit spare ofs (bytes.take len))[i]? :=
        ih hAsc.2 (by rw [hBlit]; exact hHi) hDrop hFree.2
      rw [loadSegments_cons hSize, hNext]
      by_cases hBelow : i < ofs
      · apply blit_below
        · omega
        · exact hBelow
      · apply blit_above
        · omega
        · omega

/- Unloading reads the places of the segments. -/
theorem unloadSegments_places :
    ∀ {lo hi size : Nat} {spare : List Byte},
      Ascending lo segs hi → hi ≤ spare.length →
        segmentsSize segs = size →
          unloadSegments segs size spare =
            bytesAt (segmentsPlaces segs) spare := by
  induction segs with
  | nil =>
      intro lo hi size spare _ _ _
      rfl
  | cons q rest ih =>
      rcases q with ⟨ofs, len⟩
      intro lo hi size spare hAsc hHi hSize
      have hEnd := hAsc.2.le
      have hRest := hSize
      rw [segmentsSize_cons] at hRest
      have hNext : unloadSegments rest (size - len) spare =
          bytesAt (segmentsPlaces rest) spare :=
        ih hAsc.2 hHi (by omega)
      rw [unloadSegments_cons hSize, hNext]
      unfold bytesAt segmentsPlaces
      rw [List.flatMap_cons, List.map_append]
      congr 1
      apply List.ext_getElem?
      intro i
      rw [List.getElem?_take, List.getElem?_map]
      split
      · rename_i hi'
        rw [List.getElem?_drop, List.getElem?_range' hi',
          Option.map_some, Nat.one_mul,
          List.getD_eq_getElem?_getD,
          List.getElem?_eq_getElem (by omega)]
        rfl
      · rename_i hi'
        rw [List.getElem?_eq_none]
        · rfl
        · rw [List.length_range']
          omega

end Loading

------------------------------------------------------------
-- The Layouts
------------------------------------------------------------

theorem u8_of_lt
    {n : Nat}
    (h : n < 256) : u8 n = n :=
  Nat.mod_eq_of_lt h

theorem segments_one
    {ofs len : Nat}
    (h : ofs ≠ 255) :
    segments [ofs, len, 255, 0] = [(ofs, len)] := by
  unfold segments
  rw [if_neg h]
  rfl

theorem segments_two
    {ofs len ofs' len' : Nat}
    (h : ofs ≠ 255)
    (h' : ofs' ≠ 255) :
    segments ([ofs, len] ++ [ofs', len', 255, 0]) =
      [(ofs, len), (ofs', len')] := by
  have hRest : segments [ofs', len', 255, 0] =
      [(ofs', len')] :=
    segments_one h'
  rw [List.cons_append, List.cons_append, List.nil_append,
    segments, if_neg h, hRest]

theorem segmentsEnd_one
    {ofs len : Nat}
    (h : 0 < len) :
    segmentsEnd [(ofs, len)] len 0 = ofs + len := by
  unfold segmentsEnd
  rw [if_neg (by omega)]
  simp [segmentsEnd]

theorem segmentsEnd_two
    {ofs len ofs' len' size : Nat}
    (h : 0 < len')
    (hSize : size = len + len') :
    segmentsEnd [(ofs, len), (ofs', len')] size 0 =
      ofs' + len' := by
  have hRest : size - len = len' := by
    omega
  have hLen : (if len > size then size else len) = len :=
    if_neg (by omega)
  have hLen' : (if len' > len' then len' else len') = len' :=
    if_neg (by omega)
  rw [segmentsEnd, if_neg (by omega), hLen]
  dsimp only
  rw [hRest, segmentsEnd, if_neg (by omega), hLen']
  rfl

namespace SpareAttr

/- The tag, the ECC and a seal byte fit into a spare. -/
def Fits (a : SpareAttr) : Prop :=
  tagStoreSize + a.eccSize + 1 < 255

/- The segments of the tag. -/
def tagSegments (a : SpareAttr) : List (Nat × Nat) :=
  if a.blockStatusOffs < 8 then
    (if 0 < a.blockStatusOffs then
      [(0, a.blockStatusOffs)]
    else []) ++
      [(a.blockStatusOffs + 1, 8 - a.blockStatusOffs)]
  else
    [(0, 8)]

/- The segments of the ECC. -/
def eccSegments (a : SpareAttr) : List (Nat × Nat) :=
  if a.eccNone then
    []
  else if a.blockStatusOffs < 8 then
    [(9, a.eccSize)]
  else if a.blockStatusOffs < 8 + a.eccSize then
    (if 8 < a.blockStatusOffs then
      [(8, a.blockStatusOffs - 8)]
    else []) ++
      [(a.blockStatusOffs + 1,
        8 + a.eccSize - a.blockStatusOffs)]
  else
    [(8, a.eccSize)]

/- Where the tag ends and the ECC may start. -/
def tagEnd (a : SpareAttr) : Nat :=
  if a.blockStatusOffs < 8 then 9 else 8

/- Where the ECC ends. -/
def eccEnd (a : SpareAttr) : Nat :=
  if a.eccNone then a.tagEnd
  else if a.blockStatusOffs < 8 + a.eccSize then
    9 + a.eccSize
  else 8 + a.eccSize

variable {a : SpareAttr}

theorem segments_dataLayout (a : SpareAttr) :
    segments a.dataLayout = a.tagSegments := by
  have hByte : u8 a.blockStatusOffs = a.blockStatusOffs :=
    u8_of_lt a.statusByte
  unfold dataLayout tagSegments tagStoreSize
  rw [hByte]
  dsimp only
  by_cases hLow : a.blockStatusOffs < 8
  · rw [if_pos hLow, if_pos hLow, u8_of_lt (by omega),
      u8_of_lt (by omega)]
    by_cases hZero : 0 < a.blockStatusOffs
    · rw [if_pos hZero, if_pos hZero]
      exact segments_two (by decide) (by omega)
    · rw [if_neg hZero, if_neg hZero]
      exact segments_one (by omega)
  · rw [if_neg hLow, if_neg hLow]
    rfl

theorem Fits.segments_eccLayout
    (h : a.Fits) : segments a.eccLayout = a.eccSegments := by
  have hByte : u8 a.blockStatusOffs = a.blockStatusOffs :=
    u8_of_lt a.statusByte
  unfold Fits tagStoreSize at h
  unfold eccLayout eccSegments tagStoreSize
  rw [hByte]
  dsimp only
  by_cases hNone : a.eccNone = true
  · rw [if_pos hNone, if_pos hNone]
    rfl
  rw [if_neg hNone, if_neg hNone]
  by_cases hLow : a.blockStatusOffs < 8
  · rw [if_pos hLow, if_pos hLow, u8_of_lt (by omega)]
    exact segments_one (by decide)
  · rw [if_neg hLow, if_neg hLow]
    by_cases hMid : a.blockStatusOffs < 8 + a.eccSize
    · rw [if_pos hMid, if_pos hMid, u8_of_lt (by omega),
        u8_of_lt (by omega), u8_of_lt (by omega)]
      by_cases hFirst : 8 < a.blockStatusOffs
      · rw [if_pos hFirst, if_pos hFirst]
        exact segments_two (by decide) (by omega)
      · rw [if_neg hFirst, if_neg hFirst]
        exact segments_one (by omega)
    · rw [if_neg hMid, if_neg hMid, u8_of_lt (by omega)]
      exact segments_one (by decide)

theorem tag_ascending (a : SpareAttr) :
    Ascending 0 a.tagSegments a.tagEnd := by
  unfold tagSegments tagEnd
  split_ifs
  · simp only [List.cons_append, List.nil_append, Ascending]
    omega
  · simp only [List.nil_append, Ascending]
    omega
  · simp only [Ascending]
    omega

theorem ecc_ascending (a : SpareAttr) :
    Ascending a.tagEnd a.eccSegments a.eccEnd := by
  unfold eccSegments eccEnd
  by_cases hNone : a.eccNone = true
  · rw [if_pos hNone, if_pos hNone]
    exact Nat.le_refl _
  rw [if_neg hNone, if_neg hNone]
  unfold tagEnd
  split_ifs
  · simp only [Ascending]
    omega
  · omega
  · simp only [List.cons_append, List.nil_append, Ascending]
    omega
  · simp only [List.nil_append, Ascending]
    omega
  · simp only [Ascending]
    omega

theorem tagSegments_size (a : SpareAttr) :
    segmentsSize a.tagSegments = 8 := by
  unfold tagSegments
  split_ifs
  · simp only [List.cons_append, List.nil_append, segmentsSize,
      List.map_cons, List.map_nil, List.sum_cons, List.sum_nil]
    omega
  · simp only [List.nil_append, segmentsSize, List.map_cons,
      List.map_nil, List.sum_cons, List.sum_nil]
    omega
  · rfl

theorem eccSegments_size (a : SpareAttr) :
    segmentsSize a.eccSegments = a.eccBytes := by
  unfold eccSegments eccBytes
  split_ifs
  · rfl
  · simp only [segmentsSize, List.map_cons, List.map_nil,
      List.sum_cons, List.sum_nil]
    omega
  · simp only [List.cons_append, List.nil_append, segmentsSize,
      List.map_cons, List.map_nil, List.sum_cons, List.sum_nil]
    omega
  · simp only [List.nil_append, segmentsSize, List.map_cons,
      List.map_nil, List.sum_cons, List.sum_nil]
    omega
  · simp only [segmentsSize, List.map_cons, List.map_nil,
      List.sum_cons, List.sum_nil]
    omega

theorem tag_segmentsEnd (a : SpareAttr) :
    segmentsEnd a.tagSegments 8 0 = a.tagEnd := by
  unfold tagSegments tagEnd
  split_ifs with hLow hZero
  · rw [List.cons_append, List.nil_append,
      segmentsEnd_two (by omega) (by omega)]
    omega
  · have hStatus : a.blockStatusOffs = 0 := by
      omega
    rw [hStatus]
    rfl
  · rfl

theorem ecc_segmentsEnd
    (hPos : 0 < a.eccBytes) :
    segmentsEnd a.eccSegments a.eccBytes 0 = a.eccEnd := by
  unfold eccBytes at hPos ⊢
  unfold eccSegments eccEnd
  split_ifs at hPos ⊢ with hNone hLow hMid hMid hFirst
  · omega
  · rw [segmentsEnd_one hPos]
  · omega
  · rw [List.cons_append, List.nil_append,
      segmentsEnd_two (by omega) (by omega)]
    omega
  · have hStatus : a.blockStatusOffs = 8 := by
      omega
    rw [List.nil_append, hStatus, Nat.add_sub_cancel_left,
      segmentsEnd_one hPos]
  · rw [segmentsEnd_one hPos]

/- Without ECC bytes nothing follows the tag. -/
theorem eccEnd_eq_tagEnd
    (hZero : a.eccBytes = 0) : a.eccEnd = a.tagEnd := by
  unfold eccBytes at hZero
  unfold eccEnd tagEnd
  split_ifs at hZero ⊢
  · rfl
  · rfl
  · omega
  · omega
  · omega
  · omega

/- There is room for everything before the seal byte. -/
theorem Fits.room
    (h : a.Fits) :
    a.tagEnd ≤ a.sealOffs ∧ a.eccEnd ≤ a.sealOffs ∧
      a.blockStatusOffs < a.sealOffs ∧
      a.sealOffs < a.spareDataSize := by
  have hEnd : segmentsEnd a.eccSegments a.eccBytes 0 = a.eccEnd ∨
      a.eccEnd = a.tagEnd := by
    by_cases hZero : a.eccBytes = 0
    · exact Or.inr (eccEnd_eq_tagEnd hZero)
    · exact Or.inl (ecc_segmentsEnd (Nat.pos_of_ne_zero hZero))
  unfold sealOffs spareDataSize tagStoreSize
  rw [a.segments_dataLayout, h.segments_eccLayout,
    tag_segmentsEnd]
  dsimp only
  split_ifs
  · omega
  · omega
  · omega
  · omega

------------------------------------------------------------
-- Packing and Unpacking
------------------------------------------------------------

section Packing

variable {ts ecc : List Byte}

/- The spare bytes before the tag and the ECC are loaded. -/
def blankSpare (a : SpareAttr) : List Byte :=
  (List.replicate a.spareDataSize 0xFF).set a.sealOffs 0

theorem blankSpare_length (a : SpareAttr) :
    a.blankSpare.length = a.spareDataSize := by
  unfold blankSpare
  rw [List.length_set, List.length_replicate]

theorem blankSpare_seal
    (h : a.Fits) : a.blankSpare[a.sealOffs]? = some 0 := by
  unfold blankSpare
  apply List.getElem?_set_self
  rw [List.length_replicate]
  exact h.room.2.2.2

theorem blankSpare_other
    {i : Nat}
    (hi : i < a.spareDataSize)
    (hSeal : i ≠ a.sealOffs) : a.blankSpare[i]? = some 0xFF := by
  unfold blankSpare
  rw [List.getElem?_set_ne (Ne.symm hSeal),
    List.getElem?_replicate, if_pos hi]

theorem Fits.makeSpare_eq (h : a.Fits) :
    a.makeSpare ts ecc =
      loadSegments a.tagSegments ts
        (loadSegments a.eccSegments ecc a.blankSpare) := by
  unfold makeSpare
  rw [a.segments_dataLayout, h.segments_eccLayout]
  rfl

theorem Fits.eccLoaded_length
    (h : a.Fits)
    (hEcc : ecc.length = a.eccBytes) :
    (loadSegments a.eccSegments ecc a.blankSpare).length =
      a.spareDataSize := by
  have hRoom := h.room
  rw [loadSegments_length a.ecc_ascending, blankSpare_length]
  · rw [blankSpare_length]
    omega
  · rw [a.eccSegments_size, hEcc]

theorem Fits.makeSpare_length
    (h : a.Fits)
    (hTs : ts.length = 8)
    (hEcc : ecc.length = a.eccBytes) :
    (a.makeSpare ts ecc).length = a.spareDataSize := by
  have hRoom := h.room
  rw [h.makeSpare_eq, loadSegments_length a.tag_ascending,
    h.eccLoaded_length hEcc]
  · rw [h.eccLoaded_length hEcc]
    omega
  · rw [a.tagSegments_size, hTs]

/- The tag leaves the bytes behind it as they are. -/
theorem Fits.makeSpare_behind
    {i : Nat}
    (h : a.Fits)
    (hTs : ts.length = 8)
    (hEcc : ecc.length = a.eccBytes)
    (hi : a.tagEnd ≤ i) :
    (a.makeSpare ts ecc)[i]? =
      (loadSegments a.eccSegments ecc a.blankSpare)[i]? := by
  have hRoom := h.room
  rw [h.makeSpare_eq]
  apply loadSegments_outside a.tag_ascending
  · rw [h.eccLoaded_length hEcc]
    omega
  · rw [a.tagSegments_size, hTs]
  · exact Or.inr hi

/- What is behind the ECC is not loaded. -/
theorem Fits.makeSpare_free
    {i : Nat}
    (h : a.Fits)
    (hTs : ts.length = 8)
    (hEcc : ecc.length = a.eccBytes)
    (hi : i ∉ segmentsPlaces a.tagSegments)
    (hi' : i ∉ segmentsPlaces a.eccSegments) :
    (a.makeSpare ts ecc)[i]? = a.blankSpare[i]? := by
  have hRoom := h.room
  rw [h.makeSpare_eq, loadSegments_free a.tag_ascending _ _ hi,
    loadSegments_free a.ecc_ascending _ _ hi']
  · rw [blankSpare_length]
    omega
  · rw [a.eccSegments_size, hEcc]
  · rw [h.eccLoaded_length hEcc]
    omega
  · rw [a.tagSegments_size, hTs]

theorem Fits.unloadTag_makeSpare
    (h : a.Fits)
    (hTs : ts.length = 8)
    (hEcc : ecc.length = a.eccBytes) :
    a.unloadTag (a.makeSpare ts ecc) = ts := by
  have hRoom := h.room
  unfold unloadTag
  rw [a.segments_dataLayout, h.makeSpare_eq]
  apply unload_load a.tag_ascending
  · rw [h.eccLoaded_length hEcc]
    omega
  · exact a.tagSegments_size
  · exact hTs

/- Without ECC nothing is unloaded. -/
theorem unloadEcc_eq
    (h : a.Fits)
    (spare : List Byte) :
    a.unloadEcc spare =
      unloadSegments a.eccSegments a.eccBytes spare := by
  unfold unloadEcc eccBytes
  rw [h.segments_eccLayout]
  split
  · rename_i hNone
    unfold eccSegments
    rw [if_pos hNone]
    rfl
  · rfl

theorem Fits.unloadEcc_makeSpare
    (h : a.Fits)
    (hTs : ts.length = 8)
    (hEcc : ecc.length = a.eccBytes) :
    a.unloadEcc (a.makeSpare ts ecc) = ecc := by
  have hRoom := h.room
  have hSame : unloadSegments a.eccSegments a.eccBytes
        (a.makeSpare ts ecc) =
      unloadSegments a.eccSegments a.eccBytes
        (loadSegments a.eccSegments ecc a.blankSpare) :=
    unloadSegments_congr a.ecc_ascending a.eccSegments_size
      (fun i hi _ => h.makeSpare_behind hTs hEcc hi)
  rw [unloadEcc_eq h, hSame]
  apply unload_load a.ecc_ascending
  · rw [blankSpare_length]
    omega
  · exact a.eccSegments_size
  · exact hEcc

/- The places of the tag and of the ECC. -/
def places (a : SpareAttr) : List Nat :=
  segmentsPlaces (segments a.dataLayout) ++
    segmentsPlaces (segments a.eccLayout)

/-
  The segments have the sizes of the tag and of the ECC, no
  place is in two of them, and none is the status byte, the
  seal byte or behind the spare bytes in use.
-/
structure LaidOut (a : SpareAttr) : Prop where
  tagSize : segmentsSize (segments a.dataLayout) = tagStoreSize
  eccSize : segmentsSize (segments a.eccLayout) = a.eccBytes
  disjoint : a.places.Nodup
  status : a.blockStatusOffs ∉ a.places
  sealed : a.sealOffs ∉ a.places
  below : ∀ i ∈ a.places, i < a.spareDataSize

/- What is packed is unpacked, and nothing else is written. -/
structure Restores
    (a : SpareAttr)
    (ts ecc : List Byte) : Prop where
  unloadTag : a.unloadTag (a.makeSpare ts ecc) = ts
  unloadEcc : a.unloadEcc (a.makeSpare ts ecc) = ecc
  status : (a.makeSpare ts ecc)[a.blockStatusOffs]? = some 0xFF
  sealed : (a.makeSpare ts ecc)[a.sealOffs]? = some 0
  free : ∀ i < a.spareDataSize, i ∉ a.places →
    i ≠ a.sealOffs → (a.makeSpare ts ecc)[i]? = some 0xFF

theorem Fits.places_eq (h : a.Fits) :
    a.places = segmentsPlaces a.tagSegments ++
      segmentsPlaces a.eccSegments := by
  unfold places
  rw [a.segments_dataLayout, h.segments_eccLayout]

/- No segment has the status byte. -/
theorem status_not_tag (a : SpareAttr) :
    a.blockStatusOffs ∉ segmentsPlaces a.tagSegments := by
  unfold tagSegments
  split_ifs
  · simp only [segmentsPlaces, List.cons_append, List.nil_append,
      List.flatMap_cons, List.flatMap_nil, List.append_nil,
      List.mem_append, List.mem_range'_1]
    omega
  · simp only [segmentsPlaces, List.nil_append, List.flatMap_cons,
      List.flatMap_nil, List.append_nil, List.mem_range'_1]
    omega
  · simp only [segmentsPlaces, List.flatMap_cons,
      List.flatMap_nil, List.append_nil, List.mem_range'_1]
    omega

theorem status_not_ecc (a : SpareAttr) :
    a.blockStatusOffs ∉ segmentsPlaces a.eccSegments := by
  unfold eccSegments
  split_ifs
  · exact List.not_mem_nil
  · simp only [segmentsPlaces, List.flatMap_cons,
      List.flatMap_nil, List.append_nil, List.mem_range'_1]
    omega
  · simp only [segmentsPlaces, List.cons_append, List.nil_append,
      List.flatMap_cons, List.flatMap_nil, List.append_nil,
      List.mem_append, List.mem_range'_1]
    omega
  · simp only [segmentsPlaces, List.nil_append, List.flatMap_cons,
      List.flatMap_nil, List.append_nil, List.mem_range'_1]
    omega
  · simp only [segmentsPlaces, List.flatMap_cons,
      List.flatMap_nil, List.append_nil, List.mem_range'_1]
    omega

/- Every place is before the seal byte. -/
theorem Fits.places_lt
    {i : Nat}
    (h : a.Fits)
    (hi : i ∈ a.places) : i < a.sealOffs := by
  have hRoom := h.room
  rw [h.places_eq, List.mem_append] at hi
  rcases hi with hTag | hEcc
  · have hBound := a.tag_ascending.places_bound hTag
    omega
  · have hBound := a.ecc_ascending.places_bound hEcc
    omega

theorem Fits.laidOut (h : a.Fits) : a.LaidOut where
  tagSize := by
    rw [a.segments_dataLayout, a.tagSegments_size]
    rfl
  eccSize := by
    rw [h.segments_eccLayout, a.eccSegments_size]
  disjoint := by
    rw [h.places_eq, List.nodup_append]
    refine ⟨a.tag_ascending.places_nodup,
      a.ecc_ascending.places_nodup, ?_⟩
    intro i hi j hj hEq
    have hTag := a.tag_ascending.places_bound hi
    have hEcc := a.ecc_ascending.places_bound hj
    omega
  status := by
    rw [h.places_eq, List.mem_append, not_or]
    exact ⟨a.status_not_tag, a.status_not_ecc⟩
  sealed := fun hi => Nat.lt_irrefl _ (h.places_lt hi)
  below := fun _ hi =>
    Nat.lt_trans (h.places_lt hi) h.room.2.2.2

theorem Fits.makeSpare_other
    {i : Nat}
    (h : a.Fits)
    (hTs : ts.length = 8)
    (hEcc : ecc.length = a.eccBytes)
    (hi : i ∉ a.places) :
    (a.makeSpare ts ecc)[i]? = a.blankSpare[i]? := by
  rw [h.places_eq, List.mem_append, not_or] at hi
  exact h.makeSpare_free hTs hEcc hi.1 hi.2

theorem Fits.restores
    (h : a.Fits)
    (hTs : ts.length = 8)
    (hEcc : ecc.length = a.eccBytes) : a.Restores ts ecc := by
  have hLaid := h.laidOut
  have hRoom := h.room
  have hOther : ∀ i < a.spareDataSize, i ∉ a.places →
      i ≠ a.sealOffs →
        (a.makeSpare ts ecc)[i]? = some 0xFF := by
    intro i hi hFree hSeal
    rw [h.makeSpare_other hTs hEcc hFree]
    exact blankSpare_other hi hSeal
  constructor
  · exact h.unloadTag_makeSpare hTs hEcc
  · exact h.unloadEcc_makeSpare hTs hEcc
  · apply hOther _ _ hLaid.status
    · omega
    · omega
  · rw [h.makeSpare_other hTs hEcc hLaid.sealed]
    exact blankSpare_seal h
  · exact hOther

/-
  For every status byte and every ECC size that fits, the
  layouts are disjoint, and tags and ECCs come back.
-/
theorem layout_invertible
    (a : SpareAttr)
    (h : a.Fits) :
    a.LaidOut ∧
      ∀ ts ecc : List Byte, ts.length = tagStoreSize →
        ecc.length = a.eccBytes → a.Restores ts ecc :=
  ⟨h.laidOut, fun _ _ hTs hEcc => h.restores hTs hEcc⟩

/- A status byte within the ECC. -/
theorem layout_invertible_twelve :
    letI a : SpareAttr :=
      { eccNone := false, eccSize := 6, blockStatusOffs := 12
        statusByte := by decide }
    a.Fits ∧ a.LaidOut ∧
      ∀ ts ecc : List Byte, ts.length = tagStoreSize →
        ecc.length = a.eccBytes → a.Restores ts ecc := by
  have hFits : SpareAttr.Fits
      { eccNone := false, eccSize := 6, blockStatusOffs := 12
        statusByte := by decide } := by
    unfold Fits
    decide
  exact ⟨hFits, layout_invertible _ hFits⟩

end Packing

end SpareAttr

end Uffs
