import Uffs.Model.Session

/-
  A small device of the emulator: ten blocks of four pages,
  with a driver that answers as it is told.

  Main declarations:
    * `emulator`
    * `Answer.ok`
    * `Flash.blank`
-/

namespace Uffs

/- A device with the given answers of the driver. -/
@[reducible] def emulator (answer : Nat → Answer) :
    Platform where
  pagesPerBlock := 4
  pgDataSize := 160
  parStart := 0
  parEnd := 9
  bcCaches := 5
  pageBuffers := 8
  dirtyPages := 4
  dirtyGroups := 2
  reservedFreeBlocks := 2
  answer := answer
  fuel := 3
  two_le_pagesPerBlock := by decide
  pagesPerBlock_le := by decide
  pgDataSize_pos := by decide
  pgDataSize_le := by decide
  parStart_le_parEnd := by decide
  parEnd_lt := by decide
  two_le_bcCaches := by decide
  five_le_pageBuffers := by decide
  dirtyPages_pos := by decide
  dirtyGroups_pos := by decide
  dirtyGroups_le := by decide

/- An answer of the driver with a result code. -/
def Answer.of (ret : FlashRet) : Answer where
  ret := ret
  done := false
  junk := fun _ => Page.erased 160
  now := 0

/- The driver succeeds at every call. -/
def alwaysOk : Nat → Answer :=
  fun _ => Answer.of .noErr

/- The driver succeeds at every call but one. -/
def failAt (k : Nat) (ret : FlashRet) : Nat → Answer :=
  fun n => if n = k then Answer.of ret else Answer.of .noErr

/- The driver succeeds at every call before this one. -/
def failFrom (k : Nat) (ret : FlashRet) : Nat → Answer :=
  fun n => if k ≤ n then Answer.of ret else Answer.of .noErr

/- An erased flash without bad blocks. -/
def Flash.blank : Flash where
  page := fun _ _ => Page.erased 160
  bad := fun _ => false

/- The path "/a". -/
def pathA : List Byte := [47, 97]

/- The path "/b". -/
def pathB : List Byte := [47, 98]

/- Create the file "/a". -/
def createA : List Op :=
  [.getObject, .createObject 0 pathA {}, .closeObject 0]

/- Create the file "/a" and append a page to it. -/
def appendA : List Op :=
  createA ++
    [.openObject 0 pathA { rdwr := true },
      .writeObject 0 [1, 2, 3], .flushObject 0]

/- Create the file "/a", write to it and delete it. -/
def deleteA : List Op :=
  createA ++
    [.openObject 0 pathA { rdwr := true },
      .writeObject 0 [1, 2, 3], .closeObject 0,
      .deleteObject pathA]

/- Create the file "/a" and rename it to "/b". -/
def renameAB : List Op :=
  createA ++ [.renameObject pathA pathB]

end Uffs
