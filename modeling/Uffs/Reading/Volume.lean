import Uffs.Model.Session
import Uffs.Tree.Parts

/-
  What the file layer reads, without any cache.

  A volume is a tree together with the pages of the blocks in
  it.  The reading calls of the file layer are functions of a
  volume: a path is resolved by the names of the nodes, and
  a file is read page by page.

  Main declarations:
    * `Volume`
    * `Volume.child`
    * `Volume.parse`, `Volume.openFile`
    * `Volume.readFrom`
    * `Volume.exec`, `Volume.runOps`
    * `Volume.admits`
-/

namespace Uffs

variable [Platform]

/- `obj->head_pages` of an object that is open -/
def headPages : Nat := pagesPerBlock - 1

/-
  A tree, and for each node and page id the data and the
  length of the page.
-/
structure Volume where
  tree : Tree
  page : Nat → Nat → Option (List Byte × Nat)

namespace Volume

------------------------------------------------------------
-- Names
------------------------------------------------------------

/- The name of a DIR or FILE node, when it is a whole one. -/
def name (v : Volume) (n : Nat) : Option (List Byte) :=
  match v.page n 0 with
  | none => none
  | some c =>
      if fiNameLen c.1 = (fiName c.1).length then
        some (fiName c.1)
      else
        none

/- Is this the name of a child of the directory `dir`? -/
def isChild
    (v : Volume)
    (name : List Byte)
    (dir n : Nat) : Bool :=
  (v.tree.node n).parent == dir && v.name n == some name

/- The child of a directory with a name. -/
def child
    (v : Volume)
    (type : BlockType)
    (name : List Byte)
    (dir : Nat) : Option Nat :=
  (v.tree.region type).find? fun n => v.isChild name dir n

/-
  The directories of a path, one after the other: are they
  all there, and which is the last one that is?
-/
def walk
    (v : Volume)
    (dLen : Nat) :
    Nat → Nat → List Byte → Nat → Bool × Nat
| 0, _, _, dir => (true, dir)
| n + 1, used, rest, dir =>
    if used ≥ dLen then
      (true, dir)
    else
      let part := rest.takeWhile fun c => c != slash
      match v.child .dir part dir with
      | none => (false, dir)
      | some node =>
          v.walk dLen n (used + part.length + 1)
            (rest.drop (part.length + 1))
            (v.tree.node node).serial

------------------------------------------------------------
-- Opening
------------------------------------------------------------

/- A path is resolved up to its last component. -/
def parse
    (v : Volume)
    (obj : Obj)
    (path : List Byte) : URet × Obj :=
  if obj.openSucc then
    (.fail, obj)
  else
    match path with
    | [] => (.fail, { Obj.zero with err := .noent })
    | c :: start =>
        if c ≠ slash then
          (.fail, { Obj.zero with err := .noent })
        else if start = [] then
          (.succ,
            { Obj.zero with dev := true, parent := parentOfRoot })
        else
          let dLen := getDirLengthFromPath start
          let r := v.walk dLen (dLen + 1) 0 start rootDirSerial
          let obj :=
            { Obj.zero with
              parent := r.2
              name := nameOfPath start }
          if r.1 then
            (.succ, { obj with dev := true })
          else
            (.fail, { obj with err := .noent })

/- An object is open when there was no error. -/
def opened (obj : Obj) : URet × Obj :=
  let obj := { obj with openSucc := decide (obj.err = .noErr) }
  (obj.ret, obj)

/- The object to be opened under a name. -/
def named
    (obj : Obj)
    (dir : Nat)
    (name : List Byte)
    (oflag : OFlag) : Obj :=
  let short := if oflag.dir then dropEndingSlash name else name
  { obj with
    err := .noErr
    openSucc := false
    oflag := oflag
    parent := dir
    type := if oflag.dir then .dir else .file
    pos := 0
    dev := true
    name := short
    sum := if short = [] then 0 else makeSum16 short
    headPages := Uffs.headPages }

/- The child with a name that is not empty. -/
def lookup
    (v : Volume)
    (type : BlockType)
    (name : List Byte)
    (dir : Nat) : Option Nat :=
  if name = [] then
    none
  else
    v.child type name dir

/- Open the object of a name in a directory. -/
def openIn
    (v : Volume)
    (obj : Obj)
    (dir : Nat)
    (name : List Byte)
    (oflag : OFlag) : URet × Obj :=
  if oflag.wronly && oflag.rdwr then
    opened { obj with err := .inval }
  else
    let obj := named obj dir name oflag
    if oflag.dir && obj.name = [] then
      if dir ≠ parentOfRoot then
        opened { obj with err := .inval }
      else
        opened { obj with serial := rootDirSerial }
    else
      match v.lookup obj.type obj.name dir with
      | none => opened { obj with node := none, err := .noent }
      | some n =>
          opened
            { obj with
              err :=
                if !oflag.dir && name.getLast? = some slash then
                  .inval
                else
                  .noErr
              node := some n
              serial := (v.tree.node n).serial }

/- An object without its device. -/
def released (obj : Obj) : Obj :=
  if obj.dev then
    { obj with dev := false, openSucc := false }
  else
    obj

/- Open a file or a directory. -/
def openFile
    (v : Volume)
    (obj : Obj)
    (path : List Byte)
    (oflag : OFlag) : URet × Obj :=
  let (ret, obj) := v.parse obj path
  let (ret, obj) :=
    match ret with
    | .succ => v.openIn obj obj.parent obj.name oflag
    | .fail => (.fail, obj)
  match ret with
  | .succ => (.succ, obj)
  | .fail => (.fail, released obj)

/- Close an object. -/
def closeFile (obj : Obj) : URet × Obj :=
  let obj :=
    released
      (if !obj.dev || !obj.openSucc then
        { obj with err := .badf }
      else
        obj)
  (obj.ret, obj)

------------------------------------------------------------
-- Reading
------------------------------------------------------------

/- The node that has the bytes of a file block. -/
def blockNode (v : Volume) (fnode fdn : Nat) : Option Nat :=
  if fdn = 0 then
    some fnode
  else
    v.tree.findDataNode (v.tree.node fnode).serial fdn

/-
  What a read of `size` bytes of a page buffer from `ofs` on
  leaves in the memory of the caller.
-/
def pageBytes
    (data : List Byte)
    (ofs size : Nat) : List (Option Byte) :=
  copied ((data.drop ofs).take (min size (pgDataSize - ofs)))
    size

/- The bytes of a file from `start` on, page by page. -/
def readFrom
    (v : Volume)
    (headPages fnode : Nat) :
    Nat → Nat → Nat → List (Option Byte) × Option UErr
| 0, _, _ => ([], none)
| n + 1, start, remain =>
    if remain = 0 ∨ start ≥ (v.tree.node fnode).len then
      ([], none)
    else
      let fdn := getFdnByOfs headPages start
      match v.blockNode fnode fdn with
      | none => ([], some .unknown)
      | some d =>
          let id :=
            (start - getStartOfDataBlock headPages fdn) /
                pgDataSize +
              if fdn = 0 then 1 else 0
          match v.page d (id % 65536) with
          | none => ([], some .ioerr)
          | some c =>
              let ofs := start % pgDataSize
              if ofs ≥ c.2 then
                ([], none)
              else
                let size := min remain (c.2 - ofs)
                let more := v.readFrom headPages fnode n
                  ((start + size) % 2 ^ 32) (remain - size)
                (pageBytes c.1 ofs size ++ more.1, more.2)

/- Read from the position of an object on. -/
def readFile
    (v : Volume)
    (obj : Obj)
    (len : Nat) : List (Option Byte) × Obj :=
  if !obj.dev || !obj.openSucc || obj.type = .dir then
    ([], { obj with err := .badf })
  else
    match obj.node with
    | none => ([], obj)
    | some fnode =>
        if obj.pos > (v.tree.node fnode).len then
          ([], obj)
        else if obj.oflag.wronly then
          ([], { obj with err := .acces })
        else
          let r := v.readFrom obj.headPages fnode len obj.pos len
          (r.1,
            { obj with
              err := r.2.getD obj.err
              pos := (obj.pos + r.1.length) % 2 ^ 32 })

/- The length of the file of an object. -/
def fileLen (v : Volume) (obj : Obj) : Nat :=
  match obj.node with
  | none => 0
  | some fnode => (v.tree.node fnode).len

/- The place that an offset is counted from. -/
def seekFrom (origin : Origin) (pos len : Nat) : Nat :=
  match origin with
  | .cur => pos
  | .set => 0
  | .end => len

/- Move the position of an object in a file of length `len`. -/
def seekTo
    (len : Nat)
    (obj : Obj)
    (offset : Int)
    (origin : Origin) : Int × Obj :=
  let obj :=
    if obj.type = .dir then
      { obj with err := .acces }
    else
      obj.moveTo (seekFrom origin obj.pos len + offset)
  (obj.offset, obj)

------------------------------------------------------------
-- Object Information
------------------------------------------------------------

/- What the first page of a node says, and the node itself. -/
def infoOf
    (v : Volume)
    (n : Nat)
    (type : BlockType) : Option ObjectInfo :=
  (v.page n 0).map fun c =>
    { info := c.1.take fileInfoSize
      len := if type = .dir then 0 else (v.tree.node n).len
      serial := (v.tree.node n).serial }

/- The info of an object, and the error code. -/
def info
    (v : Volume)
    (obj : Obj) : Option ObjectInfo × UErr :=
  if !obj.dev then
    (none, .inval)
  else if obj.parent = parentOfRoot then
    (some
      { info := FileInfo.bytes ⟨0x81, 0, 0, 0, 0, []⟩
        len := 0
        serial := obj.serial }, .noErr)
  else
    let info := obj.node.bind fun n => v.infoOf n obj.type
    (info, if info = none then .nomem else .noErr)

/- Nothing is to be flushed. -/
def flushFile (obj : Obj) : URet × Obj :=
  let obj :=
    if !obj.dev || !obj.openSucc then
      { obj with err := .badf }
    else
      obj
  (obj.ret, obj)

------------------------------------------------------------
-- Runs
------------------------------------------------------------

/- A call on the object `h`, when it is in use. -/
def onObject
    (p : ObjPool)
    (h : Nat)
    (f : Obj → Reply × Obj) : Reply × ObjPool :=
  match p h with
  | none => (.nothing, p)
  | some obj => ((f obj).1, upd p h (some (f obj).2))

/- One reading call. -/
def exec (v : Volume) (p : ObjPool) : Op → Reply × ObjPool
| .getObject =>
    match p.free with
    | none => (.handle none, p)
    | some h => (.handle (some h), upd p h (some Obj.zero))
| .putObject h => (.nothing, upd p h none)
| .openObject h path oflag =>
    onObject p h fun obj => replyRet (v.openFile obj path oflag)
| .closeObject h =>
    onObject p h fun obj => replyRet (closeFile obj)
| .readObject h len =>
    onObject p h fun obj =>
      let r := v.readFile obj len
      (.bytes r.1, r.2)
| .objectInfo h =>
    onObject p h fun obj =>
      let r := v.info obj
      (.info r.1 r.2, obj)
| .findObject n type => (.found (v.infoOf n type), p)
| .seekObject h offset origin =>
    onObject p h fun obj =>
      let r := seekTo (v.fileLen obj) obj offset origin
      (.offset r.1, r.2)
| .flushObject h =>
    onObject p h fun obj => replyRet (flushFile obj)
| .flushAll => (.ret .succ, p)
| _ => (.nothing, p)

/- Reading calls one after the other, and their replies. -/
def runOps
    (v : Volume) : ObjPool → List Op → List Reply × ObjPool
| p, [] => ([], p)
| p, op :: rest =>
    let r := v.exec p op
    let q := v.runOps r.2 rest
    (r.1 :: q.1, q.2)

/-
  Does a call stay away from nodes that are not there?  The
  end of a file is that of its node; a file that could not
  be opened has none.
-/
def admits (v : Volume) (p : ObjPool) : Op → Bool
| .seekObject h _ .end =>
    (p h).all fun obj =>
      decide (obj.type = .dir) || obj.node.isSome
| .findObject n type =>
    decide (type ≠ .resv) && decide (n ∈ v.tree.entryNodes)
| _ => true

/- Do all calls of a run? -/
def admitsAll (v : Volume) : ObjPool → List Op → Bool
| _, [] => true
| p, op :: rest =>
    v.admits p op && v.admitsAll (v.exec p op).2 rest

end Volume

/- Does a call only read? -/
def Op.reads : Op → Bool
| .getObject => true
| .putObject _ => true
| .openObject _ _ oflag => !oflag.create && !oflag.trunc
| .closeObject _ => true
| .readObject _ _ => true
| .objectInfo _ => true
| .seekObject _ _ _ => true
| .flushObject _ => true
| .findObject _ _ => true
| .flushAll => true
| .recover => true
| _ => false

end Uffs
