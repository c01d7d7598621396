import ToyKernel.Library.Memory
import ToyKernel.Vfs.Strings

/-!
The virtual file system of `utils/vfs.cpp`. Directories own their nodes through unique
pointers, so the objects form a tree and a reference to one of them is the list of
positions that leads to it from the root; nodes are only ever appended, so references stay
valid. The parent pointers are stored as the source stores them.
-/

namespace ToyKernel.Vfs

open Library

abbrev Cursor := List Nat

inductive Node
  | file (name : Text) (parent : Option Cursor) (contents : List UInt8)
  | directory (name : Text) (parent : Option Cursor) (nodes : List Node)

namespace Node

def name : Node → Text
  | file name _ _ => name
  | directory name _ _ => name

def parent : Node → Option Cursor
  | file _ parent _ => parent
  | directory _ parent _ => parent

def nodes : Node → List Node
  | file _ _ _ => []
  | directory _ _ nodes => nodes

def isDirectory : Node → Bool
  | file _ _ _ => false
  | directory _ _ _ => true

def pushBack (child : Node) : Node → Node
  | file name parent contents => file name parent contents
  | directory name parent nodes => directory name parent (nodes ++ [child])

def write (data : List UInt8) : Node → Node
  | file name parent contents => file name parent (data ++ contents.drop data.length)
  | directory name parent nodes => directory name parent nodes

def at? (tree : Node) : Cursor → Option Node
  | [] => some tree
  | position :: rest =>
      match tree.nodes[position]? with
      | some child => child.at? rest
      | none => none

def updateAt (change : Node → Node) : Cursor → Node → Node
  | [], node => change node
  | _ :: _, file name parent contents => file name parent contents
  | position :: rest, directory name parent nodes =>
      directory name parent (nodes.modify position (updateAt change rest))

end Node

def rootDirectory : Node := .directory [kPathSeparator] none []

def nodesOf (tree : Node) (dir : Cursor) : Except Fault (List Node) :=
  match tree.at? dir with
  | some (.directory _ _ nodes) => .ok nodes
  | _ => .error .danglingPointer

def castDirectory (tree : Node) (node : Cursor) : Except Fault Cursor :=
  match tree.at? node with
  | some (.directory _ _ _) => .ok node
  | some (.file _ _ _) => .error .invalidCast
  | none => .error .danglingPointer

def dynCastDirectory (tree : Node) (node : Cursor) : Option Cursor :=
  match tree.at? node with
  | some (.directory _ _ _) => some node
  | _ => none

def dynCastFile (tree : Node) (node : Cursor) : Option Cursor :=
  match tree.at? node with
  | some (.file _ _ _) => some node
  | _ => none

def rootDirLoop (tree : Node) : Nat → Cursor → Except Fault Cursor
  | 0, _ => .error .endlessLoop
  | fuel + 1, node =>
      match tree.at? node with
      | none => .error .danglingPointer
      | some found =>
          match found.parent with
          | some parent => rootDirLoop tree fuel parent
          | none => castDirectory tree node

def getRootDir (tree : Node) (node : Cursor) : Except Fault Cursor :=
  rootDirLoop tree (node.length + 1) node

def findNode (head : Text) : List Node → Except Fault (Option Nat)
  | [] => .ok none
  | node :: rest => do
      let simplifiedName ← simplifyName node.name
      if head = simplifiedName then return some 0
      else
        let later ← findNode head rest
        return later.map (· + 1)

def getNodeImpl (tree : Node) : Nat → Cursor → Text → Except Fault (Option Cursor)
  | 0, _, _ => .error .endlessLoop
  | fuel + 1, dir, path => do
      let name ← simplifyName path
      if name = [] then return none
      if name = [kDot] then return some dir
      if name = [kPathSeparator] then
        let root ← getRootDir tree dir
        return some root
      let (head, tail) := splitHead name
      if head = [kPathSeparator] then
        let root ← getRootDir tree dir
        getNodeImpl tree fuel root tail
      else if tail = [] then
        let nodes ← nodesOf tree dir
        let found ← findNode head nodes
        return found.map fun position => dir ++ [position]
      else
        let found ← getNodeImpl tree fuel dir head
        match found.bind (dynCastDirectory tree) with
        | some subdir => getNodeImpl tree fuel subdir tail
        | none => return none

def getNode (tree : Node) (dir : Cursor) (path : Text) : Except Fault (Option Cursor) :=
  getNodeImpl tree (path.length + 1) dir path

def getFile (tree : Node) (dir : Cursor) (path : Text) : Except Fault (Option Cursor) := do
  let found ← getNode tree dir path
  return found.bind (dynCastFile tree)

def getDir (tree : Node) (dir : Cursor) (path : Text) : Except Fault (Option Cursor) := do
  let found ← getNode tree dir path
  return found.bind (dynCastDirectory tree)

def addNode (tree : Node) (dir : Cursor) (child : Node) : Except Fault (Node × Cursor) := do
  let nodes ← nodesOf tree dir
  return (tree.updateAt (Node.pushBack child) dir, dir ++ [nodes.length])

def mkdirOnce (tree : Node) (dir : Cursor) (path : Text) : Except Fault (Node × Cursor) := do
  let normalizedName ← simplifyName path
  match ← getNode tree dir normalizedName with
  | some node =>
      let found ← castDirectory tree node
      return (tree, found)
  | none => addNode tree dir (.directory normalizedName (some dir) [])

def mkdirLoop : Nat → Node → Cursor → Text → Except Fault (Node × Cursor)
  | fuel, tree, currentDir, path =>
      if path = [] then .ok (tree, currentDir)
      else
        match fuel with
        | 0 => .error .endlessLoop
        | fuel + 1 => do
            let sep := find path kPathSeparator
            let (tree, currentDir) ← mkdirOnce tree currentDir (path.take (sep + 1))
            let path ← erase path 0 (sep + 1)
            mkdirLoop fuel tree currentDir path

def mkdir (tree : Node) (dir : Cursor) (name : Text) : Except Fault (Node × Cursor) := do
  let path ← simplifyName name
  mkdirLoop path.length tree dir path

def mkfileLoop : Nat → Node → Cursor → Text → Except Fault (Node × Cursor × Text)
  | fuel, tree, currentDir, path =>
      let sep := find path kPathSeparator
      if sep = path.length then .ok (tree, currentDir, path)
      else
        match fuel with
        | 0 => .error .endlessLoop
        | fuel + 1 => do
            let (tree, currentDir) ← mkdirOnce tree currentDir (path.take (sep + 1))
            let path ← erase path 0 (sep + 1)
            mkfileLoop fuel tree currentDir path

def mkfile (tree : Node) (dir : Cursor) (name : Text) : Except Fault (Node × Cursor) := do
  let path ← simplifyName name
  require (path.headD 0 ≠ kPathSeparator) .absoluteFile
  let (tree, currentDir, path) ← mkfileLoop path.length tree dir path
  require (path ≠ []) .missingFilename
  addNode tree currentDir (.file path (some dir) [])

section Tar

def kTarBlockSize : Nat := 512

def kDirectory : UInt8 := 53

def advance (pointer bytes : Nat) : Nat := (pointer + bytes) % 4294967296

namespace TarBlock

def nameField : Nat := 0
def sizeField : Nat := 124
def typeField : Nat := 156
def ustarField : Nat := 257
def prefixField : Nat := 345

end TarBlock

def readString (memory : Memory) : Nat → Nat → Except Fault Text
  | 0, _ => .error .endlessString
  | fuel + 1, str =>
      if memory str = 0 then .ok []
      else do
        let rest ← readString memory fuel (advance str 1)
        return memory str :: rest

def stringAt (memory : Memory) (str : Nat) : Except Fault Text := readString memory 4294967296 str

def readBytes (memory : Memory) (data size : Nat) : List UInt8 :=
  (List.range size).map fun offset => memory (advance data offset)

def memcmp (memory : Memory) (lhs : Nat) (rhs : List UInt8) : Nat → Int
  | 0 => (memory lhs).toNat - (rhs.headD 0).toNat
  | size + 1 =>
      if memory lhs = rhs.headD 0 then memcmp memory (advance lhs 1) rhs.tail size
      else (memory lhs).toNat - (rhs.headD 0).toNat

/-- Characters are signed, so a byte with the high bit set is below the digit zero. -/
def oct2bin (memory : Memory) : Nat → Nat → Nat → Except Fault Nat
  | _, 0, n => .ok n
  | c, size + 1, n => do
      require (48 ≤ (memory c).toNat ∧ (memory c).toNat < 128) .octalDigit
      oct2bin memory (advance c 1) size (advance (n * 8) ((memory c).toNat - 48))

def isZeroPage (memory : Memory) (tarPage : Nat) : Bool :=
  (List.range kTarBlockSize).all fun offset => memory (advance tarPage offset) == 0

structure DirInfo where
  namePrefix : Text
  name : Text

structure FileInfo where
  namePrefix : Text
  name : Text
  size : Nat
  data : Nat

def DirInfo.getFullPath (info : DirInfo) : Text := info.namePrefix ++ info.name

def FileInfo.getFullPath (info : FileInfo) : Text := info.namePrefix ++ info.name

def ustarMagic : List UInt8 := [117, 115, 116, 97, 114, 0]

def numChunks (filesize : Nat) : Nat :=
  if filesize % kTarBlockSize ≠ 0 then filesize / kTarBlockSize + 1 else filesize / kTarBlockSize

section
variable {σ : Type} (memory : Memory) (dirCallback : DirInfo → σ → Except Fault (σ × Bool))
  (fileCallback : FileInfo → σ → Except Fault (σ × Bool))

/-- A callback that answers false ends the iteration. -/
def iterateLoop : Nat → Nat → σ → Except Fault σ
  | 0, _, _ => .error .endlessLoop
  | fuel + 1, tar, state =>
      if isZeroPage memory tar && isZeroPage memory (advance tar kTarBlockSize) then .ok state
      else do
        require (memcmp memory (advance tar TarBlock.ustarField) ustarMagic 5 = 0) .expectedUStar
        let filesize ← oct2bin memory (advance tar TarBlock.sizeField) 11 0
        if memory (advance tar TarBlock.typeField) = kDirectory then do
          require (filesize = 0) .directoryWithSize
          let namePrefix ← stringAt memory (advance tar TarBlock.prefixField)
          let name ← stringAt memory (advance tar TarBlock.nameField)
          let (state, more) ← dirCallback { namePrefix, name } state
          if more then iterateLoop fuel (advance tar kTarBlockSize) state else return state
        else do
          require (filesize ≠ 0) .emptyFile
          let namePrefix ← stringAt memory (advance tar TarBlock.prefixField)
          let name ← stringAt memory (advance tar TarBlock.nameField)
          let data := advance tar kTarBlockSize
          let (state, more) ← fileCallback { namePrefix, name, size := filesize, data } state
          if more then iterateLoop fuel (advance data (numChunks filesize * kTarBlockSize)) state
          else return state

/-- Each record takes at least one of the blocks of the address space. -/
def iterateUSTAR (archive : Nat) (state : σ) : Except Fault σ :=
  iterateLoop memory dirCallback fileCallback 8388608 archive state

end

def parseUSTAR (memory : Memory) (archive : Nat) : Except Fault Node :=
  iterateUSTAR memory
    (fun info root => do
      let (root, _) ← mkdir root [] info.getFullPath
      return (root, true))
    (fun info root => do
      let (root, file) ← mkfile root [] info.getFullPath
      return (root.updateAt (Node.write (readBytes memory info.data info.size)) file, true))
    archive rootDirectory

end Tar

end ToyKernel.Vfs
