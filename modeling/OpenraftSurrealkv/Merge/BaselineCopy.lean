import OpenraftSurrealkv.Lib.Effect
import OpenraftSurrealkv.Lib.FileTree
import OpenraftSurrealkv.Types

/-!
# Copying the baseline

`loadBaselineCheckpointToTree` copies a checkpoint directory before it opens it.
Here is that copy, call by call, on a tree of directories and files.

A file is placed by a hard link and, where that fails, by a copy.  `Disk.links`
lists the outcomes of the `hard_link` calls to come and `Disk.faults` those of all
others, in the order in which they are made: `none` succeeds, `some text` fails
with the text, and after the list every call succeeds.  A call also fails where the
tree leaves it no choice, with the text of the operating system.
-/

namespace OpenraftSurrealkv

open Postcard

/-- The names of a path, the last one first. -/
abbrev Path := List String

/-- The file system, and the outcomes of the calls to come. -/
structure Disk where
  tree : FileTree String Bytes
  links : List (Option String)
  faults : List (Option String)

/-- An error of the code, or a recursion that is deeper than its fuel. -/
inductive CopyError where
  | failed (err : RaftError)
  | outOfFuel
deriving DecidableEq, Repr

abbrev DiskOp (α : Type) := Eff Disk CopyError α

namespace DiskOp

/-! ## Calls -/

def ioError {α : Type} (text : String) : DiskOp α := Eff.fail (.failed (.io text))

/-- The outcome of a call, from the outcomes to come. -/
def outcome : Eff (List (Option String)) CopyError Unit
  | [] => (.ok (), [])
  | none :: calls => (.ok (), calls)
  | some text :: calls => (.error (.failed (.io text)), calls)

/-- A call other than `hard_link`. -/
def external : DiskOp Unit :=
  Eff.zoom Disk.faults (fun calls d => { d with faults := calls }) outcome

/-- A call of `hard_link`. -/
def linkOutcome : DiskOp Unit :=
  Eff.zoom Disk.links (fun calls d => { d with links := calls }) outcome

def eperm : String := "Operation not permitted (os error 1)"
def enoent : String := "No such file or directory (os error 2)"
def eexist : String := "File exists (os error 17)"
def enotdir : String := "Not a directory (os error 20)"
def eisdir : String := "Is a directory (os error 21)"

/-- Why a path cannot be reached: the first of its names that is missing or no directory. -/
def unreachable (t : FileTree String Bytes) : Path → String
  | [] => enoent
  | _ :: p =>
      match t.nodes[p]? with
      | some .dir => enoent
      | some _ => enotdir
      | none => unreachable t p

/-- Go on with another tree, if there is one. -/
def proceed (text : String) : Option (FileTree String Bytes) → DiskOp Unit
  | some t => Eff.modify fun d => { d with tree := t }
  | none => ioError text

/-- The directories of a path that are missing. -/
def makeDirs : Path → DiskOp Unit
  | [] => pure ()
  | name :: p => do
      let t ← Eff.gets Disk.tree
      match t.nodes[name :: p]?, t.nodes[p]? with
      | some .dir, _ => pure ()
      | some _, _ => ioError eexist
      | none, some .dir => proceed enoent (t.mkdir (name :: p))
      | none, some _ => ioError enotdir
      | none, none => do
          makeDirs p
          let t ← Eff.gets Disk.tree
          proceed enoent (t.mkdir (name :: p))

/-- `fs::create_dir_all`. -/
def createDirAll (path : Path) : DiskOp Unit := do
  external
  makeDirs path

/-- `fs::read_dir`: the names in a directory, in an order of the file system's own. -/
def readDir (readOrder : Path → List String → List String) (path : Path) :
    DiskOp (List String) := do
  external
  let t ← Eff.gets Disk.tree
  match t.nodes[path]? with
  | some .dir => pure (readOrder path (t.names path))
  | some _ => ioError enotdir
  | none => ioError (unreachable t path)

/-- `DirEntry::file_type`. -/
def fileType (path : Path) : DiskOp FileNode := do
  external
  let t ← Eff.gets Disk.tree
  match t.nodes[path]? with
  | some node => pure node
  | none => ioError (unreachable t path)

/-- `fs::hard_link`. -/
def hardLink (original link : Path) : DiskOp Unit := do
  linkOutcome
  let t ← Eff.gets Disk.tree
  match t.nodes[original]?, t.nodes[link]? with
  | some (.file _), none => proceed (unreachable t link) (t.link original link)
  | some (.file _), some _ => ioError eexist
  | some _, _ => ioError eperm
  | none, _ => ioError (unreachable t original)

/-- `fs::copy`.  Onto a file it replaces the content, and onto a link to the same content it leaves
an empty file. -/
def copy (src dst : Path) : DiskOp Unit := do
  external
  let t ← Eff.gets Disk.tree
  match t.nodes[src]?, t.nodes[dst]? with
  | some (.file i), none => proceed (unreachable t dst) (t.create (t.inodes[i]?.getD []) dst)
  | some (.file i), some (.file j) =>
      Eff.modify fun d =>
        { d with tree := t.write j (if i = j then [] else t.inodes[i]?.getD []) }
  | some (.file _), some _ => ioError eisdir
  | some _, _ =>
      ioError "the source path is neither a regular file nor a symlink to a regular file"
  | none, _ => ioError (unreachable t src)

end DiskOp

namespace CheckpointMergeBackend

open DiskOp

/-- Where checkpoints are made, `target/checkpoints`. -/
def checkpointBase (cwd : Path) : Path := "checkpoints" :: "target" :: cwd

/-- Where merges work, `target/tmp/merge`. -/
def tempBase (cwd : Path) : Path := "merge" :: "tmp" :: "target" :: cwd

/-- The directory of one merge. -/
def tempPath (base : Path) (tempId : String) : Path := ("merge_" ++ tempId) :: base

/-- Place a file: a hard link and, if that fails, a copy. -/
def hardlinkOrCopy (src dst : Path) : DiskOp Unit := do
  let linked ← Eff.attempt (hardLink src dst)
  match linked with
  | .ok _ => pure ()
  | .error _ => copy src dst

/-- One entry of a directory.  What is neither a directory nor a file is passed over. -/
def copyEntry (copyDir : Path → Path → DiskOp Unit) (src dst : Path) (name : String) :
    DiskOp Unit := do
  external
  let ty ← fileType (name :: src)
  match ty with
  | .dir => copyDir (name :: src) (name :: dst)
  | .file _ => hardlinkOrCopy (name :: src) (name :: dst)
  | .other => pure ()

def copyEntries (copyDir : Path → Path → DiskOp Unit) (src dst : Path) :
    List String → DiskOp Unit
  | [] => pure ()
  | name :: rest => do
      copyEntry copyDir src dst name
      copyEntries copyDir src dst rest

/-- Copy a directory with everything below it.  The fuel is the depth of the recursion. -/
def copyDirRecursiveHardlinkOrCopySync (readOrder : Path → List String → List String) :
    Nat → Path → Path → DiskOp Unit
  | 0, _, _ => Eff.fail .outOfFuel
  | fuel + 1, src, dst => do
      createDirAll dst
      let entries ← readDir readOrder src
      copyEntries (copyDirRecursiveHardlinkOrCopySync readOrder fuel) src dst entries

end CheckpointMergeBackend

end OpenraftSurrealkv
