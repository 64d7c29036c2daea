import CodeMigration.FilePath
import CodeMigration.Text.Utf8

/-! # Files and directories -/

namespace CodeMigration

inductive FileTree where
  | file (content : Text.Bytes)
  | dir (entries : List (String × FileTree))
  deriving Inhabited

inductive FileFault where
  | missing | notDirectory | isDirectory | nameTooLong | alreadyThere | notRemovable
  deriving DecidableEq

def FileFault.number : FileFault → Nat
  | missing => 2
  | alreadyThere => 17
  | notDirectory => 20
  | isDirectory => 21
  | notRemovable => 22
  | nameTooLong => 36

def FileFault.text : FileFault → String
  | missing => "No such file or directory"
  | alreadyThere => "File exists"
  | notDirectory => "Not a directory"
  | isDirectory => "Is a directory"
  | notRemovable => "Invalid argument"
  | nameTooLong => "File name too long"

def FileFault.message (f : FileFault) (path : String) : String :=
  "[Errno " ++ toString f.number ++ "] " ++ f.text ++ ": " ++ Text.quote path

namespace FileTree

def put (name : String) (t : FileTree) : List (String × FileTree) → List (String × FileTree)
  | [] => [(name, t)]
  | (other, u) :: rest => if other == name then (name, t) :: rest else (other, u) :: put name t rest

def drop (name : String) (entries : List (String × FileTree)) : List (String × FileTree) :=
  entries.filter fun (other, _) => other != name

def isDir : FileTree → Bool
  | dir _ => true
  | file _ => false

def entryOf (name : String) (entries : List (String × FileTree)) : Except FileFault FileTree :=
  if 255 < name.utf8ByteSize then .error .nameTooLong
  else match entries.lookup name with
    | some t => .ok t
    | none => .error .missing

def find : FileTree → List String → Except FileFault FileTree
  | t, [] => .ok t
  | file _, _ :: _ => .error .notDirectory
  | dir entries, name :: rest => do (← entryOf name entries).find rest

/-- The path without the steps back in it, each of which has to start from a directory. -/
def straighten (t : FileTree) : List String → List String → Except FileFault (List String)
  | done, [] => .ok done
  | done, ".." :: rest => do
    match ← t.find done with
    | dir _ => if done.isEmpty then .error .missing else straighten t done.dropLast rest
    | file _ => .error .notDirectory
  | done, name :: rest => straighten t (done ++ [name]) rest

/-- Changes what is at a path; what is above it has to be there. -/
def update (f : Option FileTree → Except FileFault (Option FileTree)) :
    FileTree → List String → Except FileFault FileTree
  | t, [] => do return (← f (some t)).getD (dir [])
  | file _, _ :: _ => .error .notDirectory
  | dir entries, [name] => do
    if 255 < name.utf8ByteSize then .error .nameTooLong
    else match ← f (entries.lookup name) with
      | some t => return dir (put name t entries)
      | none => return dir (drop name entries)
  | dir entries, name :: next :: rest => do
    let t ← entryOf name entries
    return dir (put name (← t.update f (next :: rest)) entries)

def write (content : Text.Bytes) : FileTree → List String → Except FileFault FileTree :=
  update fun
    | some (dir _) => .error .isDirectory
    | _ => .ok (some (file content))

def removeDir : FileTree → List String → Except FileFault FileTree :=
  update fun
    | none => .error .missing
    | some (file _) => .error .notDirectory
    | some (dir _) => .ok none

def removeFile : FileTree → List String → Except FileFault FileTree :=
  update fun
    | none => .error .missing
    | some (dir _) => .error .isDirectory
    | some (file _) => .ok none

/-- Makes a directory and those above it, where they are not there. -/
def makeDirs : FileTree → List String → Except FileFault FileTree
  | dir entries, [] => .ok (dir entries)
  | file _, [] => .error .alreadyThere
  | file _, _ :: _ => .error .notDirectory
  | dir entries, name :: rest =>
    match entryOf name entries with
    | .error .missing => do return dir (put name (← (dir []).makeDirs rest) entries)
    | .error fault => .error fault
    | .ok t => do return dir (put name (← t.makeDirs rest) entries)

mutual

/-- All paths below a directory, those of directories in front of what is in them. -/
def contents : FileTree → List (List String × FileTree)
  | file _ => []
  | dir entries => contentsOf entries

def contentsOf : List (String × FileTree) → List (List String × FileTree)
  | [] => []
  | (name, t) :: rest =>
    ([name], t) :: t.contents.map (fun (path, u) => (name :: path, u)) ++ contentsOf rest

end

def files (t : FileTree) : List (List String × Text.Bytes) :=
  t.contents.filterMap fun (path, u) => match u with
    | file content => some (path, content)
    | dir _ => none

def pathLe : List String → List String → Bool
  | [], _ => true
  | _ :: _, [] => false
  | a :: as, b :: bs => a < b || (a == b && pathLe as bs)

def sortPaths {α : Type} (items : List (List String × α)) : List (List String × α) :=
  items.mergeSort fun a b => pathLe a.1 b.1

end FileTree

/-- The files that relative paths lead to, and those of absolute paths. -/
structure Disk where
  here : FileTree := .dir []
  elsewhere : FileTree := .dir []

namespace Disk

def treeOf (d : Disk) (p : FilePath) : FileTree := if p.root.isEmpty then d.here else d.elsewhere

def withTree (d : Disk) (p : FilePath) (t : FileTree) : Disk :=
  if p.root.isEmpty then { d with here := t } else { d with elsewhere := t }

def find (d : Disk) (p : FilePath) : Except FileFault FileTree := do
  let t := d.treeOf p
  t.find (← t.straighten [] p.parts)

def update (d : Disk) (p : FilePath) (f : FileTree → List String → Except FileFault FileTree) :
    Except FileFault Disk := do
  let t := d.treeOf p
  return d.withTree p (← f t (← t.straighten [] p.parts))

def isThere (d : Disk) (p : FilePath) : Bool := (d.find p).isOk

def isDir (d : Disk) (p : FilePath) : Bool :=
  match d.find p with
  | .ok t => t.isDir
  | .error _ => false

def readBytes (d : Disk) (p : FilePath) : Except FileFault Text.Bytes := do
  match ← d.find p with
  | .file content => return content
  | .dir _ => .error .isDirectory

def write (d : Disk) (p : FilePath) (content : Text.Bytes) : Except FileFault Disk :=
  d.update p (FileTree.write content)

def removeDir (d : Disk) (p : FilePath) : Except FileFault Disk := d.update p FileTree.removeDir

def removeFile (d : Disk) (p : FilePath) : Except FileFault Disk := d.update p FileTree.removeFile

def makeDirs (d : Disk) (p : FilePath) : Except FileFault Disk := d.update p FileTree.makeDirs

def place (d : Disk) (p : FilePath) (content : Text.Bytes) : Except FileFault Disk := do
  let d ← d.makeDirs p.parent
  d.write p content

def filesBelow (d : Disk) (p : FilePath) : List (FilePath × Text.Bytes) :=
  match d.find p with
  | .ok t => t.files.map fun (path, content) => (⟨p.root, p.parts ++ path⟩, content)
  | .error _ => []

end Disk

end CodeMigration
