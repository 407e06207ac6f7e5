import Coprocess.Bytes
import Coprocess.Errno

/-!
# Files and programs

The part of a file system on which it depends whether a program starts or a file opens.

* `Node`, `FileTree`: directories, files and programs by their paths;
* `FileTree.ofFound`, `FileTree.withFiles`: the file systems with some files;
* `FileTree.resolve`: what a path leads to;
* `FileTree.program`, `FileTree.search`: the program at a path, and the program that a name means;
* `FileTree.read`: an input file;
* `FileTree.create`, `FileTree.makeDirectories`; `FileTree.createdSince`, `FileTree.listing`.
-/

namespace Coprocess

/-- What a path leads to. -/
inductive Node
  | directory
  | file (content : Bytes)
  /-- A file that can be run. -/
  | program (name : String)

/-- A file system: what is at a path, given by its components from the root on. -/
structure FileTree where
  entries : List (List Bytes × Node)
  /-- The working directory. -/
  current : List Bytes

namespace FileTree

/-- The programs that are installed. -/
def programNames : List String :=
  ["cat", "tr", "sed", "head", "wc", "sort", "tac", "nl", "grep", "printf", "true", "false",
    "sleep", "sh"]

/-- The directories in which programs are looked for, in order. -/
def searchPath : List (List Bytes) :=
  [["usr", "local", "sbin"], ["usr", "local", "bin"], ["usr", "sbin"], ["usr", "bin"], ["sbin"],
    ["bin"]].map (·.map Bytes.ofString)

/-- Directories that exist besides those. -/
def otherDirectories : List (List Bytes) :=
  ([[], ["usr"], ["usr", "local"], ["usr", "lib"], ["usr", "share"], ["etc"], ["dev"], ["tmp"],
    ["home"], ["root"], ["var"], ["var", "tmp"], ["lib"], ["opt"], ["proc"], ["sys"], ["run"],
    ["mnt"], ["media"], ["srv"], ["boot"]] : List (List String)).map
      (·.map Bytes.ofString)

/-- Files that exist and are no programs. -/
def plainFiles : List (List Bytes) :=
  ([["etc", "passwd"], ["etc", "group"], ["etc", "hosts"], ["etc", "hostname"], ["dev", "null"],
    ["dev", "zero"], ["etc", "fstab"]] : List (List String)).map (·.map Bytes.ofString)

/-- The separator of the components of a path. -/
def slash : UInt8 := 47

/-- The parts of a text between slashes, after the part `read`, which is held last first. -/
def components (read : Bytes) : Bytes → List Bytes
  | [] => [read.reverse]
  | b :: rest =>
    if b = slash then read.reverse :: components [] rest else components (b :: read) rest

/-- The paths that lead to a path, without the root. -/
def ancestors (path : List Bytes) : List (List Bytes) :=
  (List.range path.length).tail.map fun n => path.take n

/-- Where a path starts: at the root or at the working directory `current`. -/
def start (current : List Bytes) (path : Bytes) : List Bytes :=
  if path.head? = some slash then [] else current

/-- The place that a path names when each of its parts but the last is a directory. -/
def place (current : List Bytes) (path : Bytes) : List Bytes :=
  (components [] path).foldl (fun at' c =>
    if c.isEmpty || c = Bytes.ofString "." then at'
    else if c = Bytes.ofString ".." then at'.dropLast
    else at' ++ [c]) (start current path)

/-- The file system with a working directory and with what was found at some paths. -/
def ofFound (current : List Bytes) (found : List (Bytes × Node)) : FileTree :=
  let places := [["usr", "bin"], ["bin"]].map (·.map Bytes.ofString)
  let programs := places.flatMap fun place => programNames.map fun name =>
    (place ++ [Bytes.ofString name], Node.program name)
  let given := found.map fun (path, node) => (place current path, node)
  { current
    entries := given ++ programs ++
      (searchPath ++ otherDirectories ++ ancestors current ++ [current] ++
        given.flatMap fun (path, _) => ancestors path).map (·, .directory) ++
      plainFiles.map (·, .file []) }

/-- The file system with some files in the working directory. -/
def withFiles (files : List (Bytes × Bytes)) : FileTree :=
  ofFound [Bytes.ofString "work"] (files.map fun (name, content) => (name, .file content))

/-- What is at a path. -/
def find? (t : FileTree) (path : List Bytes) : Option Node := t.entries.lookup path

/-- The longest component of a path. -/
def nameLimit : Nat := 255

/-- The longest path. -/
def pathLimit : Nat := 4095

/-- Follows components from a directory on. The last one need not be a directory. -/
def follow (t : FileTree) (at' : List Bytes) : List Bytes → Except Errno (List Bytes × Node)
  | [] =>
    match t.find? at' with
    | some node => .ok (at', node)
    | none => .error .noEntry
  | c :: rest =>
    match t.find? at' with
    | none => .error .noEntry
    | some .directory =>
      if c.isEmpty || c = Bytes.ofString "." then follow t at' rest
      else if c = Bytes.ofString ".." then follow t at'.dropLast rest
      else if nameLimit < c.length then .error .nameTooLong
      else follow t (at' ++ [c]) rest
    | some _ => .error .notDirectory

/-- What a path leads to, and its components from the root on. -/
def resolve (t : FileTree) (path : Bytes) : Except Errno (List Bytes × Node) :=
  if path.isEmpty then .error .noEntry
  else if pathLimit < path.length then .error .nameTooLong
  else t.follow (start t.current path) (components [] path)

/-- The program at a path. -/
def program (t : FileTree) (path : Bytes) : Except Errno String := do
  match ← t.resolve path with
  | (_, .program name) => return name
  | _ => throw .access

/-- Looks for a name in directories. `refused` tells that something with this name was found that
is no program. -/
def searchIn (t : FileTree) (name : Bytes) (refused : Bool) :
    List (List Bytes) → Except Errno String
  | [] => .error (if refused then .access else .noEntry)
  | dir :: rest =>
    match t.follow dir (components [] name) with
    | .ok (_, .program name) => .ok name
    | .ok _ => searchIn t name true rest
    | .error .noEntry => searchIn t name refused rest
    | .error .notDirectory => searchIn t name refused rest
    | .error e => .error e

/-- The program that a name means: a path if there is a slash in it. -/
def search (t : FileTree) (name : Bytes) : Except Errno String :=
  if name.contains slash then t.program name
  else if name.isEmpty then .error .noEntry
  else t.searchIn name false searchPath

/-! ## Files -/

/-- The bytes that reading a path gives, or why it cannot be opened. A directory can be opened. -/
def read (t : FileTree) (path : Bytes) : Except Errno (Except Errno Bytes) := do
  match ← t.resolve path with
  | (_, .directory) => return .error .isDirectory
  | (_, .file content) => return .ok content
  | (_, .program _) => return .ok []

/-- Creates a file in a directory, unless there is one. -/
def create (t : FileTree) (directory name : Bytes) : Except Errno FileTree := do
  match ← t.follow (start t.current directory) (components [] directory) with
  | (place, .directory) =>
    if nameLimit < name.length then throw .nameTooLong
    match t.find? (place ++ [name]) with
    | some .directory => throw .isDirectory
    | some _ => return t
    | none => return { t with entries := (place ++ [name], .file []) :: t.entries }
  | _ => throw .notDirectory

/-- Makes the directories along components, from a directory on. -/
def makeFrom (t : FileTree) (place : List Bytes) : List Bytes → Except Errno FileTree
  | [] => .ok t
  | c :: rest =>
    match t.follow place [c] with
    | .ok (place, .directory) => makeFrom t place rest
    | .ok _ => .error (if rest.all (·.isEmpty) then .fileExists else .notDirectory)
    | .error .noEntry =>
      makeFrom { t with entries := (place ++ [c], .directory) :: t.entries } (place ++ [c]) rest
    | .error e => .error e

/-- Makes a directory and those that lead to it. -/
def makeDirectories (t : FileTree) (path : Bytes) : Except Errno FileTree :=
  t.makeFrom (start t.current path) (components [] path)

/-- What was created since `before`, the first one first. -/
def createdSince (t before : FileTree) : List (List Bytes × Node) :=
  (t.entries.take (t.entries.length - before.entries.length)).reverse

/-- The path from the root on to a place. -/
def pathTo (place : List Bytes) : Bytes := slash :: [slash].intercalate place

/-- The names in the working directory. -/
def listing (t : FileTree) : List Bytes :=
  (t.entries.filterMap fun (path, _) =>
    if path.take t.current.length = t.current then path[t.current.length]? else none).eraseDups

end FileTree

end Coprocess
