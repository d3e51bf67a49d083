import FlowRecovery.Text.Piece

/-! Files and folders as data, and what goes wrong when a path is followed. A disk is a tree below one
root; paths without a slash in front start at its working folder. -/
namespace FlowRecovery

inductive DiskFault where
  | notFound
  | notFolder
  | isFolder
  | nameTooLong
  /-- Any other fault: the call that failed, and what the system says of it. -/
  | other (call message : String)
deriving DecidableEq, Repr

def DiskFault.text : DiskFault → String
  | notFound => "no such file or directory"
  | notFolder => "not a directory"
  | isFolder => "is a directory"
  | nameTooLong => "file name too long"
  | other _ message => message

/-- The text of a failed attempt to open or read a file for reading. -/
def DiskFault.onRead (path : String) : DiskFault → String
  | isFolder => "read " ++ path ++ ": " ++ isFolder.text
  | other call message => call ++ " " ++ path ++ ": " ++ message
  | f => "open " ++ path ++ ": " ++ f.text

def DiskFault.onWrite (path : String) : DiskFault → String
  | other call message => call ++ " " ++ path ++ ": " ++ message
  | f => "open " ++ path ++ ": " ++ f.text

/-- The text of a failed attempt to print. -/
def DiskFault.onPrint (f : DiskFault) : String := "write /dev/stdout: " ++ f.text

inductive DiskEntry where
  | folder
  | file (bytes : ByteArray)

/-- A place is the list of the names on the way to it from the root. -/
abbrev Place := List String

structure Disk where
  entries : List (Place × DiskEntry) := []
  /-- The working folder. -/
  start : Place := []
deriving Inhabited

namespace Disk

/-! ### Entries -/

def at? (d : Disk) (p : Place) : Option DiskEntry :=
  if p.isEmpty then some .folder else d.entries.lookup p

/-- Puts an entry in its place. -/
def put (d : Disk) (p : Place) (e : DiskEntry) : Disk :=
  if (d.entries.lookup p).isSome then
    { d with entries := d.entries.map fun x => if x.1 = p then (p, e) else x }
  else { d with entries := d.entries ++ [(p, e)] }

/-- Makes the folders on the way from `here` on. -/
def makeFolders (d : Disk) (here : Place) : Place → Disk
  | [] => d
  | name :: rest =>
    let next := here ++ [name]
    (if (d.at? next).isSome then d else d.put next .folder).makeFolders next rest

/-- The names that a path spells. -/
def placeOf (path : String) : Place :=
  (path.splitOn "/").filter fun s => s ≠ "" ∧ s ≠ "."

/-- A disk with the given folders and files in its working folder, and the folders on the way to
them. -/
def ofLists (folders : List String) (files : List (String × String)) : Disk :=
  let start := ["work"]
  let d := folders.foldl (fun d path => d.makeFolders start (placeOf path))
    (({ start } : Disk).makeFolders [] start)
  files.foldl
    (fun d (path, text) =>
      let p := placeOf path
      (d.makeFolders start p.dropLast).put (start ++ p) (.file text.toUTF8))
    d

/-- The texts of the files in the working folder, by their paths from there. -/
def files (d : Disk) : List (String × String) :=
  d.entries.filterMap fun
    | (p, .file bytes) =>
      if d.start.isPrefixOf p then
        (String.fromUTF8? bytes).map ("/".intercalate (p.drop d.start.length), ·)
      else none
    | (_, .folder) => none

/-! ### Paths -/

def maxNameBytes : Nat := 255

def maxPathBytes : Nat := 4095

/-- One step into a folder. Two points lead out of it again, but not out of the root. -/
def step (d : Disk) (here : Place) (name : String) : Except DiskFault Place :=
  match d.at? here with
  | some .folder =>
    if name = "" ∨ name = "." then .ok here
    else if name = ".." then .ok here.dropLast
    else if maxNameBytes < name.utf8ByteSize then .error .nameTooLong
    else if (d.at? (here ++ [name])).isSome then .ok (here ++ [name])
    else .error .notFound
  | some (.file _) => .error .notFolder
  | none => .error .notFound

def isRooted (path : String) : Bool := path.toList.head? = some '/'

/-- The names of a path; those that are too long as a whole lead nowhere. -/
def namesOf (path : String) : Except DiskFault (List String) :=
  if maxPathBytes < path.utf8ByteSize then .error .nameTooLong else .ok (path.splitOn "/")

/-- Where a path starts. -/
def startOf (d : Disk) (path : String) : Place := if isRooted path then [] else d.start

/-- The place where a path leads. -/
def resolve (d : Disk) (path : String) : Except DiskFault Place := do
  (← namesOf path).foldlM (d.step) (d.startOf path)

def read (d : Disk) (path : String) : Except DiskFault ByteArray := do
  match d.at? (← d.resolve path) with
  | some (.file bytes) => .ok bytes
  | some .folder => .error .isFolder
  | none => .error .notFound

/-- Writes a file, which may be new, into a folder that is not. A path with a slash at its end is
taken for a folder. -/
def write (d : Disk) (path text : String) : Except DiskFault Disk := do
  let names ← namesOf path
  let named := (names.reverse.dropWhile (· = "")).reverse
  let last := named.getLastD "."
  let folder ← named.dropLast.foldlM (d.step) (d.startOf path)
  if named.length < names.length then .error .isFolder
  else match d.step folder last with
    | .ok p =>
      match d.at? p with
      | some .folder => .error .isFolder
      | _ => .ok (d.put p (.file text.toUTF8))
    | .error .notFound => .ok (d.put (folder ++ [last]) (.file text.toUTF8))
    | .error f => .error f

/-! ### Joined paths -/

/-- Drops empty names and points, and lets two points take back a name. -/
def tidyNames (rooted : Bool) (names : List String) : List String :=
  (names.foldl
    (fun kept name =>
      if name = "" ∨ name = "." then kept
      else if name = ".." then
        match kept with
        | last :: before => if last = ".." then name :: kept else before
        | [] => if rooted then [] else [name]
      else name :: kept)
    []).reverse

/-- The shortest path with the same meaning. -/
def tidy (path : String) : String :=
  let rooted := isRooted path
  let text := "/".intercalate (tidyNames rooted (path.splitOn "/"))
  if rooted then "/" ++ text else if text.isEmpty then "." else text

/-- A path below another one. -/
def join (folder : String) (names : List String) : String :=
  tidy ("/".intercalate (folder :: names))

end Disk

end FlowRecovery
