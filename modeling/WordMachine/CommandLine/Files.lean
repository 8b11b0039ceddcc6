import WordMachine.Text.Quoted
import WordMachine.Text.Record

/-!
# Files

The files of a working directory, and what reading a path there gives. A path is followed name by
name; the first name that leads nowhere decides what is refused and why.

* `SystemFault` -- why the system refuses something;
* `Files.follow` -- the place that names lead to;
* `Files.read` -- the text of the file at a path.
-/

namespace WordMachine.CommandLine

/-! ## 1. Faults -/

/-- Why the system refuses to read a file or to open the terminal. -/
inductive SystemFault where
  | notFound
  | noDevice
  | permissionDenied
  | notADirectory
  | isADirectory
  | nameTooLong
  | other (code : Nat) (message : String)
  deriving DecidableEq, Repr

namespace SystemFault

/-- The number of the fault. -/
def code : SystemFault → Nat
  | notFound => 2
  | noDevice => 6
  | permissionDenied => 13
  | notADirectory => 20
  | isADirectory => 21
  | nameTooLong => 36
  | other code _ => code

/-- The kind of fault, in a word. -/
def kind : SystemFault → String
  | notFound => "NotFound"
  | permissionDenied => "PermissionDenied"
  | notADirectory => "NotADirectory"
  | isADirectory => "IsADirectory"
  | nameTooLong => "InvalidFilename"
  | noDevice | other .. => "Uncategorized"

/-- The fault in words. -/
def message : SystemFault → String
  | notFound => "No such file or directory"
  | noDevice => "No such device or address"
  | permissionDenied => "Permission denied"
  | notADirectory => "Not a directory"
  | isADirectory => "Is a directory"
  | nameTooLong => "File name too long"
  | other _ message => message

/-- The fault in words, with its number. -/
def text (f : SystemFault) : String := s!"{f.message} (os error {f.code})"

/-- The fault as a record. -/
def record (f : SystemFault) : String :=
  Text.record "Os"
    [("code", toString f.code), ("kind", f.kind), ("message", Text.quote f.message)]

end SystemFault

/-! ## 2. Paths -/

/-- The files of a working directory: the names that lead to each, and its text. -/
abbrev Files := List (List String × String)

/-- Where paths begin: in the working directory, or at the root of the system. -/
inductive Root where
  | working
  | system
  deriving DecidableEq, Repr

/-- Where a path leads: to a directory, given by the names that lead there, to a file, or above the
    working directory, where nothing is known. -/
inductive Place where
  | directory (root : Root) (names : List String)
  | file (text : String)
  | above
  deriving DecidableEq, Repr

namespace Files

/-- The length in bytes from which on a path is too long. -/
def pathLimit : Nat := 4096

/-- The greatest length of a name in bytes. -/
def nameLimit : Nat := 255

/-- The names of a path; an empty one stands for a slash that nothing follows or precedes. -/
def names (path : String) : List String := (path.toList.splitOn '/').map String.ofList

/-- Whether a name leads nowhere else. -/
def isHere (name : String) : Bool := name = "" ∨ name = "."

/-- What every system holds: the null device, which reads as an empty file. -/
def ofSystem : Files := [(["dev", "null"], "")]

/-- The files below a root. -/
def below (files : Files) : Root → Files
  | .working => files
  | .system => ofSystem

/-- The place at the end of names below a root. -/
def lookUp (files : Files) (root : Root) (names : List String) : Except SystemFault Place :=
  let there := files.below root
  match there.lookup names with
  | some text => .ok (.file text)
  | none =>
    if there.any fun f => names.isPrefixOf f.1 then .ok (.directory root names) else .error .notFound

/-- The directory that holds a directory. -/
def parent : Root → List String → Place
  | .working, [] => .above
  | root, names => .directory root names.dropLast

/-- The place that a name leads to. Above the working directory no name is known, but one that is too
    long is refused there too. -/
def enter (files : Files) : Place → String → Except SystemFault Place
  | .file _, _ => .error .notADirectory
  | place, name =>
    if isHere name then .ok place
    else if nameLimit < name.utf8ByteSize then .error .nameTooLong
    else
      match place with
      | .directory root here =>
        if name = ".." then .ok (parent root here) else files.lookUp root (here ++ [name])
      | _ => if name = ".." then .ok .above else .error .notFound

/-- The place that names lead to, one after the other. -/
def follow (files : Files) (start : Place) (names : List String) : Except SystemFault Place :=
  names.foldlM files.enter start

/-- The text of the file at a path. A path that begins with a slash begins at the root of the
    system. -/
def read (files : Files) (path : String) : Except SystemFault String := do
  if pathLimit ≤ path.utf8ByteSize then throw .nameTooLong
  let root : Root := if path.startsWith "/" then .system else .working
  match ← files.follow (.directory root []) (names path) with
  | .file text => return text
  | _ => throw .isADirectory

end Files

end WordMachine.CommandLine
