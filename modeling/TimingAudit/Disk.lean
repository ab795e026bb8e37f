import TimingAudit.Failure
import TimingAudit.Text.Pieces

/-!
# A tree of folders and files

The files that an audit can see, as a value. Paths are followed part by part: each part before the
last one has to be an existing folder, and neither a name nor a path may be too long. Folders above
the working folder exist, and a few steps up from it is the root of the file system. From there only
what every system has is known.
-/

namespace TimingAudit

/-- Where the way to a place starts. -/
inductive Anchor
  /-- At the root of the file system. -/
  | root
  /-- A number of folders above the working folder, below the root. -/
  | up (levels : Nat)
deriving DecidableEq

namespace Anchor

/-- The number of steps up from the working folder to the root. -/
def rootDistance : Nat := 3

/-- The folder above a start. The root is above itself. -/
def above : Anchor → Anchor
  | root => root
  | up levels => if levels + 1 < rootDistance then up (levels + 1) else root

end Anchor

/-- A place in the file system: a start and the names that lead on from there. -/
structure Place where
  anchor : Anchor
  names : List String
deriving DecidableEq

namespace Place

/-- The working folder. -/
def workingFolder : Place := ⟨.up 0, []⟩

/-- The root of the file system. -/
def root : Place := ⟨.root, []⟩

/-- The place of a name in a folder. -/
def inside (p : Place) (name : String) : Place := ⟨p.anchor, p.names ++ [name]⟩

/-- The folder above a place. -/
def above (p : Place) : Place :=
  if p.names = [] then ⟨p.anchor.above, []⟩ else ⟨p.anchor, p.names.dropLast⟩

/-- Where a path starts. -/
def startOf (path : String) : Place :=
  if path.toList.head? = some '/' then root else workingFolder

end Place

/-- The folders and files that are known. -/
structure Disk where
  folders : List Place
  files : List (Place × String)
deriving DecidableEq

namespace Disk

/-- The largest number of bytes in a name. -/
def nameLimit : Nat := 255

/-- The number of bytes that a path stays below. -/
def pathLimit : Nat := 4096

/-- The folders that every system has, by the names that lead to them from the root. -/
def systemFolders : List (List String) := [["dev"], ["etc"], ["tmp"]]

/-- The files and devices that every system has, by the names that lead to them from the root. -/
def systemFiles : List (List String) :=
  [["dev", "null"], ["dev", "zero"], ["dev", "full"], ["dev", "random"], ["dev", "urandom"],
    ["dev", "tty"], ["dev", "stdin"], ["dev", "stdout"], ["dev", "stderr"], ["etc", "passwd"],
    ["etc", "hosts"]]

/-- A working folder without anything in it. -/
def empty : Disk where
  folders := systemFolders.map fun names => ⟨.root, names⟩
  files := systemFiles.map fun names => (⟨.root, names⟩, "")

/-- Whether a place is a folder. -/
def IsFolder (d : Disk) (p : Place) : Prop := p.names = [] ∨ p ∈ d.folders

instance (d : Disk) (p : Place) : Decidable (d.IsFolder p) :=
  inferInstanceAs (Decidable (_ ∨ _))

/-- The contents of the file at a place. -/
def contents? (d : Disk) (p : Place) : Option String :=
  (d.files.find? fun f => f.1 = p).map Prod.snd

/-- Follows the parts of a path through folders. -/
def follow (d : Disk) : Place → List String → Except WriteError Place
  | p, [] => .ok p
  | p, part :: parts =>
    if part = "" ∨ part = "." then d.follow p parts
    else if part = ".." then d.follow p.above parts
    else if nameLimit < part.utf8ByteSize then .error .nameTooLong
    else if d.IsFolder (p.inside part) then d.follow (p.inside part) parts
    else if (d.contents? (p.inside part)).isSome then .error .notDirectory
    else .error .notFound

/-- The place of a file with a given name in a folder. -/
def fileIn (d : Disk) (p : Place) (file : String) : Except WriteError Place :=
  if file = "" ∨ file = "." ∨ file = ".." then .error .isDirectory
  else if nameLimit < file.utf8ByteSize then .error .nameTooLong
  else if d.IsFolder (p.inside file) then .error .isDirectory
  else .ok (p.inside file)

/-- The place of a file that is to be written. -/
def target (d : Disk) (path : String) : Except WriteError Place :=
  if path.toList.contains '\x00' then .error .zeroInName
  else if path = "" then .error .notFound
  else if pathLimit ≤ path.utf8ByteSize then .error .nameTooLong
  else
    match d.follow (Place.startOf path) (Text.pathParts path).dropLast with
    | .error e => .error e
    | .ok p => d.fileIn p ((Text.pathParts path).getLast?.getD "")

/-- Puts a file at a place, instead of the one that may be there. -/
def put (d : Disk) (p : Place) (text : String) : Disk :=
  { d with files := d.files.filter (fun f => f.1 ≠ p) ++ [(p, text)] }

/-- Writes a file, whose old contents are lost. -/
def save (path text : String) : StateM Disk (Except WriteError Unit) := fun d =>
  match d.target path with
  | .error e => (.error e, d)
  | .ok p => (.ok (), d.put p text)

/-- Makes the folders that are missing on the way from a place along the parts of a path. A file in
the way ends it. -/
def makeFoldersFrom : Place → List String → Disk → Disk
  | _, [], d => d
  | p, part :: parts, d =>
    if part = "" ∨ part = "." then makeFoldersFrom p parts d
    else if part = ".." then makeFoldersFrom p.above parts d
    else if d.IsFolder (p.inside part) then makeFoldersFrom (p.inside part) parts d
    else if (d.contents? (p.inside part)).isSome then d
    else makeFoldersFrom (p.inside part) parts { d with folders := d.folders ++ [p.inside part] }

/-- Makes a folder and those on the way to it. -/
def makeFolder (d : Disk) (path : String) : Disk :=
  makeFoldersFrom (Place.startOf path) (Text.pathParts path) d

end Disk

end TimingAudit
