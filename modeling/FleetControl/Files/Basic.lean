import FleetControl.Text.Blank
import FleetControl.Text.Bytes

/-!
# Files

The files that a command reads and writes, as a finite list.

1. `Path` is a path as a list of names; `Path.parent?` is the directory that holds it. A path whose
   text ends in a slash or a dot can only be that of a directory.
2. `Files.look` says what stands at a path. A directory stands wherever something stands below; a
   path that leads through a file leads nowhere.
3. `Files.save` makes the directories above a path and writes the file; `stored?_put` says that
   nothing else stored changes.
-/

namespace FleetControl

/-- Why a file could not be read or written. -/
inductive FileFault where
  | missing
  | isDirectory
  | notDirectory
  | alreadyThere
  | notText
  | nameTooLong
  | nulInName
  | writerFull
  | stated (reason : String)
  deriving DecidableEq, Repr, Inhabited

def FileFault.message : FileFault → String
  | .missing => "No such file or directory (os error 2)"
  | .isDirectory => "Is a directory (os error 21)"
  | .notDirectory => "Not a directory (os error 20)"
  | .alreadyThere => "File exists (os error 17)"
  | .notText => "stream did not contain valid UTF-8"
  | .nameTooLong => "File name too long (os error 36)"
  | .nulInName => "file name contained an unexpected NUL byte"
  | .writerFull => "writer full"
  | .stated reason => reason

/-- How the text of a path ends: with a name, with a slash, or with a dot that adds nothing. -/
inductive PathEnd where
  | name
  | slash
  | dot
  deriving DecidableEq, Repr, Inhabited

/-- A path: whether it begins at the root, its names, and how its text ends. -/
structure Path where
  rooted : Bool
  names : List String
  ending : PathEnd
  deriving DecidableEq, Repr, Inhabited

namespace Path

def segments : List Char → List (List Char)
  | [] => [[]]
  | c :: rest =>
    match segments rest with
    | [] => [[c]]
    | part :: parts => if c = '/' then [] :: part :: parts else (c :: part) :: parts

/-- How a path with these parts ends; the empty text counts as a name. -/
def endOf (parts : List String) : PathEnd :=
  match parts.getLast? with
  | some "" => if parts.length = 1 then .name else .slash
  | some "." => .dot
  | _ => .name

/-- The path that a text means: doubled slashes and single dots add no names. -/
def ofString (s : String) : Path :=
  let parts := (segments s.toList).map String.ofList
  { rooted := s.toList.head? == some '/'
    names := parts.filter fun part => part != "" && part != "."
    ending := endOf parts }

/-- The path of the same names that ends with a name. -/
def named (path : Path) : Path := { path with ending := .name }

/-- The directory that holds a path; a path without names has none. -/
def parent? (path : Path) : Option Path :=
  if path.names.isEmpty then none
  else some { path.named with names := path.names.dropLast }

/-- The directories that a path leads through, from the top. -/
def above (path : Path) : List Path :=
  (List.range path.names.length).map fun n => { path.named with names := path.names.take n }

/-- A path as a text, without what its ending adds. -/
def text (path : Path) : String :=
  (if path.rooted then "/" else "") ++ Text.join "/" path.names

/-- Whether a path leads to the root, the directory of the process or one above it. -/
def climbs (path : Path) : Bool :=
  path.names.all (· == "..") && (path.rooted || !path.names.isEmpty || path.ending != .name)

/-- Why nothing can be made at a path: a name with a NUL, or one of more than 255 bytes. -/
def fault? (path : Path) : Option FileFault :=
  if path.names.any (·.toList.contains (Char.ofNat 0)) then some .nulInName
  else if path.names.any (255 < Text.byteCount ·) then some .nameTooLong
  else none

/-- Whether a path lies strictly below another. -/
def isBelow (path above : Path) : Bool :=
  path.rooted == above.rooted && above.names.isPrefixOf path.names &&
    above.names.length < path.names.length

/-- A name within a directory, as a text. -/
def within (directory name : String) : String :=
  if directory.isEmpty then name
  else if directory.toList.getLast? = some '/' then directory ++ name
  else directory ++ "/" ++ name

end Path

/-- What is stored at a path. A file may be for its owner only. -/
inductive Entry where
  | file (bytes : List UInt8) (ownerOnly : Bool)
  | directory
  deriving DecidableEq, Repr, Inhabited

/-- What stands at a path. -/
inductive Look where
  | file (bytes : List UInt8) (ownerOnly : Bool)
  | directory
  | nothing
  /-- The path leads through a file. -/
  | blocked
  deriving DecidableEq, Repr, Inhabited

/-- The files, each at its path. -/
structure Files where
  entries : List (Path × Entry)
  deriving DecidableEq, Repr, Inhabited

namespace Files

def empty : Files := ⟨[]⟩

/-- What is stored at exactly this path. -/
def stored? (files : Files) (path : Path) : Option Entry :=
  files.entries.lookup path

def isFile : Entry → Bool
  | .file _ _ => true
  | .directory => false

/-- What stands at the names of a path, however its text ends. -/
def lookNamed (files : Files) (path : Path) : Look :=
  if files.entries.any fun (place, entry) => isFile entry && path.isBelow place then .blocked
  else
    match files.stored? path.named with
    | some (.file bytes ownerOnly) => .file bytes ownerOnly
    | some .directory => .directory
    | none =>
      if path.climbs then .directory
      else if path.names.isEmpty then .nothing
      else if files.entries.any fun (place, _) => place.isBelow path then .directory
      else .nothing

/-- What stands at a path: a file only if the text of the path ends with its name. -/
def look (files : Files) (path : Path) : Look :=
  match path.ending, files.lookNamed path with
  | .slash, .file _ _ => .blocked
  | .dot, .file _ _ => .blocked
  | _, found => found

/-- The text of the file at a path; `none` if nothing is there. -/
def readText (files : Files) (path : Path) : Except FileFault (Option String) :=
  match files.look path with
  | .file bytes _ =>
    match Text.ofUtf8? bytes with
    | some s => .ok (some s)
    | none => .error .notText
  | .directory => .error .isDirectory
  | .nothing => .ok none
  | .blocked => .ok none

/-- The text of the file at a path, if there is one and it is a text. -/
def text? (files : Files) (path : Path) : Option String :=
  match files.readText path with
  | .ok s => s
  | .error _ => none

def put (files : Files) (path : Path) (bytes : List UInt8) (ownerOnly : Bool) : Files :=
  ⟨(path, .file bytes ownerOnly) :: files.entries.filter fun (place, _) => place != path⟩

/-- Whether a path can be made a directory with everything above it. -/
def makeDirectories (files : Files) (path : Path) : Except FileFault Unit :=
  match files.look path with
  | .file _ _ => .error .alreadyThere
  | .blocked => .error .notDirectory
  | .directory => .ok ()
  | .nothing =>
    match path.fault? with
    | some fault => .error fault
    | none => .ok ()

/-- Makes a file where nothing stands. A slash at the end asks for a directory, a dot for one that
is there already. -/
def create (files : Files) (path : Path) (bytes : List UInt8) : Except FileFault Files :=
  match path.ending, path.fault? with
  | _, some fault => .error fault
  | .slash, none => .error .isDirectory
  | .dot, none => .error .missing
  | .name, none => if path.names.isEmpty then .error .missing else .ok (files.put path bytes false)

/-- Writes a file in a directory that is there. A file that was there keeps its readers. -/
def write (files : Files) (path : Path) (bytes : List UInt8) : Except FileFault Files :=
  match path.ending, files.lookNamed path with
  | _, .blocked => .error .notDirectory
  | _, .directory => .error .isDirectory
  | _, .nothing => files.create path bytes
  | .name, .file _ ownerOnly => .ok (files.put path bytes ownerOnly)
  | .slash, .file _ _ => .error .isDirectory
  | .dot, .file _ _ => .error .notDirectory

/-- Makes the directories above a path and writes the file. -/
def save (files : Files) (path : Path) (content : String) : Except FileFault Files := do
  match path.parent? with
  | some parent => files.makeDirectories parent
  | none => pure ()
  files.write path (Text.utf8 content)

/-- Makes a file readable by its owner only. -/
def protect (files : Files) (path : Path) : Files :=
  match files.look path with
  | .file bytes _ => files.put path bytes true
  | _ => files

/-! ## Small lemmas -/

theorem stored?_put (files : Files) (path other : Path) (bytes : List UInt8) (ownerOnly : Bool) :
    (files.put path bytes ownerOnly).stored? other =
      if other = path then some (.file bytes ownerOnly) else files.stored? other := by
  unfold put stored?
  by_cases h : other = path
  · simp [h]
  · simp only [List.lookup_cons, beq_eq_false_iff_ne.2 h, h, if_false]
    induction files.entries with
    | nil => rfl
    | cons kv rest ih =>
      obtain ⟨k, v⟩ := kv
      by_cases hk : k = path
      · subst hk
        simp [List.lookup_cons, beq_eq_false_iff_ne.2 h, ih]
      · by_cases ho : other = k
        · subst ho
          simp [hk]
        · simp [hk, List.lookup_cons, beq_eq_false_iff_ne.2 ho, ih]

end Files

end FleetControl
