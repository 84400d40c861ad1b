/-
  CSharpGen/Disk.lean
  ===================
  **Files on disk** — a directory tree as a finite map from places to
  directories and files, and the three things the generator does with it:
  reading layout options, writing a text with the directories above it, and
  writing a source file below an output directory.

  A place is the list of names from the root, which is always a directory and
  its own parent.  A path leads to a place (`Disk.locate?`) segment by segment:
  only a directory can be left by a further segment, also by one that leads
  nowhere, so that a slash at the end of a path asks for a directory.  Every
  operation returns what came of it together with the tree afterwards.
-/
import CSharpGen.Path
import CSharpGen.SourceFile
import CSharpGen.Style.Reader

namespace CSharpGen

/-- Where an entry of the tree stands: the names on the way to it from the root. -/
abbrev Place := List String

/-- Whether a place comes before another when a tree is listed: a directory before
    its content, and the entries of one directory by name. -/
def Place.precedes : Place → Place → Bool
  | _, [] => false
  | [], _ :: _ => true
  | a :: as, b :: bs => if a = b then Place.precedes as bs else decide (a < b)

/-- An entry of the tree. -/
inductive Node where
  | directory
  | file (content : String)
  deriving DecidableEq, Repr

/-- A directory tree. -/
structure Disk where
  entries : List (Place × Node) := []
  deriving DecidableEq, Repr

namespace Disk

/-! ### The tree as a map -/

/-- The entry at a place. -/
def get? (disk : Disk) (place : Place) : Option Node :=
  if place.isEmpty then some .directory
  else (disk.entries.find? fun e => e.1 == place).map Prod.snd

/-- The tree with the given entry at a place. -/
def put (disk : Disk) (place : Place) (node : Node) : Disk :=
  if (disk.get? place).isSome then
    ⟨disk.entries.map fun e => if e.1 == place then (place, node) else e⟩
  else ⟨disk.entries ++ [(place, node)]⟩

/-- Put a place behind all that come before it. -/
def insertPlace (place : Place) : List Place → List Place
  | [] => [place]
  | other :: rest =>
    if Place.precedes place other then place :: other :: rest
    else other :: insertPlace place rest

/-- Everything below the root, depth first and by name; a directory has a slash
    behind its name. -/
def tree (disk : Disk) : List String :=
  let sorted := (disk.entries.map Prod.fst).foldl (fun sorted p => insertPlace p sorted) []
  sorted.map fun place =>
    if disk.get? place == some .directory then Text.join "/" place ++ "/"
    else Text.join "/" place

/-! ### Following paths -/

/-- The place that a segment leads to from another place, which must be a directory. -/
def follow? (disk : Disk) (place : Place) (segment : String) : Option Place :=
  if disk.get? place ≠ some .directory then none
  else if Path.isIdle segment then some place
  else if segment = Path.up then some place.dropLast
  else if (disk.get? (place ++ [segment])).isSome then some (place ++ [segment])
  else none

/-- The place that a path leads to. -/
def locate? (disk : Disk) (p : Path) : Option Place :=
  if p.isUsable then p.foldlM disk.follow? [] else none

/-- The entry that a path leads to. -/
def node? (disk : Disk) (p : Path) : Option Node := (disk.locate? p).bind disk.get?

/-- Whether a path leads to anything. -/
def has (disk : Disk) (p : Path) : Bool := (disk.node? p).isSome

/-- Whether a path leads to a directory. -/
def isDirectory (disk : Disk) (p : Path) : Bool := disk.node? p == some .directory

/-- The content of the file that a path leads to. -/
def read? (disk : Disk) (p : Path) : Option String :=
  match disk.node? p with
  | some (.file content) => some content
  | _ => none

/-- The place where an entry of the given path stands or would stand: the path ends
    in a name, and what comes before it leads to a directory. -/
def slot? (disk : Disk) (p : Path) : Option Place :=
  match p.getLast? with
  | none => none
  | some name =>
    if p.isUsable && Path.isName name && disk.isDirectory p.dropLast then
      (disk.locate? p.dropLast).map fun place => place ++ [name]
    else none

/-- The tree with a new directory. -/
def createDirectory? (disk : Disk) (p : Path) : Option Disk :=
  match disk.slot? p with
  | none => none
  | some place => if (disk.get? place).isSome then none else some (disk.put place .directory)

/-- Make the directories that are not there, in order, up to the first that cannot
    be made.  The answer says whether all are there. -/
def createAll (disk : Disk) : List Path → Bool × Disk
  | [] => (true, disk)
  | p :: rest =>
    if disk.isDirectory p then disk.createAll rest
    else
      match disk.createDirectory? p with
      | some made => made.createAll rest
      | none => (false, disk)

/-- Make a directory and those above it. -/
def createDirectories (disk : Disk) (p : Path) : Bool × Disk :=
  if p.isUsable then disk.createAll p.steps else (false, disk)

/-- The tree with a file of the given content, whose directory must be there. -/
def writeText? (disk : Disk) (p : Path) (content : String) : Option Disk :=
  match disk.slot? p with
  | none => none
  | some place =>
    if disk.get? place = some .directory then none else some (disk.put place (.file content))

/-! ### What can go wrong -/

/-- Why a file was not read or written. -/
inductive Fault where
  | notDirectory (path : Path)
  | cannotCreate (path : Path)
  /-- The empty path (none) is no place to write to. -/
  | cannotWrite (path : Option Path)
  | cannotRead (path : Path)
  | badSettings (path : Path)
  | render (error : Error)

/-- The wordings of a fault below a root of the given name, from the outermost
    inwards, without the cause that the operating system or the reader reports. -/
def Fault.chain (root : String) : Fault → List String
  | notDirectory _ => []
  | cannotCreate p => ["failed to create '" ++ p.under root ++ "'"]
  | cannotWrite (some p) => ["failed to write '" ++ p.under root ++ "'"]
  | cannotWrite none => ["failed to write ''"]
  | cannotRead p => ["failed to read '" ++ p.under root ++ "'"]
  | badSettings p => ["in '" ++ p.under root ++ "'", Style.refusal]
  | render _ => []

/-- The wording of a fault below a root of the given name. -/
def Fault.message (root : String) : Fault → String
  | notDirectory p => "path '" ++ p.under root ++ "' exists but is not a directory"
  | render error => error.message
  | fault => (fault.chain root).headD ""

/-! ### Operations -/

/-- Read layout options from the file at a path. -/
def loadStyle (disk : Disk) (p : Path) : Except Fault Style :=
  match disk.read? p with
  | none => .error (.cannotRead p)
  | some content =>
    match Style.parse? content with
    | some style => .ok style
    | none => .error (.badSettings p)

/-- Write a text to a path, making the directories above it. -/
def writeFile (disk : Disk) (p : Path) (content : String) : Except Fault Unit × Disk :=
  match disk.createDirectories p.parent with
  | (false, made) => (.error (.cannotCreate p.parent), made)
  | (true, made) =>
    match made.writeText? p content with
    | none => (.error (.cannotWrite (some p)), made)
    | some written => (.ok (), written)

/-- Write a text to a path that may be empty. -/
def writeFile? (disk : Disk) : Option Path → String → Except Fault Unit × Disk
  | some p, content => disk.writeFile p content
  | none, _ => (.error (.cannotWrite none), disk)

end Disk

/-- What to do with a file that is already there. -/
inductive Overwrite where
  | always | ifMissing
  deriving DecidableEq, Repr

/-- Files are overwritten unless something else is asked for. -/
instance : Inhabited Overwrite := ⟨.always⟩

/-- What came of writing a file. -/
inductive Outcome where
  | written | skipped
  deriving DecidableEq, Repr

/-- Write a source file below an output directory.  The text is complete before the
    tree is touched. -/
def SourceFile.writeBelow (f : SourceFile) (disk : Disk) (base : Path) (overwrite : Overwrite) :
    Except Disk.Fault Outcome × Disk :=
  let target := base.join f.path
  if disk.has base && !disk.isDirectory base then (.error (.notDirectory base), disk)
  else if overwrite = .ifMissing ∧ disk.has target then (.ok .skipped, disk)
  else
    match f.render with
    | .error e => (.error (.render e), disk)
    | .ok text =>
      let (result, after) := disk.writeFile target text
      (result.map fun _ => .written, after)

end CSharpGen
