import LayeredCss.Failure
import LayeredCss.Text
import LayeredCss.Text.Utf8

/-!
# A tree of files

Files and folders below one root, and what it takes to reach them.  A path is walked from the root,
name by name; every name but the last has to be a folder.  The name `.` stays and `..` goes up, both
from a folder; empty names are passed over, so a path may end in strokes.

* `FileTree.read`, `FileTree.readText`: the content of a file;
* `FileTree.write`: a file with new content;
* `FileTree.makeFolders`: a folder with all the folders above it;
* `FileTree.parentPath`: the path of the folder that a path leads through last.
-/

namespace LayeredCss

/-- What stands at a place of the tree. -/
inductive FileTree.Entry
  | folder
  | file (content : List UInt8)
  deriving DecidableEq, Repr

/-- Every place below the root that holds something, with the names that lead to it. -/
structure FileTree where
  entries : List (List String × FileTree.Entry)
  deriving DecidableEq, Repr

namespace FileTree

/-- The tree with nothing below its root. -/
def empty : FileTree := ⟨[]⟩

instance : Inhabited FileTree := ⟨empty⟩

/-- What stands at a place; the root is a folder. -/
def entryAt (t : FileTree) (place : List String) : Option Entry :=
  if place.isEmpty then some .folder else (t.entries.find? (·.1 = place)).map (·.2)

/-- Puts an entry at a place, over what stood there. -/
def put (t : FileTree) (place : List String) (e : Entry) : FileTree :=
  ⟨(place, e) :: t.entries.filter (·.1 ≠ place)⟩

/-! ## Walking -/

/-- The most bytes that a name may have. -/
def maxNameBytes : Nat := 255

/-- The most bytes that a path may have. -/
def maxPathBytes : Nat := 4095

/-- The names between the strokes of a path. -/
def names (path : String) : List String := (Text.pieces '/' path.toList).map String.ofList

/-- The names that lead somewhere, which the empty ones do not. -/
def steps (path : String) : List String := (names path).filter (· ≠ "")

/-- Whether the path can only name a folder, because it ends in a stroke. -/
def endsInStroke (path : String) : Bool := (names path).getLastD "" = ""

/-- What no tree can reach: paths without a character, with a character NUL, or too long. -/
def checkPath (path : String) : Except FileFault Unit :=
  if path.isEmpty then .error .notFound
  else if path.toList.contains '\x00' then .error .invalidInput
  else if maxPathBytes < path.utf8ByteSize then .error .invalidFilename
  else .ok ()

/-- The place that one more name leads to, from a place that has to be a folder. -/
def step (t : FileTree) (place : List String) (name : String) : Except FileFault (List String) :=
  match t.entryAt place with
  | none => .error .notFound
  | some (.file _) => .error .notADirectory
  | some .folder =>
    if name = "." then .ok place
    else if name = ".." then .ok place.dropLast
    else if maxNameBytes < name.utf8ByteSize then .error .invalidFilename
    else .ok (place ++ [name])

/-- The place that a path leads to.  Only the last name may lead to nothing. -/
def locate (t : FileTree) (path : String) : Except FileFault (List String) := do
  checkPath path
  (steps path).foldlM t.step []

/-! ## Operations -/

/-- The content of a file. -/
def read (t : FileTree) (path : String) : Except FileFault (List UInt8) := do
  match t.entryAt (← t.locate path) with
  | none => .error .notFound
  | some .folder => .error .isADirectory
  | some (.file content) =>
    if endsInStroke path then .error .notADirectory else .ok content

/-- The content of a file that has to be UTF-8. -/
def readText (t : FileTree) (path : String) : Except FileFault String := do
  match Utf8.strict? (← t.read path) with
  | some text => .ok text
  | none => .error .invalidData

/-- The fault of writing to a path that ends in a stroke.  Its last name is not looked at, but has to
be a name in a folder. -/
def strokeFault (t : FileTree) (path : String) : FileFault :=
  match (steps path).dropLast.foldlM t.step [] >>= (t.step · ".") with
  | .error fault => fault
  | .ok _ => .isADirectory

/-- Gives a file new content, and makes the file if nothing stands at its place. -/
def write (t : FileTree) (path : String) (content : List UInt8) : Except FileFault FileTree := do
  checkPath path
  if endsInStroke path then .error (t.strokeFault path)
  else
    let place ← t.locate path
    if t.entryAt place = some .folder then .error .isADirectory
    else .ok (t.put place (.file content))

/-- Makes the folders that are missing along the names, and stops at the first fault; `made` holds
once one has been made.  A file stands in the way of the folder that was to be made in its place,
which is the last one or any after the first that was missing; before that it is just no folder. -/
def makeAlong (t : FileTree) (made : Bool) (place : List String) :
    List String → FileTree × Except FileFault Unit
  | [] => (t, .ok ())
  | name :: rest =>
    match t.step place name with
    | .error fault => (t, .error fault)
    | .ok next =>
      match t.entryAt next with
      | some .folder => makeAlong t made next rest
      | some (.file _) =>
        (t, .error (if made || rest.isEmpty then .alreadyExists else .notADirectory))
      | none => makeAlong (t.put next .folder) true next rest

/-- Makes a folder and all the folders above it.  Those made before a fault stay. -/
def makeFolders (t : FileTree) (path : String) : FileTree × Except FileFault Unit :=
  match checkPath path with
  | .error fault => (t, .error fault)
  | .ok () => t.makeAlong false [] (steps path)

/-! ## The folder of a path -/

/-- A reversed path without the strokes and the names `.` at its end.  A lone stroke or `.` stays. -/
def trimEnd : List Char → List Char
  | '/' :: c :: rest => trimEnd (c :: rest)
  | '.' :: '/' :: rest => if rest.isEmpty then ['/'] else trimEnd ('/' :: rest)
  | path => path
termination_by path => path.length

/-- The path up to its last name; empty if there is only one. -/
def parentPath (path : String) : String :=
  let upToName := (trimEnd path.toList.reverse).dropWhile (· ≠ '/')
  String.ofList (trimEnd upToName).reverse

end FileTree

end LayeredCss
