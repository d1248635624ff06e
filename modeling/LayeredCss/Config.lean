import LayeredCss.FileTree
import LayeredCss.HostText
import LayeredCss.Json.Record

/-!
# Configuration

The settings of one session, with their defaults.

* `Config.ofJson`, `Config.load`: settings from JSON; a field that is not given keeps its default;
* `Config.ofEnvironment`: settings from environment variables over the defaults;
* `Config.toJson?`: the settings as JSON, in the order of the fields.
-/

namespace LayeredCss

structure Config where
  /-- Handed to the transform: expressions that cannot be extracted are errors, not warnings. -/
  strict : Bool := true
  /-- The file extensions that are processed. -/
  extensions : List String := ["ts", "tsx", "js", "jsx"]
  /-- Globs of paths that are never processed. -/
  exclude : List String := ["**/node_modules/**"]
  /-- The text that a source has to contain to be worth a transform. -/
  importMarker : String := "strata"
  /-- The module that a file imports when its transform has failed. -/
  fallbackImport : Option String := some "strata/inject"
  /-- The specifier under which sources import the stylesheet. -/
  virtualId : String := "virtual:strata.css"
  /-- Whether the stylesheet ends in a comment for each contributing file. -/
  annotateSources : Bool := false
  /-- How long a flush waits for further changes, in milliseconds. -/
  debounceMs : UInt64 := 100
  /-- The path under which the live stylesheet is served. -/
  endpointPath : String := "/__strata/css"
  /-- The event that announces a flush. -/
  eventName : String := "strata:update"
  /-- The file that a one-shot build writes. -/
  outputFile : Option HostText := none
  deriving DecidableEq, Repr

namespace Config

/-- All settings at their defaults. -/
def default : Config := {}

instance : Inhabited Config := ⟨default⟩

/-! ## JSON -/

/-- Settings read so far, and the keys that have been given. -/
structure Draft where
  config : Config
  given : List String

/-- A field whose value replaces the default. -/
def field {α : Type} (key : String) (r : Json.Reader α) (set : Config → α → Config) :
    Json.Field Draft where
  key := key
  given d := d.given.contains key
  read d s := do
    let (a, s) ← r s
    return (⟨set d.config a, key :: d.given⟩, s)

/-- The fields in their order. -/
def fields : List (Json.Field Draft) :=
  [field "strict" Json.Reader.bool fun c a => { c with strict := a },
   field "extensions" (.list .string) fun c a => { c with extensions := a },
   field "exclude" (.list .string) fun c a => { c with exclude := a },
   field "importMarker" .string fun c a => { c with importMarker := a },
   field "fallbackImport" (.optional .string) fun c a => { c with fallbackImport := a },
   field "virtualId" .string fun c a => { c with virtualId := a },
   field "annotateSources" Json.Reader.bool fun c a => { c with annotateSources := a },
   field "debounceMs" .uint64 fun c a => { c with debounceMs := a },
   field "endpointPath" .string fun c a => { c with endpointPath := a },
   field "eventName" .string fun c a => { c with eventName := a },
   field "outputFile" (.optional .string) fun c a => { c with outputFile := a.map .unicode }]

def reader : Json.Reader Config :=
  Json.Field.record fields ⟨default, []⟩ fun d => some d.config

/-- The settings that a JSON text writes. -/
def ofJson (text : String) : Except Json.Fault Config := Json.read reader text

/-- The settings in a file. -/
def load (tree : FileTree) (path : String) : Except Failure Config :=
  match tree.readText path with
  | .error fault => .error ⟨[s!"reading config {path}"], .file fault⟩
  | .ok text => match ofJson text with
    | .error fault => .error ⟨[s!"parsing config {path}"], .json fault⟩
    | .ok config => .ok config

/-- A list of texts as JSON. -/
def textsJson (texts : List String) : Json.Value := .array (texts.map .string)

/-- An optional text as JSON. -/
def textJson? (text : Option String) : Json.Value := (text.map .string).getD .null

/-- The settings as JSON around an output path. -/
def toJson (c : Config) (outputFile : Json.Value) : Json.Value :=
  .object
    [("strict", .bool c.strict),
     ("extensions", textsJson c.extensions),
     ("exclude", textsJson c.exclude),
     ("importMarker", .string c.importMarker),
     ("fallbackImport", textJson? c.fallbackImport),
     ("virtualId", .string c.virtualId),
     ("annotateSources", .bool c.annotateSources),
     ("debounceMs", .number (.integer c.debounceMs.toNat)),
     ("endpointPath", .string c.endpointPath),
     ("eventName", .string c.eventName),
     ("outputFile", outputFile)]

/-- The settings as JSON; an output path that is no text has no JSON. -/
def toJson? (c : Config) : Except String Json.Value :=
  match c.outputFile with
  | none => .ok (c.toJson .null)
  | some (.unicode path) => .ok (c.toJson (.string path))
  | some (.foreign _) => .error "path contains invalid UTF-8 characters"

/-! ## Environment -/

/-- A number of 64 bits written in digits, perhaps after a plus sign. -/
def uint64? (text : String) : Option UInt64 :=
  let digits := match text.toList with
    | '+' :: rest => rest
    | all => all
  if digits.isEmpty || !digits.all (fun c => '0' ≤ c ∧ c ≤ '9') then none
  else
    let n := digits.foldl (fun n c => 10 * n + (c.toNat - '0'.toNat)) 0
    if n < UInt64.size then some (UInt64.ofNat n) else none

/-- The settings that environment variables give over the defaults.  A variable that is unset or
does not hold what it should leaves the default. -/
def ofEnvironment (lookup : String → Option HostText) : Config :=
  let text? (name : String) : Option String := (lookup name).bind HostText.text?
  { default with
    strict := text? "STRATA_STRICT" ≠ some "0"
    debounceMs := ((text? "STRATA_DEBOUNCE_MS").bind uint64?).getD default.debounceMs
    annotateSources := text? "STRATA_ANNOTATE_SOURCES" = some "1"
    outputFile := (lookup "STRATA_OUTPUT_FILE").filter (!·.isEmpty) }

end Config

end LayeredCss
