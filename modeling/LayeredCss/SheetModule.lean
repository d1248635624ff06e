import LayeredCss.FileTree
import LayeredCss.Session

/-!
# The stylesheet as a module

Sources import the stylesheet under an id that names no file.  In a one-shot build the module is the
stylesheet; in a watching session it is a small client, which fetches the stylesheet from the
development server and fetches it again whenever an event announces a flush.

* `SheetModule.resolve?`, `SheetModule.isResolved`: the id and its resolved form;
* `SheetModule.withImport`: a source that imports the stylesheet;
* `SheetModule.load`, `SheetModule.writeTo`: the module, and the stylesheet as a file.
-/

namespace LayeredCss

structure SheetModule where
  mode : StylesheetMode
  /-- The specifier that sources import. -/
  id : String
  endpointPath : String
  eventName : String
  deriving DecidableEq, Repr

namespace SheetModule

def ofConfig (mode : StylesheetMode) (config : Config) : SheetModule :=
  ⟨mode, config.virtualId, config.endpointPath, config.eventName⟩

def ofSession (s : Session) : SheetModule :=
  ofConfig s.lifecycle.stylesheetMode s.config

/-- The id inside the bundler; the NUL in front keeps bundlers from looking for a file. -/
def resolvedId (v : SheetModule) : String := "\x00" ++ v.id

/-- The resolved id of a specifier, if it is the one of the stylesheet. -/
def resolve? (v : SheetModule) (specifier : String) : Option String :=
  if specifier = v.id then some v.resolvedId else none

/-- Whether a module id is the resolved id. -/
def isResolved (v : SheetModule) (moduleId : String) : Bool := moduleId = v.resolvedId

/-- Whether a code mentions the specifier anywhere. -/
def mentions (v : SheetModule) (code : String) : Bool :=
  Text.includes v.id.toList code.toList

/-- The code with an import of the stylesheet in front, unless it mentions the specifier. -/
def withImport (v : SheetModule) (code : String) : String :=
  let id := v.id
  if v.mentions code then code else s!"import '{id}';\n{code}"

/-! ## The client -/

/-- How long the client waits before its first request, in milliseconds. -/
def firstFetchDelay : Nat := 50

/-- The module that keeps a style element equal to the live stylesheet. -/
def client (v : SheetModule) : String :=
  let endpoint := String.ofList (Json.quote v.endpointPath.toList)
  let event := String.ofList (Json.quote v.eventName.toList)
  let delay := toString firstFetchDelay
  String.join
    ["const endpoint = ", endpoint, ";\n",
     "const style = document.createElement('style');\n",
     "style.setAttribute('data-strata', '');\n",
     "document.head.appendChild(style);\n",
     "let loaded = false;\n",
     "let timer;\n",
     "async function refresh() \x7b\n",
     "  const response = await fetch(endpoint, \x7b cache: 'no-store' \x7d);\n",
     "  if (!response.ok) return;\n",
     "  style.textContent = await response.text();\n",
     "  loaded = true;\n",
     "\x7d\n",
     "function schedule(delay) \x7b\n",
     "  clearTimeout(timer);\n",
     "  timer = setTimeout(() => \x7b refresh().catch(() => \x7b\x7d); \x7d, delay);\n",
     "\x7d\n",
     "if (import.meta.hot) \x7b\n",
     "  import.meta.hot.on(", event, ", () => schedule(loaded ? 0 : ", delay, "));\n",
     "\x7d\n",
     "schedule(", delay, ");\n"]

/-! ## Modules and files -/

/-- What the module holds. -/
def load (v : SheetModule) (s : Session) (generate : Generator) :
    Traced (Except Failure String × Session) :=
  match v.mode with
  | .oneShot => s.stylesheet generate
  | .watch => return (.ok v.client, s)

/-- Puts a text into a file and makes the folders above it. -/
def writeFile (tree : FileTree) (path text : String) : FileTree × Except Failure Unit :=
  let folder := FileTree.parentPath path
  let (tree, made) :=
    if folder.isEmpty then (tree, .ok ()) else tree.makeFolders folder
  match made with
  | .error fault => (tree, .error ⟨[s!"creating output directory {folder}"], .file fault⟩)
  | .ok () => match tree.write path text.toUTF8.toList with
    | .error fault => (tree, .error ⟨[s!"writing {path}"], .file fault⟩)
    | .ok tree => (tree, .ok ())

/-- Writes the stylesheet to a file, and tells whether it did: an empty one is not written. -/
def writeTo (s : Session) (generate : Generator) (tree : FileTree) (path : String) :
    Traced (Except Failure Bool × Session × FileTree) := do
  let (result, s) ← s.stylesheet generate
  match result with
  | .error failure => return (.error failure, s, tree)
  | .ok css =>
    if css.isEmpty then return (.ok false, s, tree)
    match writeFile tree path css with
    | (tree, .error failure) => return (.error failure, s, tree)
    | (tree, .ok ()) =>
      let size := css.utf8ByteSize
      Traced.info s!"[strata] wrote {size} bytes of CSS to {path}"
      return (.ok true, s, tree)

end SheetModule

end LayeredCss
