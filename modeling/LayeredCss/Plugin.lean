import LayeredCss.Loader
import LayeredCss.SheetModule

/-!
# The bundler's view

The hooks that a bundler calls, on one session and its stylesheet module.

* `Plugin.transform`: the code to compile in place of a module, with what there is to report;
* `Plugin.load`: the stylesheet module;
* `Plugin.isHot`, `Plugin.remove`: modules that are edited or gone;
* `Plugin.writeConfigured`: the stylesheet as the configured file.
-/

namespace LayeredCss

/-- A diagnostic with its file. -/
structure Message where
  text : String
  file : String
  line : UInt32
  column : UInt32
  deriving DecidableEq, Repr

/-- What is compiled in place of a module. -/
structure ModuleSource where
  code : String
  loader : Loader
  warnings : List Message
  errors : List Message
  /-- Whether the stylesheet has changed. -/
  mutated : Bool
  deriving DecidableEq, Repr

structure Plugin where
  session : Session
  sheet : SheetModule

namespace Plugin

def ofSession (s : Session) : Plugin := ⟨s, .ofSession s⟩

def messageOf (file : FileId) (d : Diagnostic) : Message :=
  ⟨d.message, file.name, d.line, d.column⟩

/-- The output of a module whose code imports the stylesheet. -/
def importing (p : Plugin) (file : FileId) (code : String) (diagnostics : List Diagnostic)
    (mutated : Bool) : ModuleSource where
  code := p.sheet.withImport code
  loader := .ofPath file.name
  warnings := (Diagnostic.warnings diagnostics).map (messageOf file)
  errors := (Diagnostic.errors diagnostics).map (messageOf file)
  mutated := mutated

/-- The output of a module whose transform failed; the failure is its only warning. -/
def failing (file : FileId) (code : String) (failure : Failure) : ModuleSource where
  code := code
  loader := .ofPath file.name
  warnings := [⟨failure.text, file.name, 0, 0⟩]
  errors := []
  mutated := false

/-- What an outcome means for the bundler; nothing for a file that was skipped. -/
def outputOf (p : Plugin) (file : FileId) : Outcome → Traced (Option ModuleSource)
  | .skipped reason => do
    let name := reason.name
    Traced.debug s!"[strata] {file} left untouched: {name}"
    return none
  | .unchanged code diagnostics => return some (p.importing file code diagnostics false)
  | .transformed result => return some (p.importing file result.code result.diagnostics true)
  | .fallback code failure => return some (failing file code failure)

/-- The output tells whether the outcome has changed the rule store. -/
theorem mutated_outputOf (p : Plugin) (file : FileId) (outcome : Outcome) :
    (p.outputOf file outcome).value.any (·.mutated) = outcome.mutated := by
  cases outcome <;> rfl

/-- Processes a module; `none` if the bundler keeps it as it is. -/
def transform (p : Plugin) (transformer : Transform) (moduleId code : String) :
    Traced (Option ModuleSource × Plugin) := do
  let file : FileId := ⟨moduleId⟩
  let (outcome, session) ← p.session.process transformer file code
  let output ← p.outputOf file outcome
  return (output, { p with session })

theorem value_transform {p : Plugin} {transformer : Transform} {moduleId code : String}
    {outcome : Outcome} {next : Session}
    (h : (p.session.process transformer ⟨moduleId⟩ code).value = (outcome, next)) :
    (p.transform transformer moduleId code).value =
      ((p.outputOf ⟨moduleId⟩ outcome).value, { p with session := next }) := by
  simp only [transform, Traced.value_bind, Traced.value_pure, h]

/-- What a module id holds; `none` if it is not the stylesheet. -/
def load (p : Plugin) (generate : Generator) (moduleId : String) :
    Traced (Except Failure (Option String) × Plugin) := do
  if p.sheet.isResolved moduleId then
    let (result, session) ← p.sheet.load p.session generate
    return (result.map some, { p with session })
  else return (.ok none, p)

/-- Whether a module that is edited contributes rules. -/
def isHot (p : Plugin) (moduleId : String) : Bool := !(p.session.store.rulesOf ⟨moduleId⟩).isEmpty

/-- Forgets a module that is gone, and tells whether there was a record of it. -/
def remove (p : Plugin) (moduleId : String) : Bool × Plugin :=
  let (removed, session) := p.session.removeFile ⟨moduleId⟩
  (removed, { p with session })

/-- Writes the stylesheet to a file. -/
def writeTo (p : Plugin) (generate : Generator) (tree : FileTree) (path : String) :
    Traced (Except Failure Bool × Plugin × FileTree) := do
  let (result, session, tree) ← SheetModule.writeTo p.session generate tree path
  return (result, { p with session }, tree)

/-- Writes the stylesheet to the configured file, if there is one. -/
def writeConfigured (p : Plugin) (generate : Generator) (tree : FileTree) :
    Traced (Except Failure Bool × Plugin × FileTree) :=
  match p.session.config.outputFile with
  | none => return (.ok false, p, tree)
  | some path => p.writeTo generate tree path.display

end Plugin

end LayeredCss
