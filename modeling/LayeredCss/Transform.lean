import LayeredCss.Diagnostic
import LayeredCss.Failure
import LayeredCss.Theme

/-!
# The transform

The transform is not part of this library: it takes a source with a layer base, and gives back the
code to compile in its place and the rules that it extracted, or fails.  Here stands what passes
between it and a session.
-/

namespace LayeredCss

/-- What the transform is asked. -/
structure Transform.Input where
  source : String
  file : FileId
  /-- The first layer that the rules of the file may use. -/
  layerBase : UInt32
  theme : Theme
  strict : Bool

structure Rule where
  className : String
  cssText : String
  layer : UInt32
  deriving DecidableEq, Repr

/-- What a successful transform gives back. -/
structure Transform.Output where
  /-- The code to compile in place of the source. -/
  code : String
  rules : List Rule
  /-- The first layer behind those that the file has used. -/
  nextLayer : UInt32
  /-- Whether some expressions can only be resolved when the program runs. -/
  hasDynamic : Bool
  diagnostics : List Diagnostic
  deriving DecidableEq, Repr

/-- How a transform ends. -/
inductive Transform.Result
  | done (output : Transform.Output)
  | failed (failure : Failure)
  /-- The transform broke off, perhaps with a message. -/
  | crashed (message : Option String)

/-- A transform, which a session calls for one file at a time. -/
abbrev Transform := Transform.Input → Transform.Result

namespace Transform.Result

/-- The output, or why there is none. -/
def outcome : Result → Except Failure Transform.Output
  | done output => .ok output
  | failed failure => .error failure
  | crashed message =>
    .error (.ofText ("transform panicked: " ++ message.getD "unknown panic"))

end Transform.Result

/-! ## JSON -/

namespace Rule

/-- The fields of a rule as far as they have been read. -/
structure Draft where
  className : Option String := none
  cssText : Option String := none
  layer : Option UInt32 := none

def fields : List (Json.Field Draft) :=
  [.slot "className" (·.className) (fun d a => { d with className := some a }) .string,
   .slot "cssText" (·.cssText) (fun d a => { d with cssText := some a }) .string,
   .slot "layer" (·.layer) (fun d a => { d with layer := some a }) .uint32]

def Draft.finish (d : Draft) : Option Rule := do
  return ⟨← d.className, ← d.cssText, ← d.layer⟩

def reader : Json.Reader Rule := Json.Field.record fields {} Draft.finish

def toJson (r : Rule) : Json.Value :=
  .object
    [("className", .string r.className),
     ("cssText", .string r.cssText),
     ("layer", .number (.integer r.layer.toNat))]

end Rule

namespace Transform.Output

/-- The fields of an output as far as they have been read. -/
structure Draft where
  code : Option String := none
  rules : Option (List Rule) := none
  nextLayer : Option UInt32 := none
  hasDynamic : Option Bool := none
  diagnostics : Option (List Diagnostic) := none

def fields : List (Json.Field Draft) :=
  [.slot "code" (·.code) (fun d a => { d with code := some a }) .string,
   .slot "rules" (·.rules) (fun d a => { d with rules := some a }) (.list Rule.reader),
   .slot "nextLayer" (·.nextLayer) (fun d a => { d with nextLayer := some a }) .uint32,
   .slot "hasDynamic" (·.hasDynamic) (fun d a => { d with hasDynamic := some a }) Json.Reader.bool,
   .slot "diagnostics" (·.diagnostics) (fun d a => { d with diagnostics := some a })
    (.list Diagnostic.reader)]

def Draft.finish (d : Draft) : Option Transform.Output := do
  return ⟨← d.code, ← d.rules, ← d.nextLayer, ← d.hasDynamic, ← d.diagnostics⟩

def reader : Json.Reader Transform.Output := Json.Field.record fields {} Draft.finish

/-- The output that a JSON text writes. -/
def ofJson (text : String) : Except Json.Fault Transform.Output := Json.read reader text

def toJson (o : Transform.Output) : Json.Value :=
  .object
    [("code", .string o.code),
     ("rules", .array (o.rules.map Rule.toJson)),
     ("nextLayer", .number (.integer o.nextLayer.toNat)),
     ("hasDynamic", .bool o.hasDynamic),
     ("diagnostics", .array (o.diagnostics.map Diagnostic.toJson))]

/-- The texts of the rules in their order. -/
def cssTexts (o : Transform.Output) : List String := o.rules.map (·.cssText)

end Transform.Output

end LayeredCss
