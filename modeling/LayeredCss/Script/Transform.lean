import LayeredCss.Config
import LayeredCss.Session

/-!
# A transform that reads its result off the source

For trying out sessions.  Each line of a source says one thing about the result: a line that starts
with a dot is a rule, and others start with a word such as `warn`, `code` or `fail`.  A line that
says nothing is passed over, and one that ends the transform ends it at once.

* `Script.transform`: the transform.
-/

namespace LayeredCss.Script

/-- What the lines so far have said. -/
structure Draft where
  rules : List Rule := []
  diagnostics : List Diagnostic := []
  hasDynamic : Bool := false
  nextLayer : Option UInt32 := none
  /-- The lines of the code. -/
  code : List String := []

/-- The layer that lies some layers above a base, or the greatest there is. -/
def layerAbove (base : UInt32) (n : Nat) : UInt32 :=
  UInt32.ofNat (min (base.toNat + n) (UInt32.size - 1))

/-- A number in digits, zero where there is none. -/
def number (s : List Char) : UInt32 :=
  match Config.uint64? (String.ofList s) with
  | some n => layerAbove 0 n.toNat
  | none => 0

/-- A diagnostic from its line, its column and its message, with blanks between. -/
def diagnostic (severity : Severity) (s : List Char) : Diagnostic :=
  let (line, rest) := Text.cutWord s
  let (column, message) := Text.cutWord rest
  ⟨String.ofList message, number line, number column, severity⟩

/-- The request as a line of code, without its source. -/
def echo (request : Transform.Input) : String :=
  Json.Value.text (.object
    [("base", .number (.integer request.layerBase.toNat)),
     ("file", .string request.file.name),
     ("strict", .bool request.strict),
     ("theme", request.theme.value)])

/-- The failure whose attempt and cause stand on both sides of a bar. -/
def failureWithin (s : List Char) : Failure :=
  ⟨[String.ofList (Text.beforeFirst '|' s)],
    .message (String.ofList ((Text.afterFirst? '|' s).getD []))⟩

/-- What a line does: it adds to the draft or ends the transform. -/
def line (request : Transform.Input) (d : Draft) (s : List Char) :
    Except Transform.Result Draft :=
  if s.head? = some '.' then
    let layer := layerAbove request.layerBase d.rules.length
    .ok { d with rules := d.rules ++ [⟨s!"_l{layer}", String.ofList s, layer⟩] }
  else
    let (word, rest) := Text.cutWord s
    let text := String.ofList rest
    match String.ofList word with
    | "fail" => .error (.failed (.ofText text))
    | "failctx" => .error (.failed (failureWithin rest))
    | "panic" => .error (.crashed (some text))
    | "panic_str" => .error (.crashed (some "static panic"))
    | "panic_any" => .error (.crashed none)
    | "json" => match Transform.Output.ofJson text with
      | .ok output => .error (.done output)
      | .error _ => .error (.failed (.ofText "bad json"))
    | "warn" => .ok { d with diagnostics := d.diagnostics ++ [diagnostic .warning rest] }
    | "error" => .ok { d with diagnostics := d.diagnostics ++ [diagnostic .error rest] }
    | "dynamic" => .ok { d with hasDynamic := true }
    | "next" => .ok { d with nextLayer := some (number rest) }
    | "span" =>
      .ok { d with nextLayer := some (layerAbove request.layerBase (number rest).toNat) }
    | "code" => .ok { d with code := d.code ++ [text] }
    | "echo" => .ok { d with code := d.code ++ [echo request] }
    | _ => .ok d

/-- The output that a draft stands for. -/
def output (request : Transform.Input) (d : Draft) : Transform.Output where
  code :=
    if d.code.isEmpty then s!"// {request.file} @{request.layerBase}"
    else "\n".intercalate d.code
  rules := d.rules
  nextLayer := d.nextLayer.getD (layerAbove request.layerBase d.rules.length)
  hasDynamic := d.hasDynamic
  diagnostics := d.diagnostics

/-- The transform whose result is written in the source. -/
def transform : Transform := fun request =>
  match (Text.pieces '\n' request.source.toList).foldlM (line request) {} with
  | .ok d => .done (output request d)
  | .error result => result

end LayeredCss.Script
