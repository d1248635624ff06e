import LayeredCss.FileId
import LayeredCss.Json.Record
import LayeredCss.Traced

/-!
# Diagnostics

What a transform has to say about a place in a source.  A diagnostic never stops anything; an error
among them only counts.
-/

namespace LayeredCss

inductive Severity
  | warning
  | error
  deriving DecidableEq, Repr

namespace Severity

def name : Severity → String
  | warning => "warning"
  | error => "error"

def ofName? : String → Option Severity
  | "warning" => some warning
  | "error" => some error
  | _ => none

end Severity

structure Diagnostic where
  message : String
  line : UInt32
  column : UInt32
  severity : Severity
  deriving DecidableEq, Repr

namespace Diagnostic

/-- The place and the message in one line. -/
def text (d : Diagnostic) : String := s!"{d.line}:{d.column} - {d.message}"

/-! ## JSON -/

/-- The fields of a diagnostic as far as they have been read. -/
structure Draft where
  message : Option String := none
  line : Option UInt32 := none
  column : Option UInt32 := none
  severity : Option Severity := none

def fields : List (Json.Field Draft) :=
  [.slot "message" (·.message) (fun d a => { d with message := some a }) .string,
   .slot "line" (·.line) (fun d a => { d with line := some a }) .uint32,
   .slot "column" (·.column) (fun d a => { d with column := some a }) .uint32,
   .slot "severity" (·.severity) (fun d a => { d with severity := some a })
    (.variant Severity.ofName?)]

def Draft.finish (d : Draft) : Option Diagnostic := do
  return ⟨← d.message, ← d.line, ← d.column, ← d.severity⟩

def reader : Json.Reader Diagnostic := Json.Field.record fields {} Draft.finish

def toJson (d : Diagnostic) : Json.Value :=
  .object
    [("message", .string d.message),
     ("line", .number (.integer d.line.toNat)),
     ("column", .number (.integer d.column.toNat)),
     ("severity", .string d.severity.name)]

/-! ## Reporting -/

/-- The errors among diagnostics. -/
def errors (ds : List Diagnostic) : List Diagnostic := ds.filter (·.severity = .error)

/-- The warnings among diagnostics. -/
def warnings (ds : List Diagnostic) : List Diagnostic := ds.filter (·.severity = .warning)

/-- Logs one diagnostic of a file. -/
def log (file : FileId) (d : Diagnostic) : Traced Unit :=
  match d.severity with
  | .error => Traced.error s!"[strata] ERROR {file}:{d.text}"
  | .warning => Traced.warn s!"[strata] WARN {file}:{d.text}"

/-- Logs the diagnostics of a file and counts the errors among them. -/
def report (file : FileId) (ds : List Diagnostic) : Traced Nat := do
  ds.forM (log file)
  return (errors ds).length

@[simp] theorem value_report (file : FileId) (ds : List Diagnostic) :
    (report file ds).value = (errors ds).length := rfl

end Diagnostic

end LayeredCss
