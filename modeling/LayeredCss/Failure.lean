import LayeredCss.Json.Scan

/-!
# Failures

A failure is what went wrong at the bottom and what was being attempted above it.  Its text names
the attempts from the outermost to the innermost and then the cause.
-/

namespace LayeredCss

/-- Why the file tree refused an operation. -/
inductive FileFault
  | notFound
  | isADirectory
  | notADirectory
  | alreadyExists
  | invalidData
  | invalidFilename
  | invalidInput
  deriving DecidableEq, Repr

/-- What went wrong. -/
inductive Cause
  | file (fault : FileFault)
  | json (fault : Json.Fault)
  | message (text : String)
  deriving DecidableEq, Repr

/-- A cause under the attempts that it ended, the outermost first. -/
structure Failure where
  attempts : List String
  cause : Cause
  deriving DecidableEq, Repr

namespace FileFault

def text : FileFault → String
  | notFound => "no such file or directory"
  | isADirectory => "is a directory"
  | notADirectory => "not a directory"
  | alreadyExists => "file exists"
  | invalidData => "the text is not valid UTF-8"
  | invalidFilename => "file name too long"
  | invalidInput => "file name contained an unexpected NUL byte"

end FileFault

namespace Cause

def text : Cause → String
  | file fault => fault.text
  | json .truncated => "the JSON text ends too early"
  | json .malformed => "the text is not JSON"
  | json .mismatched => "the JSON value has another shape"
  | message text => text

end Cause

namespace Failure

/-- A failure that is nothing but a message. -/
def ofText (text : String) : Failure := ⟨[], .message text⟩

/-- The outermost attempt, or the cause if there was none. -/
def head (f : Failure) : String := f.attempts.headD f.cause.text

/-- The attempts and the cause in one line. -/
def text (f : Failure) : String := ": ".intercalate (f.attempts ++ [f.cause.text])

/-- The number of links from the outermost attempt to the cause. -/
def depth (f : Failure) : Nat := f.attempts.length + 1

end Failure

end LayeredCss
