import LayeredCss.Text.Utf8

/-!
# Texts of the host system

Paths and environment variables are bytes that need not be UTF-8.  Those that are count as text,
so each byte sequence has one form.
-/

namespace LayeredCss

inductive HostText
  | unicode (s : String)
  /-- Bytes that are no UTF-8. -/
  | foreign (bytes : List UInt8)
  deriving DecidableEq, Repr

namespace HostText

def ofBytes (bytes : List UInt8) : HostText :=
  match Utf8.strict? bytes with
  | some s => unicode s
  | none => foreign bytes

/-- The text, where the bytes write one. -/
def text? : HostText → Option String
  | unicode s => some s
  | foreign _ => none

/-- The text for display; what is no UTF-8 in it is replaced. -/
def display : HostText → String
  | unicode s => s
  | foreign bytes => Utf8.lossy bytes

def isEmpty : HostText → Bool
  | unicode s => s.isEmpty
  | foreign bytes => bytes.isEmpty

end HostText

end LayeredCss
