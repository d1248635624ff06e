import LayeredCss.Json.Value

/-!
# Tokens of a JSON text

A text is read from left to right, and the first thing that is wrong with it decides the fault.  A
text that only lacks an end is `truncated`, one that no end could mend is `malformed`, and one that
is JSON of a shape the reader does not want is `mismatched`.

* `Json.word`, `Json.stringBody`, `Json.numberBody`: tokens and what they stand for;
* `Json.skipString`, `Json.skipNumber`: the same tokens where their value is not wanted, so that
  unpaired surrogates and numbers beyond every double pass.
-/

namespace LayeredCss.Json

/-- What is wrong with a text. -/
inductive Fault
  | truncated
  | malformed
  | mismatched
  deriving DecidableEq, Repr

/-- Reads a value at the head of a text and leaves the rest. -/
abbrev Reader (α : Type) := List Char → Except Fault (α × List Char)

def isBlank (c : Char) : Bool := c == ' ' || c == '\n' || c == '\t' || c == '\r'

/-- The text without the blanks at its head. -/
def skipBlanks (s : List Char) : List Char := s.dropWhile isBlank

/-- Reads the given characters. -/
def word : List Char → List Char → Except Fault (List Char)
  | [], rest => .ok rest
  | _ :: _, [] => .error .truncated
  | e :: es, c :: rest => if e = c then word es rest else .error .malformed

/-! ## Strings -/

/-- The value of a digit to base sixteen, in either case. -/
def hexValue? (c : Char) : Option Nat :=
  if '0' ≤ c ∧ c ≤ '9' then some (c.toNat - '0'.toNat)
  else if 'a' ≤ c ∧ c ≤ 'f' then some (c.toNat - 'a'.toNat + 10)
  else if 'A' ≤ c ∧ c ≤ 'F' then some (c.toNat - 'A'.toNat + 10)
  else none

/-- The unit of sixteen bits that four digits write. -/
def hexUnit? (a b c d : Char) : Option Nat := do
  return ((← hexValue? a) * 16 + (← hexValue? b)) * 256 +
    ((← hexValue? c) * 16 + (← hexValue? d))

/-- The fault of an escape whose four digits are not there: the text may end too early, counted in
bytes. -/
def hexFault (rest : List Char) : Fault :=
  if (String.ofList rest).utf8ByteSize < 4 then .truncated else .malformed

/-- The character that a letter stands for after a backslash. -/
def unescape? (c : Char) : Option Char :=
  if c = '\x22' then some '\x22'
  else if c = '\x5c' then some '\x5c'
  else if c = '/' then some '/'
  else if c = 'b' then some '\x08'
  else if c = 'f' then some '\x0c'
  else if c = 'n' then some '\n'
  else if c = 'r' then some '\r'
  else if c = 't' then some '\t'
  else none

/-- Puts a character before the body of a string. -/
def consBody (c : Char) (body : Except Fault (List Char × List Char)) :
    Except Fault (List Char × List Char) :=
  body.map fun (cs, rest) => (c :: cs, rest)

/-- The characters of a string up to its closing quotation mark.  A leading surrogate must be
followed by a trailing one, and the two write one character. -/
def stringBody : List Char → Except Fault (List Char × List Char)
  | [] => .error .truncated
  | c :: rest =>
    if c = '\x22' then .ok ([], rest)
    else if c = '\x5c' then
      match rest with
      | [] => .error .truncated
      | e :: rest₁ =>
        if e = 'u' then
          match rest₁ with
          | h₁ :: h₂ :: h₃ :: h₄ :: rest₂ =>
            match hexUnit? h₁ h₂ h₃ h₄ with
            | none => .error .malformed
            | some u =>
              if 0xDC00 ≤ u ∧ u ≤ 0xDFFF then .error .malformed
              else if 0xD800 ≤ u ∧ u ≤ 0xDBFF then
                match rest₂ with
                | [] => .error .truncated
                | b :: rest₃ =>
                  if b ≠ '\x5c' then .error .malformed
                  else match rest₃ with
                    | [] => .error .truncated
                    | v :: rest₄ =>
                      if v ≠ 'u' then .error .malformed
                      else match rest₄ with
                        | k₁ :: k₂ :: k₃ :: k₄ :: rest₅ =>
                          match hexUnit? k₁ k₂ k₃ k₄ with
                          | none => .error .malformed
                          | some w =>
                            if 0xDC00 ≤ w ∧ w ≤ 0xDFFF then
                              consBody (Char.ofNat (0x10000 + (u - 0xD800) * 0x400 + (w - 0xDC00)))
                                (stringBody rest₅)
                            else .error .malformed
                        | short => .error (hexFault short)
              else consBody (Char.ofNat u) (stringBody rest₂)
          | short => .error (hexFault short)
        else match unescape? e with
          | some d => consBody d (stringBody rest₁)
          | none => .error .malformed
    else if c.toNat < 0x20 then .error .malformed
    else consBody c (stringBody rest)

/-- Passes over the rest of a string. -/
def skipString : List Char → Except Fault (List Char)
  | [] => .error .truncated
  | c :: rest =>
    if c = '\x22' then .ok rest
    else if c = '\x5c' then
      match rest with
      | [] => .error .truncated
      | e :: rest₁ =>
        if e = 'u' then
          match rest₁ with
          | h₁ :: h₂ :: h₃ :: h₄ :: rest₂ =>
            match hexUnit? h₁ h₂ h₃ h₄ with
            | none => .error .malformed
            | some _ => skipString rest₂
          | short => .error (hexFault short)
        else match unescape? e with
          | some _ => skipString rest₁
          | none => .error .malformed
    else if c.toNat < 0x20 then .error .malformed
    else skipString rest

/-! ## Numbers -/

def isDigit (c : Char) : Bool := '0' ≤ c && c ≤ '9'

def digitValue (c : Char) : Nat := c.toNat - '0'.toNat

/-- The number that a list of digits writes. -/
def digitsValue (ds : List Char) : Nat := ds.foldl (fun n c => n * 10 + digitValue c) 0

/-- The greatest significand that is kept. -/
def maxSignificand : Nat := UInt64.size - 1

/-- Appends digits to a significand while it stays within bounds, and leaves the others. -/
def absorb (significand : Nat) : List Char → Nat × List Char
  | [] => (significand, [])
  | c :: rest =>
    if maxSignificand < significand * 10 + digitValue c then (significand, c :: rest)
    else absorb (significand * 10 + digitValue c) rest

/-- A power of ten, up to the greatest that a double holds. -/
def tenTo (n : Nat) : Float := Float.ofScientific 1 false n

/-- Divides a double by a power of ten, in steps of at most `10 ^ 308`. -/
def divideByTen (x : Float) (n : Nat) : Float :=
  if n ≤ 308 then x / tenTo n
  else if x == 0 then x
  else divideByTen (x / tenTo 308) (n - 308)
termination_by n

/-- The double that is written as `significand · 10 ^ exponent`, rounded once to a double and once
more by the power; `none` beyond every double. -/
def scaled? (significand : Nat) (exponent : Int) : Option Float :=
  let x := (UInt64.ofNat significand).toFloat
  if exponent < 0 then some (divideByTen x exponent.natAbs)
  else if exponent ≤ 308 then
    let y := x * tenTo exponent.toNat
    if y.isInf then none else some y
  else if x == 0 then some x
  else none

/-- A number with a point, a power or too many digits. -/
def doubleNumber (negative : Bool) (significand : Nat) (exponent : Int) (rest : List Char) :
    Except Fault (Number × List Char) :=
  match scaled? significand exponent with
  | some x => .ok (.double (if negative then -x else x), rest)
  | none => .error .malformed

/-- The greatest power that is kept, the greatest signed number of 32 bits. -/
def maxPower : Nat := 0x7FFFFFFF

/-- Reads the power after its mark. -/
def powerBody (negative : Bool) (significand : Nat) (exponent : Int) (s : List Char) :
    Except Fault (Number × List Char) :=
  let (down, s) := match s with
    | '+' :: rest => (false, rest)
    | '-' :: rest => (true, rest)
    | _ => (false, s)
  match s with
  | [] => .error .truncated
  | c :: _ =>
    if !isDigit c then .error .malformed
    else
      let power := digitsValue (s.takeWhile isDigit)
      let rest := s.dropWhile isDigit
      if maxPower < power then
        if significand ≠ 0 ∧ !down then .error .malformed
        else .ok (.double (if negative then -0.0 else 0.0), rest)
      else doubleNumber negative significand (if down then exponent - power else exponent + power) rest

def isPowerMark (c : Char) : Bool := c == 'e' || c == 'E'

/-- Reads a power if there is one. -/
def afterDigits (negative : Bool) (significand : Nat) (exponent : Int) (s : List Char) :
    Except Fault (Number × List Char) :=
  match s with
  | c :: rest =>
    if isPowerMark c then powerBody negative significand exponent rest
    else doubleNumber negative significand exponent s
  | [] => doubleNumber negative significand exponent s

/-- An integer of 64 bits stays one; minus zero does not. -/
def integerNumber (negative : Bool) (n : Nat) : Number :=
  if negative then
    if n = 0 ∨ 0x8000000000000000 < n then .double (-(UInt64.ofNat n).toFloat) else .integer (-n)
  else .integer n

/-- Reads what follows the digits before the point. -/
def afterInteger (negative : Bool) (digits s : List Char) : Except Fault (Number × List Char) :=
  let (significand, left) := absorb 0 digits
  match s with
  | '.' :: rest =>
    let places := rest.takeWhile isDigit
    let rest := rest.dropWhile isDigit
    if places.isEmpty then .error (if rest.isEmpty then .truncated else .malformed)
    else
      let (significand, dropped) := absorb significand places
      afterDigits negative significand
        (Int.ofNat left.length - Int.ofNat (places.length - dropped.length)) rest
  | _ =>
    if !left.isEmpty || (s.head?.map isPowerMark).getD false then
      afterDigits negative significand left.length s
    else .ok (integerNumber negative significand, s)

/-- Reads a number without its sign.  A zero at its head stands alone. -/
def numberBody (negative : Bool) : Reader Number
  | [] => .error .truncated
  | c :: rest =>
    if c = '0' then
      if (rest.head?.map isDigit).getD false then .error .malformed
      else afterInteger negative ['0'] rest
    else if isDigit c then
      afterInteger negative (c :: rest.takeWhile isDigit) (rest.dropWhile isDigit)
    else .error .malformed

/-- Reads a number. -/
def number : Reader Number
  | '-' :: rest => numberBody true rest
  | s => numberBody false s

/-- Passes over the power of a number, after its mark. -/
def skipPower (s : List Char) : Except Fault (List Char) :=
  let s := match s with
    | '+' :: rest => rest
    | '-' :: rest => rest
    | _ => s
  if (s.takeWhile isDigit).isEmpty then .error .malformed else .ok (s.dropWhile isDigit)

def skipAfterDigits : List Char → Except Fault (List Char)
  | c :: rest => if isPowerMark c then skipPower rest else .ok (c :: rest)
  | [] => .ok []

/-- Passes over a number without its sign. -/
def skipNumber (s : List Char) : Except Fault (List Char) :=
  let digits := s.takeWhile isDigit
  if digits.isEmpty || (digits.head? == some '0' && digits.length != 1) then .error .malformed
  else match s.dropWhile isDigit with
    | '.' :: rest =>
      if (rest.takeWhile isDigit).isEmpty then .error .malformed
      else skipAfterDigits (rest.dropWhile isDigit)
    | rest => skipAfterDigits rest

end LayeredCss.Json
