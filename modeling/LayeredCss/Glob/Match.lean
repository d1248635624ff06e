import LayeredCss.Glob.Lookup

/-!
# Matching a glob

A glob is matched against the bytes of a path.  A match is a run through the tokens that keeps, for
each position of the path, whether the tokens so far can end there: a list of `bytes.length + 1`
marks.

* `Glob.Token.reach`: the marks after a token;
* `Glob.isMatch`: whether the tokens of a glob match a path.
-/

namespace LayeredCss.Glob

/-- For each position between the bytes, and at both ends, whether it can be reached. -/
abbrev Marks := List Bool

namespace Marks

/-- Only the start. -/
def start (bytes : List UInt8) : Marks := true :: bytes.map fun _ => false

/-- Position by position, whether one of the two reaches it. -/
def union (m n : Marks) : Marks := m.zipWith or n

/-- The positions one byte of the kind further. -/
def step (p : UInt8 → Bool) (bytes : List UInt8) (m : Marks) : Marks :=
  false :: m.zipWith (fun reached b => reached && p b) bytes

/-- The given bytes further. -/
def word (text bytes : List UInt8) (m : Marks) : Marks :=
  text.foldl (fun m b => step (· == b) bytes m) m

/-- All positions from the first one that is reached. -/
def onward : (seen : Bool) → Marks → Marks
  | _, [] => []
  | seen, reached :: rest => (seen || reached) :: onward (seen || reached) rest

end Marks

/-! ## Bytes of characters -/

def strokeByte : UInt8 := 0x2F

def dotByte : UInt8 := 0x2E

def bytesOf (c : Char) : List UInt8 := (String.singleton c).toUTF8.toList

/-- Whether a byte is in a class.  A character of several bytes brings in each of them, and the
bytes between the last of a low end and the first of a high end are in too. -/
def inRanges (ranges : List (Char × Char)) (b : UInt8) : Bool :=
  ranges.any fun (low, high) =>
    let lows := bytesOf low
    let highs := bytesOf high
    if low = high then lows.contains b
    else lows.contains b || highs.contains b ||
      (lows.getLastD 0 ≤ b && b ≤ highs.headD 0)

/-! ## Tokens -/

mutual

/-- Whether a token asks for nothing: a group without branches that ask for something. -/
def Token.asksNothing : Token → Bool
  | .alternates branches => allAskNothing branches
  | _ => false

def askNothing : List Token → Bool
  | [] => true
  | t :: ts => t.asksNothing && askNothing ts

def allAskNothing : List (List Token) → Bool
  | [] => true
  | branch :: branches => askNothing branch && allAskNothing branches

end

mutual

/-- The marks after a token.  Branches that ask for nothing do not count, and a group without any
other branch is passed over. -/
def Token.reach (bytes : List UInt8) : Token → Marks → Marks
  | .literal c, m => m.word (bytesOf c) bytes
  | .any, m => m.step (fun _ => true) bytes
  | .run, m => m.onward false
  | .leading, m => m.union ((m.onward false).word [strokeByte] bytes)
  | .trailing, m => (m.word [strokeByte] bytes).onward false
  | .inner, m =>
    let stroke := m.word [strokeByte] bytes
    stroke.union ((stroke.onward false).word [strokeByte] bytes)
  | .oneOf negated ranges, m => m.step (fun b => inRanges ranges b != negated) bytes
  | .alternates branches, m =>
    if allAskNothing branches then m else reachAny bytes branches m

/-- The marks after tokens in a row. -/
def reachAll (bytes : List UInt8) : List Token → Marks → Marks
  | [], m => m
  | t :: ts, m => reachAll bytes ts (t.reach bytes m)

/-- The marks after one of the branches that ask for something. -/
def reachAny (bytes : List UInt8) : List (List Token) → Marks → Marks
  | [], m => m.map fun _ => false
  | branch :: branches, m =>
    if askNothing branch then reachAny bytes branches m
    else (reachAll bytes branch m).union (reachAny bytes branches m)

end

/-! ## Globs -/

/-- Whether the last name of a path is `..`, which is not the name of anything. -/
def endsNameless (bytes : List UInt8) : Bool :=
  (bytes.reverse.takeWhile (· ≠ strokeByte)) = [dotByte, dotByte]

/-- Whether a glob matches a path.  Two stars alone match every path, and a glob that looks at the
last name matches no path without one. -/
def isMatch (tokens : List Token) (path : String) : Bool :=
  let bytes := path.toUTF8.toList
  match tokens with
  | [.leading] => true
  | _ =>
    !((lookup tokens).needsName && endsNameless bytes) &&
      (reachAll bytes tokens (Marks.start bytes)).getLastD false

end LayeredCss.Glob
