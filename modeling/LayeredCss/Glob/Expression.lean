import LayeredCss.Glob.Lookup
import LayeredCss.Glob.Match
import LayeredCss.Text

/-!
# Globs as expressions

A glob that is more than a text is matched through a regular expression over bytes.  Expressions may
not nest too deep, and a set of globs is refused when one of them does.

* `Glob.expression`: the text of the expression of a glob;
* `Glob.nesting`: how deep the expression nests;
* `Glob.nestingFault?`: the first glob of a set that nests too deep.
-/

namespace LayeredCss.Glob

/-! ## Text -/

/-- The characters that have a meaning in expressions. -/
def metaCharacters : List Char := "\x5c.+*?()|[]\x7b\x7d^$#&-~".toList

/-- A byte in an expression: an ASCII character as it is or after a backslash, any other byte as
its number to base sixteen. -/
def byteText (b : UInt8) : List Char :=
  if b < 0x80 then
    let c := Char.ofNat b.toNat
    if metaCharacters.contains c then ['\x5c', c] else [c]
  else ['\x5c', 'x', Text.hexDigit (b.toNat / 16), Text.hexDigit b.toNat]

def characterText (c : Char) : List Char := (bytesOf c).flatMap byteText

def rangeText : Char × Char → List Char
  | (low, high) =>
    if low = high then characterText low else characterText low ++ '-' :: characterText high

mutual

/-- The expression of a token. -/
def Token.expression : Token → List Char
  | .literal c => characterText c
  | .any => ".".toList
  | .run => ".*".toList
  | .leading => "(?:/?|.*/)".toList
  | .trailing => "/.*".toList
  | .inner => "(?:/|/.*/)".toList
  | .oneOf negated ranges =>
    '[' :: (if negated then ['^'] else []) ++ ranges.flatMap rangeText ++ [']']
  | .alternates branches =>
    if allAskNothing branches then []
    else "(?:".toList ++ branchesExpression true branches ++ [')']

/-- The expressions of tokens in a row. -/
def rowExpression : List Token → List Char
  | [] => []
  | t :: ts => t.expression ++ rowExpression ts

/-- The expressions of the branches that ask for something, with strokes between them. -/
def branchesExpression (first : Bool) : List (List Token) → List Char
  | [] => []
  | branch :: branches =>
    if askNothing branch then branchesExpression first branches
    else
      (if first then [] else ['|']) ++ rowExpression branch ++ branchesExpression false branches

end

/-- The expression of a glob. -/
def expression (tokens : List Token) : String :=
  String.ofList ("(?-u)^".toList ++ rowExpression tokens ++ ['$'])

/-! ## Nesting -/

/-- The number of parts of a class: a range takes in one byte of each of its ends. -/
def classParts (ranges : List (Char × Char)) : Nat :=
  (ranges.flatMap fun (low, high) =>
    if low = high then bytesOf low else bytesOf low ++ (bytesOf high).tail).length

/-- The number of parts that a token adds to the row that it stands in. -/
def Token.parts : Token → Nat
  | .literal c => (bytesOf c).length
  | .trailing => 2
  | .alternates branches => if allAskNothing branches then 0 else 1
  | _ => 1

/-- The number of parts of tokens in a row. -/
def rowParts : List Token → Nat
  | [] => 0
  | t :: ts => t.parts + rowParts ts

/-- The number of branches that ask for something. -/
def choices (branches : List (List Token)) : Nat := (branches.filter (!askNothing ·)).length

mutual

/-- How deep the expression of a token nests.  Repetitions, classes, classes of several parts,
groups, choices in groups and sequences each add one. -/
def Token.nesting : Token → Nat
  | .literal _ => 0
  | .any => 0
  | .run => 1
  | .leading => 4
  | .trailing => 1
  | .inner => 4
  | .oneOf _ ranges => if classParts ranges = 1 then 1 else 2
  | .alternates branches =>
    if allAskNothing branches then 0
    else (if 2 ≤ choices branches then 2 else 1) + branchesNesting branches

/-- How deep the expressions of tokens in a row nest, without the row itself. -/
def rowNesting : List Token → Nat
  | [] => 0
  | t :: ts => max t.nesting (rowNesting ts)

/-- How deep the expressions of branches nest, without the group around them. -/
def branchesNesting : List (List Token) → Nat
  | [] => 0
  | branch :: branches =>
    max ((if 2 ≤ rowParts branch then 1 else 0) + rowNesting branch) (branchesNesting branches)

end

/-- How deep the expression of a glob nests.  It is a sequence with the two ends of the path. -/
def nesting (tokens : List Token) : Nat := 1 + rowNesting tokens

/-- How deep an expression may nest. -/
def maxNesting : Nat := 250

/-- A glob that nests too deep. -/
inductive NestingFault
  /-- It has an expression of its own. -/
  | single (expression : String)
  /-- It is the one with this index, among those whose expressions are matched together. -/
  | among (index : Nat)
  deriving DecidableEq, Repr

namespace NestingFault

def text : NestingFault → String
  | single expression => s!"error parsing glob '{expression}': error parsing pattern 0"
  | among index => s!"error parsing pattern {index}"

end NestingFault

/-- The first glob that nests too deep, among those with an expression of their own and then among
the others. -/
def nestingFault? (globs : List (List Token)) : Option NestingFault :=
  let tooDeep (tokens : List Token) : Bool := maxNesting < nesting tokens
  match (globs.filter (lookup · = .extensionFirst)).find? tooDeep with
  | some tokens => some (.single (expression tokens))
  | none => ((globs.filter (lookup · = .expression)).findIdx? tooDeep).map .among

end LayeredCss.Glob
