import LayeredCss.Glob.Pattern

/-!
# What a glob looks at

Many globs are no more than a text that a path has as a whole, at its head, at its end or as its
last name, or an extension.  Only the others are matched through an expression, some of them after a
look at the extension.

* `Glob.lookup`: what a glob looks at.
-/

namespace LayeredCss.Glob

/-- What a glob looks at in a path. -/
inductive Lookup
  /-- The path, for a text that is all of it, its head or its end. -/
  | text
  /-- The last name of the path, which is the text of the glob. -/
  | name
  /-- The extension of the last name. -/
  | extension
  /-- The extension of the last name first, and then the path through an expression. -/
  | extensionFirst
  /-- The path through an expression. -/
  | expression
  deriving DecidableEq, Repr

namespace Lookup

/-- Whether the path needs a last name. -/
def needsName : Lookup → Bool
  | name => true
  | extension => true
  | extensionFirst => true
  | text => false
  | expression => false

end Lookup

def Token.char? : Token → Option Char
  | .literal c => some c
  | _ => none

/-- The text of tokens that are characters all of them. -/
def text? (tokens : List Token) : Option (List Char) := tokens.mapM Token.char?

/-- The tokens without a leading token at their head, and whether there was one. -/
def cutLeading : List Token → Bool × List Token
  | .leading :: ts => (true, ts)
  | ts => (false, ts)

/-- The tokens without a run at their head, and whether there was one. -/
def cutRun : List Token → Bool × List Token
  | .run :: ts => (true, ts)
  | ts => (false, ts)

/-- Whether a glob is a text with anything after it, or a folder with all that is below it. -/
def isHead (tokens : List Token) : Bool :=
  match tokens.getLast? with
  | some .run => !tokens.dropLast.isEmpty && (text? tokens.dropLast).isSome
  | some .trailing => (text? tokens.dropLast).isSome
  | _ => false

/-- Whether the tokens, the last first, start with the text of an extension up to its dot. -/
def startsWithExtension : List Token → Bool
  | .literal c :: ts => c = '.' || (c ≠ '/' && startsWithExtension ts)
  | _ => false

/-- What a glob looks at. -/
def lookup (tokens : List Token) : Lookup :=
  let (isLeading, ts) := cutLeading tokens
  let (isRun, ts) := cutRun ts
  match text? ts with
  | some (c :: text) =>
    if isRun then
      if c = '.' ∧ !text.contains '.' ∧ !text.contains '/' then .extension
      else if c = '/' ∧ text.isEmpty then .expression
      else .text
    else if isLeading ∧ !(c :: text).contains '/' then .name
    else .text
  | _ =>
    if isHead tokens then .text
    else if startsWithExtension tokens.reverse then .extensionFirst
    else .expression

end LayeredCss.Glob
