/-!
# Globs

A glob is read into tokens from left to right.  `?` stands for one byte, `*` for any bytes, brackets
for one of a class and braces for one of several branches; a backslash takes away the meaning of the
character after it.  Two stars next to a stroke or an end stand for whole folders, and swallow the
token before them, which is the stroke.

* `Glob.parse`: the tokens of a glob;
* `GlobFault`: what can be wrong with a glob.
-/

namespace LayeredCss

inductive Glob.Token
  | literal (c : Char)
  /-- One byte. -/
  | any
  /-- Any number of bytes. -/
  | run
  /-- The folders in front of a path. -/
  | leading
  /-- A stroke and all that is below it. -/
  | trailing
  /-- A stroke, or folders between two strokes. -/
  | inner
  /-- A byte of the ranges, or one outside of them. -/
  | oneOf (negated : Bool) (ranges : List (Char × Char))
  | alternates (branches : List (List Glob.Token))
  deriving Repr

inductive GlobFault
  | unclosedClass
  /-- A range whose ends are in the wrong order. -/
  | invalidRange (low high : Char)
  | unopenedAlternates
  | unclosedAlternates
  | danglingEscape
  deriving DecidableEq, Repr

namespace GlobFault

def text : GlobFault → String
  | unclosedClass => "unclosed character class; missing ']'"
  | invalidRange low high => s!"invalid range; '{low}' > '{high}'"
  | unopenedAlternates =>
    "unopened alternate group; missing '\x7b' (maybe escape '\x7d' with '[\x7d]'?)"
  | unclosedAlternates =>
    "unclosed alternate group; missing '\x7d' (maybe escape '\x7b' with '[\x7b]'?)"
  | danglingEscape => "dangling '\x5c'"

end GlobFault

namespace Glob

/-! ## Classes -/

/-- The ranges of a class up to its closing bracket, and what follows it.  The ranges so far come
last first; `first` holds at the first character, where a bracket and a dash stand for themselves,
and `isOpen` after a dash that awaits the other end of the last range. -/
def classBody (ranges : List (Char × Char)) (first isOpen : Bool) :
    List Char → Except GlobFault (List (Char × Char) × List Char)
  | [] => .error .unclosedClass
  | c :: rest =>
    if c = ']' ∧ !first then
      .ok (((if isOpen then [('-', '-')] else []) ++ ranges).reverse, rest)
    else if c = '-' ∧ !first ∧ !isOpen then classBody ranges false true rest
    else match isOpen, ranges with
      | true, (low, _) :: ranges =>
        if c < low then .error (.invalidRange low c)
        else classBody ((low, c) :: ranges) false false rest
      | _, ranges => classBody ((c, c) :: ranges) false false rest

/-- Whether a class starts with a mark that negates it, and what follows the mark. -/
def negation : List Char → Bool × List Char
  | '!' :: rest => (true, rest)
  | '^' :: rest => (true, rest)
  | s => (false, s)

/-- A class after its opening bracket. -/
def classToken (s : List Char) : Except GlobFault (Token × List Char) := do
  let (ranges, rest) ← classBody [] true false (negation s).2
  return (.oneOf (negation s).1 ranges, rest)

theorem classBody_length {ranges : List (Char × Char)} {first isOpen : Bool} {s : List Char}
    {out : List (Char × Char) × List Char} (h : classBody ranges first isOpen s = .ok out) :
    out.2.length < s.length := by
  induction s generalizing ranges first isOpen with
  | nil => simp [classBody] at h
  | cons c rest ih =>
    unfold classBody at h
    split at h
    · obtain rfl := Except.ok.inj h; simp
    · split at h
      · exact Nat.lt_succ_of_lt (ih h)
      · split at h
        · split at h
          · cases h
          · exact Nat.lt_succ_of_lt (ih h)
        · exact Nat.lt_succ_of_lt (ih h)

theorem negation_length (s : List Char) : (negation s).2.length ≤ s.length := by
  unfold negation
  split <;> simp

theorem classToken_length {s : List Char} {out : Token × List Char} (h : classToken s = .ok out) :
    out.2.length < s.length := by
  have hs := negation_length s
  simp only [classToken, bind, Except.bind, pure, Except.pure] at h
  split at h
  · cases h
  · next hb =>
    obtain rfl := Except.ok.inj h
    exact Nat.lt_of_lt_of_le (classBody_length hb) hs

/-! ## Reading a glob -/

/-- Tokens read so far, the last first, and the groups that are open around them, the innermost
first: for each the tokens in front of it and its finished branches. -/
structure Draft where
  branch : List Token
  groups : List (List Token × List (List Token))

namespace Draft

def push (d : Draft) (t : Token) : Draft := { d with branch := t :: d.branch }

/-- Opens a group of alternates. -/
def openGroup (d : Draft) : Draft := ⟨[], (d.branch, []) :: d.groups⟩

/-- Ends a branch where a group is open; elsewhere a comma stands for itself. -/
def comma (d : Draft) : Draft :=
  match d.groups with
  | [] => d.push (.literal ',')
  | (before, branches) :: groups => ⟨[], (before, d.branch.reverse :: branches) :: groups⟩

/-- Closes the innermost group. -/
def closeGroup (d : Draft) : Except GlobFault Draft :=
  match d.groups with
  | [] => .error .unopenedAlternates
  | (before, branches) :: groups =>
    .ok ⟨.alternates (d.branch.reverse :: branches).reverse :: before, groups⟩

/-- Two stars that are no more than each of them. -/
def twoRuns (d : Draft) : Draft := (d.push .run).push .run

/-- Puts two stars in place of the last token, unless that stands for folders already. -/
def folders (d : Draft) (t : Token) : Draft :=
  match d.branch with
  | .leading :: _ => d
  | .trailing :: _ => d
  | branch => { d with branch := t :: branch.tail }

/-- Whether two stars after `before` may stand for folders. -/
def atFolder (d : Draft) (before : Option Char) : Bool :=
  before = some '/' || (!d.groups.isEmpty && (before = some ',' || before = some '\x7b'))

/-- The tokens of a glob that has been read to its end. -/
def finish (d : Draft) : Except GlobFault (List Token) :=
  if d.groups.isEmpty then .ok d.branch.reverse else .error .unclosedAlternates

end Draft

/-- Reads on from `before`, the character read last. -/
def parseFrom (d : Draft) (before : Option Char) : (s : List Char) → Except GlobFault (List Token)
  | [] => d.finish
  | '?' :: rest => parseFrom (d.push .any) (some '?') rest
  | '*' :: '*' :: rest =>
    if d.branch.isEmpty then
      match rest with
      | [] => (d.push .leading).finish
      | '/' :: rest => parseFrom (d.push .leading) (some '/') rest
      | rest => parseFrom d.twoRuns (some '*') rest
    else if !d.atFolder before then parseFrom d.twoRuns (some '*') rest
    else match rest with
      | [] => (d.folders .trailing).finish
      | '/' :: rest => parseFrom (d.folders .inner) (some '/') rest
      | c :: rest =>
        if !d.groups.isEmpty ∧ (c = ',' ∨ c = '\x7d') then
          parseFrom (d.folders .trailing) (some '*') (c :: rest)
        else parseFrom d.twoRuns (some '*') (c :: rest)
  | '*' :: rest => parseFrom (d.push .run) (some '*') rest
  | '[' :: rest =>
    match _h : classToken rest with
    | .error fault => .error fault
    | .ok (t, after) => parseFrom (d.push t) (some ']') after
  | '\x7b' :: rest => parseFrom d.openGroup (some '\x7b') rest
  | '\x7d' :: rest =>
    match d.closeGroup with
    | .error fault => .error fault
    | .ok d => parseFrom d (some '\x7d') rest
  | ',' :: rest => parseFrom d.comma (some ',') rest
  | '\x5c' :: [] => .error .danglingEscape
  | '\x5c' :: c :: rest => parseFrom (d.push (.literal c)) (some c) rest
  | c :: rest => parseFrom (d.push (.literal c)) (some c) rest
termination_by s => s.length
decreasing_by
  all_goals simp_wf
  all_goals (try have := classToken_length _h)
  all_goals (try simp at this)
  all_goals omega

/-- The tokens of a glob. -/
def parse (glob : String) : Except GlobFault (List Token) := parseFrom ⟨[], []⟩ none glob.toList

end Glob

end LayeredCss
