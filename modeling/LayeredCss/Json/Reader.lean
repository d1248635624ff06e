import LayeredCss.Json.Scan
import LayeredCss.OrderedMap

/-!
# Reading JSON into types

A reader takes what it wants from left to right, so that of two things that are wrong with a text
the first decides the fault.

* `Reader.value`: any value; containers may be nested 127 deep;
* `Reader.skip`: any value, nested as deep as it likes and thrown away;
* `Reader.bool`, `Reader.natBelow`, `Reader.string`, `Reader.optional`, `Reader.list`,
  `Reader.variant`: the shapes that fields have;
* `Json.read`: a whole text.
-/

namespace LayeredCss.Json

/-- Reads a whole text: after the value only blanks may follow. -/
def read {α : Type} (r : Reader α) (text : String) : Except Fault α := do
  let (a, rest) ← r text.toList
  if (skipBlanks rest).isEmpty then .ok a else .error .malformed

/-- The fault of a value that is not wanted.  Its head is read first and may be malformed itself. -/
def refuse {α : Type} (s : List Char) : Except Fault α := do
  match s with
  | [] => .error .truncated
  | c :: rest =>
    if c = 'n' then discard (word ['u', 'l', 'l'] rest)
    else if c = 't' then discard (word ['r', 'u', 'e'] rest)
    else if c = 'f' then discard (word ['a', 'l', 's', 'e'] rest)
    else if c = '-' ∨ isDigit c then discard (number s)
    else if c = '\x22' then discard (stringBody rest)
    else if c = '[' ∨ c = '\x7b' then pure ()
    else .error .malformed
    .error .mismatched

/-! ## The bones of containers -/

/-- What stands before an item of an array: `none` at its end, else the text of the item. -/
def nextItem (first : Bool) (s : List Char) : Except Fault (Option (List Char)) :=
  match skipBlanks s with
  | [] => .error .truncated
  | c :: rest =>
    if c = ']' then .ok none
    else if first then .ok (some (c :: rest))
    else if c = ',' then
      match skipBlanks rest with
      | [] => .error .truncated
      | d :: rest => if d = ']' then .error .malformed else .ok (some (d :: rest))
    else .error .malformed

/-- Passes over the end of an array. -/
def endArray (s : List Char) : Except Fault (List Char) :=
  match skipBlanks s with
  | [] => .error .truncated
  | c :: rest => if c = ']' then .ok rest else .error .malformed

/-- What stands before a member of an object: `none` at its end, else the text of its key after the
quotation mark. -/
def nextKey (first : Bool) (s : List Char) : Except Fault (Option (List Char)) :=
  let key (s : List Char) : Except Fault (Option (List Char)) := match s with
    | [] => .error .truncated
    | c :: rest => if c = '\x22' then .ok (some rest) else .error .malformed
  match skipBlanks s with
  | [] => .error .truncated
  | c :: rest =>
    if c = '\x7d' then .ok none
    else if first then key (c :: rest)
    else if c = ',' then key (skipBlanks rest)
    else .error .malformed

/-- Passes over the end of an object. -/
def endObject (s : List Char) : Except Fault (List Char) :=
  match skipBlanks s with
  | [] => .error .truncated
  | c :: rest => if c = '\x7d' then .ok rest else .error .malformed

/-- Passes over the colon between a key and its value. -/
def colon (s : List Char) : Except Fault (List Char) :=
  match skipBlanks s with
  | [] => .error .truncated
  | c :: rest => if c = ':' then .ok rest else .error .malformed

/-- The items of an array and its end, in at most `fuel` steps. -/
def items {α : Type} (item : Reader α) : (fuel : Nat) → (first : Bool) → Reader (List α)
  | 0, _, _ => .error .truncated
  | fuel + 1, first, s => do
    match ← nextItem first s with
    | none => return ([], ← endArray s)
    | some s =>
      let (a, s) ← item s
      let (as, s) ← items item fuel false s
      return (a :: as, s)

/-- The members of an object and its end, in at most `fuel` steps.  What has been read so far is
handed to the reader of the next member, which starts at its key. -/
def members {σ : Type} (member : σ → Reader σ) : (fuel : Nat) → (first : Bool) → σ → Reader σ
  | 0, _, _, _ => .error .truncated
  | fuel + 1, first, acc, s => do
    match ← nextKey first s with
    | none => return (acc, ← endObject s)
    | some s =>
      let (acc, s) ← member acc s
      members member fuel false acc s

namespace Reader

/-! ## Any value -/

/-- A member of an object with any value. -/
def anyMember (value : Reader Value) (acc : List (String × Value)) :
    Reader (List (String × Value)) := fun s => do
  let (key, s) ← stringBody s
  let (v, s) ← value (← colon s)
  return (OrderedMap.insertEntry (String.ofList key) v acc, s)

/-- Any value with containers at most `depth` deep.  Objects are sorted by key, and the last of
several members of one key counts. -/
def value : (depth : Nat) → Reader Value
  | depth, s => match skipBlanks s with
    | [] => .error .truncated
    | c :: rest =>
      if c = 'n' then do return (.null, ← word ['u', 'l', 'l'] rest)
      else if c = 't' then do return (.bool true, ← word ['r', 'u', 'e'] rest)
      else if c = 'f' then do return (.bool false, ← word ['a', 'l', 's', 'e'] rest)
      else if c = '-' ∨ isDigit c then do
        let (n, rest) ← number (c :: rest)
        return (.number n, rest)
      else if c = '\x22' then do
        let (t, rest) ← stringBody rest
        return (.string (String.ofList t), rest)
      else if c = '[' then
        match depth with
        | 0 => .error .malformed
        | depth + 1 => do
          let (vs, rest) ← items (value depth) (rest.length + 1) true rest
          return (.array vs, rest)
      else if c = '\x7b' then
        match depth with
        | 0 => .error .malformed
        | depth + 1 => do
          let (ms, rest) ← members (anyMember (value depth)) (rest.length + 1) true [] rest
          return (.object ms, rest)
      else .error .malformed

/-- The depth to which containers may be nested. -/
def maxDepth : Nat := 127

/-- A member of an object that is thrown away. -/
def skippedMember (skip : Reader Unit) (_ : Unit) : Reader Unit := fun s => do
  skip (← colon (← skipString s))

/-- Any value, thrown away; `depth` is a bound on its nesting. -/
def skipNested : (depth : Nat) → Reader Unit
  | depth, s => match skipBlanks s with
    | [] => .error .truncated
    | c :: rest =>
      if c = 'n' then do return ((), ← word ['u', 'l', 'l'] rest)
      else if c = 't' then do return ((), ← word ['r', 'u', 'e'] rest)
      else if c = 'f' then do return ((), ← word ['a', 'l', 's', 'e'] rest)
      else if c = '-' then do return ((), ← skipNumber rest)
      else if isDigit c then do return ((), ← skipNumber (c :: rest))
      else if c = '\x22' then do return ((), ← skipString rest)
      else if c = '[' then
        match depth with
        | 0 => .error .truncated
        | depth + 1 => do
          let (_, rest) ← items (skipNested depth) (rest.length + 1) true rest
          return ((), rest)
      else if c = '\x7b' then
        match depth with
        | 0 => .error .truncated
        | depth + 1 => members (skippedMember (skipNested depth)) (rest.length + 1) true () rest
      else .error .malformed

/-- Any value, thrown away.  A text of `n` characters nests at most `n` deep. -/
def skip : Reader Unit := fun s => skipNested s.length s

/-! ## The shapes of fields -/

def bool : Reader Bool := fun s =>
  match skipBlanks s with
  | [] => .error .truncated
  | c :: rest =>
    if c = 't' then do return (true, ← word ['r', 'u', 'e'] rest)
    else if c = 'f' then do return (false, ← word ['a', 'l', 's', 'e'] rest)
    else refuse (c :: rest)

/-- An integer from zero up to the bound, without it. -/
def natBelow (bound : Nat) : Reader Nat := fun s =>
  match skipBlanks s with
  | [] => .error .truncated
  | c :: rest =>
    if c = '-' ∨ isDigit c then do
      let (n, rest) ← number (c :: rest)
      match n with
      | .integer (.ofNat n) => if n < bound then return (n, rest) else .error .mismatched
      | _ => .error .mismatched
    else refuse (c :: rest)

/-- An integer of 32 bits. -/
def uint32 : Reader UInt32 := fun s => do
  let (n, s) ← natBelow UInt32.size s
  return (UInt32.ofNat n, s)

/-- An integer of 64 bits. -/
def uint64 : Reader UInt64 := fun s => do
  let (n, s) ← natBelow UInt64.size s
  return (UInt64.ofNat n, s)

def string : Reader String := fun s =>
  match skipBlanks s with
  | [] => .error .truncated
  | c :: rest =>
    if c = '\x22' then do
      let (t, rest) ← stringBody rest
      return (String.ofList t, rest)
    else refuse (c :: rest)

/-- Null, read as the absence of a value. -/
def null : Reader Unit := fun s =>
  match skipBlanks s with
  | [] => .error .truncated
  | c :: rest =>
    if c = 'n' then do return ((), ← word ['u', 'l', 'l'] rest)
    else refuse (c :: rest)

/-- Null or a value. -/
def optional {α : Type} (r : Reader α) : Reader (Option α) := fun s =>
  match skipBlanks s with
  | [] => .error .truncated
  | c :: rest =>
    if c = 'n' then do return (none, ← word ['u', 'l', 'l'] rest)
    else do
      let (a, rest) ← r (c :: rest)
      return (some a, rest)

def list {α : Type} (r : Reader α) : Reader (List α) := fun s =>
  match skipBlanks s with
  | [] => .error .truncated
  | c :: rest =>
    if c = '[' then items r (rest.length + 1) true rest else refuse (c :: rest)

/-- A name that has to be a string. -/
def key : Reader String := fun s =>
  match skipBlanks s with
  | [] => .error .truncated
  | c :: rest =>
    if c = '\x22' then do
      let (t, rest) ← stringBody rest
      return (String.ofList t, rest)
    else .error .malformed

/-- One of several names, written as a string or as an object that maps the name to null. -/
def variant {α : Type} (cases : String → Option α) : Reader α := fun s => do
  let named (name : String) : Except Fault α := match cases name with
    | some a => .ok a
    | none => .error .mismatched
  match skipBlanks s with
  | [] => .error .truncated
  | c :: rest =>
    if c = '\x7b' then
      let (name, rest) ← key rest
      let a ← named name
      let (_, rest) ← null (← colon rest)
      return (a, ← endObject rest)
    else
      let (name, rest) ← key (c :: rest)
      return (← named name, rest)

end Reader

/-- The value that a text writes. -/
def parse (text : String) : Except Fault Value := read (Reader.value Reader.maxDepth) text

end LayeredCss.Json
