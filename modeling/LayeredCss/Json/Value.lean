import LayeredCss.Decimal.Shortest
import LayeredCss.Text

/-!
# JSON values and their text

Numbers that are integers of 64 bits stay integers; all others are doubles.  The text of a value is
compact: no blanks, members in the order in which the object lists them.

* `Value.same`: equality of values, on which an integer differs from a double;
* `Value.render`: the text of a value.
-/

namespace LayeredCss.Json

inductive Number
  | integer (i : Int)
  | double (x : Float)

inductive Value
  | null
  | bool (b : Bool)
  | number (n : Number)
  | string (s : String)
  | array (items : List Value)
  | object (members : List (String × Value))

instance : Inhabited Value := ⟨.null⟩

/-! ## Equality -/

/-- Doubles are compared as numbers, so the two zeros agree. -/
def Number.same : Number → Number → Bool
  | .integer i, .integer j => i == j
  | .double x, .double y => x == y
  | _, _ => false

mutual

/-- Whether two values are equal. -/
def Value.same : Value → Value → Bool
  | .null, .null => true
  | .bool a, .bool b => a == b
  | .number m, .number n => m.same n
  | .string s, .string t => s == t
  | .array xs, .array ys => sameItems xs ys
  | .object ms, .object ns => sameMembers ms ns
  | _, _ => false

def sameItems : List Value → List Value → Bool
  | [], [] => true
  | x :: xs, y :: ys => x.same y && sameItems xs ys
  | _, _ => false

def sameMembers : List (String × Value) → List (String × Value) → Bool
  | [], [] => true
  | (k, x) :: ms, (j, y) :: ns => k == j && x.same y && sameMembers ms ns
  | _, _ => false

end

instance : BEq Value := ⟨Value.same⟩

/-! ## Text -/

/-- Doubles are written positionally from 1e-5 up to 1e15, and always with a point or a power. -/
def doubleLayout : Layout := ⟨-5, 15, ".0", 'e', "+"⟩

def renderDouble (x : Float) : List Char :=
  let bits := x.toBits
  (if bits < 0x8000000000000000 then [] else ['-']) ++
    if bits <<< 1 = 0 then ['0', '.', '0'] else doubleLayout.render (Binary.ofBits bits).shortest

def renderInteger : Int → List Char
  | .ofNat n => digitChars n
  | .negSucc n => '-' :: digitChars (n + 1)

def Number.render : Number → List Char
  | .integer i => renderInteger i
  | .double x => renderDouble x

/-- A character inside quotation marks: those that end or escape a string and the controls below
U+0020 are escaped, by a letter where there is one. -/
def escape (c : Char) : List Char :=
  if c = '\x22' then ['\x5c', '\x22']
  else if c = '\x5c' then ['\x5c', '\x5c']
  else if c = '\x08' then ['\x5c', 'b']
  else if c = '\x0c' then ['\x5c', 'f']
  else if c = '\n' then ['\x5c', 'n']
  else if c = '\r' then ['\x5c', 'r']
  else if c = '\t' then ['\x5c', 't']
  else if c.toNat < 0x20 then
    ['\x5c', 'u', '0', '0', Text.hexDigit (c.toNat / 16), Text.hexDigit c.toNat]
  else [c]

/-- A text between quotation marks. -/
def quote (s : List Char) : List Char := '\x22' :: s.flatMap escape ++ ['\x22']

mutual

/-- The compact text of a value. -/
def Value.render : Value → List Char
  | .null => ['n', 'u', 'l', 'l']
  | .bool true => ['t', 'r', 'u', 'e']
  | .bool false => ['f', 'a', 'l', 's', 'e']
  | .number n => n.render
  | .string s => quote s.toList
  | .array xs => '[' :: renderItems true xs
  | .object ms => '\x7b' :: renderMembers true ms

/-- The items of an array and its end, each item but the first after a comma. -/
def renderItems (first : Bool) : List Value → List Char
  | [] => [']']
  | x :: xs => (if first then [] else [',']) ++ x.render ++ renderItems false xs

def renderMembers (first : Bool) : List (String × Value) → List Char
  | [] => ['\x7d']
  | (k, x) :: ms =>
    (if first then [] else [',']) ++ quote k.toList ++ ':' :: x.render ++ renderMembers false ms

end

/-- The compact text of a value. -/
def Value.text (v : Value) : String := String.ofList v.render

/-! ## Members -/

/-- The value of a key of an object. -/
def Value.member? (k : String) : Value → Option Value
  | .object ms => (ms.find? (·.1 = k)).map (·.2)
  | _ => none

end LayeredCss.Json
