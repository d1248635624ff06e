import LayeredCss.Json.Record
import Mathlib.Data.List.Forall2

/-!
# The grammar of JSON texts

Which texts write a string, and which are numbers, strings and values.  Blanks may stand around every
token, and a string may spell its characters in several ways.  Nothing here says how a text is read.

* `WritesText`: the texts of a string, with its characters as they stand or escaped;
* `IsNumber`, `IsValue`: the texts of numbers and of values;
* `Piece`, `Member`, `pieces`: what stands between the brackets of a container;
* `WritesArray`: the texts of an array whose items write given things.
-/

namespace LayeredCss.Json

def Blanks (s : List Char) : Prop := ∀ c ∈ s, isBlank c = true

instance (s : List Char) : Decidable (Blanks s) :=
  decidable_of_iff (s.all isBlank = true) List.all_eq_true

theorem blanks_nil : Blanks [] := fun _ hc => absurd hc List.not_mem_nil

/-! ## Strings -/

/-- A character that stands for itself in a string. -/
def Plain (c : Char) : Prop := c ≠ '\x22' ∧ c ≠ '\x5c' ∧ 0x20 ≤ c.toNat

instance (c : Char) : Decidable (Plain c) := inferInstanceAs (Decidable (_ ∧ _ ∧ _))

/-- What may stand between quotation marks to write some characters.  A character above U+FFFF may be
written by the two units of its surrogate pair. -/
inductive WritesBody : (characters text : List Char) → Prop
  | nil : WritesBody [] []
  | plain {c : Char} {cs t : List Char} (hc : Plain c) (rest : WritesBody cs t) :
    WritesBody (c :: cs) (c :: t)
  | letter {e c : Char} {cs t : List Char} (he : unescape? e = some c) (rest : WritesBody cs t) :
    WritesBody (c :: cs) ('\x5c' :: e :: t)
  | unit {h₁ h₂ h₃ h₄ : Char} {u : Nat} {cs t : List Char} (hu : hexUnit? h₁ h₂ h₃ h₄ = some u)
    (hrange : u < 0xD800 ∨ 0xDFFF < u) (rest : WritesBody cs t) :
    WritesBody (Char.ofNat u :: cs) ('\x5c' :: 'u' :: h₁ :: h₂ :: h₃ :: h₄ :: t)
  | pair {h₁ h₂ h₃ h₄ k₁ k₂ k₃ k₄ : Char} {u w : Nat} {cs t : List Char}
    (hu : hexUnit? h₁ h₂ h₃ h₄ = some u) (hlead : 0xD800 ≤ u ∧ u ≤ 0xDBFF)
    (hw : hexUnit? k₁ k₂ k₃ k₄ = some w) (htrail : 0xDC00 ≤ w ∧ w ≤ 0xDFFF)
    (rest : WritesBody cs t) :
    WritesBody (Char.ofNat (0x10000 + (u - 0xD800) * 0x400 + (w - 0xDC00)) :: cs)
      ('\x5c' :: 'u' :: h₁ :: h₂ :: h₃ :: h₄ :: '\x5c' :: 'u' :: k₁ :: k₂ :: k₃ :: k₄ :: t)

/-- A text writes a string. -/
def WritesText (s : String) (t : List Char) : Prop :=
  ∃ body, WritesBody s.toList body ∧ t = '\x22' :: (body ++ ['\x22'])

/-- What may stand between quotation marks, also if it writes no characters because a surrogate has no
partner. -/
inductive IsBody : List Char → Prop
  | nil : IsBody []
  | plain {c : Char} {t : List Char} (hc : Plain c) (rest : IsBody t) : IsBody (c :: t)
  | letter {e : Char} {t : List Char} (he : (unescape? e).isSome = true) (rest : IsBody t) :
    IsBody ('\x5c' :: e :: t)
  | unit {h₁ h₂ h₃ h₄ : Char} {t : List Char} (hu : (hexUnit? h₁ h₂ h₃ h₄).isSome = true)
    (rest : IsBody t) : IsBody ('\x5c' :: 'u' :: h₁ :: h₂ :: h₃ :: h₄ :: t)

/-! ## Numbers -/

/-- Digits, at least one. -/
def Digits (s : List Char) : Prop := s ≠ [] ∧ ∀ c ∈ s, isDigit c = true

instance (s : List Char) : Decidable (Digits s) :=
  decidable_of_iff (s ≠ [] ∧ s.all isDigit = true) (by rw [Digits, List.all_eq_true])

/-- An integer without its sign: a zero stands alone. -/
def IsInteger (s : List Char) : Prop := Digits s ∧ (s.head? = some '0' → s = ['0'])

instance (s : List Char) : Decidable (IsInteger s) := inferInstanceAs (Decidable (_ ∧ _))

/-- Nothing, or a point with digits. -/
def IsFraction (s : List Char) : Prop := s = [] ∨ ∃ ds, Digits ds ∧ s = '.' :: ds

/-- Nothing, or the mark of a power with digits that may have a sign. -/
def IsPower (s : List Char) : Prop :=
  s = [] ∨ ∃ mark sign ds, isPowerMark mark = true ∧ sign ∈ [[], ['+'], ['-']] ∧ Digits ds ∧
    s = mark :: (sign ++ ds)

/-- A number, after its sign. -/
def IsMagnitude (s : List Char) : Prop :=
  ∃ whole fraction power, IsInteger whole ∧ IsFraction fraction ∧ IsPower power ∧
    s = whole ++ (fraction ++ power)

def IsNumber (s : List Char) : Prop :=
  IsMagnitude s ∨ ∃ magnitude, IsMagnitude magnitude ∧ s = '-' :: magnitude

/-! ## Containers -/

/-- An item of a container with the blanks around it. -/
structure Piece where
  before : List Char
  core : List Char
  after : List Char

/-- Around the item stand blanks only. -/
def Piece.Neat (p : Piece) : Prop := Blanks p.before ∧ Blanks p.after

instance (p : Piece) : Decidable p.Neat := inferInstanceAs (Decidable (_ ∧ _))

/-- The items of a container and its end, each item but the first after a comma. -/
def pieces (close : Char) : (first : Bool) → List Piece → List Char
  | _, [] => [close]
  | first, p :: ps =>
    (if first then [] else [',']) ++ (p.before ++ (p.core ++ (p.after ++ pieces close false ps)))

/-- An array of these items; `lead` stands before the first. -/
def arrayText (lead : List Char) (ps : List Piece) : List Char := '[' :: (lead ++ pieces ']' true ps)

/-- A member of an object, with the blanks around it and around its colon.  Of the key there is what
stands between the quotation marks. -/
structure Member where
  before : List Char
  key : List Char
  beforeColon : List Char
  afterColon : List Char
  value : List Char
  after : List Char

namespace Member

/-- A member after the quotation mark that opens its key. -/
def body (m : Member) : List Char :=
  m.key ++ '\x22' :: (m.beforeColon ++ ':' :: (m.afterColon ++ m.value))

def core (m : Member) : List Char := '\x22' :: m.body

def piece (m : Member) : Piece := ⟨m.before, m.core, m.after⟩

/-- Around the member and its colon stand blanks only. -/
structure Neat (m : Member) : Prop where
  before : Blanks m.before
  beforeColon : Blanks m.beforeColon
  afterColon : Blanks m.afterColon
  after : Blanks m.after

instance (m : Member) : Decidable m.Neat :=
  decidable_of_iff (Blanks m.before ∧ Blanks m.beforeColon ∧ Blanks m.afterColon ∧ Blanks m.after)
    ⟨fun ⟨h₁, h₂, h₃, h₄⟩ => ⟨h₁, h₂, h₃, h₄⟩,
      fun h => ⟨h.before, h.beforeColon, h.afterColon, h.after⟩⟩

end Member

/-- An object of these members; `lead` stands before the first. -/
def objectText (lead : List Char) (ms : List Member) : List Char :=
  '\x7b' :: (lead ++ pieces '\x7d' true (ms.map Member.piece))

/-- The texts of an array whose items are written as `Writes` says. -/
def WritesArray {α : Type} (Writes : α → List Char → Prop) (as : List α) (t : List Char) : Prop :=
  ∃ lead ps, Blanks lead ∧ List.Forall₂ (fun p a => p.Neat ∧ Writes a p.core) ps as ∧
    t = arrayText lead ps

/-- The texts of all values. -/
inductive IsValue : List Char → Prop
  | null : IsValue ['n', 'u', 'l', 'l']
  | true : IsValue ['t', 'r', 'u', 'e']
  | false : IsValue ['f', 'a', 'l', 's', 'e']
  | number {t : List Char} (h : IsNumber t) : IsValue t
  | string {body : List Char} (h : IsBody body) : IsValue ('\x22' :: (body ++ ['\x22']))
  | array {lead : List Char} {ps : List Piece} (hlead : Blanks lead) (hneat : ∀ p ∈ ps, p.Neat)
    (hitems : ∀ p ∈ ps, IsValue p.core) : IsValue (arrayText lead ps)
  | object {lead : List Char} {ms : List Member} (hlead : Blanks lead) (hneat : ∀ m ∈ ms, m.Neat)
    (hkeys : ∀ m ∈ ms, IsBody m.key) (hvalues : ∀ m ∈ ms, IsValue m.value) :
    IsValue (objectText lead ms)

end LayeredCss.Json
