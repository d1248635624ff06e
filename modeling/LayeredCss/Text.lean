/-!
# Cutting and searching text

Paths, module ids and script lines are cut at single characters, and sources are searched for a
marker.  Everything here works on lists of characters.
-/

namespace LayeredCss.Text

/-- Whether `part` occurs in the text as one run of characters. -/
def includes (part : List Char) : List Char → Bool
  | [] => part.isEmpty
  | c :: rest => part.isPrefixOf (c :: rest) || includes part rest

/-- The text before the first `stop`, the whole text if there is none. -/
def beforeFirst (stop : Char) (s : List Char) : List Char :=
  s.takeWhile (· != stop)

/-- The text after the first `stop`, if there is one. -/
def afterFirst? (stop : Char) (s : List Char) : Option (List Char) :=
  (s.dropWhile (· != stop)).tail?

/-- The text after the last character that is a `stop`, if there is one. -/
def afterLast? (stop : Char → Bool) : List Char → Option (List Char)
  | [] => none
  | c :: rest => (afterLast? stop rest).or (if stop c then some rest else none)

/-- The text after the last `stop`, the whole text if there is none. -/
def afterLast (stop : Char → Bool) (s : List Char) : List Char :=
  (afterLast? stop s).getD s

/-- The text with ASCII letters in lower case. -/
def lowerCase (s : String) : String := String.ofList (s.toList.map Char.toLower)

/-- A digit to base sixteen, in lower case. -/
def hexDigit (n : Nat) : Char := Nat.digitChar (n % 16)

/-- The pieces between the occurrences of `stop`; one more than there are occurrences. -/
def pieces (stop : Char) : List Char → List (List Char)
  | [] => [[]]
  | c :: rest =>
    if c = stop then [] :: pieces stop rest
    else match pieces stop rest with
      | [] => [[c]]
      | piece :: more => (c :: piece) :: more

/-- The text cut at the first blank: a word, and what follows the blank. -/
def cutWord (s : List Char) : List Char × List Char :=
  (beforeFirst ' ' s, (afterFirst? ' ' s).getD [])

theorem includes_iff {part text : List Char} : includes part text = true ↔ part <:+: text := by
  induction text with
  | nil => simp [includes, List.isEmpty_iff]
  | cons c rest ih =>
    simp [includes, ih, List.infix_cons_iff, List.isPrefixOf_iff_prefix]

end LayeredCss.Text
