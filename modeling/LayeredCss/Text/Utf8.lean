/-!
# Decoding UTF-8

A byte sequence is cut into well-formed characters and ill-formed runs.  A run is as long as some
well-formed character starts with it, and one byte otherwise; each run is reported once, so the
lossy reading writes one replacement character for it.

* `Utf8.decode`: characters in order, `none` for a run;
* `Utf8.strict?`: the text, if there is no run;
* `Utf8.lossy`: the text with U+FFFD for each run.
-/

namespace LayeredCss.Utf8

/-- Six bits of a character, from a byte that continues one. -/
def payload? (b : UInt8) : Option Nat :=
  if 0x80 ≤ b ∧ b ≤ 0xBF then some (b.toNat - 0x80) else none

/-- The payload of a second byte, which must lie in a range that its leading byte fixes: this keeps
out overlong forms, surrogates and numbers above U+10FFFF. -/
def second? (lead b : UInt8) : Option Nat :=
  let low := if lead = 0xE0 then 0xA0 else if lead = 0xF0 then 0x90 else 0x80
  let high := if lead = 0xED then 0x9F else if lead = 0xF4 then 0x8F else 0xBF
  if low ≤ b ∧ b ≤ high then payload? b else none

/-- Characters in order; `none` stands for one ill-formed run. -/
def decode : List UInt8 → List (Option Char)
  | [] => []
  | b₀ :: rest =>
    if b₀ < 0x80 then some (Char.ofNat b₀.toNat) :: decode rest
    else if b₀ < 0xC2 ∨ 0xF4 < b₀ then none :: decode rest
    else match rest with
      | [] => [none]
      | b₁ :: rest₁ => match second? b₀ b₁ with
        | none => none :: decode (b₁ :: rest₁)
        | some p₁ =>
          if b₀ < 0xE0 then some (Char.ofNat ((b₀.toNat - 0xC0) * 64 + p₁)) :: decode rest₁
          else match rest₁ with
            | [] => [none]
            | b₂ :: rest₂ => match payload? b₂ with
              | none => none :: decode (b₂ :: rest₂)
              | some p₂ =>
                if b₀ < 0xF0 then
                  some (Char.ofNat (((b₀.toNat - 0xE0) * 64 + p₁) * 64 + p₂)) :: decode rest₂
                else match rest₂ with
                  | [] => [none]
                  | b₃ :: rest₃ => match payload? b₃ with
                    | none => none :: decode (b₃ :: rest₃)
                    | some p₃ =>
                      some (Char.ofNat ((((b₀.toNat - 0xF0) * 64 + p₁) * 64 + p₂) * 64 + p₃)) ::
                        decode rest₃

/-- The text of a well-formed byte sequence. -/
def strict? (bytes : List UInt8) : Option String :=
  ((decode bytes).mapM id).map String.ofList

/-- The text with one U+FFFD for each ill-formed run. -/
def lossy (bytes : List UInt8) : String :=
  String.ofList ((decode bytes).map (·.getD '\uFFFD'))

end LayeredCss.Utf8
