import LayeredCss.Proofs.Json.Grammar

/-!
# Reading tokens

The tokens of the grammar are read as what they write, whatever follows them.  Only a number has to
look ahead: what follows it must not go on as a number would.

* `stringBody_of_writes`, `skipString_of_isBody`: strings, read and passed over;
* `number_digitChars`: a natural number of 64 bits;
* `skipNumber_of_isMagnitude`: any number, passed over.
-/

namespace LayeredCss.Json

/-! ## Blanks -/

section Blanks

variable {b s : List Char}

theorem skipBlanks_append (hb : Blanks b) : skipBlanks (b ++ s) = skipBlanks s :=
  List.dropWhile_append_of_pos hb

theorem skipBlanks_cons {c : Char} (hc : isBlank c = false) : skipBlanks (c :: s) = c :: s :=
  List.dropWhile_cons_of_neg (by simp [hc])

/-- Blanks are passed over up to the next token. -/
theorem skipBlanks_token {c : Char} (hb : Blanks b) (hc : isBlank c = false) :
    skipBlanks (b ++ c :: s) = c :: s := by
  rw [skipBlanks_append hb, skipBlanks_cons hc]

theorem skipBlanks_blanks (hb : Blanks b) : skipBlanks b = [] := by
  have h := skipBlanks_append (s := []) hb
  rwa [List.append_nil] at h

end Blanks

/-! ## Strings -/

theorem Plain.ne {c : Char} (hc : Plain c) : c ≠ '\x22' ∧ c ≠ '\x5c' ∧ ¬ c.toNat < 0x20 :=
  ⟨hc.1, hc.2.1, Nat.not_lt.mpr hc.2.2⟩

/-- The letters after a backslash do not stand for a unit. -/
theorem ne_of_unescape? {e : Char} (he : (unescape? e).isSome = true) : e ≠ 'u' := by
  rintro rfl
  revert he
  decide

/-- **A string is read as the characters that it writes.** -/
theorem stringBody_of_writes {cs t : List Char} (h : WritesBody cs t) (rest : List Char) :
    stringBody (t ++ '\x22' :: rest) = .ok (cs, rest) := by
  induction h with
  | nil =>
    rw [List.nil_append, stringBody.eq_def]
    simp only [if_true]
  | @plain c cs t hc _ ih =>
    obtain ⟨hquote, hslash, hcontrol⟩ := hc.ne
    rw [List.cons_append, stringBody.eq_def]
    simp only [hquote, hslash, hcontrol, if_false, ih]
    rfl
  | @letter e c cs t he _ ih =>
    have hu : e ≠ 'u' := ne_of_unescape? (by rw [he]; rfl)
    rw [List.cons_append, List.cons_append, stringBody.eq_def]
    simp only [hu, he, ih, Char.reduceEq, if_false, if_true]
    rfl
  | @unit h₁ h₂ h₃ h₄ u cs t hu hrange _ ih =>
    have htrail : ¬(0xDC00 ≤ u ∧ u ≤ 0xDFFF) := by omega
    have hlead : ¬(0xD800 ≤ u ∧ u ≤ 0xDBFF) := by omega
    simp only [List.cons_append]
    rw [stringBody.eq_def]
    simp only [hu, htrail, hlead, ih, Char.reduceEq, if_false, if_true]
    rfl
  | @pair h₁ h₂ h₃ h₄ k₁ k₂ k₃ k₄ u w cs t hu hlead hw htrail _ ih =>
    have hnot : ¬(0xDC00 ≤ u ∧ u ≤ 0xDFFF) := by omega
    simp only [List.cons_append]
    rw [stringBody.eq_def]
    simp only [hu, hnot, hlead, hw, htrail, ih, Char.reduceEq, if_false, if_true, ne_eq,
      not_true_eq_false, and_self]
    rfl

/-- **A string that is not wanted is passed over.** -/
theorem skipString_of_isBody {t : List Char} (h : IsBody t) (rest : List Char) :
    skipString (t ++ '\x22' :: rest) = .ok rest := by
  induction h with
  | nil =>
    rw [List.nil_append, skipString.eq_def]
    simp only [if_true]
  | @plain c t hc _ ih =>
    obtain ⟨hquote, hslash, hcontrol⟩ := hc.ne
    rw [List.cons_append, skipString.eq_def]
    simp only [hquote, hslash, hcontrol, if_false, ih]
  | @letter e t he _ ih =>
    obtain ⟨c, hc⟩ := Option.isSome_iff_exists.mp he
    rw [List.cons_append, List.cons_append, skipString.eq_def]
    simp only [ne_of_unescape? he, hc, ih, Char.reduceEq, if_false, if_true]
  | @unit h₁ h₂ h₃ h₄ t hu _ ih =>
    obtain ⟨u, hu⟩ := Option.isSome_iff_exists.mp hu
    simp only [List.cons_append]
    rw [skipString.eq_def]
    simp only [hu, ih, Char.reduceEq, if_false, if_true]

/-! ## Numbers -/

/-- Whether a number would go on with the character. -/
def continuesNumber (c : Char) : Bool := isDigit c || c == '.' || isPowerMark c

/-- What follows a value does not go on as a number would. -/
def Delimited (rest : List Char) : Prop := ∀ c ∈ rest.head?, continuesNumber c = false

theorem delimited_nil : Delimited [] := fun _ hc => by cases hc

theorem delimited_cons {c : Char} {rest : List Char} (hc : continuesNumber c = false) :
    Delimited (c :: rest) := fun d hd => by
  cases hd
  exact hc

theorem continuesNumber_of_blank {c : Char} (hc : isBlank c = true) : continuesNumber c = false := by
  simp only [isBlank, Bool.or_eq_true, beq_iff_eq] at hc
  rcases hc with ((rfl | rfl) | rfl) | rfl <;> decide

theorem Blanks.delimited {b rest : List Char} (hb : Blanks b) (hrest : Delimited rest) :
    Delimited (b ++ rest) := by
  cases b with
  | nil => exact hrest
  | cons c b => exact delimited_cons (continuesNumber_of_blank (hb c List.mem_cons_self))

section Digits

variable {ds rest : List Char}

/-- The next character is no digit. -/
def NoDigit (rest : List Char) : Prop := ∀ c ∈ rest.head?, isDigit c = false

theorem Delimited.noDigit (h : Delimited rest) : NoDigit rest := fun c hc => by
  have hnot := h c hc
  simp only [continuesNumber, Bool.or_eq_false_iff] at hnot
  exact hnot.1.1

theorem takeWhile_digits (hds : ∀ c ∈ ds, isDigit c = true) (hrest : NoDigit rest) :
    (ds ++ rest).takeWhile isDigit = ds := by
  rw [List.takeWhile_append_of_pos hds]
  cases rest with
  | nil => simp
  | cons c rest => simp [hrest c rfl]

theorem dropWhile_digits (hds : ∀ c ∈ ds, isDigit c = true) (hrest : NoDigit rest) :
    (ds ++ rest).dropWhile isDigit = rest := by
  rw [List.dropWhile_append_of_pos hds]
  cases rest with
  | nil => simp
  | cons c rest => simp [hrest c rfl]

end Digits

section Integers

variable {m n : Nat} {ds rest : List Char}

theorem isDigit_of_mem_digitChars {c : Char} (hc : c ∈ digitChars n) : isDigit c = true :=
  Nat.isDigit_of_mem_toDigits (by decide) (by decide) hc

theorem digits_digitChars (n : Nat) : Digits (digitChars n) :=
  ⟨Nat.toDigits_ne_nil, fun _ hc => isDigit_of_mem_digitChars hc⟩

/-- A number does not begin with a zero, unless it is zero. -/
theorem eq_zero_of_head?_digitChars (h : (digitChars n).head? = some '0') : n = 0 := by
  induction n using Nat.strongRecOn with
  | _ n ih =>
    rw [digitChars, Nat.toDigits_eq_if (by decide)] at h
    by_cases hsmall : n < 10
    · rw [if_pos hsmall] at h
      exact Nat.digitChar_eq_zero.mp (Option.some.inj h)
    · rw [if_neg hsmall] at h
      have hhead : (digitChars (n / 10)).head? = some '0' := by
        rwa [List.head?_append_of_ne_nil _ Nat.toDigits_ne_nil] at h
      have := ih (n / 10) (by omega) hhead
      omega

theorem le_ofDigitChars (ds : List Char) (m : Nat) : m ≤ Nat.ofDigitChars 10 ds m := by
  induction ds generalizing m with
  | nil => exact Nat.le_refl m
  | cons c ds ih =>
    rw [Nat.ofDigitChars_cons]
    have := ih (10 * m + (c.toNat - '0'.toNat))
    omega

/-- Digits that keep within bounds are all taken. -/
theorem absorb_eq (h : Nat.ofDigitChars 10 ds m ≤ maxSignificand) :
    absorb m ds = (Nat.ofDigitChars 10 ds m, []) := by
  induction ds generalizing m with
  | nil => rfl
  | cons c ds ih =>
    have hstep : 10 * m + (c.toNat - '0'.toNat) = m * 10 + digitValue c := by
      rw [Nat.mul_comm]; rfl
    rw [Nat.ofDigitChars_cons, hstep] at h ⊢
    have hle : m * 10 + digitValue c ≤ maxSignificand := by
      exact Nat.le_trans (le_ofDigitChars ds _) h
    rw [absorb, if_neg (Nat.not_lt.mpr hle), ih h]

/-- Nothing follows the digits that belongs to the number. -/
theorem afterInteger_digits (hds : Nat.ofDigitChars 10 ds 0 = n) (hn : n ≤ maxSignificand)
    (hrest : Delimited rest) : afterInteger false ds rest = .ok (.integer n, rest) := by
  have habsorb : absorb 0 ds = (n, []) := by
    rw [absorb_eq (by rw [hds]; exact hn), hds]
  cases rest with
  | nil => simp [afterInteger, habsorb, integerNumber]
  | cons c rest =>
    have hc := hrest c rfl
    simp only [continuesNumber, Bool.or_eq_false_iff, beq_eq_false_iff_ne, ne_eq] at hc
    simp [afterInteger, habsorb, integerNumber, hc.1.2, hc.2]

/-- **A natural number of 64 bits is read as it is.** -/
theorem number_digitChars (hn : n ≤ maxSignificand) (hrest : Delimited rest) :
    number (digitChars n ++ rest) = .ok (.integer n, rest) := by
  obtain ⟨hne, hdigits⟩ := digits_digitChars n
  have hvalue : Nat.ofDigitChars 10 (digitChars n) 0 = n := Nat.ofDigitChars_ten_toDigits
  have hhead := eq_zero_of_head?_digitChars (n := n)
  cases hds : digitChars n with
  | nil => exact absurd hds hne
  | cons c ds =>
    rw [hds] at hdigits hvalue hhead
    have hc : isDigit c = true := hdigits c List.mem_cons_self
    have hminus : c ≠ '-' := by rintro rfl; revert hc; decide
    have hnumber : number (c :: ds ++ rest) = numberBody false (c :: (ds ++ rest)) := by
      simp [number, hminus]
    rw [hnumber, numberBody]
    by_cases hzero : c = '0'
    · -- zero is written by this one digit
      have hn0 : n = 0 := hhead (by rw [hzero]; rfl)
      subst hn0
      have hds0 : ds = [] := (congrArg List.tail hds).symm
      subst hds0 hzero
      rw [if_pos rfl]
      have hnot : ((([] ++ rest).head?.map isDigit).getD false) = false := by
        cases hr : rest with
        | nil => rfl
        | cons d rest => exact hrest.noDigit d (by rw [hr]; rfl)
      rw [hnot]
      exact afterInteger_digits rfl hn hrest
    · rw [if_neg hzero, if_pos hc]
      have hrun : ∀ d ∈ ds, isDigit d = true := fun d hd => hdigits d (List.mem_cons_of_mem _ hd)
      rw [takeWhile_digits hrun hrest.noDigit, dropWhile_digits hrun hrest.noDigit]
      exact afterInteger_digits hvalue hn hrest

end Integers

/-! ### Numbers that are not wanted -/

section Skipped

variable {s rest : List Char}

theorem IsPower.noDigit (h : IsPower s) (hrest : Delimited rest) : NoDigit (s ++ rest) := by
  rcases h with rfl | ⟨mark, sign, ds, hmark, -, -, rfl⟩
  · exact hrest.noDigit
  · rintro c ⟨⟩
    simp only [isPowerMark, Bool.or_eq_true, beq_iff_eq] at hmark
    rcases hmark with rfl | rfl <;> decide

theorem skipAfterDigits_of_isPower (h : IsPower s) (hrest : Delimited rest) :
    skipAfterDigits (s ++ rest) = .ok rest := by
  rcases h with rfl | ⟨mark, sign, ds, hmark, hsign, ⟨hne, hds⟩, rfl⟩
  · cases rest with
    | nil => rfl
    | cons c rest =>
      have hc := hrest c rfl
      simp only [continuesNumber, Bool.or_eq_false_iff] at hc
      simp [skipAfterDigits, hc.2]
  · have htake := takeWhile_digits hds hrest.noDigit
    have hdrop := dropWhile_digits hds hrest.noDigit
    have hpower : skipPower (sign ++ (ds ++ rest)) = .ok rest := by
      simp only [List.mem_cons, List.not_mem_nil, or_false] at hsign
      rcases hsign with rfl | rfl | rfl
      · obtain ⟨d, ds, rfl⟩ := List.exists_cons_of_ne_nil hne
        have hd : isDigit d = true := hds d List.mem_cons_self
        have hplus : d ≠ '+' := by rintro rfl; revert hd; decide
        have hminus : d ≠ '-' := by rintro rfl; revert hd; decide
        rw [List.cons_append] at htake hdrop
        simp [skipPower, hplus, hminus, htake, hdrop]
      · simp [skipPower, htake, hdrop, hne]
      · simp [skipPower, htake, hdrop, hne]
    simp [skipAfterDigits, hmark, hpower]

theorem IsPower.ne_point (h : IsPower s) (hrest : Delimited rest) (t : List Char) :
    s ++ rest ≠ '.' :: t := by
  rcases h with rfl | ⟨mark, sign, ds, hmark, -, -, rfl⟩
  · rintro rfl
    exact absurd (hrest '.' rfl) (by decide)
  · intro heq
    obtain rfl : mark = '.' := List.head_eq_of_cons_eq heq
    exact absurd hmark (by decide)

/-- **A number that is not wanted is passed over.** -/
theorem skipNumber_of_isMagnitude (h : IsMagnitude s) (hrest : Delimited rest) :
    skipNumber (s ++ rest) = .ok rest := by
  obtain ⟨whole, fraction, power, ⟨⟨hne, hwhole⟩, hzero⟩, hfraction, hpower, rfl⟩ := h
  have hskip := skipAfterDigits_of_isPower hpower hrest
  have hnext := hpower.noDigit hrest
  have hlone : (whole.head? == some '0' && whole.length != 1) = false := by
    by_cases h0 : whole.head? = some '0'
    · simp [hzero h0]
    · simp [h0]
  rcases hfraction with rfl | ⟨places, ⟨hplaces, hdigits⟩, rfl⟩
  · have htake := takeWhile_digits hwhole hnext
    have hdrop := dropWhile_digits hwhole hnext
    have hpoint := hpower.ne_point hrest
    simp only [List.nil_append, List.append_assoc, skipNumber, htake, hdrop, hlone, hne,
      List.isEmpty_iff, Bool.or_false, if_false, hskip]
  · have hmark : NoDigit ('.' :: (places ++ (power ++ rest))) := by
      rintro c ⟨⟩
      decide
    have htake := takeWhile_digits hwhole hmark
    have hdrop := dropWhile_digits hwhole hmark
    simp only [List.cons_append, List.append_assoc, skipNumber, htake, hdrop, hlone, hne,
      List.isEmpty_iff, Bool.or_false, if_false, hplaces, takeWhile_digits hdigits hnext,
      dropWhile_digits hdigits hnext, hskip]

end Skipped

end LayeredCss.Json
