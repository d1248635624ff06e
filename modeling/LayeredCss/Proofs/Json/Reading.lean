import LayeredCss.Proofs.Json.Tokens

/-!
# Reading values

A reader takes a text if it reads it wherever it stands: after any blanks, and before anything that
does not go on as a number would.  The readers for the shapes of fields take the texts that write
what they are for; arrays and objects are followed item by item, and the reader of a member hands on
what has been read so far.

* `Reader.Takes`, `read_of_takes`: a text that a reader takes, also as a whole text;
* `takes_list`, `takes_optional_some`, `takes_variant` and so on: the shapes of fields;
* `Goes`, `takes_record`: a record is read from its members in the order in which they stand;
* `takes_skip`: any value is passed over.
-/

namespace LayeredCss.Json

@[simp] theorem pure_eq_ok {α : Type} (a : α) : (pure a : Except Fault α) = .ok a := rfl

@[simp] theorem ok_bind {α β : Type} (a : α) (f : α → Except Fault β) :
    Except.ok a >>= f = f a := rfl

theorem word_append (cs rest : List Char) : word cs (cs ++ rest) = .ok rest := by
  induction cs with
  | nil => rfl
  | cons c cs ih => rw [List.cons_append, word, if_pos rfl, ih]

/-- A text that begins neither with a blank nor with what ends an array. -/
def Headed (t : List Char) : Prop := ∃ c s, t = c :: s ∧ isBlank c = false ∧ c ≠ ']'

/-- A reader reads a text as the given thing and stops at its end. -/
structure Reader.Takes {α : Type} (r : Reader α) (t : List Char) (a : α) : Prop where
  headed : Headed t
  reads : ∀ {b rest : List Char}, Blanks b → Delimited rest → r (b ++ (t ++ rest)) = .ok (a, rest)

section Shapes

variable {α : Type} {r : Reader α} {t : List Char} {a : α}

/-- **What a reader takes is read as a whole text, with blanks around it.** -/
theorem read_of_takes {b b' : List Char} (h : r.Takes t a) (hb : Blanks b) (hb' : Blanks b') :
    read r (String.ofList (b ++ (t ++ b'))) = .ok a := by
  have hdelimited : Delimited b' := by
    have := hb'.delimited delimited_nil
    rwa [List.append_nil] at this
  simp [read, h.reads hb hdelimited, skipBlanks_blanks hb']

/-- It is enough that the text is read from its first character on. -/
theorem takes_of_token {c : Char} {s : List Char} (hblank : isBlank c = false) (hend : c ≠ ']')
    (hread : ∀ {text rest : List Char}, skipBlanks text = c :: (s ++ rest) → Delimited rest →
      r text = .ok (a, rest)) : r.Takes (c :: s) a where
  headed := ⟨c, s, rfl, hblank, hend⟩
  reads hb hrest := hread (skipBlanks_token hb hblank) hrest

/-- A word is taken if its first character decides that it is wanted. -/
theorem takes_word {c : Char} {cs : List Char} (hblank : isBlank c = false) (hend : c ≠ ']')
    (hread : ∀ {text s : List Char}, skipBlanks text = c :: s →
      r text = (do return (a, ← word cs s))) : r.Takes (c :: cs) a :=
  takes_of_token hblank hend fun htext _ => by
    rw [hread htext, word_append, ok_bind, pure_eq_ok]

theorem takes_true : Reader.bool.Takes ['t', 'r', 'u', 'e'] true :=
  takes_word (by decide) (by decide) fun htext => by
    simp only [Reader.bool, htext, if_true]

theorem takes_false : Reader.bool.Takes ['f', 'a', 'l', 's', 'e'] false :=
  takes_word (by decide) (by decide) fun htext => by
    simp only [Reader.bool, htext, Char.reduceEq, if_true, if_false]

theorem ne_of_isDigit {c d : Char} (hc : isDigit c = true) (hd : isDigit d = false) : c ≠ d := by
  rintro rfl
  exact absurd hc (by simp [hd])

theorem isBlank_of_isDigit {c : Char} (hc : isDigit c = true) : isBlank c = false := by
  simp [isBlank, ne_of_isDigit hc (d := ' ') rfl, ne_of_isDigit hc (d := '\n') rfl,
    ne_of_isDigit hc (d := '\t') rfl, ne_of_isDigit hc (d := '\r') rfl]

theorem takes_natBelow {bound n : Nat} (hn : n < bound) (hbound : bound ≤ UInt64.size) :
    (Reader.natBelow bound).Takes (digitChars n) n := by
  obtain ⟨hne, hdigits⟩ := digits_digitChars n
  obtain ⟨c, s, hcs⟩ := List.exists_cons_of_ne_nil hne
  have hc : isDigit c = true := hdigits c (by rw [hcs]; exact List.mem_cons_self)
  rw [hcs]
  refine takes_of_token (isBlank_of_isDigit hc) (ne_of_isDigit hc rfl)
    fun {text rest} htext hrest => ?_
  have hnumber : number (c :: (s ++ rest)) = .ok (.integer n, rest) := by
    have := number_digitChars (n := n) (Nat.le_sub_one_of_lt (by omega)) hrest
    rwa [hcs, List.cons_append] at this
  simp only [Reader.natBelow, htext, hc, or_true, if_true, hnumber]
  simp [hn]

theorem takes_uint32 (n : UInt32) : Reader.uint32.Takes (digitChars n.toNat) n := by
  have h := takes_natBelow (n := n.toNat) n.toNat_lt (by decide)
  exact ⟨h.headed, fun hb hrest => by simp [Reader.uint32, h.reads hb hrest]⟩

theorem takes_uint64 (n : UInt64) : Reader.uint64.Takes (digitChars n.toNat) n := by
  have h := takes_natBelow (n := n.toNat) n.toNat_lt (Nat.le_refl _)
  exact ⟨h.headed, fun hb hrest => by simp [Reader.uint64, h.reads hb hrest]⟩

theorem stringBody_closed {cs body : List Char} (h : WritesBody cs body) (rest : List Char) :
    stringBody (body ++ ['\x22'] ++ rest) = .ok (cs, rest) := by
  rw [List.append_assoc]
  exact stringBody_of_writes h rest

theorem takes_string {s : String} (h : WritesText s t) : Reader.string.Takes t s := by
  obtain ⟨body, hbody, rfl⟩ := h
  refine takes_of_token (by decide) (by decide) fun {text rest} htext _ => ?_
  simp only [Reader.string, htext, if_true, stringBody_closed hbody rest]
  simp

theorem takes_optional_none : (Reader.optional r).Takes ['n', 'u', 'l', 'l'] none :=
  takes_word (by decide) (by decide) fun htext => by
    simp only [Reader.optional, htext, if_true]

theorem takes_optional_some (h : r.Takes t a) (hnull : t.head? ≠ some 'n') :
    (Reader.optional r).Takes t (some a) := by
  obtain ⟨c, s, rfl, hblank, hend⟩ := h.headed
  refine takes_of_token hblank hend fun {text rest} htext hrest => ?_
  have hc : c ≠ 'n' := fun hc => hnull (by rw [hc]; rfl)
  have hread : r (c :: (s ++ rest)) = .ok (a, rest) := h.reads blanks_nil hrest
  simp only [Reader.optional, htext, hc, if_false, hread, ok_bind, pure_eq_ok]

/-- A variant is read from the string that names it. -/
theorem takes_variant {cases : String → Option α} {name : String} (h : WritesText name t)
    (hcase : cases name = some a) : (Reader.variant cases).Takes t a := by
  obtain ⟨body, hbody, rfl⟩ := h
  refine takes_of_token (by decide) (by decide) fun {text rest} htext _ => ?_
  have hkey : Reader.key ('\x22' :: (body ++ ['\x22'] ++ rest)) = .ok (name, rest) := by
    simp only [Reader.key, skipBlanks_cons (show isBlank '\x22' = false by decide), if_true,
      stringBody_closed hbody rest]
    simp
  simp only [Reader.variant, htext, Char.reduceEq, if_false, hkey]
  simp [hcase]

end Shapes

/-! ## Arrays -/

theorem Headed.append {s : List Char} (h : Headed s) (rest : List Char) : Headed (s ++ rest) := by
  obtain ⟨c, s, rfl, hc⟩ := h
  exact ⟨c, s ++ rest, rfl, hc⟩

theorem length_lt_length_pieces (close : Char) (ps : List Piece) :
    ps.length < (pieces close false ps).length := by
  induction ps with
  | nil => simp [pieces]
  | cons p ps ih =>
    simp only [pieces, Bool.false_eq_true, if_false, List.length_append, List.length_cons]
    omega

theorem length_le_length_pieces (close : Char) (ps : List Piece) :
    ps.length ≤ (pieces close true ps).length := by
  cases ps with
  | nil => exact Nat.zero_le _
  | cons p ps =>
    have := length_lt_length_pieces close ps
    simp only [pieces, List.length_append, List.length_cons]
    omega

/-- After an item a number does not go on. -/
theorem delimited_pieces {close : Char} {after : List Char} (hclose : continuesNumber close = false)
    (hafter : Blanks after) (ps : List Piece) (rest : List Char) :
    Delimited (after ++ (pieces close false ps ++ rest)) := by
  refine hafter.delimited ?_
  cases ps with
  | nil => exact delimited_cons hclose
  | cons p ps => exact delimited_cons (by decide)

section Arrays

variable {lead before s rest : List Char}

theorem nextItem_end (first : Bool) (hlead : Blanks lead) :
    nextItem first (lead ++ ']' :: rest) = .ok none := by
  simp [nextItem, skipBlanks_token hlead (show isBlank ']' = false by decide)]

theorem nextItem_item (first : Bool) (hlead : Blanks lead) (hbefore : Blanks before)
    (hs : Headed s) :
    nextItem first (lead ++ ((if first then [] else [',']) ++ (before ++ s))) = .ok (some s) := by
  obtain ⟨c, s, rfl, hblank, hend⟩ := hs
  cases first with
  | true =>
    have hskip : skipBlanks (lead ++ ([] ++ (before ++ c :: s))) = c :: s := by
      rw [List.nil_append, skipBlanks_append hlead, skipBlanks_token hbefore hblank]
    simp only [nextItem, if_true, hskip, hend, if_false]
  | false =>
    have hcomma : skipBlanks (lead ++ ([','] ++ (before ++ c :: s))) = ',' :: (before ++ c :: s) :=
      skipBlanks_token hlead (by decide)
    have hskip : skipBlanks (before ++ c :: s) = c :: s := skipBlanks_token hbefore hblank
    simp only [nextItem, Bool.false_eq_true, if_false, hcomma, Char.reduceEq, if_true, hskip, hend]

variable {α : Type} {r : Reader α}

/-- **The items of an array are read one after the other, if the reader takes each.** -/
theorem items_pieces {ps : List Piece} {as : List α}
    (h : List.Forall₂ (fun p a => p.Neat ∧ r.Takes p.core a) ps as) {fuel : Nat}
    (hfuel : ps.length < fuel) (hlead : Blanks lead) (first : Bool) (rest : List Char) :
    items r fuel first (lead ++ (pieces ']' first ps ++ rest)) = .ok (as, rest) := by
  induction h generalizing fuel first lead with
  | nil =>
    obtain ⟨fuel, rfl⟩ := Nat.exists_eq_add_one_of_ne_zero (Nat.ne_of_gt hfuel)
    have hend : skipBlanks (lead ++ ']' :: rest) = ']' :: rest := skipBlanks_token hlead (by decide)
    simp [items, pieces, nextItem_end first hlead, endArray, hend]
  | @cons p a ps as hp _ ih =>
    obtain ⟨fuel, rfl⟩ := Nat.exists_eq_add_one_of_ne_zero (Nat.ne_of_gt (Nat.zero_lt_of_lt hfuel))
    obtain ⟨⟨hbefore, hafter⟩, htakes⟩ := hp
    have hnext := nextItem_item first hlead hbefore
      (htakes.headed.append (p.after ++ (pieces ']' false ps ++ rest)))
    have hdelimited := delimited_pieces (show continuesNumber ']' = false by decide) hafter ps rest
    have hitem := htakes.reads blanks_nil hdelimited
    have hrest := ih (Nat.lt_of_succ_lt_succ hfuel) hafter false
    simp only [pieces, List.append_assoc, items, hnext, ok_bind]
    simp only [List.nil_append] at hitem
    simp only [hitem, hrest, ok_bind, pure_eq_ok]

/-- The items of an array are read in as many steps as their text has characters. -/
theorem items_text {ps : List Piece} {as : List α}
    (h : List.Forall₂ (fun p a => p.Neat ∧ r.Takes p.core a) ps as) (hlead : Blanks lead) :
    items r ((lead ++ pieces ']' true ps ++ rest).length + 1) true
      (lead ++ pieces ']' true ps ++ rest) = .ok (as, rest) := by
  have hlength := length_le_length_pieces ']' ps
  have hfuel : ps.length < (lead ++ pieces ']' true ps ++ rest).length + 1 := by
    simp only [List.length_append]
    omega
  have hitems := items_pieces h hfuel hlead true rest
  rwa [← List.append_assoc] at hitems

theorem takes_list {ps : List Piece} {as : List α} (hlead : Blanks lead)
    (h : List.Forall₂ (fun p a => p.Neat ∧ r.Takes p.core a) ps as) :
    (Reader.list r).Takes (arrayText lead ps) as :=
  takes_of_token (by decide) (by decide) fun {text rest} htext _ => by
    simp only [Reader.list, htext, if_true, items_text h hlead]

/-- An array is taken if its items are. -/
theorem takes_list_of_writes {Writes : α → List Char → Prop} {as : List α} {t : List Char}
    (hitem : ∀ {a t}, Writes a t → r.Takes t a) (h : WritesArray Writes as t) :
    (Reader.list r).Takes t as := by
  obtain ⟨lead, ps, hlead, hps, rfl⟩ := h
  exact takes_list hlead (hps.imp fun _ _ hp => ⟨hp.1, hitem hp.2⟩)

end Arrays

/-! ## Objects -/

/-- A reader of members goes over the members, each with what has been read up to it. -/
inductive Goes {σ : Type} (member : σ → Reader σ) : σ → List Member → σ → Prop
  | nil {st : σ} : Goes member st [] st
  | cons {m : Member} {ms : List Member} {st st' st'' : σ} (hneat : m.Neat)
    (hmember : ∀ {rest}, Delimited rest → member st (m.body ++ rest) = .ok (st', rest))
    (hrest : Goes member st' ms st'') : Goes member st (m :: ms) st''

section Objects

variable {lead before s rest : List Char}

theorem nextKey_end (first : Bool) (hlead : Blanks lead) :
    nextKey first (lead ++ '\x7d' :: rest) = .ok none := by
  simp [nextKey, skipBlanks_token hlead (show isBlank '\x7d' = false by decide)]

theorem nextKey_key (first : Bool) (hlead : Blanks lead) (hbefore : Blanks before) :
    nextKey first (lead ++ ((if first then [] else [',']) ++ (before ++ '\x22' :: s))) =
      .ok (some s) := by
  cases first with
  | true =>
    have hskip : skipBlanks (lead ++ ([] ++ (before ++ '\x22' :: s))) = '\x22' :: s := by
      rw [List.nil_append, skipBlanks_append hlead, skipBlanks_token hbefore (by decide)]
    simp only [nextKey, if_true, hskip, Char.reduceEq, if_false]
  | false =>
    have hcomma : skipBlanks (lead ++ ([','] ++ (before ++ '\x22' :: s))) =
        ',' :: (before ++ '\x22' :: s) := skipBlanks_token hlead (by decide)
    have hskip : skipBlanks (before ++ '\x22' :: s) = '\x22' :: s :=
      skipBlanks_token hbefore (by decide)
    simp only [nextKey, Bool.false_eq_true, if_false, hcomma, Char.reduceEq, if_true, hskip]

theorem colon_append (hlead : Blanks lead) : colon (lead ++ ':' :: s) = .ok s := by
  simp only [colon, skipBlanks_token hlead (show isBlank ':' = false by decide), if_true]

variable {σ : Type} {member : σ → Reader σ} {st st' : σ} {ms : List Member}

/-- **The members of an object are read one after the other, if the reader goes over them.** -/
theorem members_pieces (h : Goes member st ms st') {fuel : Nat} (hfuel : ms.length < fuel)
    (hlead : Blanks lead) (first : Bool) (rest : List Char) :
    members member fuel first st (lead ++ (pieces '\x7d' first (ms.map Member.piece) ++ rest)) =
      .ok (st', rest) := by
  induction h generalizing fuel first lead with
  | nil =>
    obtain ⟨fuel, rfl⟩ := Nat.exists_eq_add_one_of_ne_zero (Nat.ne_of_gt hfuel)
    have hend : skipBlanks (lead ++ '\x7d' :: rest) = '\x7d' :: rest :=
      skipBlanks_token hlead (by decide)
    simp [members, pieces, nextKey_end first hlead, endObject, hend]
  | @cons m ms st st' st'' hneat hmember _ ih =>
    obtain ⟨fuel, rfl⟩ := Nat.exists_eq_add_one_of_ne_zero (Nat.ne_of_gt (Nat.zero_lt_of_lt hfuel))
    have hnext := nextKey_key (s := m.body ++
      (m.after ++ (pieces '\x7d' false (ms.map Member.piece) ++ rest))) first hlead hneat.before
    have hdelimited := delimited_pieces (show continuesNumber '\x7d' = false by decide) hneat.after
      (ms.map Member.piece) rest
    have hrest := ih (Nat.lt_of_succ_lt_succ hfuel) hneat.after false
    simp only [List.map_cons, pieces, Member.piece, Member.core, List.append_assoc, List.cons_append,
      members, hnext, ok_bind]
    simp only [hmember hdelimited, ok_bind]
    exact hrest

/-- The members of an object are read in as many steps as their text has characters. -/
theorem members_text (h : Goes member st ms st') (hlead : Blanks lead) :
    members member ((lead ++ pieces '\x7d' true (ms.map Member.piece) ++ rest).length + 1) true st
      (lead ++ pieces '\x7d' true (ms.map Member.piece) ++ rest) = .ok (st', rest) := by
  have hlength := length_le_length_pieces '\x7d' (ms.map Member.piece)
  rw [List.length_map] at hlength
  have hfuel : ms.length <
      (lead ++ pieces '\x7d' true (ms.map Member.piece) ++ rest).length + 1 := by
    simp only [List.length_append]
    omega
  have hmembers := members_pieces h hfuel hlead true rest
  rwa [← List.append_assoc] at hmembers

end Objects

/-! ## Values that are not wanted -/

theorem length_core_le {p : Piece} {ps : List Piece} (hp : p ∈ ps) (close : Char) (first : Bool) :
    p.core.length ≤ (pieces close first ps).length := by
  induction ps generalizing first with
  | nil => cases hp
  | cons q ps ih =>
    simp only [pieces, List.length_append]
    rcases List.mem_cons.mp hp with rfl | hp
    · omega
    · have := ih hp false
      omega

section Skipped

variable {t : List Char} {depth : Nat}

theorem IsMagnitude.head {t : List Char} (h : IsMagnitude t) :
    ∃ c s, t = c :: s ∧ isDigit c = true := by
  obtain ⟨whole, fraction, power, ⟨⟨hne, hdigits⟩, -⟩, -, -, rfl⟩ := h
  obtain ⟨c, s, rfl⟩ := List.exists_cons_of_ne_nil hne
  exact ⟨c, s ++ (fraction ++ power), rfl, hdigits c List.mem_cons_self⟩

theorem takes_skip_number (h : IsNumber t) : (Reader.skipNested depth).Takes t () := by
  rcases h with h | ⟨magnitude, h, rfl⟩
  · obtain ⟨c, s, rfl, hc⟩ := h.head
    refine takes_of_token (isBlank_of_isDigit hc) (ne_of_isDigit hc rfl)
      fun {text rest} htext hrest => ?_
    have hskip : skipNumber (c :: (s ++ rest)) = .ok rest := skipNumber_of_isMagnitude h hrest
    rw [Reader.skipNested.eq_def]
    simp only [htext, ne_of_isDigit hc (d := 'n') rfl, ne_of_isDigit hc (d := 't') rfl,
      ne_of_isDigit hc (d := 'f') rfl, ne_of_isDigit hc (d := '-') rfl, hc, if_true, if_false,
      hskip, ok_bind, pure_eq_ok]
  · refine takes_of_token (by decide) (by decide) fun {text rest} htext hrest => ?_
    rw [Reader.skipNested.eq_def]
    simp only [htext, Char.reduceEq, if_true, if_false, skipNumber_of_isMagnitude h hrest, ok_bind,
      pure_eq_ok]

theorem takes_skip_string (h : IsBody t) :
    (Reader.skipNested depth).Takes ('\x22' :: (t ++ ['\x22'])) () := by
  refine takes_of_token (by decide) (by decide) fun {text rest} htext _ => ?_
  have hskip : skipString (t ++ ['\x22'] ++ rest) = .ok rest := by
    rw [List.append_assoc]
    exact skipString_of_isBody h rest
  rw [Reader.skipNested.eq_def]
  simp only [htext, Char.reduceEq, show isDigit '\x22' = false by decide, Bool.false_eq_true,
    if_true, if_false, hskip, ok_bind, pure_eq_ok]

theorem takes_skip_array {lead : List Char} {ps : List Piece} (hlead : Blanks lead)
    (hneat : ∀ p ∈ ps, p.Neat) (hitems : ∀ p ∈ ps, (Reader.skipNested depth).Takes p.core ()) :
    (Reader.skipNested (depth + 1)).Takes (arrayText lead ps) () := by
  refine takes_of_token (by decide) (by decide) fun {text rest} htext _ => ?_
  have hall : List.Forall₂ (fun p a => p.Neat ∧ (Reader.skipNested depth).Takes p.core a) ps
      (ps.map fun _ => ()) :=
    List.forall₂_map_right_iff.mpr (List.forall₂_same.mpr fun p hp => ⟨hneat p hp, hitems p hp⟩)
  rw [Reader.skipNested.eq_def]
  simp only [htext, Char.reduceEq, show isDigit '[' = false by decide, Bool.false_eq_true,
    if_true, if_false, items_text hall hlead, ok_bind, pure_eq_ok]

theorem goes_skipped {ms : List Member} (hneat : ∀ m ∈ ms, m.Neat) (hkeys : ∀ m ∈ ms, IsBody m.key)
    (hvalues : ∀ m ∈ ms, (Reader.skipNested depth).Takes m.value ()) :
    Goes (Reader.skippedMember (Reader.skipNested depth)) () ms () := by
  induction ms with
  | nil => exact .nil
  | cons m ms ih =>
    obtain ⟨hm, hneat⟩ := List.forall_mem_cons.mp hneat
    obtain ⟨hkey, hkeys⟩ := List.forall_mem_cons.mp hkeys
    obtain ⟨hvalue, hvalues⟩ := List.forall_mem_cons.mp hvalues
    refine .cons hm (fun {rest} hrest => ?_) (ih hneat hkeys hvalues)
    have hskip := skipString_of_isBody hkey
      (m.beforeColon ++ ':' :: (m.afterColon ++ (m.value ++ rest)))
    simp only [Reader.skippedMember, Member.body, List.append_assoc, List.cons_append, hskip,
      ok_bind, colon_append hm.beforeColon, hvalue.reads hm.afterColon hrest]

theorem takes_skip_object {lead : List Char} {ms : List Member} (hlead : Blanks lead)
    (hmembers : Goes (Reader.skippedMember (Reader.skipNested depth)) () ms ()) :
    (Reader.skipNested (depth + 1)).Takes (objectText lead ms) () := by
  refine takes_of_token (by decide) (by decide) fun {text rest} htext _ => ?_
  rw [Reader.skipNested.eq_def]
  simp only [htext, Char.reduceEq, show isDigit '\x7b' = false by decide, Bool.false_eq_true,
    if_true, if_false, members_text hmembers hlead]

/-- A value nests no deeper than it is long. -/
theorem takes_skipNested (h : IsValue t) (hdepth : t.length ≤ depth) :
    (Reader.skipNested depth).Takes t () := by
  induction h generalizing depth with
  | null =>
    refine takes_word (by decide) (by decide) fun htext => ?_
    rw [Reader.skipNested.eq_def]
    simp only [htext, if_true]
  | true =>
    refine takes_word (by decide) (by decide) fun htext => ?_
    rw [Reader.skipNested.eq_def]
    simp only [htext, Char.reduceEq, if_true, if_false]
  | false =>
    refine takes_word (by decide) (by decide) fun htext => ?_
    rw [Reader.skipNested.eq_def]
    simp only [htext, Char.reduceEq, if_true, if_false]
  | number h => exact takes_skip_number h
  | string h => exact takes_skip_string h
  | @array lead ps hlead hneat _ ih =>
    simp only [arrayText, List.length_cons, List.length_append] at hdepth
    obtain ⟨depth, rfl⟩ := Nat.exists_eq_add_one_of_ne_zero (n := depth) (by omega)
    refine takes_skip_array hlead hneat fun p hp => ih p hp ?_
    have := length_core_le hp ']' true
    omega
  | @object lead ms hlead hneat hkeys _ ih =>
    simp only [objectText, List.length_cons, List.length_append] at hdepth
    obtain ⟨depth, rfl⟩ := Nat.exists_eq_add_one_of_ne_zero (n := depth) (by omega)
    refine takes_skip_object hlead (goes_skipped hneat hkeys fun m hm => ih m hm ?_)
    have hcore := length_core_le (List.mem_map_of_mem (f := Member.piece) hm) '\x7d' true
    simp only [Member.piece, Member.core, Member.body, List.length_cons, List.length_append] at hcore
    omega

/-- **Any value is passed over.** -/
theorem takes_skip (h : IsValue t) : Reader.skip.Takes t () where
  headed := (takes_skipNested h (Nat.le_refl _)).headed
  reads {b rest} hb hrest := by
    have hdepth : t.length ≤ (b ++ (t ++ rest)).length := by
      simp only [List.length_append]
      omega
    exact (takes_skipNested h hdepth).reads hb hrest

end Skipped

/-! ## Records -/

section Records

variable {σ α : Type} {fields : List (Field σ)} {st st' : σ} {m : Member}

/-- A member of a field is read by the field, unless there has been one. -/
theorem member_field {f : Field σ} (hm : m.Neat) (hkey : WritesBody f.key.toList m.key)
    (hfind : fields.find? (fun g => g.key.toList = f.key.toList) = some f)
    (hgiven : f.given st = false) (hread : (f.read st).Takes m.value st') {rest : List Char}
    (hrest : Delimited rest) : Field.member fields st (m.body ++ rest) = .ok (st', rest) := by
  have hbody := stringBody_of_writes hkey
    (m.beforeColon ++ ':' :: (m.afterColon ++ (m.value ++ rest)))
  simp only [Field.member, Member.body, List.append_assoc, List.cons_append, hbody, ok_bind, hfind,
    hgiven, Bool.false_eq_true, if_false, colon_append hm.beforeColon,
    hread.reads hm.afterColon hrest]

/-- A member that is no field is passed over. -/
theorem member_unknown {key : List Char} (hm : m.Neat) (hkey : WritesBody key m.key)
    (hfind : ∀ f ∈ fields, f.key.toList ≠ key) (hvalue : IsValue m.value) {rest : List Char}
    (hrest : Delimited rest) : Field.member fields st (m.body ++ rest) = .ok (st, rest) := by
  have hbody := stringBody_of_writes hkey
    (m.beforeColon ++ ':' :: (m.afterColon ++ (m.value ++ rest)))
  have hnone : fields.find? (fun f => f.key.toList = key) = none :=
    List.find?_eq_none.mpr fun f hf => by simp [hfind f hf]
  simp only [Field.member, Member.body, List.append_assoc, List.cons_append, hbody, ok_bind, hnone,
    colon_append hm.beforeColon, (takes_skip hvalue).reads hm.afterColon hrest, pure_eq_ok]

/-- **A record is made from what its members have given.** -/
theorem takes_record {start : σ} {finish : σ → Option α} {lead : List Char} {ms : List Member}
    {a : α} (hlead : Blanks lead) (h : Goes (Field.member fields) start ms st)
    (hfinish : finish st = some a) :
    (Field.record fields start finish).Takes (objectText lead ms) a := by
  refine takes_of_token (by decide) (by decide) fun {text rest} htext _ => ?_
  simp only [Field.record, htext, Char.reduceEq, if_false, if_true, members_text h hlead, ok_bind,
    hfinish, pure_eq_ok]

/-- A slot is filled with what its reader takes. -/
theorem takes_slot {key : String} {get : σ → Option α} {set : σ → α → σ} {r : Reader α}
    {t : List Char} {a : α} (h : r.Takes t a) (st : σ) :
    ((Field.slot key get set r).read st).Takes t (set st a) where
  headed := h.headed
  reads hb hrest := by simp only [Field.slot, h.reads hb hrest, ok_bind, pure_eq_ok]

end Records

end LayeredCss.Json
