import LayeredCss.Proofs.Json.Grammar

/-!
# Compact texts

The text of a value belongs to the grammar: it has no blanks, and a string escapes what cannot stand
in it as it is.

* `writesText_quote`: a string in quotation marks is written by its escaped characters;
* `render_array`, `render_object`: the items and members of a container, without blanks.
-/

namespace LayeredCss.Json

/-! ## Strings -/

theorem hexUnit?_control : ∀ n < 0x20,
    hexUnit? '0' '0' (Text.hexDigit (n / 16)) (Text.hexDigit n) = some n := by decide

theorem WritesBody.escape {cs t : List Char} (c : Char) (h : WritesBody cs t) :
    WritesBody (c :: cs) (Json.escape c ++ t) := by
  unfold Json.escape
  split_ifs with hquote hslash hback hform hline hreturn htab hcontrol
  · subst hquote; exact .letter (by decide) h
  · subst hslash; exact .letter (by decide) h
  · subst hback; exact .letter (by decide) h
  · subst hform; exact .letter (by decide) h
  · subst hline; exact .letter (by decide) h
  · subst hreturn; exact .letter (by decide) h
  · subst htab; exact .letter (by decide) h
  · have hunit := WritesBody.unit (hexUnit?_control c.toNat hcontrol) (by omega) h
    rwa [Char.ofNat_toNat] at hunit
  · exact .plain ⟨hquote, hslash, Nat.not_lt.mp hcontrol⟩ h

theorem writesBody_escaped (cs : List Char) : WritesBody cs (cs.flatMap escape) := by
  induction cs with
  | nil => exact .nil
  | cons c cs ih => exact ih.escape c

/-- **Every string is written in quotation marks, whatever its characters.** -/
theorem writesText_quote (s : String) : WritesText s (quote s.toList) :=
  ⟨_, writesBody_escaped s.toList, rfl⟩

/-! ## Containers -/

/-- A value among the items of an array, without blanks. -/
def Value.piece (v : Value) : Piece := ⟨[], v.render, []⟩

theorem Value.neat_piece (v : Value) : v.piece.Neat := ⟨blanks_nil, blanks_nil⟩

/-- A member of an object, without blanks. -/
def Member.compact (entry : String × Value) : Member :=
  ⟨[], entry.1.toList.flatMap escape, [], [], entry.2.render, []⟩

theorem Member.neat_compact (entry : String × Value) : (compact entry).Neat :=
  ⟨blanks_nil, blanks_nil, blanks_nil, blanks_nil⟩

theorem renderItems_eq (first : Bool) (vs : List Value) :
    renderItems first vs = pieces ']' first (vs.map Value.piece) := by
  induction vs generalizing first with
  | nil => rfl
  | cons v vs ih => simp [renderItems, pieces, Value.piece, ih]

theorem renderMembers_eq (first : Bool) (entries : List (String × Value)) :
    renderMembers first entries =
      pieces '\x7d' first ((entries.map Member.compact).map Member.piece) := by
  induction entries generalizing first with
  | nil => rfl
  | cons entry entries ih =>
    simp [renderMembers, pieces, Member.piece, Member.compact, Member.core, Member.body, quote, ih]

theorem render_array (vs : List Value) :
    (Value.array vs).render = arrayText [] (vs.map Value.piece) := by
  rw [Value.render, renderItems_eq]
  rfl

theorem render_object (entries : List (String × Value)) :
    (Value.object entries).render = objectText [] (entries.map Member.compact) := by
  rw [Value.render, renderMembers_eq]
  rfl

/-- An array is written by the texts of its items. -/
theorem writesArray_render {α : Type} {Writes : α → List Char → Prop} {toJson : α → Value}
    (hitem : ∀ a, Writes a (toJson a).render) (as : List α) :
    WritesArray Writes as (Value.array (as.map toJson)).render := by
  refine ⟨[], (as.map toJson).map Value.piece, blanks_nil, ?_, render_array _⟩
  rw [List.map_map, List.forall₂_map_left_iff, List.forall₂_same]
  exact fun a _ => ⟨Value.neat_piece _, hitem a⟩

end LayeredCss.Json
