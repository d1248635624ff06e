import LayeredCss.Plugin
import LayeredCss.Proofs.Session.Run

/-!
# The import of the stylesheet

A module that has been processed is to import the stylesheet, or else the bundle goes without it.  A
line that imports it is put in front of the code unless the code mentions the id of the stylesheet.  So
the code is kept whole and the line is not added twice; but a code that mentions the id in any other way,
as in a comment, is taken to import the stylesheet, and then nothing does.

* `SheetModule.imported_withImport`: what adding the import makes of a code;
* `Session.reported_of_process`: the code of a processed module is what a transform of the run has given,
  also if it is answered from a record;
* `Plugin.imports_of_processed`: the modules of a run;
* `Plugin.not_imports_of_mention`: a code with the id in a comment.
-/

namespace LayeredCss

/-- The code of a file that was transformed, now or before. -/
def Outcome.extracted? : Outcome → Option String
  | unchanged code _ => some code
  | transformed result => some result.code
  | _ => none

/-! ## Adding the import -/

namespace SheetModule

/-- Somewhere in the code the word `import` stands before the id in quotes, with nothing but white space
between them. -/
def Imports (v : SheetModule) (code : String) : Prop :=
  ∃ gap quote, (∀ c ∈ gap, c.isWhitespace = true) ∧ (quote = '\'' ∨ quote = '"') ∧
    "import".toList ++ (gap ++ quote :: (v.id.toList ++ [quote])) <:+: code.toList

/-- **What adding the import makes of a code**: it ends with the code and mentions the id, nothing is
added to it another time, and it imports the stylesheet unless the code has the id and no import. -/
structure Imported (v : SheetModule) (code result : String) : Prop where
  ending : code.toList <:+ result.toList
  mentioned : v.mentions result = true
  again : v.withImport result = result
  imports_iff : v.Imports result ↔ v.Imports code ∨ v.mentions code = false

variable {v : SheetModule} {code : String}

theorem withImport_of_mentions (h : v.mentions code = true) : v.withImport code = code := if_pos h

theorem toList_withImport_of_not_mentions (h : v.mentions code = false) :
    (v.withImport code).toList =
      "import".toList ++ ([' '] ++ '\'' :: (v.id.toList ++ ['\''])) ++ (";\n".toList ++ code.toList) := by
  have hnot : ¬v.mentions code = true := by rw [h]; exact Bool.false_ne_true
  have htext : v.withImport code = "import '" ++ v.id ++ "';\n" ++ code := if_neg hnot
  have hopen : "import '".toList = "import".toList ++ [' ', '\''] := rfl
  have hclose : "';\n".toList = '\'' :: ";\n".toList := rfl
  rw [htext, String.toList_append, String.toList_append, String.toList_append, hopen, hclose]
  simp only [List.append_assoc, List.cons_append, List.nil_append]

theorem mentions_of_imports (h : v.Imports code) : v.mentions code = true := by
  obtain ⟨gap, quote, -, -, hinfix⟩ := h
  have hid : v.id.toList <:+: "import".toList ++ (gap ++ quote :: (v.id.toList ++ [quote])) :=
    ⟨"import".toList ++ (gap ++ [quote]), [quote], by
      simp only [List.append_assoc, List.cons_append, List.nil_append]⟩
  exact Text.includes_iff.mpr (hid.trans hinfix)

theorem imports_withImport (h : v.mentions code = false) : v.Imports (v.withImport code) := by
  refine ⟨[' '], '\'', List.forall_mem_singleton.mpr rfl, Or.inl rfl, ?_⟩
  rw [toList_withImport_of_not_mentions h]
  exact (List.prefix_append _ _).isInfix

theorem imported_withImport (v : SheetModule) (code : String) :
    Imported v code (v.withImport code) := by
  cases h : v.mentions code with
  | true =>
    rw [withImport_of_mentions h]
    refine ⟨List.suffix_refl _, h, withImport_of_mentions h, ?_⟩
    rw [h, Bool.true_eq_false, or_false]
  | false =>
    have himports := imports_withImport h
    have hmentioned := mentions_of_imports himports
    refine ⟨?_, hmentioned, withImport_of_mentions hmentioned, iff_of_true himports (Or.inr h)⟩
    rw [toList_withImport_of_not_mentions h, ← List.append_assoc]
    exact List.suffix_append _ _

end SheetModule

/-! ## Where the code of a module comes from -/

namespace Session

/-- A transform of the file has given the code. -/
def Reported (h : List Event) (file : FileId) (code : String) : Prop :=
  ∃ e result, Event.processed e (.transformed result) ∈ h ∧ e.file = file ∧ result.code = code

/-- **The codes of records are codes that transforms have given.** -/
def Sourced (h : List Event) (s : Session) : Prop :=
  ∀ file record code, s.store.record? file = some record → record.code = some code →
    Reported h file code

variable {K : List FileId} {h l : List Event} {x y : Stage} {s t : Session}

theorem Reported.append {file : FileId} {code : String} (hc : Reported h file code)
    (l : List Event) : Reported (h ++ l) file code := by
  obtain ⟨e, result, hmem, hrest⟩ := hc
  exact ⟨e, result, List.mem_append_left l hmem, hrest⟩

theorem Sourced.keep (hs : Sourced h s) (l : List Event)
    (hstore : ∀ file record, t.store.record? file = some record →
      s.store.record? file = some record) : Sourced (h ++ l) t :=
  fun file record code hr hc => (hs file record code (hstore file record hr) hc).append l

theorem Move.sourced (m : Move K x l y) (hx : Sourced h x.session) :
    Sourced (h ++ l) y.session := by
  cases m with
  | note | reuse | reserve | refuse | release => exact hx.keep _ fun _ _ hr => hr
  | @commit s before after r e output hfile hask =>
    intro file record code hr hc
    rw [RuleStore.record?_putRecord] at hr
    split at hr
    · next heq =>
      cases hr
      exact ⟨e, _, List.mem_append_right _ (List.mem_singleton_self _), heq, Option.some.inj hc⟩
    · exact (hx file record code hr hc).append _

theorem Turn.sourced (t : Turn) (ht : Sourced h t.before) : Sourced (h ++ t.events) t.next := by
  rcases turn_cases t with m | ⟨file, -, -, hnext⟩ | ⟨generate, -, -, hnext⟩
  · exact m.preserves (I := fun h x => Sourced h x.session) (fun _ _ _ _ hx m => m.sourced hx) h ht
  · refine ht.keep _ fun other record hr => ?_
    rw [hnext, RuleStore.record?_remove] at hr
    split at hr
    · cases hr
    · exact hr
  · refine ht.keep _ fun other record hr => ?_
    rw [hnext] at hr
    exact hr

theorem sourced_after {lifecycle : Lifecycle} {s₀ : Session} (h₀ : s₀.Starts lifecycle)
    (calls : List Call) : Sourced (s₀.history calls) (s₀.after calls) := by
  refine run_preserves (I := Sourced) (fun _ t ht => t.sourced ht) ?_ calls
  intro file record code hr
  rw [h₀.fields.2.2.1] at hr
  cases hr

theorem history_process {s₀ next : Session} {calls : List Call} {e : Entry} {outcome : Outcome}
    (hvalue : ((s₀.after calls).process e.transform e.file e.source).value = (outcome, next)) :
    s₀.history (calls ++ [.process e]) = s₀.history calls ++ [.processed e outcome] := by
  have hlast : (s₀.after calls).history [.process e] = [.processed e outcome] := by
    simp only [history, turns, List.flatMap_cons, List.flatMap_nil, List.append_nil, Turn.events,
      perform_process hvalue]
  rw [history_append, hlast]

/-- **The code of a processed file is what a transform of it has given**, in this call or before. -/
theorem reported_of_process {lifecycle : Lifecycle} {s₀ : Session} (h₀ : s₀.Starts lifecycle)
    {calls : List Call} {e : Entry} {outcome : Outcome} {next : Session} {code : String}
    (hvalue : ((s₀.after calls).process e.transform e.file e.source).value = (outcome, next))
    (hcode : outcome.extracted? = some code) :
    Reported (s₀.history (calls ++ [.process e])) e.file code := by
  rw [history_process hvalue]
  cases outcome with
  | skipped | fallback => cases hcode
  | transformed result =>
    exact ⟨e, result, List.mem_append_right _ (List.mem_singleton_self _), rfl,
      Option.some.inj hcode⟩
  | unchanged answer diagnostics =>
    refine Reported.append ?_ _
    rcases (s₀.after calls).process_cases e with
      ⟨_, -, h⟩ | ⟨-, ⟨known, hcached, h⟩ | ⟨-, ⟨_, -, h⟩ | ⟨r, layers, -, h⟩⟩⟩ <;>
      rw [hvalue] at h
    · cases h
    · obtain ⟨record, hrecord, -, hknown, -⟩ := cached?_eq_some.mp hcached
      cases h
      rw [Outcome.extracted?] at hcode
      exact sourced_after h₀ calls e.file record code hrecord (hknown.trans hcode)
    · cases h
    · cases hask : (s₀.after calls).ask e r.base with
      | error failure => rw [hask, value_finish_error] at h; cases h
      | ok output => rw [hask, value_finish_ok] at h; cases h

end Session

/-! ## The modules of a run -/

namespace Plugin

open SheetModule (Imported imported_withImport)

/-- The output of a processed file is its code with the import. -/
theorem outputOf_of_extracted? (p : Plugin) (file : FileId) {outcome : Outcome} {code : String}
    (h : outcome.extracted? = some code) :
    ∃ m, (p.outputOf file outcome).value = some m ∧ m.code = p.sheet.withImport code := by
  cases outcome with
  | skipped | fallback => cases h
  | unchanged answer diagnostics =>
    cases h
    exact ⟨_, rfl, rfl⟩
  | transformed result =>
    cases h
    exact ⟨_, rfl, rfl⟩

/-- **What the modules of a run import.**  Adding the import to any code keeps the code at the end,
mentions the id of the stylesheet, is done but once, and leaves an import of the stylesheet unless the
code has the id and no import.  A module that is processed, now or from its record, gets the code that a
transform of it has given in the run, with the import added in this way.  So if the transforms of the run
give no code that has the id without importing it, every processed module imports the stylesheet. -/
theorem imports_of_processed {lifecycle : Lifecycle} {s₀ : Session} (h₀ : s₀.Starts lifecycle)
    {calls : List Session.Call} {p : Plugin} (hp : p.session = s₀.after calls) :
    (∀ (v : SheetModule) (code : String), Imported v code (v.withImport code)) ∧
    ∀ (transformer : Transform) (moduleId source : String) (outcome : Outcome) (next : Session)
      (code : String),
      (p.session.process transformer ⟨moduleId⟩ source).value = (outcome, next) →
      outcome.extracted? = some code →
      ∃ m, (p.transform transformer moduleId source).value = (some m, { p with session := next }) ∧
        Imported p.sheet code m.code ∧
        Session.Reported (s₀.history (calls ++ [.process ⟨⟨moduleId⟩, source, transformer⟩]))
          ⟨moduleId⟩ code ∧
        ((∀ given, Session.Reported
            (s₀.history (calls ++ [.process ⟨⟨moduleId⟩, source, transformer⟩])) ⟨moduleId⟩ given →
          p.sheet.mentions given = true → p.sheet.Imports given) → p.sheet.Imports m.code) := by
  refine ⟨imported_withImport, fun transformer moduleId source outcome next code hvalue hcode => ?_⟩
  obtain ⟨m, houtput, hm⟩ := p.outputOf_of_extracted? ⟨moduleId⟩ hcode
  have himported : Imported p.sheet code m.code := hm ▸ imported_withImport p.sheet code
  have hprocess : ((s₀.after calls).process transformer ⟨moduleId⟩ source).value =
      (outcome, next) := hp ▸ hvalue
  have hreported := Session.reported_of_process (e := ⟨⟨moduleId⟩, source, transformer⟩) h₀ hprocess
    hcode
  refine ⟨m, ?_, himported, hreported, fun hall => himported.imports_iff.mpr ?_⟩
  · rw [value_transform hvalue, houtput]
  · cases hmentions : p.sheet.mentions code with
    | true => exact Or.inl (hall code hreported hmentions)
    | false => exact Or.inr rfl

/-- A module that is answered from its record gets the import that it got when it was transformed. -/
theorem imports_of_processed_unchanged :
    let calls : List Session.Call := [.process ⟨⟨"a.ts"⟩, "strata", Session.oneRule⟩]
    let p := ofSession ((Session.blank .watch).after calls)
    ∃ m next, (p.transform Session.oneRule "a.ts" "strata").value = (some m, next) ∧
      m.mutated = false ∧ p.sheet.withImport m.code = m.code ∧ p.sheet.Imports m.code := by
  intro calls p
  have hsession : p.session = (Session.blank .watch).after calls := rfl
  have hcode : (p.session.process Session.oneRule ⟨"a.ts"⟩ "strata").value.1.extracted? = some "" := by
    decide +kernel
  have hmentions : p.sheet.mentions "" = false := by decide +kernel
  have hunmarked : (p.transform Session.oneRule "a.ts" "strata").value.1.any (·.mutated) = false := by
    decide +kernel
  obtain ⟨m, hvalue, himported, -⟩ := (imports_of_processed (Session.starts_blank .watch) hsession).2
    Session.oneRule "a.ts" "strata" _ _ "" rfl hcode
  rw [hvalue] at hunmarked
  exact ⟨m, _, hvalue, hunmarked, himported.again, himported.imports_iff.mpr (Or.inr hmentions)⟩

/-- A transform whose code has the id of the stylesheet in a comment. -/
def noting : Transform := fun input =>
  .done ⟨"// styles: virtual:strata.css", [⟨"a", ".a\x7b\x7d", input.layerBase⟩], input.layerBase + 1,
    false, []⟩

/-- **A code with the id in a comment**: the module is transformed and its rules are stored, but the
stylesheet is not imported. -/
theorem not_imports_of_mention :
    let p := ofSession (Session.blank .watch)
    p.sheet.id = "virtual:strata.css" ∧
      ∃ m next, (p.transform noting "a.ts" "strata").value = (some m, next) ∧ m.mutated = true ∧
        next.session.store.allRules = [".a\x7b\x7d"] ∧ ¬p.sheet.Imports m.code := by
  intro p
  have houtput : (p.transform noting "a.ts" "strata").value.1.map (fun m => (m.code, m.mutated)) =
      some ("// styles: virtual:strata.css", true) := by decide +kernel
  have hrules : (p.transform noting "a.ts" "strata").value.2.session.store.allRules =
      [".a\x7b\x7d"] := by decide +kernel
  obtain ⟨m, hm, hcode⟩ := Option.map_eq_some_iff.mp houtput
  obtain ⟨hcode, hmutated⟩ := Prod.mk.inj hcode
  refine ⟨rfl, m, _, Prod.ext hm rfl, hmutated, hrules, ?_⟩
  rintro ⟨gap, quote, -, -, hinfix⟩
  have hword : ¬"import".toList <:+: "// styles: virtual:strata.css".toList := by decide +kernel
  rw [hcode] at hinfix
  exact hword ((List.prefix_append _ _).isInfix.trans hinfix)

end Plugin

end LayeredCss
