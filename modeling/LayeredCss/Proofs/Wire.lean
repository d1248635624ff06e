import LayeredCss.Proofs.Json.Writing
import LayeredCss.Proofs.Settings
import LayeredCss.Transform

/-!
# The wire

A configuration and the output of a transform are written as JSON and read back as they were.  Both
halves meet at the grammar: what is written belongs to it, and what belongs to it is read as what it
writes.

* `Config.ofJson_text`: a configuration is read back from its text;
* `Rule.takes_toJson`, `Diagnostic.takes_toJson`, `Transform.Output.ofJson_text`: the output of a
  transform is, with its rules and diagnostics;
* `survives_wire`: both round trips, and what is read from an object of some settings.
-/

namespace LayeredCss

open Json

/-! ## Configurations -/

namespace Config

namespace Setting

/-- The value of a setting as JSON. -/
def value : Setting → Value
  | strict on | annotateSources on => .bool on
  | extensions list | exclude list => textsJson list
  | importMarker s | virtualId s | endpointPath s | eventName s => .string s
  | fallbackImport s? | outputFile s? => textJson? s?
  | debounceMs time => .number (.integer time.toNat)

theorem writesBool_render (b : Bool) : WritesBool b (Value.bool b).render := by
  cases b <;> rfl

theorem writesText?_render (s? : Option String) : WritesText? s? (textJson? s?).render := by
  cases s? with
  | none => rfl
  | some s => exact writesText_quote s

/-- The text of the value belongs to the grammar. -/
theorem writes_value (s : Setting) : s.Writes s.value.render := by
  cases s with
  | strict on | annotateSources on => exact writesBool_render on
  | extensions list | exclude list => exact writesArray_render writesText_quote list
  | importMarker s | virtualId s | endpointPath s | eventName s => exact writesText_quote s
  | fallbackImport s? | outputFile s? => exact writesText?_render s?
  | debounceMs time => rfl

/-- The member of an object that gives the setting. -/
def entry (s : Setting) : String × Value := (s.key, s.value)

end Setting

theorem lists_entries (given : List Setting) :
    Lists given ((given.map Setting.entry).map Member.compact) := by
  induction given with
  | nil => exact .nil
  | cons s given ih =>
    exact .setting (Member.neat_compact _) (writesBody_escaped _) s.writes_value ih

theorem writesSettings_text (given : List Setting) :
    WritesSettings given (Value.object (given.map Setting.entry)).text :=
  ⟨[], [], _, [], blanks_nil, blanks_nil, blanks_nil, lists_entries given, by
    simp [Value.text, render_object]⟩

/-- All settings of a configuration, with its output path as text. -/
def settings (c : Config) (path? : Option String) : List Setting :=
  [.strict c.strict, .extensions c.extensions, .exclude c.exclude, .importMarker c.importMarker,
   .fallbackImport c.fallbackImport, .virtualId c.virtualId, .annotateSources c.annotateSources,
   .debounceMs c.debounceMs, .endpointPath c.endpointPath, .eventName c.eventName,
   .outputFile path?]

theorem toJson_eq (c : Config) (path? : Option String) :
    c.toJson (textJson? path?) = .object ((c.settings path?).map Setting.entry) := rfl

/-- **A configuration is read back from its text.** -/
theorem ofJson_text {c : Config} {path? : Option String}
    (hpath : c.outputFile = path?.map .unicode) :
    ofJson (c.toJson (textJson? path?)).text = .ok c := by
  have hdistinct : ((c.settings path?).map Setting.key).Nodup := by
    simp [settings, Setting.key]
  have hread := ofJson_settings (writesSettings_text (c.settings path?)) hdistinct
  have hall : default.withSettings (c.settings path?) = c := by
    cases c
    cases hpath
    rfl
  rw [toJson_eq, hread, hall]

theorem exists_text {c : Config} (hunicode : ∀ path, c.outputFile = some path → path.text? ≠ none) :
    ∃ v, c.toJson? = .ok v ∧ ofJson v.text = .ok c := by
  rcases hpath : c.outputFile with _ | path | bytes
  · exact ⟨c.toJson (textJson? none), by simp [toJson?, hpath, textJson?], ofJson_text hpath⟩
  · exact ⟨c.toJson (textJson? (some path)), by simp [toJson?, hpath, textJson?], ofJson_text hpath⟩
  · exact absurd rfl (hunicode _ hpath)

end Config

/-! ## Outputs -/

/-- A record goes over its compact members if each is taken by the field of its key. -/
theorem goes_compact {σ : Type} {fields : List (Json.Field σ)} {f : Json.Field σ} {st st' st'' : σ}
    {entry : String × Value} {entries : List (String × Value)}
    (hfind : fields.find? (fun g => g.key = entry.1) = some f) (hgiven : f.given st = false)
    (hread : (f.read st).Takes entry.2.render st')
    (hrest : Goes (Field.member fields) st' (entries.map Member.compact) st'') :
    Goes (Field.member fields) st ((entry :: entries).map Member.compact) st'' := by
  have hkey : f.key = entry.1 := by simpa using List.find?_some hfind
  have hneat := Member.neat_compact entry
  refine .cons hneat (member_field hneat ?_ ?_ hgiven hread) hrest
  · rw [hkey]
    exact writesBody_escaped _
  · simpa only [String.toList_inj, hkey] using hfind

theorem takes_quote (s : String) : Reader.string.Takes (Value.string s).render s :=
  takes_string (writesText_quote s)

/-- A list is taken from the array of its items. -/
theorem takes_array {α : Type} {r : Reader α} {toJson : α → Value}
    (hitem : ∀ a, r.Takes (toJson a).render a) (as : List α) :
    (Reader.list r).Takes (Value.array (as.map toJson)).render as := by
  have hwrites : WritesArray (fun a t => t = (toJson a).render) as
      (Value.array (as.map toJson)).render := by
    refine writesArray_render (fun a => ?_) as
    rfl
  refine takes_list_of_writes ?_ hwrites
  rintro a t rfl
  exact hitem a

theorem Rule.takes_toJson (r : Rule) : reader.Takes r.toJson.render r := by
  have hfinish : Draft.finish ⟨some r.className, some r.cssText, some r.layer⟩ = some r := rfl
  rw [toJson, render_object]
  refine takes_record blanks_nil ?_ hfinish
  refine goes_compact rfl rfl (takes_slot (takes_quote r.className) _) ?_
  refine goes_compact rfl rfl (takes_slot (takes_quote r.cssText) _) ?_
  exact goes_compact rfl rfl (takes_slot (takes_uint32 r.layer) _) .nil

theorem Severity.ofName?_name (s : Severity) : ofName? s.name = some s := by
  cases s <;> rfl

theorem Diagnostic.takes_toJson (d : Diagnostic) : reader.Takes d.toJson.render d := by
  have hfinish : Draft.finish ⟨some d.message, some d.line, some d.column, some d.severity⟩ =
    some d := rfl
  have hseverity : (Reader.variant Severity.ofName?).Takes (Value.string d.severity.name).render
      d.severity := takes_variant (writesText_quote _) d.severity.ofName?_name
  rw [toJson, render_object]
  refine takes_record blanks_nil ?_ hfinish
  refine goes_compact rfl rfl (takes_slot (takes_quote d.message) _) ?_
  refine goes_compact rfl rfl (takes_slot (takes_uint32 d.line) _) ?_
  refine goes_compact rfl rfl (takes_slot (takes_uint32 d.column) _) ?_
  exact goes_compact rfl rfl (takes_slot hseverity _) .nil

namespace Transform.Output

theorem takes_toJson (o : Output) : reader.Takes o.toJson.render o := by
  have hfinish : Draft.finish ⟨some o.code, some o.rules, some o.nextLayer, some o.hasDynamic,
    some o.diagnostics⟩ = some o := rfl
  have hdynamic : Reader.bool.Takes (Value.bool o.hasDynamic).render o.hasDynamic :=
    Config.takes_bool (Config.Setting.writesBool_render _)
  rw [toJson, render_object]
  refine takes_record blanks_nil ?_ hfinish
  refine goes_compact rfl rfl (takes_slot (takes_quote o.code) _) ?_
  refine goes_compact rfl rfl (takes_slot (takes_array Rule.takes_toJson o.rules) _) ?_
  refine goes_compact rfl rfl (takes_slot (takes_uint32 o.nextLayer) _) ?_
  refine goes_compact rfl rfl (takes_slot hdynamic _) ?_
  exact goes_compact rfl rfl (takes_slot (takes_array Diagnostic.takes_toJson o.diagnostics) _) .nil

/-- **The output of a transform is read back from its text.** -/
theorem ofJson_text (o : Output) : ofJson o.toJson.text = .ok o := by
  have hread := read_of_takes o.takes_toJson blanks_nil blanks_nil
  rwa [List.nil_append, List.append_nil] at hread

end Transform.Output

/-! ## The wire -/

/-- **Configurations and outputs survive the wire, and an object of some settings replaces just
these.**  A configuration whose output path is a text is read back from its JSON, and so is every
output of a transform.  From an object that gives some settings, each once, in any order and among
members with other keys, a configuration is read that has these settings and otherwise the
defaults. -/
theorem survives_wire :
    (∀ c : Config, (∀ path, c.outputFile = some path → path.text? ≠ none) →
      ∃ v, c.toJson? = .ok v ∧ Config.ofJson v.text = .ok c) ∧
    (∀ o : Transform.Output, Transform.Output.ofJson o.toJson.text = .ok o) ∧
    ∀ (given : List Config.Setting) (text : String), Config.WritesSettings given text →
      (given.map Config.Setting.key).Nodup →
        ∃ c, Config.ofJson text = .ok c ∧ (∀ s ∈ given, s.Holds c) ∧
          ∀ s : Config.Setting, s.key ∉ given.map Config.Setting.key →
            (s.Holds c ↔ s.Holds Config.default) :=
  ⟨fun _ hunicode => Config.exists_text hunicode, Transform.Output.ofJson_text,
    fun _ _ htext hdistinct => ⟨_, Config.ofJson_settings htext hdistinct,
      fun _ hs => Config.holds_withSettings_of_mem hdistinct hs,
      fun _ hs => Config.holds_withSettings_of_notMem hs⟩⟩

/-- A configuration without defaults in its optional settings is read back.  From an object with
blanks, escapes and a member that is no setting, the greatest delay, a null and a list are read. -/
theorem survives_wire_mixed :
    let c : Config := { fallbackImport := none, outputFile := some (.unicode "\x22é\x5c\n") }
    let text := "\x7b \x22debounceMs\x22: 18446744073709551615, " ++
      "\x22x\x22:[-1e3,\x22\x5cud800\x22] , \x22fallbackImport\x22:null," ++
      "\x22exclude\x22:[\x22a\x5c\x22\x5cu00e9\x22]\x7d"
    (∃ v, c.toJson? = .ok v ∧ Config.ofJson v.text = .ok c) ∧
    ∃ d, Config.ofJson text = .ok d ∧ d.debounceMs = 18446744073709551615 ∧
      d.fallbackImport = none ∧ d.exclude = ["a\x22é"] ∧ d.strict = true ∧ d.outputFile = none := by
  intro c text
  have hunicode : ∀ path, c.outputFile = some path → path.text? ≠ none := by
    rintro path ⟨⟩
    simp [HostText.text?]
  let delay : Member := ⟨[], "debounceMs".toList.flatMap escape, [], [' '],
    digitChars 18446744073709551615, []⟩
  let number : Piece := ⟨[], '-' :: (['1'] ++ ([] ++ ['e', '3'])), []⟩
  let surrogate : Piece := ⟨[], '\x22' :: (['\x5c', 'u', 'd', '8', '0', '0'] ++ ['\x22']), []⟩
  let unknown : Member := ⟨[' '], "x".toList.flatMap escape, [], [],
    arrayText [] [number, surrogate], [' ']⟩
  let fallback : Member := ⟨[' '], "fallbackImport".toList.flatMap escape, [], [],
    ['n', 'u', 'l', 'l'], []⟩
  let glob : List Char := ['a', '\x5c', '\x22', '\x5c', 'u', '0', '0', 'e', '9']
  let globs : Member := ⟨[], "exclude".toList.flatMap escape, [], [],
    arrayText [] [⟨[], '\x22' :: (glob ++ ['\x22']), []⟩], []⟩
  have hnumber : IsValue number.core :=
    .number (.inr ⟨_, ⟨['1'], [], ['e', '3'], by decide, .inl rfl,
      .inr ⟨'e', [], ['3'], by decide, by decide, by decide, rfl⟩, rfl⟩, rfl⟩)
  have hsurrogate : IsValue surrogate.core := .string (.unit (by decide) .nil)
  have hunknown : IsValue unknown.value :=
    .array blanks_nil (by decide) (by simp [hnumber, hsurrogate])
  have hglob : WritesText "a\x22é" ('\x22' :: (glob ++ ['\x22'])) :=
    ⟨glob, .plain (by decide) (.letter (by decide) (.unit (u := 0xE9) (by decide) (by decide) .nil)),
      rfl⟩
  have hglobs : WritesArray WritesText ["a\x22é"] globs.value :=
    ⟨[], _, blanks_nil, .cons ⟨by decide, hglob⟩ .nil, rfl⟩
  have htext : Config.WritesSettings
      [.debounceMs 18446744073709551615, .fallbackImport none, .exclude ["a\x22é"]] text := by
    refine ⟨[], [' '], [delay, unknown, fallback, globs], [], by decide, by decide, by decide,
      ?_, ?_⟩
    · have hother : ∀ s : Config.Setting, s.key ≠ "x" := fun s => by
        cases s <;> simp [Config.Setting.key]
      refine .setting (by decide) (writesBody_escaped _) rfl ?_
      refine .other (by decide) (writesBody_escaped "x".toList) hother hunknown ?_
      refine .setting (by decide) (writesBody_escaped _) rfl ?_
      exact .setting (by decide) (writesBody_escaped _) hglobs .nil
    · decide +kernel
  refine ⟨survives_wire.1 c hunicode, ?_⟩
  obtain ⟨d, hread, hgiven, hothers⟩ := survives_wire.2.2 _ text htext (by decide)
  simp only [List.forall_mem_cons] at hgiven
  obtain ⟨hdelay, hmodule, hexclude, -⟩ := hgiven
  exact ⟨d, hread, hdelay, hmodule, hexclude, (hothers (.strict true) (by decide)).mpr rfl,
    (hothers (.outputFile none) (by decide)).mpr rfl⟩

end LayeredCss
