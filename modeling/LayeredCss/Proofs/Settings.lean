import LayeredCss.Config
import LayeredCss.Proofs.Json.Reading

/-!
# Settings in a text

A configuration is read from an object of some of its settings, in any order and among other members.
Each setting replaces one default; members with other keys change nothing, whatever their values.

* `Setting`: a setting with its value; `Setting.put` replaces it, `Setting.Holds` says that it is in
  place;
* `WritesSettings`: the texts of objects that give some settings;
* `ofJson_settings`: what is read from such a text.
-/

namespace LayeredCss.Config

open Json

/-- A setting with its value. -/
inductive Setting
  | strict (on : Bool)
  | extensions (names : List String)
  | exclude (globs : List String)
  | importMarker (marker : String)
  | fallbackImport (module? : Option String)
  | virtualId (id : String)
  | annotateSources (on : Bool)
  | debounceMs (time : UInt64)
  | endpointPath (path : String)
  | eventName (name : String)
  | outputFile (path? : Option String)
  deriving DecidableEq

namespace Setting

def key : Setting → String
  | strict _ => "strict"
  | extensions _ => "extensions"
  | exclude _ => "exclude"
  | importMarker _ => "importMarker"
  | fallbackImport _ => "fallbackImport"
  | virtualId _ => "virtualId"
  | annotateSources _ => "annotateSources"
  | debounceMs _ => "debounceMs"
  | endpointPath _ => "endpointPath"
  | eventName _ => "eventName"
  | outputFile _ => "outputFile"

/-- The configuration with this setting, and all others as they are. -/
def put : Setting → Config → Config
  | strict on, c => { c with strict := on }
  | extensions names, c => { c with extensions := names }
  | exclude globs, c => { c with exclude := globs }
  | importMarker marker, c => { c with importMarker := marker }
  | fallbackImport module?, c => { c with fallbackImport := module? }
  | virtualId id, c => { c with virtualId := id }
  | annotateSources on, c => { c with annotateSources := on }
  | debounceMs time, c => { c with debounceMs := time }
  | endpointPath path, c => { c with endpointPath := path }
  | eventName name, c => { c with eventName := name }
  | outputFile path?, c => { c with outputFile := path?.map .unicode }

/-- The configuration has this setting. -/
def Holds : Setting → Config → Prop
  | strict on, c => c.strict = on
  | extensions names, c => c.extensions = names
  | exclude globs, c => c.exclude = globs
  | importMarker marker, c => c.importMarker = marker
  | fallbackImport module?, c => c.fallbackImport = module?
  | virtualId id, c => c.virtualId = id
  | annotateSources on, c => c.annotateSources = on
  | debounceMs time, c => c.debounceMs = time
  | endpointPath path, c => c.endpointPath = path
  | eventName name, c => c.eventName = name
  | outputFile path?, c => c.outputFile = path?.map .unicode

end Setting

/-- The texts of a truth value. -/
def WritesBool (b : Bool) (t : List Char) : Prop :=
  t = if b then ['t', 'r', 'u', 'e'] else ['f', 'a', 'l', 's', 'e']

/-- The texts of an optional string. -/
def WritesText? (s? : Option String) (t : List Char) : Prop := match s? with
  | none => t = ['n', 'u', 'l', 'l']
  | some s => WritesText s t

/-- The texts of the value of a setting. -/
def Setting.Writes : Setting → List Char → Prop
  | strict on | annotateSources on => WritesBool on
  | extensions list | exclude list => WritesArray WritesText list
  | importMarker s | virtualId s | endpointPath s | eventName s => WritesText s
  | fallbackImport s? | outputFile s? => WritesText? s?
  | debounceMs time => fun t => t = digitChars time.toNat

/-- The members of an object that gives some settings, with members between them that are none. -/
inductive Lists : List Setting → List Member → Prop
  | nil : Lists [] []
  | setting {s : Setting} {m : Member} {given : List Setting} {ms : List Member} (hneat : m.Neat)
    (hkey : WritesBody s.key.toList m.key) (hvalue : s.Writes m.value) (hrest : Lists given ms) :
    Lists (s :: given) (m :: ms)
  | other {key : String} {m : Member} {given : List Setting} {ms : List Member} (hneat : m.Neat)
    (hkey : WritesBody key.toList m.key) (hother : ∀ s : Setting, s.key ≠ key)
    (hvalue : IsValue m.value) (hrest : Lists given ms) : Lists given (m :: ms)

/-- The texts of objects that give some settings in their order. -/
def WritesSettings (given : List Setting) (text : String) : Prop :=
  ∃ before lead ms after, Blanks before ∧ Blanks lead ∧ Blanks after ∧ Lists given ms ∧
    text = String.ofList (before ++ (objectText lead ms ++ after))

/-! ## Replacing settings -/

namespace Setting

variable {s s' : Setting} {c : Config}

theorem holds_put (s : Setting) (c : Config) : s.Holds (s.put c) := by
  cases s <;> rfl

/-- A setting with another key stays as it is. -/
theorem holds_put_of_ne (h : s.key ≠ s'.key) : s.Holds (s'.put c) ↔ s.Holds c := by
  cases s <;> cases s' <;> first | exact Iff.rfl | exact absurd rfl h

end Setting

/-- A configuration with some settings in place, the later ones over the earlier. -/
def withSettings (c : Config) (given : List Setting) : Config := given.foldl (fun c s => s.put c) c

section WithSettings

variable {given : List Setting} {s : Setting} {c : Config}

theorem holds_withSettings_of_notMem (h : s.key ∉ given.map Setting.key) :
    s.Holds (c.withSettings given) ↔ s.Holds c := by
  induction given generalizing c with
  | nil => exact Iff.rfl
  | cons s' given ih =>
    rw [List.map_cons, List.mem_cons, not_or] at h
    exact (ih h.2).trans (Setting.holds_put_of_ne h.1)

/-- Settings with different keys are all in place. -/
theorem holds_withSettings_of_mem (hdistinct : (given.map Setting.key).Nodup) (h : s ∈ given) :
    s.Holds (c.withSettings given) := by
  induction given generalizing c with
  | nil => cases h
  | cons s' given ih =>
    obtain ⟨hnew, hdistinct⟩ := List.nodup_cons.mp hdistinct
    rcases List.mem_cons.mp h with rfl | h
    · exact (holds_withSettings_of_notMem hnew).mpr (s.holds_put c)
    · exact ih hdistinct h

end WithSettings

/-! ## Reading settings -/

section Reading

variable {given : List Setting} {ms : List Member}

theorem takes_bool {b : Bool} {t : List Char} (h : WritesBool b t) : Reader.bool.Takes t b := by
  cases b with
  | true => rw [show t = _ from h]; exact takes_true
  | false => rw [show t = _ from h]; exact takes_false

theorem takes_text? {s? : Option String} {t : List Char} (h : WritesText? s? t) :
    (Reader.optional .string).Takes t s? := by
  cases s? with
  | none => rw [show t = _ from h]; exact takes_optional_none
  | some s =>
    obtain ⟨body, hbody, rfl⟩ : WritesText s t := h
    exact takes_optional_some (takes_string ⟨body, hbody, rfl⟩) (by simp)

/-- A field takes what its reader takes, and notes that it has been given. -/
theorem takes_field {α : Type} {r : Reader α} {t : List Char} {a : α} (h : r.Takes t a)
    (key : String) (set : Config → α → Config) (d : Draft) :
    ((field key r set).read d).Takes t ⟨set d.config a, key :: d.given⟩ where
  headed := h.headed
  reads hb hrest := by simp only [field, h.reads hb hrest, ok_bind, pure_eq_ok]

/-- The field of a setting takes its texts. -/
structure Setting.ReadBy (s : Setting) (f : Json.Field Draft) : Prop where
  key : f.key = s.key
  found : fields.find? (fun g => g.key = s.key) = some f
  given : ∀ d, f.given d = d.given.contains s.key
  takes : ∀ {t}, s.Writes t → ∀ d, (f.read d).Takes t ⟨s.put d.config, s.key :: d.given⟩

theorem Setting.exists_readBy (s : Setting) : ∃ f, s.ReadBy f := by
  cases s with
  | strict on | annotateSources on =>
    exact ⟨_, rfl, rfl, fun _ => rfl, fun h => takes_field (takes_bool h) _ _⟩
  | extensions list | exclude list =>
    exact ⟨_, rfl, rfl, fun _ => rfl,
      fun h => takes_field (takes_list_of_writes takes_string h) _ _⟩
  | importMarker s | virtualId s | endpointPath s | eventName s =>
    exact ⟨_, rfl, rfl, fun _ => rfl, fun h => takes_field (takes_string h) _ _⟩
  | fallbackImport s? | outputFile s? =>
    exact ⟨_, rfl, rfl, fun _ => rfl, fun h => takes_field (takes_text? h) _ _⟩
  | debounceMs time =>
    refine ⟨_, rfl, rfl, fun _ => rfl, fun h => ?_⟩
    rw [show _ = _ from h]
    exact takes_field (takes_uint64 time) _ _

/-- Every field is for a setting. -/
theorem exists_setting_of_mem {f : Json.Field Draft} (hf : f ∈ fields) :
    ∃ s : Setting, s.key = f.key := by
  simp only [fields, List.mem_cons, List.not_mem_nil, or_false] at hf
  rcases hf with rfl | rfl | rfl | rfl | rfl | rfl | rfl | rfl | rfl | rfl | rfl
  · exact ⟨.strict true, rfl⟩
  · exact ⟨.extensions [], rfl⟩
  · exact ⟨.exclude [], rfl⟩
  · exact ⟨.importMarker "", rfl⟩
  · exact ⟨.fallbackImport none, rfl⟩
  · exact ⟨.virtualId "", rfl⟩
  · exact ⟨.annotateSources true, rfl⟩
  · exact ⟨.debounceMs 0, rfl⟩
  · exact ⟨.endpointPath "", rfl⟩
  · exact ⟨.eventName "", rfl⟩
  · exact ⟨.outputFile none, rfl⟩

/-- The members of such an object are read one after the other, as none of its settings has been
given before. -/
theorem goes_of_lists (h : Lists given ms) (hdistinct : (given.map Setting.key).Nodup) {d : Draft}
    (hnew : ∀ s ∈ given, s.key ∉ d.given) :
    ∃ d', Goes (Field.member fields) d ms d' ∧ d'.config = d.config.withSettings given := by
  induction h generalizing d with
  | nil => exact ⟨d, .nil, rfl⟩
  | @setting s m given ms hneat hkey hvalue _ ih =>
    obtain ⟨hfirst, hdistinct⟩ := List.nodup_cons.mp hdistinct
    obtain ⟨hs, hnew⟩ := List.forall_mem_cons.mp hnew
    obtain ⟨f, hf⟩ := s.exists_readBy
    have hfind : fields.find? (fun g => g.key.toList = f.key.toList) = some f := by
      simpa only [String.toList_inj, hf.key] using hf.found
    have hgiven : f.given d = false := by simp [hf.given, hs]
    have hfresh : ∀ s' ∈ given, s'.key ∉ s.key :: d.given := fun s' hs' hmem => by
      rcases List.mem_cons.mp hmem with heq | hmem
      · exact hfirst (heq ▸ List.mem_map_of_mem hs')
      · exact hnew s' hs' hmem
    obtain ⟨d', hgoes, hconfig⟩ :=
      ih hdistinct (d := ⟨s.put d.config, s.key :: d.given⟩) hfresh
    rw [← hf.key] at hkey
    exact ⟨d', .cons hneat (member_field hneat hkey hfind hgiven (hf.takes hvalue d)) hgoes, hconfig⟩
  | @other key m given ms hneat hkey hother hvalue _ ih =>
    obtain ⟨d', hgoes, hconfig⟩ := ih hdistinct hnew
    have hunknown : ∀ f ∈ fields, f.key.toList ≠ key.toList := fun f hf heq => by
      obtain ⟨s, hs⟩ := exists_setting_of_mem hf
      exact hother s (hs.trans (String.toList_inj.mp heq))
    exact ⟨d', .cons hneat (member_unknown hneat hkey hunknown hvalue) hgoes, hconfig⟩

/-- **What is read from an object of settings: the defaults with these in place.** -/
theorem ofJson_settings {text : String} (h : WritesSettings given text)
    (hdistinct : (given.map Setting.key).Nodup) :
    ofJson text = .ok (default.withSettings given) := by
  obtain ⟨before, lead, ms, after, hbefore, hlead, hafter, hlists, rfl⟩ := h
  obtain ⟨d, hgoes, hconfig⟩ := goes_of_lists (d := ⟨default, []⟩) hlists hdistinct (by simp)
  have htakes : reader.Takes (objectText lead ms) (default.withSettings given) :=
    takes_record hlead hgoes (by rw [hconfig])
  exact read_of_takes htakes hbefore hafter

end Reading

end LayeredCss.Config
