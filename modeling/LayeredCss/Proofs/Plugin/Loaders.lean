import LayeredCss.Plugin
import LayeredCss.Proofs.Session.Run

/-!
# The filter and the loader

Two functions look at the extension of a module.  The filter accepts it in any case, and the loader
goes by the extension as it is written.  So they agree on extensions in lower case; any other loader
is that of plain JavaScript, whatever the filter has accepted the module for.

* `Loader.name_ofExtension`, `Loader.ofExtension_of_ne`: the loader for an extension, in lower case and
  otherwise;
* `loader_of_accepted`: the loader that is reported for an accepted module;
* `not_loader_of_accepted`: a module whose extension is in capital letters.
-/

namespace LayeredCss

/-- The extensions that loaders are named for. -/
def Loader.names : List String := ["ts", "tsx", "js", "jsx"]

/-- An extension that a loader is named for gets this loader. -/
theorem Loader.name_ofExtension {extension : String} (h : extension ∈ names) :
    (ofExtension (some extension)).name = extension := by
  simp only [names, List.mem_cons, List.not_mem_nil, or_false] at h
  rcases h with rfl | rfl | rfl | rfl <;> rfl

/-- An extension that is not in lower case is not recognised. -/
theorem Loader.ofExtension_of_ne {extension : String} (h : extension ≠ Text.lowerCase extension) :
    ofExtension (some extension) = .js := by
  unfold ofExtension
  split
  case h_1 heq => cases heq; exact absurd (by decide) h
  case h_2 heq => cases heq; exact absurd (by decide) h
  case h_3 heq => cases heq; exact absurd (by decide) h
  case h_4 heq => cases heq; exact absurd (by decide) h
  case h_5 heq => cases heq; exact absurd (by decide) h
  case h_6 => rfl

namespace SourceFilter

theorem extensions_of_ofConfig {config : Config} {filter : SourceFilter}
    (h : ofConfig config = .ok filter) :
    filter.extensions = config.extensions.map normalExtension := by
  unfold ofConfig at h
  cases hread : config.exclude.mapM readGlob with
  | error failure => rw [hread] at h; cases h
  | ok globs =>
    cases hnesting : checkNesting globs with
    | error failure =>
      simp only [hread, hnesting, bind, Except.bind] at h
      cases h
    | ok done =>
      simp only [hread, hnesting, bind, Except.bind, pure, Except.pure] at h
      cases h
      rfl

/-- A file that is processed has an extension that is, in lower case, one of those of the filter. -/
theorem extension_of_accepted {filter : SourceFilter} {file : FileId} {source : String}
    (h : filter.skip? file source = none) :
    ∃ extension, SourcePath.extension? file.name = some extension ∧
      Text.lowerCase extension ∈ filter.extensions := by
  have hsupports : filter.supports file.name = true := by
    by_contra hnot
    rw [skip?, if_pos (by simpa using hnot)] at h
    cases h
  unfold supports at hsupports
  split at hsupports
  · cases hsupports
  · next extension heq => exact ⟨extension, heq, by simpa using hsupports⟩

end SourceFilter

/-- Only the filter skips files. -/
theorem Session.skip?_of_skipped {s next : Session} {e : Entry} {reason : SkipReason}
    (h : (s.process e.transform e.file e.source).value = (.skipped reason, next)) :
    s.filter.skip? e.file e.source = some reason := by
  rcases s.process_cases e with
    ⟨_, hskip, h'⟩ | ⟨-, ⟨_, -, h'⟩ | ⟨-, ⟨_, -, h'⟩ | ⟨r, layers, -, h'⟩⟩⟩ <;> rw [h] at h'
  · cases h'
    exact hskip
  · cases h'
  · cases h'
  · cases hask : s.ask e r.base with
    | error failure => rw [hask, value_finish_error] at h'; cases h'
    | ok output => rw [hask, value_finish_ok] at h'; cases h'

theorem Session.Turn.filter (t : Session.Turn) : t.next.filter = t.before.filter := by
  rcases Session.turn_cases t with m | ⟨file, -, -, hnext⟩ | ⟨generate, -, -, hnext⟩
  · exact m.framed.filter
  · rw [hnext]
  · rw [hnext]
    rfl

/-- A session keeps the filter of its configuration. -/
theorem Session.filter_after {lifecycle : Lifecycle} {config : Config} {theme : Theme} {s₀ : Session}
    (h₀ : (Session.new lifecycle config theme).value = .ok s₀) (calls : List Session.Call) :
    SourceFilter.ofConfig config = .ok (s₀.after calls).filter := by
  have hstart : SourceFilter.ofConfig config = .ok s₀.filter := by
    unfold Session.new at h₀
    split at h₀
    · cases h₀
    · next filter hfilter =>
      cases h₀
      exact hfilter
  exact Session.run_preserves (I := fun _ s => SourceFilter.ofConfig config = .ok s.filter)
    (fun _ t ht => t.filter ▸ ht) hstart calls

namespace Plugin

/-- What is reported of a file goes with the loader for its path. -/
theorem loader_outputOf {p : Plugin} {file : FileId} {outcome : Outcome} {m : ModuleSource}
    (h : (p.outputOf file outcome).value = some m) : m.loader = .ofPath file.name := by
  cases outcome with
  | skipped reason => simp [outputOf] at h
  | unchanged code diagnostics =>
    have hm : p.importing file code diagnostics false = m := Option.some.inj h
    rw [← hm, importing]
  | transformed result =>
    have hm : p.importing file result.code result.diagnostics true = m := Option.some.inj h
    rw [← hm, importing]
  | fallback code failure =>
    have hm : failing file code failure = m := Option.some.inj h
    rw [← hm, failing]

/-- Something is reported of each file that is not skipped. -/
theorem isSome_outputOf (p : Plugin) (file : FileId) {outcome : Outcome}
    (h : ∀ reason, outcome ≠ .skipped reason) : (p.outputOf file outcome).value.isSome = true := by
  cases outcome with
  | skipped reason => exact absurd rfl (h reason)
  | unchanged | transformed | fallback => rfl

/-- A module that is accepted has an output, with the loader for its id. -/
theorem transform_of_accepted (p : Plugin) (transformer : Transform) {moduleId code : String}
    (h : p.session.filter.skip? ⟨moduleId⟩ code = none) :
    ∃ m next, (p.transform transformer moduleId code).value = (some m, next) ∧
      m.loader = .ofPath moduleId := by
  cases hvalue : (p.session.process transformer ⟨moduleId⟩ code).value with
  | mk outcome next =>
    have hskips : ∀ reason, outcome ≠ .skipped reason := by
      rintro reason rfl
      have hskip := Session.skip?_of_skipped (e := ⟨⟨moduleId⟩, code, transformer⟩) hvalue
      cases h.symm.trans hskip
    obtain ⟨m, hm⟩ := Option.isSome_iff_exists.mp (p.isSome_outputOf ⟨moduleId⟩ hskips)
    exact ⟨m, { p with session := next }, by rw [value_transform hvalue, hm], loader_outputOf hm⟩

/-- **The loader of an accepted module.**  If the filter has been made with extensions that are names
of loaders, in any spelling that it normalises, then a module that it accepts has an extension that
is, in lower case, one of them.  The loader that is reported is named for it exactly if the extension
is written in lower case or is that of plain JavaScript, and is otherwise that of plain JavaScript. -/
theorem loader_of_accepted {p : Plugin} {config : Config}
    (hfilter : SourceFilter.ofConfig config = .ok p.session.filter)
    (hnames : ∀ extension ∈ config.extensions,
      SourceFilter.normalExtension extension ∈ Loader.names)
    (transformer : Transform) {moduleId code : String}
    (haccepted : p.session.filter.skip? ⟨moduleId⟩ code = none) :
    ∃ m next extension, (p.transform transformer moduleId code).value = (some m, next) ∧
      SourcePath.extension? moduleId = some extension ∧
      Text.lowerCase extension ∈ config.extensions.map SourceFilter.normalExtension ∧
      (m.loader.name = Text.lowerCase extension ↔
        extension = Text.lowerCase extension ∨ Text.lowerCase extension = "js") ∧
      (extension ≠ Text.lowerCase extension → m.loader = .js) := by
  obtain ⟨extension, hextension, hmem⟩ := SourceFilter.extension_of_accepted haccepted
  obtain ⟨m, next, hvalue, hloader⟩ := p.transform_of_accepted transformer haccepted
  rw [SourceFilter.extensions_of_ofConfig hfilter] at hmem
  have hname : Text.lowerCase extension ∈ Loader.names := by
    obtain ⟨given, hgiven, heq⟩ := List.mem_map.mp hmem
    exact heq ▸ hnames given hgiven
  have hof : m.loader = .ofExtension (some extension) := by
    rw [hloader, Loader.ofPath, hextension]
  have hother : extension ≠ Text.lowerCase extension → m.loader = .js := fun hne =>
    hof.trans (Loader.ofExtension_of_ne hne)
  refine ⟨m, next, extension, hvalue, hextension, hmem, ?_, hother⟩
  by_cases hlower : extension = Text.lowerCase extension
  · have hsame : m.loader.name = Text.lowerCase extension := by
      rw [hof, ← hlower]
      exact Loader.name_ofExtension (hlower ▸ hname)
    exact ⟨fun _ => Or.inl hlower, fun _ => hsame⟩
  · rw [hother hlower]
    exact ⟨fun hjs => Or.inr hjs.symm, fun hjs => (hjs.resolve_left hlower).symm⟩

/-- Extensions in several spellings, and a module whose folder has a dot, whose name comes after a
backslash and whose id has a query: it is accepted as `tsx` and reported so, after any calls. -/
theorem loader_of_accepted_query :
    let config : Config := { extensions := [".TSX", "..Js"], exclude := [] }
    let calls : List Session.Call := [.process ⟨⟨"a.js"⟩, "strata", Session.failing⟩]
    ∃ s₀ m next, (Session.new .watch config .empty).value = .ok s₀ ∧
      ((ofSession (s₀.after calls)).transform Session.oneRule "src/v1.ts\x5cCard.tsx?v=a.js"
        "strata").value = (some m, next) ∧ m.loader.name = "tsx" := by
  intro config calls
  cases h₀ : (Session.new .watch config .empty).value with
  | error failure => cases h₀
  | ok s₀ =>
    have hfilter := Session.filter_after h₀ calls
    have hnames : ∀ extension ∈ config.extensions,
        SourceFilter.normalExtension extension ∈ Loader.names := by decide
    have haccepted : (s₀.after calls).filter.skip? ⟨"src/v1.ts\x5cCard.tsx?v=a.js"⟩ "strata" = none := by
      cases h₀
      decide +kernel
    obtain ⟨m, next, extension, hvalue, hextension, -, hiff, -⟩ :=
      loader_of_accepted (p := ofSession (s₀.after calls)) hfilter hnames Session.oneRule haccepted
    have htsx : extension = "tsx" := by
      have hwritten : SourcePath.extension? "src/v1.ts\x5cCard.tsx?v=a.js" = some "tsx" := by decide
      exact Option.some.inj (hextension.symm.trans hwritten)
    subst htsx
    exact ⟨s₀, m, next, rfl, hvalue, hiff.mpr (Or.inl (by decide))⟩

/-- **The loader of a module in capital letters.**  The filter with the default extensions accepts a
module as `tsx`, and the loader that is reported for it is that of plain JavaScript. -/
theorem not_loader_of_accepted :
    let p := ofSession (Session.blank .watch)
    p.session.config.extensions = ["ts", "tsx", "js", "jsx"] ∧
      SourcePath.extension? "card.TSX" = some "TSX" ∧ Text.lowerCase "TSX" = "tsx" ∧
      p.session.filter.skip? ⟨"card.TSX"⟩ "strata" = none ∧
      ∃ m next, (p.transform Session.oneRule "card.TSX" "strata").value = (some m, next) ∧
        m.loader.name = "js" := by
  intro p
  have haccepted : p.session.filter.skip? ⟨"card.TSX"⟩ "strata" = none := by decide +kernel
  obtain ⟨m, next, hvalue, hloader⟩ := p.transform_of_accepted Session.oneRule haccepted
  refine ⟨rfl, by decide, by decide, haccepted, m, next, hvalue, ?_⟩
  rw [hloader]
  decide

end Plugin

end LayeredCss
