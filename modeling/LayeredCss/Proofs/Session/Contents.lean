import LayeredCss.Proofs.Session.History

/-!
# The stylesheet of a run

The rule store holds what the history says (`Recorded`).  The stylesheet that is kept is known only
by the revision of the store that it was made from; since every change of the store is an event and
every revision counts them, the kept stylesheet is that of the present contents as long as the
revision is the present one (`Kept`).

* `Move.faithful`, `faithful_after`: both hold on every run;
* `stylesheet_of_history`: so a stylesheet, kept or made anew, is the page of the contents.
-/

namespace LayeredCss

/-- A generator that may fail, but always makes the same text of the same rules. -/
def Generator.Agrees (generate : Generator) (css : List String → String) : Prop :=
  ∀ rules text, generate rules = .ok text → text = css rules

namespace Session

variable {s₀ : Session} {h : List Event}

/-! ## The rule store -/

/-- **The rule store holds what the history says**, and its revision counts the changes. -/
structure Recorded (s₀ : Session) (h : List Event) (s : RuleStore) : Prop where
  order : s.order = live h
  known : ∀ file, s.contains file = true ↔ file ∈ live h
  rules : ∀ file record, s.record? file = some record → record.rules = latest s₀ file h
  revision : s.revision = .ofNat (mutations h)

theorem recorded_nil (s₀ : Session) : Recorded s₀ [] .empty where
  order := rfl
  known file := by simp [RuleStore.empty, RuleStore.contains, OrderedMap.contains,
    OrderedMap.find?_empty, live]
  rules file record hr := by cases hr
  revision := rfl

namespace Recorded

variable {s : RuleStore} (hs : Recorded s₀ h s)
include hs

theorem contents_eq : s.toList.map (fun entry => (entry.1, entry.2.rules)) = contents s₀ h := by
  have hfound : ∀ files : List FileId, files ⊆ live h →
      (files.filterMap fun file => (s.record? file).map (file, ·)).map
        (fun entry => (entry.1, entry.2.rules)) =
      files.map fun file => (file, latest s₀ file h) := by
    intro files hsub
    induction files with
    | nil => rfl
    | cons file rest ih =>
      obtain ⟨hfile, hrest⟩ := List.cons_subset.mp hsub
      obtain ⟨record, hr⟩ := RuleStore.contains_iff.mp ((hs.known file).mpr hfile)
      simp only [List.filterMap_cons, hr, Option.map_some, List.map_cons, ih hrest,
        hs.rules file record hr]
  unfold RuleStore.toList contents
  rw [hs.order]
  exact hfound _ (List.Subset.refl _)

/-- A file that needed no transform, or whose transform failed, changes nothing. -/
theorem idle {e : Entry} {outcome : Outcome} (ho : outcome.mutated = false) :
    Recorded s₀ (h ++ [.processed e outcome]) s where
  order := by rw [live_idle ho]; exact hs.order
  known := by rw [live_idle ho]; exact hs.known
  rules file record hr := by
    rw [latest_append, Event.texts?_of_not_mutated ho]
    exact hs.rules file record hr
  revision := by
    rw [mutations_append, Event.mutates, ho]
    exact hs.revision

theorem put {e : Entry} {result : Transformed} {output : Transform.Output} {record : FileRecord}
    (hask : s₀.ask e result.layerBase = .ok output) (hrules : record.rules = output.cssTexts) :
    Recorded s₀ (h ++ [.processed e (.transformed result)]) (s.putRecord e.file record) where
  order := by
    rw [live_transformed]
    unfold RuleStore.putRecord
    by_cases hmem : e.file ∈ live h
    · rw [if_pos hmem, if_pos ((hs.known _).mpr hmem), hs.order]
    · rw [if_neg hmem, if_neg fun hc => hmem ((hs.known _).mp hc), hs.order]
  known file := by
    rw [RuleStore.contains_putRecord, hs.known, live_transformed]
    by_cases heq : e.file = file
    · by_cases hmem : file ∈ live h <;> simp [heq, hmem]
    · by_cases hmem : e.file ∈ live h <;> simp [heq, hmem, Ne.symm heq]
  rules file record' hr := by
    rw [RuleStore.record?_putRecord] at hr
    rw [latest_append]
    unfold Event.texts?
    split at hr
    · next heq =>
      cases hr
      simp only [heq, if_true, hask, Except.toOption, Option.map_some, Option.getD_some, hrules]
    · next hne =>
      simp only [hne, if_false, Option.getD_none]
      exact hs.rules file record' hr
  revision := by
    rw [mutations_append]
    unfold RuleStore.putRecord
    simp only [hs.revision, Event.mutates, Outcome.mutated, Bool.toNat_true, UInt64.ofNat_add]
    rfl

theorem remove (file : FileId) :
    Recorded s₀ (h ++ [.removed file (s.contains file)]) (s.remove file) where
  order := by
    unfold RuleStore.remove
    split
    · rw [live_removed, ← hs.order]
    · next hunknown =>
      rw [hs.known] at hunknown
      rw [live_removed_of_not_mem hunknown, hs.order]
  known other := by rw [RuleStore.contains_remove, hs.known, mem_live_removed]
  rules other record hr := by
    rw [RuleStore.record?_remove] at hr
    split at hr
    · cases hr
    · rw [latest_append]
      exact hs.rules other record hr
  revision := by
    rw [mutations_append, Event.mutates]
    unfold RuleStore.remove
    cases s.contains file with
    | true => simp only [if_true, Bool.toNat_true, UInt64.ofNat_add, hs.revision]; rfl
    | false => exact hs.revision

theorem contents_removed_unknown {file : FileId} {known : Bool}
    (hunknown : s.contains file = false) :
    contents s₀ (h ++ [.removed file known]) = contents s₀ h := by
  have hfile : file ∉ live h := fun hmem => by
    rw [(hs.known file).mpr hmem] at hunknown
    cases hunknown
  unfold contents
  rw [live_removed_of_not_mem hfile]
  exact List.map_congr_left fun other _ => by rw [latest_append]; rfl

end Recorded

theorem contents_idle {e : Entry} {outcome : Outcome} (ho : outcome.mutated = false) :
    contents s₀ (h ++ [.processed e outcome]) = contents s₀ h := by
  unfold contents
  rw [live_idle ho]
  refine List.map_congr_left fun file _ => ?_
  rw [latest_append, Event.texts?_of_not_mutated ho, Option.getD_none]

/-! ## The kept stylesheet -/

/-- A stylesheet made from nothing is the page of the contents. -/
theorem build_eq_page {css : List String → String} {annotate : Bool} {generate : Generator}
    (hgenerate : generate.Agrees css) {s : RuleStore} {files : List (FileId × List String)}
    (hs : s.toList.map (fun entry => (entry.1, entry.2.rules)) = files) {text : String}
    (hbuild : SheetCache.build annotate generate s = .ok text) :
    text = page css annotate files := by
  have hrules : s.allRules = files.flatMap (·.2) := by
    rw [← hs, List.flatMap_map]
    rfl
  have hsources : s.contributors = (files.filter fun f => !f.2.isEmpty).map (·.1) := by
    rw [← hs, List.filter_map, List.map_map]
    rfl
  unfold SheetCache.build at hbuild
  unfold page
  rw [← hrules, ← hsources]
  simp only
  split at hbuild
  · next hempty =>
    rw [if_pos hempty]
    cases hbuild
    rfl
  · next hsome =>
    rw [if_neg hsome]
    cases hcss : generate s.allRules with
    | error failure => rw [hcss] at hbuild; cases hbuild
    | ok rest =>
      rw [hcss] at hbuild
      cases hgenerate _ _ hcss
      cases hbuild
      unfold SheetCache.annotations
      rw [RuleStore.contributors_of_allRules hsome]
      rfl

theorem build_error {annotate : Bool} {generate : Generator} {s : RuleStore} {failure : Failure}
    (hbuild : SheetCache.build annotate generate s = .error failure) :
    generate s.allRules = .error failure := by
  unfold SheetCache.build at hbuild
  split at hbuild
  · cases hbuild
  · cases hcss : generate s.allRules with
    | error failure' => rw [hcss] at hbuild; cases hbuild; rfl
    | ok rest => rw [hcss] at hbuild; cases hbuild

/-- **The kept stylesheet** was made at some revision of the past, and if that is the present one it
is the page of the present contents. -/
structure Kept (css : List String → String) (s₀ : Session) (h : List Event) (a : SheetCache) :
    Prop where
  annotate : a.annotate = s₀.config.annotateSources
  sheet : ∀ sheet, a.lastGood = some sheet → ∃ n ≤ mutations h, sheet.revision = .ofNat n ∧
    (n = mutations h → sheet.text = page css s₀.config.annotateSources (contents s₀ h))

variable {css : List String → String} {a : SheetCache}

theorem Kept.idle {event : Event} (ha : Kept css s₀ h a) (hm : event.mutates = false)
    (hc : contents s₀ (h ++ [event]) = contents s₀ h) : Kept css s₀ (h ++ [event]) a := by
  refine ⟨ha.annotate, fun sheet hsheet => ?_⟩
  rw [mutations_append, hm, hc]
  exact ha.sheet sheet hsheet

/-- After a change the kept stylesheet is of the past. -/
theorem Kept.mutated {event : Event} (ha : Kept css s₀ h a) (hm : event.mutates = true) :
    Kept css s₀ (h ++ [event]) a := by
  refine ⟨ha.annotate, fun sheet hsheet => ?_⟩
  obtain ⟨n, hn, hrevision, -⟩ := ha.sheet sheet hsheet
  rw [mutations_append, hm, Bool.toNat_true]
  exact ⟨n, by omega, hrevision, fun heq => by omega⟩

theorem ofNat_inj_of_le {n m : Nat} (hle : n ≤ m) (hlt : m < UInt64.size)
    (h : UInt64.ofNat m = UInt64.ofNat n) : n = m := by
  have htoNat := congrArg UInt64.toNat h
  rw [UInt64.toNat_ofNat_of_lt' hlt,
    UInt64.toNat_ofNat_of_lt' (Nat.lt_of_le_of_lt hle hlt)] at htoNat
  exact htoNat.symm

/-- **A kept stylesheet that counts as current** is the page of the contents. -/
theorem Kept.current {s : RuleStore} {sheet : Stylesheet} (ha : Kept css s₀ h a)
    (hs : Recorded s₀ h s) (hlt : mutations h < UInt64.size) (hcurrent : a.current? s = some sheet) :
    sheet.text = page css s₀.config.annotateSources (contents s₀ h) := by
  obtain ⟨hlast, hrevision⟩ := SheetCache.current?_eq_some.mp hcurrent
  obtain ⟨n, hn, hsheet, htext⟩ := ha.sheet sheet hlast
  rw [hs.revision] at hrevision
  exact htext (ofNat_inj_of_le hn hlt (hrevision.symm.trans hsheet))

/-- **A stylesheet, kept or made anew, is the page of the contents.** -/
theorem refresh_eq_page {s : RuleStore} {generate : Generator} (ha : Kept css s₀ h a)
    (hs : Recorded s₀ h s) (hlt : mutations h < UInt64.size) (hgenerate : generate.Agrees css)
    {text : String} (hok : (a.refresh generate s).value.1 = .ok text) :
    text = page css s₀.config.annotateSources (contents s₀ h) := by
  cases hcurrent : a.current? s with
  | some sheet =>
    rw [SheetCache.value_refresh_of_current hcurrent] at hok
    cases hok
    exact ha.current hs hlt hcurrent
  | none =>
    cases hbuild : SheetCache.build a.annotate generate s with
    | error failure =>
      rw [SheetCache.value_refresh_of_failed hcurrent hbuild] at hok
      cases hok
    | ok made =>
      rw [SheetCache.value_refresh_of_made hcurrent hbuild] at hok
      cases hok
      rw [build_eq_page hgenerate hs.contents_eq hbuild, ha.annotate]

/-- Only a generator that fails on the rules of the contents keeps them from being made a page. -/
theorem refresh_error {s : RuleStore} {generate : Generator} (hs : Recorded s₀ h s)
    {failure : Failure} (herror : (a.refresh generate s).value.1 = .error failure) :
    generate ((contents s₀ h).flatMap (·.2)) = .error failure := by
  cases hcurrent : a.current? s with
  | some sheet =>
    rw [SheetCache.value_refresh_of_current hcurrent] at herror
    cases herror
  | none =>
    cases hbuild : SheetCache.build a.annotate generate s with
    | error failure' =>
      rw [SheetCache.value_refresh_of_failed hcurrent hbuild] at herror
      cases herror
      rw [← hs.contents_eq, List.flatMap_map]
      exact build_error hbuild
    | ok made =>
      rw [SheetCache.value_refresh_of_made hcurrent hbuild] at herror
      cases herror

theorem Kept.refresh {s : RuleStore} {generate : Generator} (ha : Kept css s₀ h a)
    (hs : Recorded s₀ h s) (hgenerate : generate.Agrees css) :
    Kept css s₀ h (a.refresh generate s).value.2 := by
  cases hcurrent : a.current? s with
  | some sheet =>
    rw [SheetCache.value_refresh_of_current hcurrent]
    exact ha
  | none =>
    cases hbuild : SheetCache.build a.annotate generate s with
    | error failure =>
      rw [SheetCache.value_refresh_of_failed hcurrent hbuild]
      exact ha
    | ok made =>
      rw [SheetCache.value_refresh_of_made hcurrent hbuild]
      refine ⟨ha.annotate, fun sheet hsheet => ?_⟩
      cases hsheet
      refine ⟨mutations h, Nat.le_refl _, hs.revision, fun _ => ?_⟩
      rw [build_eq_page hgenerate hs.contents_eq hbuild, ha.annotate]

/-! ## Runs -/

/-- Store and kept stylesheet agree with the history. -/
structure Faithful (css : List String → String) (s₀ : Session) (h : List Event) (s : Session) :
    Prop where
  ask : s.ask = s₀.ask
  recorded : Recorded s₀ h s.store
  kept : Kept css s₀ h s.sheets

theorem Faithful.idle {s t : Session} {e : Entry} {outcome : Outcome} (hs : Faithful css s₀ h s)
    (ho : outcome.mutated = false) (hask : t.ask = s.ask) (hstore : t.store = s.store)
    (hsheets : t.sheets = s.sheets) : Faithful css s₀ (h ++ [.processed e outcome]) t where
  ask := hask.trans hs.ask
  recorded := hstore ▸ hs.recorded.idle ho
  kept := hsheets ▸ hs.kept.idle ho (contents_idle ho)

/-- **A move keeps store and stylesheet faithful.** -/
theorem Move.faithful {K : List FileId} {x y : Stage} {l : List Event} (m : Move K x l y)
    (hx : Faithful css s₀ h x.session) : Faithful css s₀ (h ++ l) y.session := by
  have hask := m.framed.ask
  have hsheets := m.framed.sheets
  cases m with
  | note _ e ho => exact hx.idle (Outcome.mutated_of_not_attempted ho) rfl rfl rfl
  | reuse => rw [List.append_nil]; exact ⟨hask.trans hx.ask, hx.recorded, hx.kept⟩
  | reserve => rw [List.append_nil]; exact ⟨hask.trans hx.ask, hx.recorded, hx.kept⟩
  | refuse => exact hx.idle rfl hask rfl hsheets
  | release => exact hx.idle rfl hask rfl hsheets
  | commit hr hok =>
    rw [hx.ask] at hok
    exact ⟨hask.trans hx.ask, hx.recorded.put hok rfl, hx.kept.mutated rfl⟩

theorem Faithful.removeFile {s : Session} (hs : Faithful css s₀ h s) (file : FileId) :
    Faithful css s₀ (h ++ [.removed file (s.store.contains file)]) (s.removeFile file).2 where
  ask := hs.ask
  recorded := hs.recorded.remove file
  kept := by
    cases hknown : s.store.contains file with
    | true => exact hs.kept.mutated rfl
    | false => exact hs.kept.idle rfl (hs.recorded.contents_removed_unknown hknown)

theorem Turn.faithful (t : Turn) (ht : Faithful css s₀ h t.before)
    (hgenerate : ∀ generate, t.call = .stylesheet generate → generate.Agrees css) :
    Faithful css s₀ (h ++ t.events) t.next := by
  rcases turn_cases t with m | ⟨file, -, hevents, hnext⟩ | ⟨generate, hcall, hevents, hnext⟩
  · exact m.preserves (I := fun h x => Faithful css s₀ h x.session)
      (fun _ _ _ _ hx m => m.faithful hx) h ht
  · rw [hevents, hnext]
    exact ht.removeFile file
  · rw [hevents, hnext, List.append_nil]
    exact ⟨ht.ask, ht.recorded, ht.kept.refresh ht.recorded (hgenerate generate hcall)⟩

theorem Starts.faithful {lifecycle : Lifecycle} (h₀ : s₀.Starts lifecycle) :
    Faithful css s₀ [] s₀ := by
  obtain ⟨-, -, hstore, hsheets, -⟩ := h₀.fields
  refine ⟨rfl, hstore ▸ recorded_nil s₀, ?_⟩
  rw [hsheets]
  exact ⟨rfl, fun sheet hsheet => by cases hsheet⟩

/-- **After every run** store and kept stylesheet agree with the history. -/
theorem faithful_after {lifecycle : Lifecycle} (h₀ : s₀.Starts lifecycle) {calls : List Call}
    (hgenerate : ∀ generate, Call.stylesheet generate ∈ calls → generate.Agrees css) :
    Faithful css s₀ (s₀.history calls) (s₀.after calls) := by
  refine run_preserves_of (P := fun t => ∀ generate, t.call = .stylesheet generate →
    generate.Agrees css) (fun _ t hcall hbefore => t.faithful hbefore hcall) ?_ h₀.faithful
  intro t ht generate hcall
  exact hgenerate generate (hcall ▸ call_mem_of_turns ht)

/-- **The stylesheet of a run is that of its history.**  Whatever calls a session has had, a
stylesheet that it makes is the page of the rules that the history says it should have, and it makes
one unless the generator fails on these rules. -/
theorem stylesheet_of_history {lifecycle : Lifecycle} {s : Session} (h₀ : s₀.Starts lifecycle)
    {calls : List Call} (hs : s₀.after calls = s)
    (hgenerators : ∀ generate, Call.stylesheet generate ∈ calls → generate.Agrees css)
    (hlt : mutations (s₀.history calls) < UInt64.size) {generate : Generator}
    (hgenerate : generate.Agrees css) :
    (∀ text, (s.stylesheet generate).value.1 = .ok text →
      text = page css s₀.config.annotateSources (contents s₀ (s₀.history calls))) ∧
    ∀ failure, (s.stylesheet generate).value.1 = .error failure →
      generate ((contents s₀ (s₀.history calls)).flatMap (·.2)) = .error failure := by
  have hfaithful : Faithful css s₀ (s₀.history calls) s := hs ▸ faithful_after h₀ hgenerators
  constructor
  · intro text hok
    exact refresh_eq_page hfaithful.kept hfaithful.recorded hlt hgenerate hok
  · intro failure herror
    exact refresh_error hfaithful.recorded herror

/-- A file that is removed and comes back stands last, and a generator that fails in between takes
nothing away. -/
theorem stylesheet_of_history_returning :
    let s₀ := blank .build
    let calls : List Call := [.process ⟨⟨"a.ts"⟩, "strata", oneRule⟩, .stylesheet joinedRules,
      .process ⟨⟨"b.ts"⟩, "strata", oneRule⟩, .stylesheet fun _ => .error (.ofText "no css"),
      .removeFile ⟨"a.ts"⟩, .process ⟨⟨"a.ts"⟩, "strata", oneRule⟩]
    ((s₀.after calls).stylesheet joinedRules).value.1 = .ok ".a\x7b\x7d\n\n.a\x7b\x7d" ∧
      ".a\x7b\x7d\n\n.a\x7b\x7d" =
        page "\n\n".intercalate false (contents s₀ (s₀.history calls)) := by
  intro s₀ calls
  have hjoined : joinedRules.Agrees "\n\n".intercalate := fun rules text h => by
    cases h
    rfl
  have hok : ((s₀.after calls).stylesheet joinedRules).value.1 =
    .ok ".a\x7b\x7d\n\n.a\x7b\x7d" := by decide +kernel
  have hgenerators : ∀ generate, Call.stylesheet generate ∈ calls →
      generate.Agrees "\n\n".intercalate := by
    intro generate hmem
    simp only [calls, List.mem_cons, List.not_mem_nil, or_false, reduceCtorEq, false_or,
      Call.stylesheet.injEq] at hmem
    rcases hmem with rfl | rfl
    · exact hjoined
    · intro rules text h
      cases h
  have hlt : mutations (s₀.history calls) < UInt64.size := by decide +kernel
  have hpage := (stylesheet_of_history (starts_blank .build) (s := s₀.after calls) rfl hgenerators
    hlt hjoined).1 _ hok
  exact ⟨hok, hpage⟩

end Session

end LayeredCss
