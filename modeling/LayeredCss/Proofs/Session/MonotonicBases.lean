import LayeredCss.Proofs.Session.History

/-!
# Monotonic bases over a run

Under the monotonic policy all files share one counter.  A file reads it when a base is reserved, and
moves it on when its transform has succeeded; in between nobody else may read it.  Since files are
processed one after the other, in a batch too, every file finds the reservation before it settled: none
is refused, and each transform starts where those before it have ended, however often a file comes
back and whatever bounds the transforms report.

* `spans`: the layers of the successful transforms of a history, in their order;
* `top`: the greatest bound that they have reported;
* `process_monotonic`: what processing one file does;
* `Climbing`: what a run keeps, and `bases_of_history`: what follows for its layers.
-/

namespace LayeredCss

/-- The layers of a successful transform, from its base up to the bound that it has reported. -/
structure Span where
  file : FileId
  base : UInt32
  bound : UInt32
  deriving DecidableEq, Repr

/-- All layers of one span come before those of another. -/
def Span.Below (a b : Span) : Prop := a.base ≤ b.base ∧ a.bound ≤ b.base

/-- The layers of a record. -/
def FileRecord.span (file : FileId) (record : FileRecord) : Span :=
  ⟨file, record.layerBase, record.nextLayer⟩

namespace Session

/-- The layers that an event reports to be used. -/
def Event.span? (s : Session) : Event → Option Span
  | .processed e (.transformed result) =>
    (s.ask e result.layerBase).toOption.map fun output =>
      ⟨e.file, result.layerBase, output.nextLayer⟩
  | _ => none

/-- The layers of all successful transforms, in their order. -/
def spans (s : Session) (h : List Event) : List Span := h.filterMap (·.span? s)

/-- The greatest bound that a successful transform has reported; 0 if there was none. -/
def top (s : Session) (h : List Event) : UInt32 := ((spans s h).map (·.bound)).foldl max 0

/-- What becomes of an entry whose transform is called at a base that no slot belongs to. -/
def outcomeAt (s : Session) (e : Entry) (base : UInt32) : Outcome :=
  match s.ask e base with
  | .ok output => .transformed (transformedOf ⟨e.file, base, false⟩ output
      (Diagnostic.errors output.diagnostics).length)
  | .error failure => .fallback (fallbackCode s.config e.source) failure

variable {s₀ s : Session} {h : List Event} {event : Event} {a : Span} {e : Entry}

/-! ## One more event -/

theorem Event.span?_of_not_mutated {outcome : Outcome} (ho : outcome.mutated = false) :
    (processed e outcome).span? s = none := by
  cases outcome with
  | transformed => cases ho
  | _ => rfl

theorem Event.span?_transformed {r : Reservation} {output : Transform.Output}
    (hok : s.ask e r.base = .ok output) (errorCount : Nat) :
    (processed e (.transformed (transformedOf r output errorCount))).span? s =
      some ⟨e.file, r.base, output.nextLayer⟩ := by
  unfold span?
  simp only [transformedOf, hok]
  rfl

theorem spans_append_none (ha : event.span? s = none) : spans s (h ++ [event]) = spans s h := by
  simp [spans, ha]

theorem spans_append_some (ha : event.span? s = some a) :
    spans s (h ++ [event]) = spans s h ++ [a] := by
  simp [spans, ha]

theorem top_append_none (ha : event.span? s = none) : top s (h ++ [event]) = top s h := by
  unfold top
  rw [spans_append_none ha]

theorem top_append_some (ha : event.span? s = some a) :
    top s (h ++ [event]) = max (top s h) a.bound := by
  unfold top
  rw [spans_append_some ha, List.map_append, List.foldl_append]
  rfl

/-! ## One file -/

/-- **What processing a file does under the monotonic policy** when no reservation is unsettled: it
needs no transform, or its transform is called at the counter, and fails, or succeeds and moves the
counter on. -/
theorem process_monotonic (hpolicy : s.layers.policy = .monotonic)
    (hsettled : s.layers.outstanding = false) (e : Entry) :
    (∃ outcome fallbacks, outcome.attempted = false ∧
      (s.process e.transform e.file e.source).value = (outcome, { s with fallbacks })) ∨
    (∃ failure, s.ask e s.layers.counter = .error failure ∧
      (s.process e.transform e.file e.source).value =
        (.fallback (fallbackCode s.config e.source) failure,
          { s with fallbacks := s.fallbacks.insert e.file () })) ∨
    ∃ output, s.ask e s.layers.counter = .ok output ∧
      (s.process e.transform e.file e.source).value =
        (.transformed (transformedOf ⟨e.file, s.layers.counter, false⟩ output
            (Diagnostic.errors output.diagnostics).length),
          { s with
            layers := s.layers.settle output.nextLayer
            store := s.store.putRecord e.file
              (recordOf (.of e.source) ⟨e.file, s.layers.counter, false⟩ output)
            fallbacks := s.fallbacks.erase e.file }) := by
  rcases s.process_cases e with ⟨reason, -, h⟩ | ⟨-, ⟨answer, -, h⟩ | ⟨-, hreserve⟩⟩
  · exact Or.inl ⟨.skipped reason, s.fallbacks, rfl, h⟩
  · exact Or.inl ⟨.unchanged answer.1 answer.2, s.fallbacks.erase e.file, rfl, h⟩
  refine Or.inr ?_
  rcases Layers.reserve_cases_monotonic hpolicy e.file with ⟨hout, -⟩ | ⟨-, hr⟩
  · cases hsettled.symm.trans hout
  rcases hreserve with ⟨failure, hrefused, -⟩ | ⟨r, layers, hr', h⟩
  · cases hr.symm.trans hrefused
  cases hr.symm.trans hr'
  cases hask : s.ask e s.layers.counter with
  | error failure =>
    rw [hask, value_finish_error] at h
    refine Or.inl ⟨failure, rfl, h.trans ?_⟩
    simp only [Layers.release_of_monotonic (a := { s.layers with outstanding := true }) hpolicy,
      ← hsettled]
  | ok output =>
    rw [hask, value_finish_ok] at h
    refine Or.inr ⟨output, rfl, h.trans ?_⟩
    simp only [Layers.settle, hpolicy, hsettled, bne_self_eq_false, Bool.and_false]

/-! ## Runs -/

/-- The records of a store, each once, in the order of the transforms that they come from. -/
structure Lists (s₀ : Session) (h : List Event) (s : RuleStore)
    (records : List (FileId × FileRecord)) : Prop where
  distinct : (records.map (·.1)).Nodup
  mem_iff : ∀ file record, (file, record) ∈ records ↔ s.record? file = some record
  sublist : (records.map fun entry => entry.2.span entry.1).Sublist (spans s₀ h)

/-- **The counter climbs**: it is the greatest bound so far, and every transform has been called at
the greatest bound before it. -/
structure Climbing (s₀ : Session) (h : List Event) (s : Session) : Prop where
  ask : s.ask = s₀.ask
  config : s.config = s₀.config
  policy : s.layers.policy = .monotonic
  settled : s.layers.outstanding = false
  counter : s.layers.counter = top s₀ h
  called : ∀ before e outcome after, h = before ++ .processed e outcome :: after →
    outcome.attempted = true → outcome = s₀.outcomeAt e (top s₀ before)
  below : ∀ a ∈ spans s₀ h, a.base ≤ s.layers.counter ∧ a.bound ≤ s.layers.counter
  ascending : (spans s₀ h).Pairwise Span.Below
  records : ∃ records, Lists s₀ h s.store records

/-- The last event of a history was preceded by the rest, and the others as before. -/
theorem called_append {P : List Event → Entry → Outcome → Prop}
    (hold : ∀ before e outcome after, h = before ++ .processed e outcome :: after →
      P before e outcome)
    (hnew : ∀ e outcome, event = .processed e outcome → P h e outcome) :
    ∀ before e outcome after, h ++ [event] = before ++ .processed e outcome :: after →
      P before e outcome := by
  intro before e outcome after heq
  rcases after.eq_nil_or_concat with rfl | ⟨rest, last, rfl⟩
  · obtain ⟨rfl, hevent⟩ := List.append_inj' heq rfl
    exact hnew e outcome (List.singleton_inj.mp hevent)
  · rw [List.concat_eq_append, ← List.cons_append, ← List.append_assoc] at heq
    obtain ⟨rfl, -⟩ := List.append_inj' heq rfl
    exact hold before e outcome rest rfl

namespace Climbing

variable {t : Session} (hs : Climbing s₀ h s)
include hs

/-- A file that needs no transform, or whose transform fails, leaves the counter where it is. -/
theorem idle {outcome : Outcome} (ho : outcome.mutated = false)
    (hcalled : outcome.attempted = true → outcome = s₀.outcomeAt e (top s₀ h))
    (hask : t.ask = s.ask) (hconfig : t.config = s.config) (hlayers : t.layers = s.layers)
    (hstore : t.store = s.store) : Climbing s₀ (h ++ [.processed e outcome]) t := by
  have hspan := Event.span?_of_not_mutated (s := s₀) (e := e) ho
  refine ⟨hask.trans hs.ask, hconfig.trans hs.config, ?_, ?_, ?_, ?_, ?_, ?_, ?_⟩
  · rw [hlayers]; exact hs.policy
  · rw [hlayers]; exact hs.settled
  · rw [hlayers, top_append_none hspan]; exact hs.counter
  · refine called_append hs.called fun e' outcome' hevent hattempted => ?_
    cases hevent
    exact hcalled hattempted
  · rw [hlayers, spans_append_none hspan]; exact hs.below
  · rw [spans_append_none hspan]; exact hs.ascending
  · obtain ⟨records, hrecords⟩ := hs.records
    rw [hstore]
    refine ⟨records, hrecords.distinct, hrecords.mem_iff, ?_⟩
    rw [spans_append_none hspan]
    exact hrecords.sublist

end Climbing

/-- A new record stands behind the others, and takes the place of the one that its file had. -/
theorem Lists.put {store : RuleStore} {records : List (FileId × FileRecord)}
    (hr : Lists s₀ h store records) {record : FileRecord}
    (hspan : event.span? s₀ = some (record.span e.file)) :
    Lists s₀ (h ++ [event]) (store.putRecord e.file record)
      (records.filter (·.1 ≠ e.file) ++ [(e.file, record)]) := by
  constructor
  · rw [List.map_append, List.nodup_append]
    refine ⟨hr.distinct.sublist (List.filter_sublist.map _), List.pairwise_singleton _ _, ?_⟩
    intro file hfile other hother
    obtain ⟨entry, hentry, rfl⟩ := List.mem_map.mp hfile
    obtain rfl := List.mem_singleton.mp hother
    exact of_decide_eq_true (List.mem_filter.mp hentry).2
  · intro file record'
    rw [RuleStore.record?_putRecord, List.mem_append, List.mem_filter, List.mem_singleton]
    by_cases hfile : e.file = file
    · subst hfile
      simp [eq_comm]
    · simp [hfile, Ne.symm hfile, hr.mem_iff]
  · rw [spans_append_some hspan, List.map_append]
    exact ((List.filter_sublist.map _).trans hr.sublist).append (List.Sublist.refl _)

/-- A record that is removed leaves the others in their order. -/
theorem Lists.remove {store : RuleStore} {records : List (FileId × FileRecord)}
    (hr : Lists s₀ h store records) (file : FileId) (hspan : event.span? s₀ = none) :
    Lists s₀ (h ++ [event]) (store.remove file) (records.filter (·.1 ≠ file)) := by
  constructor
  · exact hr.distinct.sublist (List.filter_sublist.map _)
  · intro other record
    rw [RuleStore.record?_remove, List.mem_filter, hr.mem_iff]
    by_cases hfile : file = other
    · simp [hfile]
    · simp [hfile, Ne.symm hfile]
  · rw [spans_append_none hspan]
    exact (List.filter_sublist.map _).trans hr.sublist

/-- **Processing a file keeps the counter climbing.** -/
theorem Climbing.process {next : Session} {outcome : Outcome} (hs : Climbing s₀ h s)
    (hvalue : (s.process e.transform e.file e.source).value = (outcome, next)) :
    Climbing s₀ (h ++ [.processed e outcome]) next := by
  rcases process_monotonic hs.policy hs.settled e with ⟨_, fallbacks, ho, hvalue'⟩ |
    ⟨failure, hask, hvalue'⟩ | ⟨output, hask, hvalue'⟩ <;> cases hvalue.symm.trans hvalue'
  · refine hs.idle (Outcome.mutated_of_not_attempted ho) (fun hattempted => ?_) rfl rfl rfl rfl
    cases ho.symm.trans hattempted
  · rw [hs.ask, hs.counter] at hask
    refine hs.idle rfl (fun _ => ?_) rfl rfl rfl rfl
    simp only [outcomeAt, hask, hs.config]
  · have hcounter := hs.counter
    rw [hs.ask] at hask
    have hspan := Event.span?_transformed (e := e) (r := ⟨e.file, s.layers.counter, false⟩) hask
      (Diagnostic.errors output.diagnostics).length
    refine ⟨hs.ask, hs.config, hs.policy, ?_, ?_, ?_, ?_, ?_, ?_⟩
    · simp only [Layers.settle, hs.settled, Bool.false_and]
    · rw [top_append_some hspan, ← hcounter]
      rfl
    · refine called_append hs.called fun e' outcome' hevent _ => ?_
      cases hevent
      rw [hcounter] at hask ⊢
      simp only [outcomeAt, hask]
    · rw [spans_append_some hspan]
      intro a ha
      have hle := s.layers.counter_le_settle output.nextLayer
      rcases List.mem_append.mp ha with ha | ha
      · obtain ⟨hbase, hbound⟩ := hs.below a ha
        exact ⟨UInt32.le_trans hbase hle, UInt32.le_trans hbound hle⟩
      · rw [List.mem_singleton.mp ha]
        exact ⟨hle, s.layers.le_counter_settle output.nextLayer⟩
    · rw [spans_append_some hspan, List.pairwise_append]
      refine ⟨hs.ascending, List.pairwise_singleton _ _, fun a ha b hb => ?_⟩
      rw [List.mem_singleton.mp hb]
      exact hs.below a ha
    · obtain ⟨records, hrecords⟩ := hs.records
      exact ⟨_, hrecords.put hspan⟩

/-- Files that are processed one after the other keep the counter climbing. -/
theorem Climbing.processEach {next : Session} {entries : List Entry} {outcomes : List Outcome}
    (hs : Climbing s₀ h s) (hvalue : (s.processEach entries).value = (outcomes, next)) :
    Climbing s₀ (h ++ List.zipWith .processed entries outcomes) next :=
  processEach_preserves (fun _ _ _ _ _ hvalue hs => hs.process hvalue) hvalue hs

theorem Climbing.removeFile (hs : Climbing s₀ h s) (file : FileId) (known : Bool) :
    Climbing s₀ (h ++ [.removed file known]) (s.removeFile file).2 := by
  refine ⟨hs.ask, hs.config, hs.policy, hs.settled, ?_, ?_, ?_, ?_, ?_⟩
  · rw [top_append_none rfl]; exact hs.counter
  · refine called_append hs.called fun e outcome hevent => ?_
    cases hevent
  · rw [spans_append_none rfl]; exact hs.below
  · rw [spans_append_none rfl]; exact hs.ascending
  · obtain ⟨records, hrecords⟩ := hs.records
    exact ⟨_, hrecords.remove file rfl⟩

/-- **Every turn of a run keeps the counter climbing.** -/
theorem Turn.climbing (t : Turn) (ht : Climbing s₀ h t.before) :
    Climbing s₀ (h ++ t.events) t.next := by
  obtain ⟨s, call⟩ := t
  unfold Turn.events Turn.next
  cases call with
  | process e =>
    cases hvalue : (s.process e.transform e.file e.source).value with
    | mk outcome next =>
      simp only [perform_process hvalue]
      exact ht.process hvalue
  | batch entries =>
    have heach := value_processEntries_of_monotonic ht.policy entries
    cases hvalue : (s.processEntries entries).value with
    | mk outcomes next =>
      simp only [perform_batch hvalue]
      exact ht.processEach (heach.symm.trans hvalue)
  | removeFile file => exact ht.removeFile file _
  | stylesheet generate =>
    simp only [perform, List.append_nil]
    exact ⟨ht.ask, ht.config, ht.policy, ht.settled, ht.counter, ht.called, ht.below, ht.ascending,
      ht.records⟩

theorem Starts.climbing (h₀ : s₀.Starts .build) : Climbing s₀ [] s₀ := by
  obtain ⟨-, hlayers, hstore, -, -⟩ := h₀.fields
  refine ⟨rfl, rfl, ?_, ?_, ?_, ?_, ?_, .nil, [], .nil, ?_, List.nil_sublist _⟩
  · rw [hlayers]; rfl
  · rw [hlayers]; rfl
  · rw [hlayers]; rfl
  · intro before e outcome after heq
    cases before <;> cases heq
  · intro a ha
    cases ha
  · intro file record
    rw [hstore]
    exact ⟨fun hmem => absurd hmem List.not_mem_nil, fun hr => by cases hr⟩

/-- **Monotonic bases climb.**  Whatever calls a session that builds has had, and whichever files of
a further batch have been processed, a base is never refused, and every transform that is called is
called at the greatest bound that the successful ones before it have reported.  So the layers of the
successful transforms lie one above the other, and those of the records in the store do too, in the
order of the transforms that they come from. -/
theorem bases_of_history (h₀ : s₀.Starts .build) {calls : List Call} (hs : s₀.after calls = s) :
    (∀ entries file, ∃ layers, (s.processEach entries).value.2.layers.reserve file =
      .ok (⟨file, top s₀ (s₀.history calls ++
        List.zipWith .processed entries (s.processEach entries).value.1), false⟩, layers)) ∧
    (∀ before e outcome after, s₀.history calls = before ++ .processed e outcome :: after →
      outcome.attempted = true → outcome = s₀.outcomeAt e (top s₀ before)) ∧
    (spans s₀ (s₀.history calls)).Pairwise Span.Below ∧
    ∃ records : List (FileId × FileRecord), (records.map (·.1)).Nodup ∧
      (∀ file record, (file, record) ∈ records ↔ s.store.record? file = some record) ∧
      (records.map fun entry => entry.2.span entry.1).Sublist (spans s₀ (s₀.history calls)) ∧
      (records.map fun entry => entry.2.span entry.1).Pairwise Span.Below := by
  have hclimbing : Climbing s₀ (s₀.history calls) s :=
    hs ▸ run_preserves (fun _ t ht => t.climbing ht) h₀.climbing calls
  refine ⟨fun entries file => ?_, hclimbing.called, hclimbing.ascending, ?_⟩
  · have hnext : Climbing s₀ _ (s.processEach entries).value.2 := hclimbing.processEach rfl
    rcases Layers.reserve_cases_monotonic hnext.policy file with ⟨hout, -⟩ | ⟨-, hr⟩
    · cases hnext.settled.symm.trans hout
    · exact ⟨_, hnext.counter ▸ hr⟩
  · obtain ⟨records, hrecords⟩ := hclimbing.records
    exact ⟨records, hrecords.distinct, hrecords.mem_iff, hrecords.sublist,
      hclimbing.ascending.sublist hrecords.sublist⟩

/-- A transform that uses no layer and reports the bound 0. -/
def unlayered : Transform := fun _ => .done ⟨"", [], 0, false, []⟩

/-- A file that fails first, one that reports a bound below its base and is removed, and one that
comes back with another source. -/
theorem bases_of_history_returning :
    let s₀ := blank .build
    let calls : List Call := [.batch [⟨⟨"a.ts"⟩, "strata", oneRule⟩, ⟨⟨"b.ts"⟩, "strata", failing⟩,
      ⟨⟨"c.ts"⟩, "strata", unlayered⟩], .process ⟨⟨"a.ts"⟩, "strata again", oneRule⟩,
      .removeFile ⟨"c.ts"⟩, .process ⟨⟨"b.ts"⟩, "strata", oneRule⟩]
    spans s₀ (s₀.history calls) =
        [⟨⟨"a.ts"⟩, 0, 1⟩, ⟨⟨"c.ts"⟩, 1, 0⟩, ⟨⟨"a.ts"⟩, 1, 2⟩, ⟨⟨"b.ts"⟩, 2, 3⟩] ∧
      (spans s₀ (s₀.history calls)).Pairwise Span.Below ∧
      ∃ layers, (s₀.after calls).layers.reserve ⟨"d.ts"⟩ = .ok (⟨⟨"d.ts"⟩, 3, false⟩, layers) := by
  intro s₀ calls
  obtain ⟨hreserve, -, hascending, -⟩ :=
    bases_of_history (starts_blank .build) (show s₀.after calls = _ from rfl)
  have htop : top s₀ (s₀.history calls ++ List.zipWith .processed [] []) = 3 := by decide +kernel
  refine ⟨by decide +kernel, hascending, ?_⟩
  rw [← htop]
  exact hreserve [] ⟨"d.ts"⟩

end Session

end LayeredCss
