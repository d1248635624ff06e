import LayeredCss.Proofs.Session.Fallbacks
import LayeredCss.Proofs.Session.Run

/-!
# Files that rely on styles made when the program runs

The set of fallbacks is read off the history of a run, one file at a time: of the events about the
file only the latest counts, and the file is in the set if that is a failed transform.  A file that is
skipped is an exception.  It is compiled as it stands, but stays in the set if it was there.

* `lastOf`: the latest event about a file;
* `fallbacks_of_history`: after every run a file is in the set exactly if the latest event about it,
  skips aside, is a failed transform;
* `not_fallbacks_of_skip`: with the skips this is false.
-/

namespace LayeredCss.Session

namespace Event

/-- The file that an event is about. -/
def file : Event → FileId
  | processed e _ => e.file
  | removed file _ => file

/-- Whether an event only skips its file. -/
def skips : Event → Bool
  | processed _ (.skipped _) => true
  | _ => false

/-- Whether the transform of an event has failed. -/
def fallsBack : Event → Bool
  | processed _ (.fallback _ _) => true
  | _ => false

end Event

/-- The latest event about a file. -/
def lastOf (file : FileId) (h : List Event) : Option Event :=
  (h.filter (·.file = file)).getLast?

/-- Whether the latest event about a file, skips aside, is a failed transform. -/
def relies (h : List Event) (file : FileId) : Bool :=
  (lastOf file (h.filter (!·.skips))).any (·.fallsBack)

variable {h : List Event} {event : Event} {file : FileId} {fallbacks : OrderedSet FileId}

/-! ## One more event -/

theorem lastOf_append :
    lastOf file (h ++ [event]) = if event.file = file then some event else lastOf file h := by
  unfold lastOf
  by_cases hfile : event.file = file <;> simp [hfile]

/-- If the latest event about a file is no skip, no skip after it has to be left out. -/
theorem lastOf_filter_skips (hlast : (lastOf file h).all (!·.skips) = true) :
    lastOf file (h.filter (!·.skips)) = lastOf file h := by
  unfold lastOf at hlast ⊢
  rw [List.filter_comm]
  rcases List.eq_nil_or_concat (h.filter (·.file = file)) with hnil | ⟨before, last, hlist⟩
  · simp [hnil]
  · rw [hlist] at hlast ⊢
    have hskips : last.skips = false := by simpa using hlast
    simp [hskips]

theorem relies_of_skips (hs : event.skips = true) : relies (h ++ [event]) = relies h := by
  funext file
  simp [relies, hs]

theorem relies_of_not_skips (hs : event.skips = false) :
    relies (h ++ [event]) file = if event.file = file then event.fallsBack else relies h file := by
  unfold relies
  rw [List.filter_append]
  simp only [List.filter_cons, hs, Bool.not_false, if_true, List.filter_nil, lastOf_append]
  split_ifs <;> rfl

/-- **An outcome does to the set of fallbacks** what its event says. -/
theorem relies_mark (hf : fallbacks.contains = relies h) (e : Entry) (outcome : Outcome) :
    (outcome.mark e.file fallbacks).contains = relies (h ++ [.processed e outcome]) := by
  have herase : ∀ file, (fallbacks.erase e.file).contains file =
      if e.file = file then false else relies h file := by
    intro file
    rw [← hf, Bool.eq_iff_iff, OrderedMap.contains_erase]
    split_ifs with hfile <;> simp [hfile]
  cases outcome with
  | skipped reason => exact hf.trans (relies_of_skips rfl).symm
  | unchanged code diagnostics =>
    funext file
    rw [relies_of_not_skips rfl]
    exact herase file
  | transformed result =>
    funext file
    rw [relies_of_not_skips rfl]
    exact herase file
  | fallback code failure =>
    funext file
    rw [relies_of_not_skips rfl, ← hf, Bool.eq_iff_iff, Outcome.mark, OrderedMap.contains_insert]
    change e.file = file ∨ _ ↔ (if e.file = file then true else _) = true
    split_ifs with hfile <;> simp [hfile]

theorem relies_marks (hf : fallbacks.contains = relies h) (entries : List Entry)
    (outcomes : List Outcome) :
    (Outcome.marks fallbacks (entries.map (·.file)) outcomes).contains =
      relies (h ++ List.zipWith .processed entries outcomes) := by
  induction entries generalizing h fallbacks outcomes with
  | nil => simpa [Outcome.marks] using hf
  | cons e rest ih =>
    cases outcomes with
    | nil => simpa [Outcome.marks] using hf
    | cons outcome outcomes =>
      have hnext := ih (relies_mark hf e outcome) outcomes
      rw [List.append_assoc, List.singleton_append] at hnext
      exact hnext

/-! ## Runs -/

/-- **Every call keeps the set of fallbacks in step with the history.** -/
theorem Turn.relies (t : Turn) (ht : t.before.fallbacks.contains = relies h) :
    t.next.fallbacks.contains = Session.relies (h ++ t.events) := by
  obtain ⟨s, call⟩ := t
  unfold Turn.events Turn.next
  cases call with
  | process e =>
    cases hvalue : (s.process e.transform e.file e.source).value with
    | mk outcome next =>
      rw [perform_process hvalue, fallbacks_process hvalue]
      exact relies_mark ht e outcome
  | batch entries =>
    have hmarks := fallbacks_processEntries s entries
    cases hvalue : (s.processEntries entries).value with
    | mk outcomes next =>
      rw [hvalue] at hmarks
      rw [perform_batch hvalue, hmarks]
      exact relies_marks ht entries outcomes
  | removeFile file =>
    funext other
    change (s.fallbacks.erase file).contains other = _
    rw [perform, removeFile, relies_of_not_skips rfl, ← ht, Bool.eq_iff_iff,
      OrderedMap.contains_erase]
    change _ ↔ (if file = other then false else _) = true
    split_ifs with hfile <;> simp [hfile]
  | stylesheet generate =>
    rw [perform, List.append_nil]
    exact ht

/-- **The set of fallbacks is that of the history.**  After every run of a session a file is in the
set exactly if the latest event about it is a failed transform, where skips do not count as events.
So if the latest event is no skip, it alone decides. -/
theorem fallbacks_of_history {lifecycle : Lifecycle} {s₀ : Session} (h₀ : s₀.Starts lifecycle)
    (calls : List Call) (file : FileId) :
    let h := s₀.history calls
    (s₀.after calls).fallbacks.contains file =
        (lastOf file (h.filter (!·.skips))).any (·.fallsBack) ∧
      ((lastOf file h).all (!·.skips) = true →
        (s₀.after calls).fallbacks.contains file = (lastOf file h).any (·.fallsBack)) := by
  intro h
  have hstart : s₀.fallbacks.contains = relies [] := by
    rw [h₀.fields.2.2.2.2]
    rfl
  have hrun : (s₀.after calls).fallbacks.contains = relies h :=
    run_preserves (I := fun h s => s.fallbacks.contains = relies h)
      (fun _ t => t.relies) hstart calls
  refine ⟨congrFun hrun file, fun hlast => ?_⟩
  rw [← lastOf_filter_skips hlast]
  exact congrFun hrun file

/-- A batch whose two files fail, one of them with a second source that is skipped; the other file is
transformed after that.  The latter's latest event is no skip and decides. -/
theorem fallbacks_of_history_mixed :
    let a : FileId := ⟨"a.ts"⟩
    let b : FileId := ⟨"b.ts"⟩
    let calls : List Call := [.batch [⟨a, "strata", failing⟩, ⟨b, "strata", failing⟩,
      ⟨a, "", failing⟩], .process ⟨b, "strata", oneRule⟩, .removeFile ⟨"c.ts"⟩]
    let h := (blank .watch).history calls
    let s := (blank .watch).after calls
    (lastOf b h).all (!·.skips) = true ∧
      s.fallbacks.contains b = (lastOf b h).any (·.fallsBack) ∧ s.fallbacks.contains b = false ∧
      s.fallbacks.contains a = true := by
  intro a b calls h s
  have hlast : (lastOf b h).all (!·.skips) = true := by decide +kernel
  exact ⟨hlast, (fallbacks_of_history (starts_blank .watch) calls b).2 hlast, by decide +kernel,
    by decide +kernel⟩

/-- **A skip leaves the mark.**  The transform of a file fails, and then the file comes without the
marker.  It is compiled as it stands, without styles made when the program runs, but the set of
fallbacks has it still.  So the latest event alone does not say who is in the set. -/
theorem not_fallbacks_of_skip :
    let a : FileId := ⟨"a.ts"⟩
    let calls : List Call := [.process ⟨a, "strata", failing⟩, .process ⟨a, "", failing⟩]
    ¬ ∀ file, ((blank .watch).after calls).fallbacks.contains file =
      (lastOf file ((blank .watch).history calls)).any (·.fallsBack) := by
  intro a calls hall
  have hstays : ((blank .watch).after calls).fallbacks.contains a = true := by decide +kernel
  have hskipped : (lastOf a ((blank .watch).history calls)).any (·.fallsBack) = false := by
    decide +kernel
  rw [hall a, hskipped] at hstays
  cases hstays

end LayeredCss.Session
