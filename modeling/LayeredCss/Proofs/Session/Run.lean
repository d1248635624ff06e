import LayeredCss.Proofs.Session.Moves

/-!
# Runs of a session

A session is used by calls in any order: it processes one file or many, forgets files and makes the
stylesheet.  A *turn* is a call with the session that it meets, and a run is the list of its turns.

* `turn_cases`: what one turn does;
* `run_preserves`, `run_preserves_of`: what each turn of a run keeps, the run keeps;
* `processEach_preserves`: what each file keeps, files one after the other keep.
-/

namespace LayeredCss.Session

inductive Call
  | process (e : Entry)
  | batch (entries : List Entry)
  | removeFile (file : FileId)
  | stylesheet (generate : Generator)

/-- The entries that a call hands to the session. -/
def Call.entries : Call → List Entry
  | .process e => [e]
  | .batch entries => entries
  | _ => []

/-- What a session reports of a call, and the session after it. -/
def perform (s : Session) : Call → List Event × Session
  | .process e =>
    let (outcome, next) := (s.process e.transform e.file e.source).value
    ([.processed e outcome], next)
  | .batch entries =>
    let (outcomes, next) := (s.processEntries entries).value
    (List.zipWith .processed entries outcomes, next)
  | .removeFile file =>
    let (known, next) := s.removeFile file
    ([.removed file known], next)
  | .stylesheet generate => ([], (s.stylesheet generate).value.2)

/-- A call with the session that it meets. -/
structure Turn where
  before : Session
  call : Call

namespace Turn

def events (t : Turn) : List Event := (t.before.perform t.call).1

def next (t : Turn) : Session := (t.before.perform t.call).2

/-- The layers when all reservations of the turn are made. -/
def height (t : Turn) : Layers := (t.before.prepareBatch [] t.call.entries).value.2.layers

/-- The number of slots in use when all reservations of the turn are made. -/
def slotsInUse (t : Turn) : Nat := t.height.bases.size

end Turn

/-- The turns of a session that gets calls in this order. -/
def turns (s : Session) : List Call → List Turn
  | [] => []
  | call :: rest => ⟨s, call⟩ :: (s.perform call).2.turns rest

/-- All that a session reports of calls in this order. -/
def history (s : Session) (calls : List Call) : List Event := (s.turns calls).flatMap Turn.events

/-- The session after calls in this order. -/
def after (s : Session) : List Call → Session
  | [] => s
  | call :: rest => (s.perform call).2.after rest

/-- The sessions that a lifecycle starts with. -/
def Starts (lifecycle : Lifecycle) (s : Session) : Prop :=
  ∃ config theme, (Session.new lifecycle config theme).value = .ok s

/-- No turn of the run uses more slots than there are. -/
def Fits (s : Session) (calls : List Call) : Prop :=
  ∀ t ∈ s.turns calls, t.slotsInUse ≤ Layers.capacity

instance (s : Session) (calls : List Call) : Decidable (s.Fits calls) :=
  inferInstanceAs (Decidable (∀ t ∈ s.turns calls, t.slotsInUse ≤ Layers.capacity))

theorem after_append (s : Session) (calls more : List Call) :
    s.after (calls ++ more) = (s.after calls).after more := by
  induction calls generalizing s with
  | nil => rfl
  | cons call rest ih => exact ih _

theorem turns_append (s : Session) (calls more : List Call) :
    s.turns (calls ++ more) = s.turns calls ++ (s.after calls).turns more := by
  induction calls generalizing s with
  | nil => rfl
  | cons call rest ih => exact congrArg (_ :: ·) (ih _)

theorem history_append (s : Session) (calls more : List Call) :
    s.history (calls ++ more) = s.history calls ++ (s.after calls).history more := by
  simp only [history, turns_append, List.flatMap_append]

/-- **What each turn of a run keeps, the run keeps.**  The invariant may speak of the events that
have been reported, and the turns may be known to be of some kind `P`. -/
theorem run_preserves_of {I : List Event → Session → Prop} {P : Turn → Prop}
    (step : ∀ h (t : Turn), P t → I h t.before → I (h ++ t.events) t.next) {s : Session}
    {calls : List Call} (hP : ∀ t ∈ s.turns calls, P t) (hs : I [] s) :
    I (s.history calls) (s.after calls) := by
  suffices hrun : ∀ h, I h s → I (h ++ s.history calls) (s.after calls) from hrun [] hs
  clear hs
  induction calls generalizing s with
  | nil => simp [history, turns, after]
  | cons call rest ih =>
    intro h hs
    have hfirst := step h ⟨s, call⟩ (hP _ List.mem_cons_self) hs
    have hrest := ih (fun t ht => hP t (List.mem_cons_of_mem _ ht)) _ hfirst
    rw [List.append_assoc] at hrest
    simpa only [history, turns, after, List.flatMap_cons] using hrest

theorem run_preserves {I : List Event → Session → Prop}
    (step : ∀ h (t : Turn), I h t.before → I (h ++ t.events) t.next) {s : Session} (hs : I [] s)
    (calls : List Call) : I (s.history calls) (s.after calls) :=
  run_preserves_of (fun h t _ => step h t) (fun _ _ => trivial) hs

/-- What each file keeps, files that are processed one after the other keep. -/
theorem processEach_preserves {I : List Event → Session → Prop}
    (step : ∀ h s e outcome next, (s.process e.transform e.file e.source).value = (outcome, next) →
      I h s → I (h ++ [.processed e outcome]) next) {h : List Event} {s next : Session}
    {entries : List Entry} {outcomes : List Outcome}
    (hvalue : (s.processEach entries).value = (outcomes, next)) (hs : I h s) :
    I (h ++ List.zipWith .processed entries outcomes) next := by
  induction entries generalizing h s outcomes with
  | nil =>
    cases hvalue
    simpa using hs
  | cons e rest ih =>
    cases hfirst : (s.process e.transform e.file e.source).value with
    | mk outcome t =>
      have ht := step h s e outcome t hfirst hs
      rw [value_processEach_cons hfirst] at hvalue
      cases hrest : (t.processEach rest).value with
      | mk others last =>
        rw [hrest] at hvalue
        cases hvalue
        rw [List.zipWith_cons_cons, ← List.singleton_append, ← List.append_assoc]
        exact ih hrest ht

theorem call_mem_of_turns {s : Session} {calls : List Call} {t : Turn} (ht : t ∈ s.turns calls) :
    t.call ∈ calls := by
  induction calls generalizing s with
  | nil => cases ht
  | cons call rest ih =>
    rcases List.mem_cons.mp ht with rfl | ht
    · exact List.mem_cons_self
    · exact List.mem_cons_of_mem _ (ih ht)

/-! ## Starting -/

theorem Starts.fields {lifecycle : Lifecycle} {s : Session} (h : s.Starts lifecycle) :
    s.lifecycle = lifecycle ∧ s.layers = .new lifecycle.layering ∧ s.store = .empty ∧
      s.sheets = .new s.config.annotateSources ∧ s.fallbacks = .empty := by
  obtain ⟨config, theme, h⟩ := h
  unfold Session.new at h
  split at h
  · cases h
  · cases h
    exact ⟨rfl, rfl, rfl, rfl, rfl⟩

/-- A session that has just started and excludes nothing. -/
def blank (lifecycle : Lifecycle) : Session where
  lifecycle := lifecycle
  config := { exclude := [] }
  filter := ⟨["ts", "tsx", "js", "jsx"], [], "strata"⟩
  theme := .empty
  layers := .new lifecycle.layering
  store := .empty
  sheets := .new false
  fallbacks := .empty

theorem starts_blank (lifecycle : Lifecycle) : (blank lifecycle).Starts lifecycle :=
  ⟨{ exclude := [] }, .empty, rfl⟩

/-- A transform that finds one rule in every source. -/
def oneRule : Transform := fun input =>
  .done ⟨"", [⟨"a", ".a\x7b\x7d", input.layerBase⟩], input.layerBase + 1, false, []⟩

/-- A transform that always fails. -/
def failing : Transform := fun _ => .failed (.ofText "no such style")

/-! ## Turns -/

theorem perform_process {s next : Session} {e : Entry} {outcome : Outcome}
    (h : (s.process e.transform e.file e.source).value = (outcome, next)) :
    s.perform (.process e) = ([.processed e outcome], next) := by
  simp only [perform, h]

theorem perform_batch {s next : Session} {entries : List Entry} {outcomes : List Outcome}
    (h : (s.processEntries entries).value = (outcomes, next)) :
    s.perform (.batch entries) = (List.zipWith .processed entries outcomes, next) := by
  simp only [perform, h]

theorem prepareBatch_single (s : Session) (pending : List FileId) (e : Entry) :
    (s.prepareBatch pending [e]).value.2 = (s.prepareEntry pending e).value.2 := by
  cases hvalue : (s.prepareEntry pending e).value with
  | mk step next =>
    rw [value_prepareBatch_cons hvalue]
    rfl

/-- **What one turn does**: its files are processed by moves, or a file is forgotten, or the
stylesheet is made. -/
theorem turn_cases (t : Turn) :
    Moves t.height.bases.keys ⟨t.before, []⟩ t.events ⟨t.next, []⟩ ∨
    (∃ file, t.call = .removeFile file ∧
      t.events = [.removed file (t.before.store.contains file)] ∧
      t.next = { t.before with
        fallbacks := t.before.fallbacks.erase file
        store := t.before.store.remove file }) ∨
    (∃ generate, t.call = .stylesheet generate ∧ t.events = [] ∧
      t.next = (t.before.stylesheet generate).value.2) := by
  obtain ⟨s, call⟩ := t
  have hK : (s.prepareBatch [] call.entries).value.2.layers.Within
      (Turn.height ⟨s, call⟩).bases.keys := Layers.within_keys _
  generalize (Turn.height ⟨s, call⟩).bases.keys = K at hK ⊢
  unfold Turn.events Turn.next
  cases call with
  | process e =>
    rw [Call.entries, prepareBatch_single] at hK
    have m := process_moves (fun q hq => absurd hq List.not_mem_nil) hK
    cases hvalue : (s.process e.transform e.file e.source).value with
    | mk outcome next =>
      rw [hvalue] at m
      simp only [perform_process hvalue]
      exact Or.inl m
  | batch entries =>
    have m := processEntries_moves hK
    rw [Call.entries] at m
    cases hvalue : (s.processEntries entries).value with
    | mk outcomes next =>
      rw [hvalue] at m
      simp only [perform_batch hvalue]
      exact Or.inl m
  | removeFile file => exact Or.inr (Or.inl ⟨file, rfl, rfl, rfl⟩)
  | stylesheet generate => exact Or.inr (Or.inr ⟨generate, rfl, rfl, rfl⟩)

theorem Turn.policy (t : Turn) : t.next.layers.policy = t.before.layers.policy := by
  rcases turn_cases t with m | ⟨file, -, -, hnext⟩ | ⟨generate, -, -, hnext⟩
  · exact m.framed.policy
  · rw [hnext]
  · rw [hnext]
    rfl

/-- The policy of a session is that of the lifecycle it started with. -/
theorem policy_after {lifecycle : Lifecycle} {s : Session} (h : s.Starts lifecycle)
    (calls : List Call) : (s.after calls).layers.policy = lifecycle.layering := by
  refine run_preserves (I := fun _ s => s.layers.policy = lifecycle.layering)
    (fun _ t ht => t.policy.trans ht) ?_ calls
  rw [h.fields.2.1]
  rfl

end LayeredCss.Session
