import Mathlib.Logic.Relation
import LayeredCss.Proofs.Slots

/-!
# The counter among its clients

Clients share the layers of the monotonic policy.  Each asks for bases, reserves, and commits or
releases what it has reserved, and between two calls of one client anything may happen at the others:
whoever holds a reservation may settle it at any time, once, or never.  A *desk* is the layers with all
reservations that have been made of them and what has become of each.

* `Desk.Step`: what a client can do next;
* `Desk.Orderly`: only the latest reservation can be unsettled, the flag `outstanding` says whether it
  is, and each reservation starts where the commits before it have ended;
* `exclusive_of_reachable`: so the counter is exclusive, however the calls of the clients are mixed.
-/

namespace LayeredCss

/-- What has become of a reservation. -/
inductive Fate
  | unsettled
  | committed (nextLayer : UInt32)
  | released
  deriving DecidableEq, Repr

structure Desk where
  layers : Layers
  /-- The reservations that have been made, in their order. -/
  issued : List (Reservation × Fate)

namespace Desk

/-- New layers of the monotonic policy. -/
def opening : Desk := ⟨.new .monotonic, []⟩

/-- The reservations that somebody holds. -/
def unsettled (x : Desk) : List (Reservation × Fate) := x.issued.filter (·.2 = .unsettled)

/-- A client reserves a base for a file; the failure is why it gets none. -/
def reserve (x : Desk) (file : FileId) : Option Failure × Desk :=
  match x.layers.reserve file with
  | .error failure => (some failure, x)
  | .ok (r, layers) => (none, ⟨layers, x.issued ++ [(r, .unsettled)]⟩)

/-- **What a client can do next.** -/
inductive Step : Desk → Desk → Prop
  | baseFor (x : Desk) (file : FileId) : Step x { x with layers := (x.layers.baseFor file).2 }
  | reserve (x : Desk) (file : FileId) : Step x (x.reserve file).2
  | commit {layers : Layers} {before after : List (Reservation × Fate)} {r : Reservation}
    (nextLayer : UInt32) :
    Step ⟨layers, before ++ (r, .unsettled) :: after⟩
      ⟨(layers.commit r nextLayer).value, before ++ (r, .committed nextLayer) :: after⟩
  | release {layers : Layers} {before after : List (Reservation × Fate)} {r : Reservation} :
    Step ⟨layers, before ++ (r, .unsettled) :: after⟩
      ⟨layers.release r, before ++ (r, .released) :: after⟩

abbrev Steps : Desk → Desk → Prop := Relation.ReflTransGen Step

/-- The first reservation has been settled before the second was made, and if it was committed the
second starts where it has ended. -/
def Precedes (p q : Reservation × Fate) : Prop :=
  p.2 ≠ .unsettled ∧ ∀ nextLayer, p.2 = .committed nextLayer → nextLayer ≤ q.1.base

/-- **The order at a desk.** -/
structure Orderly (x : Desk) : Prop where
  policy : x.layers.policy = .monotonic
  outstanding : x.layers.outstanding = true ↔ ∃ p ∈ x.issued, p.2 = .unsettled
  ordered : x.issued.Pairwise Precedes
  bound : ∀ p ∈ x.issued, ∀ nextLayer, p.2 = .committed nextLayer →
    nextLayer ≤ x.layers.counter

theorem orderly_opening : opening.Orderly where
  policy := rfl
  outstanding := by simp [opening, Layers.new]
  ordered := .nil
  bound p hp := absurd hp List.not_mem_nil

variable {x y : Desk}

/-- A desk answers a reservation with the counter, or refuses it and stays as it is. -/
theorem reserve_eq (hx : x.Orderly) (file : FileId) :
    x.reserve file =
      if x.layers.outstanding = true then
        (some (.ofText s!"layer counter is already reserved; cannot reserve for {file}"), x)
      else (none, ⟨{ x.layers with outstanding := true },
        x.issued ++ [(⟨file, x.layers.counter, false⟩, .unsettled)]⟩) := by
  have hpolicy := hx.policy
  cases hout : x.layers.outstanding with
  | true => simp only [reserve, Layers.reserve, hpolicy, hout, if_true]
  | false => simp only [reserve, Layers.reserve, hpolicy, hout, Bool.false_eq_true, if_false]

/-! ## One step -/

/-- An unsettled reservation is the latest one, and the only one that is unsettled. -/
theorem Orderly.latest {layers : Layers} {before after : List (Reservation × Fate)}
    {r : Reservation} (hx : Orderly ⟨layers, before ++ (r, .unsettled) :: after⟩) :
    after = [] ∧ ∀ p ∈ before, p.2 ≠ .unsettled := by
  obtain ⟨-, hafter, hbefore⟩ := List.pairwise_append.mp hx.ordered
  constructor
  · refine List.eq_nil_iff_forall_not_mem.mpr fun q hq => ?_
    exact ((List.pairwise_cons.mp hafter).1 q hq).1 rfl
  · exact fun p hp => (hbefore p hp _ List.mem_cons_self).1

/-- **Settling the latest reservation** keeps the order if the counter lies above all commits. -/
theorem Orderly.settle {layers layers' : Layers} {before after : List (Reservation × Fate)}
    {r : Reservation} {fate : Fate} (hx : Orderly ⟨layers, before ++ (r, .unsettled) :: after⟩)
    (hfate : fate ≠ .unsettled) (hpolicy : layers'.policy = .monotonic)
    (hout : layers'.outstanding = false) (hcounter : layers.counter ≤ layers'.counter)
    (hbound : ∀ nextLayer, fate = .committed nextLayer → nextLayer ≤ layers'.counter) :
    Orderly ⟨layers', before ++ (r, fate) :: after⟩ := by
  obtain ⟨rfl, hsettled⟩ := hx.latest
  obtain ⟨hbefore, -, hlast⟩ := List.pairwise_append.mp hx.ordered
  refine ⟨hpolicy, ?_, ?_, fun p hp nextLayer hp' => ?_⟩
  · simp only [hout, Bool.false_eq_true, false_iff]
    rintro ⟨p, hp, hunsettled⟩
    rcases List.mem_append.mp hp with hp | hp
    · exact hsettled p hp hunsettled
    · rw [List.mem_singleton.mp hp] at hunsettled
      exact hfate hunsettled
  · refine List.pairwise_append.mpr ⟨hbefore, List.pairwise_singleton _ _, fun p hp q hq => ?_⟩
    -- what the latest reservation starts at does not change when it is settled
    rw [List.mem_singleton.mp hq]
    exact hlast p hp (r, .unsettled) List.mem_cons_self
  · rcases List.mem_append.mp hp with hp | hp
    · exact UInt32.le_trans (hx.bound p (List.mem_append_left _ hp) nextLayer hp') hcounter
    · rw [List.mem_singleton.mp hp] at hp'
      exact hbound nextLayer hp'

/-- A reservation that is granted is the latest one. -/
theorem Orderly.reserve (hx : x.Orderly) (file : FileId) : (x.reserve file).2.Orderly := by
  rw [reserve_eq hx]
  split
  · exact hx
  · next hout =>
    rw [hx.outstanding] at hout
    refine ⟨hx.policy, ?_, ?_, fun p hp nextLayer hp' => ?_⟩
    · exact ⟨fun _ => ⟨_, List.mem_append_right _ List.mem_cons_self, rfl⟩, fun _ => rfl⟩
    · refine List.pairwise_append.mpr ⟨hx.ordered, List.pairwise_singleton _ _, fun p hp q hq => ?_⟩
      rw [List.mem_singleton.mp hq]
      exact ⟨fun hunsettled => hout ⟨p, hp, hunsettled⟩, hx.bound p hp⟩
    · rcases List.mem_append.mp hp with hp | hp
      · exact hx.bound p hp nextLayer hp'
      · rw [List.mem_singleton.mp hp] at hp'
        cases hp'

/-- **Each step keeps the order**, and the counter does not go back. -/
theorem Orderly.step (hx : x.Orderly) (h : Step x y) :
    y.Orderly ∧ x.layers.counter ≤ y.layers.counter := by
  rcases h with ⟨_, file⟩ | ⟨_, file⟩ | nextLayer | -
  · have hbase : (x.layers.baseFor file).2 = x.layers := by
      unfold Layers.baseFor
      rw [hx.policy]
    rw [hbase]
    exact ⟨hx, UInt32.le_refl _⟩
  · refine ⟨hx.reserve file, ?_⟩
    rw [reserve_eq hx]
    split <;> exact UInt32.le_refl _
  · next layers before after r =>
    have hpolicy : layers.policy = .monotonic := hx.policy
    rw [Layers.value_commit]
    refine ⟨hx.settle (by simp) hpolicy ?_ (Layers.counter_le_settle _ _) fun bound hbound => ?_,
      Layers.counter_le_settle _ _⟩
    · simp only [Layers.settle, hpolicy, bne_self_eq_false, Bool.and_false]
    · cases hbound
      exact Layers.le_counter_settle _ _
  · next layers before after r =>
    have hpolicy : layers.policy = .monotonic := hx.policy
    rw [Layers.release_of_monotonic hpolicy]
    refine ⟨hx.settle (by simp) hpolicy rfl (UInt32.le_refl _) fun _ hbound => ?_, UInt32.le_refl _⟩
    cases hbound

/-! ## Runs -/

/-- **Each run keeps the order**, and the counter does not go back. -/
theorem Orderly.steps (hx : x.Orderly) (h : Steps x y) :
    y.Orderly ∧ x.layers.counter ≤ y.layers.counter := by
  induction h with
  | refl => exact ⟨hx, UInt32.le_refl _⟩
  | tail _ hstep ih =>
    obtain ⟨hy, hle⟩ := ih
    obtain ⟨hz, hle'⟩ := hy.step hstep
    exact ⟨hz, UInt32.le_trans hle hle'⟩

theorem unsettled_eq_nil_iff : x.unsettled = [] ↔ ¬ ∃ p ∈ x.issued, p.2 = .unsettled := by
  simp only [unsettled, List.filter_eq_nil_iff, decide_eq_true_eq, not_exists, not_and]

/-- At most one reservation is unsettled. -/
theorem Orderly.length_unsettled (hx : x.Orderly) : x.unsettled.length ≤ 1 := by
  have hpair : x.unsettled.Pairwise Precedes := hx.ordered.sublist List.filter_sublist
  have hmem : ∀ p ∈ x.unsettled, p.2 = .unsettled := fun p hp =>
    of_decide_eq_true (List.mem_filter.mp hp).2
  rcases h : x.unsettled with - | ⟨p, - | ⟨q, rest⟩⟩
  · exact Nat.zero_le 1
  · exact Nat.le_refl 1
  · rw [h] at hpair hmem
    obtain ⟨hp, -⟩ := (List.pairwise_cons.mp hpair).1 q List.mem_cons_self
    exact absurd (hmem p List.mem_cons_self) hp

/-- **The counter is exclusive.**  However the calls of the clients are mixed, at most one reservation
is unsettled; a further one is refused exactly while there is one, which changes nothing, and else
starts at the counter; the counter never goes back; and of two reservations that were committed the
later starts where the earlier has ended or above, whatever bounds were reported. -/
theorem exclusive_of_reachable (hx : Steps opening x) :
    x.unsettled.length ≤ 1 ∧
    (∀ file, x.unsettled ≠ [] → x.reserve file =
      (some (.ofText s!"layer counter is already reserved; cannot reserve for {file}"), x)) ∧
    (∀ file, x.unsettled = [] → x.reserve file =
      (none, ⟨{ x.layers with outstanding := true },
        x.issued ++ [(⟨file, x.layers.counter, false⟩, .unsettled)]⟩)) ∧
    (∀ y, Steps x y → x.layers.counter ≤ y.layers.counter) ∧
    ∀ before r nextLayer middle r' nextLayer' after,
      x.issued = before ++ (r, .committed nextLayer) :: middle ++
        (r', .committed nextLayer') :: after → nextLayer ≤ r'.base := by
  obtain ⟨hx, -⟩ := orderly_opening.steps hx
  have hflag : x.layers.outstanding = true ↔ x.unsettled ≠ [] := by
    rw [hx.outstanding, ne_eq, unsettled_eq_nil_iff, not_not]
  refine ⟨hx.length_unsettled, fun file h => ?_, fun file h => ?_, fun y hy => (hx.steps hy).2, ?_⟩
  · rw [reserve_eq hx, if_pos (hflag.mpr h)]
  · rw [reserve_eq hx, if_neg fun hout => hflag.mp hout h]
  · intro before r nextLayer middle r' nextLayer' after hissued
    have hordered := hx.ordered
    rw [hissued] at hordered
    obtain ⟨-, -, hpair⟩ := List.pairwise_append.mp hordered
    have hmem : (r, Fate.committed nextLayer) ∈ before ++ (r, .committed nextLayer) :: middle :=
      List.mem_append_right _ List.mem_cons_self
    exact (hpair _ hmem _ List.mem_cons_self).2 nextLayer rfl

/-- A client that is refused while another is at work, one that gives its reservation back, one that
reports a bound below its base, and one that never settles. -/
theorem exclusive_of_reachable_interleaved :
    let a : Reservation := ⟨⟨"a.ts"⟩, 0, false⟩
    let b : Reservation := ⟨⟨"b.ts"⟩, 5, false⟩
    let c : Reservation := ⟨⟨"c.ts"⟩, 5, false⟩
    let d : Reservation := ⟨⟨"d.ts"⟩, 5, false⟩
    ∃ x, Steps opening x ∧
      x.issued = [(a, .committed 5), (b, .released), (c, .committed 2), (d, .unsettled)] ∧
      (x.reserve ⟨"a.ts"⟩).2 = x ∧ (5 : UInt32) ≤ c.base := by
  intro a b c d
  let busy : Layers := { Layers.new .monotonic with outstanding := true }
  let x : Desk := ⟨{ busy with counter := 5 },
    [(a, .committed 5), (b, .released), (c, .committed 2), (d, .unsettled)]⟩
  have hfirst : Steps opening ⟨{ busy with counter := 5, outstanding := false }, [(a, .committed 5)]⟩ :=
    .head (.reserve _ ⟨"a.ts"⟩) <|
    .head (.reserve _ ⟨"b.ts"⟩) <|
    .head (@Step.commit _ [] [] a 5) .refl
  have hlast : Steps _ x :=
    .head (.baseFor ⟨{ busy with counter := 5, outstanding := false }, [(a, .committed 5)]⟩ ⟨"b.ts"⟩) <|
    .head (.reserve _ ⟨"b.ts"⟩) <|
    .head (@Step.release _ [(a, .committed 5)] [] b) <|
    .head (.reserve _ ⟨"c.ts"⟩) <|
    .head (@Step.commit _ [(a, .committed 5), (b, .released)] [] c 2) <|
    .head (.reserve _ ⟨"d.ts"⟩) .refl
  have hx : Steps opening x := hfirst.trans hlast
  obtain ⟨-, hrefused, -, -, hcommits⟩ := exclusive_of_reachable hx
  refine ⟨x, hx, rfl, ?_, ?_⟩
  · rw [hrefused ⟨"a.ts"⟩ (by decide)]
  · exact hcommits [] a 5 [(b, .released)] c 2 [(d, .unsettled)] rfl

end Desk

end LayeredCss
