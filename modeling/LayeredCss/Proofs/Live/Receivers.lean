import LayeredCss.Live.FlushTask

/-!
# Receivers that lag behind

A receiver that is behind the last event finds something when it looks, be it the next event or the
number of events that it has missed; and what has been sent is counted even where it is not kept.  So
nobody has to know how much the buffer holds to tell whether a receiver has news.

* `Broadcast.Sound`: what holds of every broadcast;
* `receive_ne_empty`: a receiver that is behind finds something;
* `Hub.lt_sent_told`: a flush puts every receiver behind.
-/

namespace LayeredCss

namespace Broadcast

variable {α : Type} {b : Broadcast α}

/-- A receiver that has not left, and the number of the event that it sees next. -/
def At (b : Broadcast α) (receiver next : Nat) : Prop := b.cursors[receiver]? = some (some next)

/-- **No more events are kept than have been sent**, and no receiver is ahead of them. -/
structure Sound (b : Broadcast α) : Prop where
  kept : b.kept.length ≤ b.sent
  cursor : ∀ receiver next, b.At receiver next → next ≤ b.sent

theorem sound_new (atLeast : Nat) : (new atLeast : Broadcast α).Sound where
  kept := Nat.le_refl 0
  cursor receiver next h := by simp [At, new] at h

theorem length_keepLast_le (n : Nat) (events : List α) :
    (keepLast n events).length ≤ events.length := by
  unfold keepLast
  rw [List.length_drop]
  exact Nat.sub_le _ _

/-- A receiver that has not left is counted. -/
theorem At.receivers_ne_zero {receiver next : Nat} (h : b.At receiver next) : b.receivers ≠ 0 := by
  have hmem : some next ∈ b.cursors.filter Option.isSome :=
    List.mem_filter.mpr ⟨List.mem_of_getElem? h, rfl⟩
  exact Nat.ne_of_gt (List.length_pos_of_mem hmem)

@[simp] theorem cursors_send (b : Broadcast α) (a : α) : (b.send a).cursors = b.cursors := by
  unfold send
  split <;> rfl

theorem le_sent_send (b : Broadcast α) (a : α) : b.sent ≤ (b.send a).sent := by
  unfold send
  split
  · exact Nat.le_refl _
  · exact Nat.le_succ _

theorem lt_sent_send (h : b.receivers ≠ 0) (a : α) : b.sent < (b.send a).sent := by
  unfold send
  rw [if_neg h]
  exact Nat.lt_succ_self _

theorem Sound.send (hb : b.Sound) (a : α) : (b.send a).Sound := by
  refine ⟨?_, fun receiver next h => ?_⟩
  · unfold Broadcast.send
    split
    · exact hb.kept
    · have hlength := length_keepLast_le b.capacity (b.kept ++ [a])
      have hkept := hb.kept
      simp only [List.length_append, List.length_singleton] at hlength ⊢
      omega
  · rw [At, cursors_send] at h
    exact Nat.le_trans (hb.cursor receiver next h) (b.le_sent_send a)

/-! ## Receivers that come and go -/

theorem at_join (b : Broadcast α) : b.join.2.At b.join.1 b.sent := by
  simp [At, join]

theorem At.join {receiver next : Nat} (h : b.At receiver next) : b.join.2.At receiver next := by
  have hlt := (List.getElem?_eq_some_iff.mp h).1
  unfold At Broadcast.join
  rw [List.getElem?_append_left hlt]
  exact h

theorem Sound.join (hb : b.Sound) : b.join.2.Sound := by
  refine ⟨hb.kept, fun receiver next h => ?_⟩
  unfold At Broadcast.join at h
  rcases Nat.lt_or_ge receiver b.cursors.length with hlt | hge
  · rw [List.getElem?_append_left hlt] at h
    exact hb.cursor receiver next h
  · rw [List.getElem?_append_right hge] at h
    have hmem := List.mem_of_getElem? h
    simp only [List.mem_singleton, Option.some.injEq] at hmem
    exact Nat.le_of_eq hmem

theorem at_leave {receiver other next : Nat} :
    (b.leave receiver).At other next ↔ receiver ≠ other ∧ b.At other next := by
  unfold At leave
  rw [List.getElem?_set]
  by_cases heq : receiver = other
  · simp [heq]
  · simp [heq]

theorem Sound.leave (hb : b.Sound) (receiver : Nat) : (b.leave receiver).Sound :=
  ⟨hb.kept, fun other next h => hb.cursor other next (at_leave.mp h).2⟩

theorem at_moveTo {receiver before next other n : Nat} (h : b.At receiver before) :
    (b.moveTo receiver next).At other n ↔
      if receiver = other then next = n else b.At other n := by
  have hlt := (List.getElem?_eq_some_iff.mp h).1
  unfold At moveTo
  rw [List.getElem?_set]
  split
  · simp
  · rfl

/-! ## Receiving -/

/-- A receiver that looks for news leaves what is kept for all. -/
theorem receive_fields (b : Broadcast α) (ended : Bool) (receiver : Nat) :
    (b.receive ended receiver).2.kept = b.kept ∧ (b.receive ended receiver).2.sent = b.sent := by
  unfold receive
  simp only
  split
  · exact ⟨rfl, rfl⟩
  · split
    · exact ⟨rfl, rfl⟩
    · split <;> exact ⟨rfl, rfl⟩

/-- What a receiver finds: how many events it has missed, the next event, or nothing. -/
theorem receive_cases {receiver next : Nat} (h : b.At receiver next) (ended : Bool) :
    (next < b.oldest ∧
      b.receive ended receiver = (.lagged (b.oldest - next), b.moveTo receiver b.oldest)) ∨
    (∃ a, b.oldest ≤ next ∧ b.kept[next - b.oldest]? = some a ∧
      b.receive ended receiver = (.event a, b.moveTo receiver (next + 1))) ∨
    (b.oldest ≤ next ∧ b.kept[next - b.oldest]? = none ∧
      b.receive ended receiver = (if ended then .closed else .empty, b)) := by
  have hcursor : b.cursors[receiver]?.join = some next := by rw [h]; rfl
  unfold receive
  simp only [hcursor]
  rcases Nat.lt_or_ge next b.oldest with hlt | hge
  · exact Or.inl ⟨hlt, if_pos hlt⟩
  · rw [if_neg (Nat.not_lt.mpr hge)]
    rcases hkept : b.kept[next - b.oldest]? with _ | a
    · exact Or.inr (Or.inr ⟨hge, rfl, rfl⟩)
    · exact Or.inr (Or.inl ⟨a, hge, rfl, rfl⟩)

/-- **A receiver that is behind the last event finds something.** -/
theorem receive_ne_empty {receiver next : Nat} (h : b.At receiver next) (hlt : next < b.sent)
    (ended : Bool) : (b.receive ended receiver).1 ≠ .empty := by
  rcases receive_cases h ended with ⟨-, hvalue⟩ | ⟨a, -, -, hvalue⟩ | ⟨hge, hnone, -⟩
  · rw [hvalue]
    exact fun hempty => by cases hempty
  · rw [hvalue]
    exact fun hempty => by cases hempty
  · -- all events from the oldest to the last are kept
    have hlength := List.getElem?_eq_none_iff.mp hnone
    have holdest : b.oldest = b.sent - b.kept.length := rfl
    omega

/-- A receiver that finds nothing leaves everything as it is. -/
theorem receive_of_nothing {receiver next : Nat} (h : b.At receiver next) (ended : Bool)
    (hnothing : (b.receive ended receiver).1 = .empty ∨ (b.receive ended receiver).1 = .closed) :
    (b.receive ended receiver).2 = b := by
  rcases receive_cases h ended with ⟨-, hvalue⟩ | ⟨a, -, -, hvalue⟩ | ⟨-, -, hvalue⟩
  · rw [hvalue] at hnothing
    simp at hnothing
  · rw [hvalue] at hnothing
    simp at hnothing
  · rw [hvalue]

/-- Receiving moves the receiver forward, at most to the last event, and no other. -/
theorem receive_moves (hb : b.Sound) {receiver next : Nat} (h : b.At receiver next) (ended : Bool) :
    ∃ after ≤ b.sent, (b.receive ended receiver).2.kept = b.kept ∧
      (b.receive ended receiver).2.sent = b.sent ∧
      ∀ other n, (b.receive ended receiver).2.At other n ↔
        if receiver = other then after = n else b.At other n := by
  have hkept := hb.kept
  rcases receive_cases h ended with ⟨-, hvalue⟩ | ⟨a, hge, hsome, hvalue⟩ | ⟨-, -, hvalue⟩ <;>
    rw [hvalue]
  · exact ⟨b.oldest, Nat.sub_le _ _, rfl, rfl, fun other n => at_moveTo h⟩
  · have hlt := (List.getElem?_eq_some_iff.mp hsome).1
    have holdest : b.oldest = b.sent - b.kept.length := rfl
    exact ⟨next + 1, by omega, rfl, rfl, fun other n => at_moveTo h⟩
  · refine ⟨next, hb.cursor receiver next h, rfl, rfl, fun other n => ?_⟩
    by_cases heq : receiver = other
    · subst heq
      have hcursor : b.cursors[receiver]? = some (some next) := h
      simp [At, hcursor]
    · simp [heq]

theorem Sound.receive (hb : b.Sound) {receiver next : Nat} (h : b.At receiver next)
    (ended : Bool) : (b.receive ended receiver).2.Sound := by
  obtain ⟨after, hafter, hkept, hsent, hat⟩ := receive_moves hb h ended
  refine ⟨by rw [hkept, hsent]; exact hb.kept, fun other n hother => ?_⟩
  rw [hsent]
  have hcursor := (hat other n).mp hother
  split at hcursor
  · exact hcursor ▸ hafter
  · exact hb.cursor other n hcursor

end Broadcast

/-! ## The news of a flush -/

namespace Hub

variable {κ : Type} {tell : κ → Nat → Traced Delivery}

/-- The hub after the subscribers of a task have been told of a flush. -/
abbrev told (tell : κ → Nat → Traced Delivery) (generation : Nat)
    (subscribers : List (Nat × Sink κ)) (hub : Hub) : Hub :=
  Debouncer.told (Sink.deliver tell) generation subscribers hub

variable {generation : Nat} {subscribers : List (Nat × Sink κ)} {hub : Hub}

theorem told_cons_hub (id : Nat) :
    hub.told tell generation ((id, .hub) :: subscribers) =
      told tell generation subscribers { hub with channel := hub.channel.send generation } := by
  simp only [told, Debouncer.told, List.foldl_cons, Sink.value_deliver_hub]

theorem told_cons_listener (id : Nat) (l : κ) :
    hub.told tell generation ((id, .listener l) :: subscribers) =
      hub.told tell generation subscribers := rfl

theorem told_append (before after : List (Nat × Sink κ)) :
    hub.told tell generation (before ++ after) =
      (hub.told tell generation before).told tell generation after := List.foldl_append

/-- What sending an event keeps, telling all subscribers keeps. -/
theorem told_preserves {P : Broadcast Nat → Prop} (hsend : ∀ b, P b → P (b.send generation))
    (h : P hub.channel) : P (hub.told tell generation subscribers).channel := by
  induction subscribers generalizing hub with
  | nil => exact h
  | cons first rest ih =>
    obtain ⟨id, _ | l⟩ := first
    · rw [told_cons_hub]
      exact ih (hsend _ h)
    · rw [told_cons_listener]
      exact ih h

theorem cursors_told :
    (hub.told tell generation subscribers).channel.cursors = hub.channel.cursors :=
  told_preserves (P := fun b => b.cursors = hub.channel.cursors)
    (fun b hb => (b.cursors_send generation).trans hb) rfl

theorem le_sent_told (hub : Hub) :
    hub.channel.sent ≤ (hub.told tell generation subscribers).channel.sent :=
  told_preserves (P := fun b => hub.channel.sent ≤ b.sent)
    (fun b hb => Nat.le_trans hb (b.le_sent_send generation)) (Nat.le_refl _)

theorem sound_told (h : hub.channel.Sound) :
    (hub.told tell generation subscribers).channel.Sound :=
  told_preserves (fun _ hb => hb.send generation) h

/-- **A flush that the hub is told of puts every receiver behind.** -/
theorem lt_sent_told {id : Nat} (hmem : (id, Sink.hub) ∈ subscribers)
    (h : hub.channel.receivers ≠ 0) :
    hub.channel.sent < (hub.told tell generation subscribers).channel.sent := by
  obtain ⟨before, after, rfl⟩ := List.append_of_mem hmem
  rw [told_append, told_cons_hub]
  have hreceivers : (hub.told tell generation before).channel.receivers ≠ 0 := by
    rw [Broadcast.receivers, cursors_told]
    exact h
  calc hub.channel.sent
      ≤ (hub.told tell generation before).channel.sent := le_sent_told hub
    _ < ((hub.told tell generation before).channel.send generation).sent :=
        Broadcast.lt_sent_send hreceivers generation
    _ ≤ _ := le_sent_told { hub.told tell generation before with
        channel := (hub.told tell generation before).channel.send generation }

end Hub

end LayeredCss
