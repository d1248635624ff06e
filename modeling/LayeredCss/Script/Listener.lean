import LayeredCss.Live.Hub

/-!
# Generators and listeners that do as they are told

For trying out sessions and schedulers: a generator that can be made to fail, and listeners that
take the news of a flush well or badly.
-/

namespace LayeredCss.Script

/-- Joins rules with a separator, or fails as long as it is told to. -/
def generator (separator : String) (failing : Bool) : Generator := fun rules =>
  if failing then .error ⟨["ordering failed"], .message "bad layer"⟩
  else joinRules separator rules

/-- How a listener takes the news of a flush. -/
inductive Mood
  | content
  | failing
  | crashing
  deriving DecidableEq, Repr

/-- A listener that notes each flush under its label. -/
structure Listener where
  label : Nat
  mood : Mood
  deriving DecidableEq, Repr

/-- What a listener does with the news. -/
def Listener.tell (l : Listener) (generation : Nat) : Traced Delivery := do
  Traced.notice (.delivery l.label generation)
  match l.mood with
  | .content => return .done
  | .failing => return .failed ⟨["subscriber failed"], .message "socket closed"⟩
  | .crashing => return .crashed "subscriber panicked"

/-- A subscriber among several hubs: one of them, or a listener. -/
inductive Subscriber
  | hub (number : Nat)
  | listener (l : Listener)
  deriving DecidableEq, Repr

/-- Tells a subscriber of a flush. -/
def Subscriber.deliver (s : Subscriber) (generation : Nat) (hubs : List Hub) :
    Traced (Delivery × List Hub) := do
  match s with
  | .listener l => return (← l.tell generation, hubs)
  | .hub number =>
    match hubs[number]? with
    | none => return (.done, hubs)
    | some h => return (.done, hubs.set number (← h.announce generation))

end LayeredCss.Script
