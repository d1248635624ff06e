import LayeredCss.Live.Broadcast
import LayeredCss.Live.Debouncer

/-!
# The notification hub

A hub passes the news of a flush on to its clients, under the name of an event.  The news has no
content but the number of the flush; a client fetches the stylesheet anew.
-/

namespace LayeredCss

structure Hub where
  eventName : String
  channel : Broadcast Nat
  deriving DecidableEq, Repr

namespace Hub

/-- A hub without clients, which keeps at least the given number of events for them. -/
def new (eventName : String) (capacity : Nat) : Hub := ⟨eventName, .new capacity⟩

/-- A hub without clients, if a broadcast of its capacity can be made. -/
def withCapacity (eventName : String) (capacity : Nat) : Except CapacityFault Hub :=
  (Broadcast.withCapacity capacity).map (⟨eventName, ·⟩)

/-- Passes the news of a flush on.  That nobody listens is no error. -/
def announce (h : Hub) (generation : Nat) : Traced Hub := do
  let event := h.eventName
  let clients := h.channel.receivers
  if clients = 0 then Traced.trace s!"[strata] '{event}' has no listeners"
  else Traced.trace s!"[strata] '{event}' sent to {clients} client(s)"
  return { h with channel := h.channel.send generation }

@[simp] theorem value_announce (h : Hub) (generation : Nat) :
    (h.announce generation).value = { h with channel := h.channel.send generation } := by
  unfold announce
  simp only
  split <;> rfl

/-- A new client and its number. -/
def join (h : Hub) : Nat × Hub :=
  let (client, channel) := h.channel.join
  (client, { h with channel })

/-- Removes a client. -/
def leave (h : Hub) (client : Nat) : Hub := { h with channel := h.channel.leave client }

/-- Takes the next event of a client; `ended` tells whether more can come. -/
def receive (h : Hub) (ended : Bool) (client : Nat) : Received Nat × Hub :=
  let (received, channel) := h.channel.receive ended client
  (received, { h with channel })

end Hub

end LayeredCss
