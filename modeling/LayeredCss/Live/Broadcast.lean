/-!
# Broadcasts with a bounded buffer

Every receiver sees the events that are sent after it has joined, in their order.  Only the last
events are kept; a receiver that falls further behind is told how many it has missed and goes on at
the oldest event that is kept.

* `Broadcast.withCapacity`: a broadcast, if one of its capacity can be made;
* `Broadcast.send`, `Broadcast.join`, `Broadcast.leave`, `Broadcast.receive`.
-/

namespace LayeredCss

structure Broadcast (α : Type) where
  /-- The number of events that are kept. -/
  capacity : Nat
  /-- The events that are kept, the oldest first. -/
  kept : List α
  /-- The number of events sent so far. -/
  sent : Nat
  /-- For each receiver the number of the event that it sees next; `none` once it has left. -/
  cursors : List (Option Nat)
  deriving DecidableEq, Repr

/-- Why a broadcast cannot be made. -/
inductive CapacityFault
  /-- It is asked to keep more events than any broadcast may. -/
  | overLimit
  /-- There is no room for the events that it is to keep. -/
  | noRoom
  deriving DecidableEq, Repr

/-- What a receiver finds. -/
inductive Received (α : Type)
  | event (a : α)
  | lagged (missed : Nat)
  /-- There is nothing yet. -/
  | empty
  /-- There is nothing any more. -/
  | closed
  deriving DecidableEq, Repr

namespace CapacityFault

def text : CapacityFault → String
  | overLimit => "broadcast channel capacity exceeded `usize::MAX / 2`"
  | noRoom => "capacity overflow"

end CapacityFault

namespace Broadcast

variable {α : Type}

/-- A broadcast without receivers, which keeps at least the given number of events: the next power
of two. -/
def new (atLeast : Nat) : Broadcast α := ⟨(max atLeast 1).nextPowerOfTwo, [], 0, []⟩

/-- The most events that a broadcast may be asked to keep. -/
def maxCapacity : Nat := 0x7FFFFFFFFFFFFFFF

/-- The most events that there is room for. -/
def maxRoom : Nat := 0x0200000000000000

/-- A broadcast that keeps at least the given number of events, if it can be made. -/
def withCapacity (atLeast : Nat) : Except CapacityFault (Broadcast α) :=
  if maxCapacity < atLeast then .error .overLimit
  else if maxRoom < atLeast then .error .noRoom
  else .ok (new atLeast)

/-- The number of receivers. -/
def receivers (b : Broadcast α) : Nat := (b.cursors.filter Option.isSome).length

/-- The number of the oldest event that is kept. -/
def oldest (b : Broadcast α) : Nat := b.sent - b.kept.length

/-- Keeps the last `n` events. -/
def keepLast (n : Nat) (events : List α) : List α := events.drop (events.length - n)

/-- Sends an event.  Without receivers it is not even counted. -/
def send (b : Broadcast α) (a : α) : Broadcast α :=
  if b.receivers = 0 then b
  else { b with kept := keepLast b.capacity (b.kept ++ [a]), sent := b.sent + 1 }

/-- A new receiver and its number; it sees what is sent from now on. -/
def join (b : Broadcast α) : Nat × Broadcast α :=
  (b.cursors.length, { b with cursors := b.cursors ++ [some b.sent] })

/-- Removes a receiver. -/
def leave (b : Broadcast α) (receiver : Nat) : Broadcast α :=
  { b with cursors := b.cursors.set receiver none }

/-- Puts a receiver in front of an event. -/
def moveTo (b : Broadcast α) (receiver next : Nat) : Broadcast α :=
  { b with cursors := b.cursors.set receiver (some next) }

/-- Takes the next event of a receiver.  When all has been taken, `ended` tells whether more can
come. -/
def receive (b : Broadcast α) (ended : Bool) (receiver : Nat) : Received α × Broadcast α :=
  let nothing := if ended then Received.closed else .empty
  match b.cursors[receiver]?.join with
  | none => (nothing, b)
  | some next =>
    if next < b.oldest then (.lagged (b.oldest - next), b.moveTo receiver b.oldest)
    else match b.kept[next - b.oldest]? with
      | none => (nothing, b)
      | some a => (.event a, b.moveTo receiver (next + 1))

end Broadcast

end LayeredCss
