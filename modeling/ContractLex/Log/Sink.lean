import ContractLex.Log.Event

/-!
# Delivering events

An event is delivered if it passes the minimum level, with a message of bounded length. `Memory` is
a sink that keeps the latest events, up to its capacity.
-/

namespace ContractLex

/-- The longest message that is delivered as it is, in characters. -/
def maxMessage : Nat := 10000

def defaultCapacity : Nat := 1024

namespace Event

/-- The event with a message of bounded length: one that is longer is cut, and ends in three
periods. -/
def bounded (e : Event) : Event :=
  let chars := e.message.toList
  if maxMessage < chars.length then
    { e with message := String.ofList (chars.take maxMessage) ++ "..." }
  else e

/-- What is delivered of an event under a minimum level. -/
def delivered? (min : Level) (e : Event) : Option Event :=
  if e.level.passes min then some e.bounded else none

end Event

/-- A bounded store of events, the oldest first. -/
structure Memory where
  capacity : Nat := defaultCapacity
  events : Array Event := #[]
deriving Repr

namespace Memory

/-- An empty memory. It has room for at least one event. -/
def ofCapacity (n : Nat) : Memory := { capacity := max n 1 }

/-- Stores an event; the oldest ones make room for it. -/
def store (m : Memory) (e : Event) : Memory :=
  let room := m.capacity - 1
  let events :=
    if m.events.size ≤ room then m.events
    else m.events.extract (m.events.size - room) m.events.size
  { m with events := events.push e }

def deliver (min : Level) (m : Memory) (e : Event) : Memory :=
  match e.delivered? min with
  | some e => m.store e
  | none => m

def clear (m : Memory) : Memory := { m with events := #[] }

def errors (m : Memory) : List Event := m.events.toList.filter Event.isError

def hasError (m : Memory) (code : String) : Bool :=
  m.events.any fun e => e.isError && e.code == code

theorem size_store_le (m : Memory) (e : Event) (h : 1 ≤ m.capacity) :
    (m.store e).events.size ≤ m.capacity := by
  simp only [store, Array.size_push]
  split
  · omega
  · rw [Array.size_extract]
    omega

end Memory

end ContractLex
