import ContractLex.Log.Journal
import Mathlib.Data.List.DropRight
import Mathlib.Data.List.Forall2
import Mathlib.Data.List.Induction

/-!
# What a memory keeps

A service hands events to a memory, which is cleared now and then. What the memory holds is the end
of what was delivered since it was cleared, as long as its capacity (`Memory.run_keeps`).

A step either adds an event at the end, for which the oldest ones make room (`store_eq_drop`), or
forgets everything. A memory is never over its capacity, so the range that makes room lies within
what is held, and it is the one oldest event.
-/

namespace ContractLex

/-! ## Messages -/

/-- `e'` is `e` with a message of bounded length: what is longer than that is cut, and three periods
stand in place of what was cut off. -/
structure Event.Shortens (e e' : Event) : Prop where
  others : e' = { e with message := e'.message }
  whole : e.message.length ≤ maxMessage → e'.message = e.message
  cut : maxMessage < e.message.length →
    e'.message.toList = e.message.toList.take maxMessage ++ ['.', '.', '.']

theorem Event.shortens_bounded (e : Event) : e.Shortens e.bounded := by
  by_cases hlong : maxMessage < e.message.length
  · have hbounded : e.bounded =
        { e with message := String.ofList (e.message.toList.take maxMessage) ++ "..." } := by
      rw [← String.length_toList] at hlong
      rw [bounded, if_pos hlong]
    rw [hbounded]
    exact ⟨rfl, fun hle => absurd hle (by omega), fun _ => by simp⟩
  · have hbounded : e.bounded = e := by
      rw [← String.length_toList] at hlong
      rw [bounded, if_neg hlong]
    rw [hbounded]
    exact ⟨rfl, fun _ => rfl, fun hlt => absurd hlt hlong⟩

namespace Memory

/-! ## Making room -/

/-- How many of the oldest events make room for a new one. -/
def overflow (m : Memory) : Nat := m.events.size + 1 - m.capacity

/-- A new event comes last, after those for which there is room. -/
theorem store_eq_drop {m : Memory} (h : 1 ≤ m.capacity) (e : Event) :
    (m.store e).events.toList = m.events.toList.drop m.overflow ++ [e] := by
  have hoverflow : m.events.size - (m.capacity - 1) = m.overflow := by
    rw [overflow]
    omega
  rw [store]
  dsimp only
  split
  · next hroom =>
    have hnone : m.overflow = 0 := by
      rw [overflow]
      omega
    rw [hnone, List.drop_zero, Array.toList_push]
  · rw [Array.toList_push, Array.toList_extract, hoverflow, List.extract_eq_take_drop,
      List.take_of_length_le (by simp)]

/-! ## Steps -/

/-- What is done with a memory. -/
inductive Step where
  /-- The service is handed an event. -/
  | log (e : Event)
  | clear
deriving DecidableEq, Repr

def step (limit : Level) (m : Memory) : Step → Memory
  | .log e => m.deliver limit e
  | .clear => m.clear

def run (limit : Level) (m : Memory) (steps : List Step) : Memory := steps.foldl (step limit) m

def Step.event? : Step → Option Event
  | .log e => some e
  | .clear => none

/-- The events that are handed over after the last clearing. -/
def sinceClear (steps : List Step) : List Event :=
  (steps.rtakeWhile (· ≠ .clear)).filterMap Step.event?

/-- Those of them that pass the minimum level. -/
def heard (limit : Level) (steps : List Step) : List Event :=
  (sinceClear steps).filter (·.level.passes limit)

section Steps

variable {limit : Level} {steps : List Step} {m : Memory} {e : Event} {n : Nat}

theorem run_concat (limit : Level) (m : Memory) (steps : List Step) (s : Step) :
    m.run limit (steps ++ [s]) = (m.run limit steps).step limit s := by
  simp [run]

theorem heard_clear : heard limit (steps ++ [.clear]) = [] := by
  simp [heard, sinceClear]

theorem heard_log :
    heard limit (steps ++ [.log e]) =
      heard limit steps ++ if e.level.passes limit then [e] else [] := by
  simp [heard, sinceClear, Step.event?, List.filter_append, List.filter_singleton]

/-- A memory that holds the end of a list of events, cut to bounded lengths. -/
structure Holds (m : Memory) (n : Nat) (es : List Event) : Prop where
  capacity : m.capacity = n
  events : m.events.toList = (es.map Event.bounded).rtake n

variable {es : List Event}

theorem Holds.size_eq (h : m.Holds n es) : m.events.size = min n es.length := by
  rw [← Array.length_toList, h.events, List.rtake, List.length_drop, List.length_map]
  omega

theorem Holds.store (h : m.Holds n es) (hn : 1 ≤ n) (e : Event) :
    (m.store e.bounded).Holds n (es ++ [e]) := by
  have hcapacity := h.capacity
  have hsize := h.size_eq
  refine ⟨hcapacity, ?_⟩
  rw [store_eq_drop (by omega), h.events, List.map_append, List.map_singleton]
  obtain ⟨k, rfl⟩ : ∃ k, n = k + 1 := ⟨n - 1, by omega⟩
  rw [List.rtake_concat_succ, List.rtake, List.rtake, List.drop_drop, List.length_map, overflow,
    hcapacity, hsize]
  congr 2
  omega

theorem Holds.deliver (h : m.Holds n es) (hn : 1 ≤ n) (limit : Level) (e : Event) :
    (m.deliver limit e).Holds n (es ++ if e.level.passes limit then [e] else []) := by
  rw [Memory.deliver, Event.delivered?]
  by_cases hpasses : e.level.passes limit = true
  · rw [if_pos hpasses, if_pos hpasses]
    exact h.store hn e
  · rw [if_neg hpasses, if_neg hpasses, List.append_nil]
    exact h

/-- Whatever is done with a memory, it holds the end of what it has heard. -/
theorem run_holds (c : Nat) (limit : Level) (steps : List Step) :
    ((ofCapacity c).run limit steps).Holds (max c 1) (heard limit steps) := by
  induction steps using List.reverseRecOn with
  | nil => exact ⟨rfl, by simp [run, ofCapacity, heard, sinceClear, List.rtake]⟩
  | append_singleton steps s ih =>
      rw [run_concat]
      cases s with
      | log e =>
          rw [heard_log]
          exact ih.deliver (Nat.le_max_right c 1) limit e
      | clear =>
          rw [heard_clear]
          exact ⟨ih.capacity, by simp [step, Memory.clear, List.rtake]⟩

end Steps

/-- A service that puts events into the memory of a journal delivers them to it. -/
theorem deliver_memory (j : Journal) (limit : Level) (e : Event) :
    (j.deliver ⟨.memory, limit⟩ e).memory = j.memory.deliver limit e := by
  rw [Journal.deliver, Memory.deliver]
  split
  · next heq => rw [heq, Journal.hand]
  · next heq => rw [heq]

/-- A memory of any capacity, to which a service delivers events and which is cleared now and then:
it holds the latest of the events that passed the minimum level since it was cleared, in order and
cut to bounded lengths, as many as its capacity, which is at least one. An event that finds no room
takes the place of the oldest one alone: the range that makes room is computed without underflow and
lies within what is held. -/
theorem run_keeps (c : Nat) (limit : Level) (steps : List Step) :
    let m := (ofCapacity c).run limit steps
    (∀ (j : Journal) (e : Event),
      (j.deliver ⟨.memory, limit⟩ e).memory = j.memory.deliver limit e)
    ∧ List.Forall₂ Event.Shortens ((heard limit steps).rtake (max c 1)) m.events.toList
    ∧ m.events.size = Nat.min (max c 1) (heard limit steps).length
    ∧ ∀ e, (m.store e).events.toList = m.events.toList.drop m.overflow ++ [e]
      ∧ (m.events.size < max c 1 ∧ m.overflow = 0
        ∨ m.overflow + m.capacity = m.events.size + 1 ∧ m.overflow = 1
          ∧ m.overflow ≤ m.events.size) := by
  intro m
  have h : m.Holds (max c 1) (heard limit steps) := run_holds c limit steps
  have hcapacity := h.capacity
  have hsize := h.size_eq
  refine ⟨fun j e => deliver_memory j limit e, ?_, hsize, fun e => ⟨store_eq_drop (by omega) e, ?_⟩⟩
  · rw [h.events, List.rtake, List.rtake, ← List.map_drop, List.length_map,
      List.forall₂_map_right_iff]
    exact List.forall₂_same.mpr fun e _ => e.shortens_bounded
  · rw [overflow]
    omega

/-- Without any capacity the last event is held all the same. -/
example : ((ofCapacity 0).run .warning
    [.log (.error "E020" "a"), .log (.warning "b"), .log (.debug "c")]).events.toList =
      [.warning "b"] := by decide +kernel

end Memory

end ContractLex
