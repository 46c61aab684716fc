import ClassForge.Trace.Recorder
import Mathlib.Data.List.DropRight

/-! A ring keeps the newest events: however often it went round, a snapshot is the end of the
record. -/

namespace ClassForge.Trace

open List

namespace Ring

variable {r : Ring} {n : Nat} {history : List Event}

/-- The event that is written over was the oldest; the others keep their order. -/
theorem rotate_set {xs : List Event} (h : i < xs.length) (e : Event) :
    (xs.set i e).drop (i + 1) ++ (xs.set i e).take (i + 1) = (xs.drop i ++ xs.take i).drop 1 ++ [e] := by
  rw [drop_append_of_le_length (by simp; omega)]
  simp [drop_set_of_lt, take_add_one, take_set_of_le, h]

theorem push_room (room : r.events.size < r.capacity) (e : Event) : r.push e = ⟨r.capacity, r.events.push e, 0⟩ :=
  if_pos room

theorem push_full (full : ¬ r.events.size < r.capacity) (e : Event) :
    r.push e = ⟨r.capacity, r.events.setIfInBounds r.next e, if r.next + 1 = r.capacity then 0 else r.next + 1⟩ :=
  if_neg full

theorem snapshot_push_full (full : r.events.size = r.capacity) (inside : r.next < r.capacity) (e : Event) :
    (r.push e).snapshot = r.snapshot.drop 1 ++ [e] := by
  have written : r.next < r.events.toList.length := by simpa [full] using inside
  rw [push_full (by omega), snapshot, snapshot, ← rotate_set written]
  dsimp only
  split
  next last =>
    -- the ring has gone round: all events lie in front of the end, as they do behind the start
    have whole : r.next + 1 = (r.events.toList.set r.next e).length := by simp [full, last]
    rw [whole, drop_length, take_length]
    simp
  · simp

/-- The state of a ring for `n` events after a history. Until it is full the oldest event is in front. -/
structure Holds (r : Ring) (n : Nat) (history : List Event) : Prop where
  limit : r.capacity = n
  inside : r.next < n
  front : r.events.size < n → r.next = 0
  newest : r.snapshot = history.drop (history.length - n)

theorem Holds.size (h : r.Holds n history) : r.events.size = min history.length n := by
  have whole : r.snapshot.length = r.events.size := by
    simp [snapshot]
    omega
  rw [← whole, h.newest, length_drop]
  omega

theorem Holds.push (h : r.Holds n history) (e : Event) : (r.push e).Holds n (history ++ [e]) := by
  have size := h.size
  obtain ⟨rfl, inside, front, newest⟩ := h
  by_cases room : r.events.size < r.capacity
  · rw [push_room room]
    refine ⟨rfl, Nat.zero_lt_of_lt inside, fun _ => rfl, ?_⟩
    rw [Nat.sub_eq_zero_of_le (by omega)] at newest
    rw [Nat.sub_eq_zero_of_le (by simp; omega)]
    simpa [snapshot, front room] using newest
  · refine ⟨?_, ?_, ?_, ?_⟩
    · rw [push_full room]
    · rw [push_full room]
      dsimp only
      split <;> omega
    · simp [push_full room, room]
    · rw [snapshot_push_full (by omega) inside, newest, drop_drop, ← drop_append_of_le_length (by omega)]
      congr 1
      simp
      omega

theorem Holds.run (h : r.Holds n history) (events : List Event) :
    (events.foldl Ring.push r).Holds n (history ++ events) := by
  induction events generalizing r history with
  | nil => rwa [append_nil]
  | cons e events ih =>
    rw [append_cons]
    exact ih (h.push e)

theorem holds_ofSize (size : Int) : (ofSize size).Holds (if size ≤ 0 then 4096 else size.toNat) [] := by
  refine ⟨rfl, ?_, fun _ => rfl, by simp [snapshot, ofSize]⟩
  show 0 < _
  split <;> omega

end Ring

theorem Recorder.foldl_emit {r : Recorder} (sink : r.sink = .ring k) (events : List Event) :
    (events.foldl emit r).sink = .ring ((events.filter (r.level.records ·.scope)).foldl Ring.push k) := by
  induction events generalizing r k with
  | nil => exact sink
  | cons e events ih =>
    rw [foldl_cons, filter_cons]
    cases passes : r.level.records e.scope with
    | false =>
      rw [emit, passes]
      exact ih sink
    | true =>
      have next : (r.emit e).sink = .ring (k.push e) ∧ (r.emit e).level = r.level := by
        simp [emit, passes, sink, Sink.push]
      rw [ih next.1, next.2]
      rfl

theorem Recorder.snapshot_newest (level : Level) (size : Int) (events : List Event) :
    let recorded := events.filter (level.records ·.scope)
    let capacity := if size ≤ 0 then 4096 else size.toNat
    (events.foldl emit (ofRing level size)).snapshot = recorded.rtake (min recorded.length capacity) := by
  intro recorded capacity
  have kept := ((Ring.holds_ofSize size).run recorded).newest
  have start : recorded.length - capacity = recorded.length - min recorded.length capacity := by omega
  rw [snapshot, foldl_emit rfl events, rtake, ← start]
  exact kept

end ClassForge.Trace
