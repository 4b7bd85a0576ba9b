import Mathlib.Data.List.TakeDrop
import TimeStepping.Proofs.Implicit.StartUp

/-!
# Rotations of a stencil

What a stencil holds after any rotations, and how to go back.  A rotation moves every
state on by one slot and overwrites the newest; what it overwrote is the oldest state,
and whoever keeps that can undo the rotation.  Main statement:
`Stencil.rotations_remembered_and_undone`.
-/

namespace TimeStepping

namespace Stencil

variable {α : Type}

/-- Rotate states in, one after the other. -/
def rotations (s : Stencil α) (states : List (Vec α)) : Stencil α :=
  states.foldl rotate s

/-- Undo rotations, one after the other, by the states they dropped. -/
def unrotations (s : Stencil α) (dropped : List (Vec α)) : Stencil α :=
  dropped.foldl unrotate s

/-- The states that drop out while others are rotated in, the last one first. -/
def dropped : Stencil α → List (Vec α) → List (Vec α)
  | _, [] => []
  | s, state :: states => dropped (s.rotate state) states ++ [s.oldest]

/-! ## Slots -/

/-- The slots move on by one, and the foremost is overwritten. -/
theorem slots_rotate (s : Stencil α) (state : Vec α) :
    (s.rotate state).slots = (s.slots.rotateRight 1).set 0 state := by
  obtain ⟨newest, older⟩ := s
  cases older with
  | nil => rfl
  | cons second rest =>
      have hone : 1 % (newest :: second :: rest).length = 1 := Nat.mod_eq_of_lt (by simp)
      have hlong : ¬(newest :: second :: rest).length ≤ 1 := by simp
      have hlast : (newest :: second :: rest).drop ((newest :: second :: rest).length - 1) =
          [(newest :: second :: rest).getLast (List.cons_ne_nil _ _)] :=
        List.drop_length_sub_one (List.cons_ne_nil _ _)
      simp only [rotate, slots, List.rotateRight, if_neg hlong, hone, hlast, List.dropLast_eq_take]
      rfl

/-- The slots move back by one, and the last is overwritten. -/
theorem slots_unrotate (s : Stencil α) (state : Vec α) :
    (s.unrotate state).slots = (s.slots.rotateLeft 1).set (s.size - 1) state := by
  obtain ⟨newest, older⟩ := s
  cases older with
  | nil => rfl
  | cons second rest =>
      have hone : 1 % (newest :: second :: rest).length = 1 := Nat.mod_eq_of_lt (by simp)
      have hlong : ¬(newest :: second :: rest).length ≤ 1 := by simp
      simp only [unrotate, slots, size, List.rotateLeft, if_neg hlong, hone]
      simp

theorem stateAt_of_slots {s : Stencil α} {lag : Nat} {state : Vec α}
    (h : s.slots[lag]? = some state) : s.stateAt lag = .ok state := by
  rw [stateAt, get?, h]

theorem stateAt_zero (s : Stencil α) : s.stateAt 0 = .ok s.newest :=
  rfl

theorem stateAt_last (s : Stencil α) : s.stateAt (s.size - 1) = .ok s.oldest := by
  refine stateAt_of_slots ?_
  rw [← length_slots, ← List.getLast?_eq_getElem?]
  exact List.getLast?_eq_some_getLast (List.cons_ne_nil s.newest s.older)

@[simp] theorem size_rotations (s : Stencil α) (states : List (Vec α)) :
    (s.rotations states).size = s.size := by
  induction states generalizing s with
  | nil => rfl
  | cons state states ih => exact (ih (s.rotate state)).trans (s.size_rotate state)

/-- A stencil that holds the window of a history goes on holding it. -/
theorem slots_rotations {s : Stencil α} {initial : Vec α} {past : List (Vec α)} {extra : Nat}
    (h : s.slots = Chain.window initial past (extra + 1)) (states : List (Vec α)) :
    (s.rotations states).slots = Chain.window initial (states.reverse ++ past) (extra + 1) := by
  induction states generalizing s past with
  | nil => exact h
  | cons state states ih =>
      have hnext : (s.rotate state).slots = Chain.window initial (state :: past) (extra + 1) := by
        rw [Chain.window_cons, ← h]
        rfl
      rw [List.reverse_cons, List.append_assoc]
      exact ih hnext

/-! ## Going back -/

theorem length_dropped (s : Stencil α) (states : List (Vec α)) :
    (s.dropped states).length = states.length := by
  induction states generalizing s with
  | nil => rfl
  | cons state states ih => simp [dropped, ih]

theorem unrotations_rotations (s : Stencil α) (states : List (Vec α)) :
    (s.rotations states).unrotations (s.dropped states) = s := by
  induction states generalizing s with
  | nil => rfl
  | cons state states ih =>
      have hrest : ((s.rotate state).rotations states).unrotations
          ((s.rotate state).dropped states) = s.rotate state := ih (s.rotate state)
      rw [unrotations] at hrest
      -- the first rotation is the last to be undone
      change unrotations ((s.rotate state).rotations states) (_ ++ [s.oldest]) = s
      rw [unrotations, List.foldl_append, hrest]
      exact s.unrotate_rotate state

/-- After any rotations, a stencil built from an initial state holds the newest of the
states rotated in, and the initial one in the slots they do not fill.  In every stencil a
rotation moves the slots on and overwrites the foremost; it is undone by the oldest state
it dropped, and undoing is undone by the newest.  Any rotations are undone by the states
they dropped, the last one first. -/
theorem rotations_remembered_and_undone (extra : Nat) (initial : Vec α)
    (states : List (Vec α)) :
    (∃ new, ofSize initial (extra + 1) = .ok new ∧
      let after := new.rotations states
      after.size = extra + 1 ∧
        (∀ lag (h : lag < states.length), lag ≤ extra →
          after.stateAt lag = .ok (states.get ⟨states.length - 1 - lag, by omega⟩)) ∧
        (∀ lag, states.length ≤ lag → lag ≤ extra → after.stateAt lag = .ok initial) ∧
        after.stateAt extra = .ok after.oldest) ∧
    ∀ s : Stencil α,
      (s.stateAt 0 = .ok s.newest ∧ s.stateAt (s.size - 1) = .ok s.oldest) ∧
      (∀ state, (s.rotate state).slots = (s.slots.rotateRight 1).set 0 state ∧
        (s.rotate state).unrotate s.oldest = s) ∧
      (∀ state, (s.unrotate state).slots = (s.slots.rotateLeft 1).set (s.size - 1) state ∧
        (s.unrotate state).rotate s.newest = s) ∧
      (s.dropped states).length = states.length ∧
      (s.rotations states).unrotations (s.dropped states) = s := by
  constructor
  · have hslots := slots_rotations (Chain.slots_filled initial extra) states
    rw [List.append_nil] at hslots
    have hsize : ((filled extra initial).rotations states).size = extra + 1 := by simp
    refine ⟨filled extra initial, rfl, hsize, fun lag hlag hle => ?_, fun lag hlag hle => ?_, ?_⟩
    · refine stateAt_of_slots ?_
      rw [hslots, Chain.getElem?_window _ _ (by omega)]
      simp [hlag]
    · refine stateAt_of_slots ?_
      rw [hslots, Chain.getElem?_window _ _ (by omega)]
      simp [hlag]
    · have hlast := stateAt_last ((filled extra initial).rotations states)
      rwa [hsize] at hlast
  · intro s
    exact ⟨⟨s.stateAt_zero, s.stateAt_last⟩,
      fun state => ⟨s.slots_rotate state, s.unrotate_rotate state⟩,
      fun state => ⟨s.slots_unrotate state, s.rotate_unrotate state⟩,
      s.length_dropped states, s.unrotations_rotations states⟩

end Stencil

end TimeStepping
