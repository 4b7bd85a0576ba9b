import TimeStepping.Linear.Vec

/-!
# Stencils

The history of accepted states a multistep scheme builds on, newest first.  A
stencil holds at least one state, and its size never changes.  Main statements: undoing a
rotation with the state it dropped restores the stencil, and so does redoing one
with the newest state.
-/

namespace TimeStepping

/-- The most recently accepted states, newest first. -/
structure Stencil (α : Type) where
  newest : Vec α
  older : List (Vec α)
  deriving BEq

namespace Stencil

variable {α : Type}

/-- A stencil with `extra` states behind the newest one, all equal to `state`. -/
def filled (extra : Nat) (state : Vec α) : Stencil α :=
  ⟨state, List.replicate extra state⟩

def ofSize (state : Vec α) : Nat → Except Fault (Stencil α)
  | 0 => .error .emptyStencil
  | extra + 1 => .ok (filled extra state)

def size (s : Stencil α) : Nat :=
  s.older.length + 1

/-- All states, newest first. -/
def slots (s : Stencil α) : List (Vec α) :=
  s.newest :: s.older

/-- The state `lag` steps behind the newest, if the stencil reaches that far. -/
def get? (s : Stencil α) (lag : Nat) : Option (Vec α) :=
  s.slots[lag]?

def stateAt (s : Stencil α) (lag : Nat) : Except Fault (Vec α) :=
  match s.get? lag with
  | some state => .ok state
  | none => .error (.lagOutOfRange lag s.size)

def oldest (s : Stencil α) : Vec α :=
  s.slots.getLast (List.cons_ne_nil s.newest s.older)

/-- Drop the oldest state, move the others back and put `incoming` in front. -/
def rotate (s : Stencil α) (incoming : Vec α) : Stencil α :=
  ⟨incoming, s.slots.dropLast⟩

/-- Drop the newest state, move the others forward and put `restored` at the end. -/
def unrotate (s : Stencil α) (restored : Vec α) : Stencil α :=
  match s.older with
  | [] => ⟨restored, []⟩
  | second :: rest => ⟨second, rest ++ [restored]⟩

@[simp] theorem newest_rotate (s : Stencil α) (state : Vec α) :
    (s.rotate state).newest = state :=
  rfl

@[simp] theorem size_rotate (s : Stencil α) (state : Vec α) :
    (s.rotate state).size = s.size := by
  simp [rotate, slots, size]

@[simp] theorem size_unrotate (s : Stencil α) (state : Vec α) :
    (s.unrotate state).size = s.size := by
  unfold unrotate
  split <;> simp_all [size]

@[simp] theorem size_filled (extra : Nat) (state : Vec α) :
    (filled extra state).size = extra + 1 := by
  simp [filled, size]

@[simp] theorem length_slots (s : Stencil α) : s.slots.length = s.size := by
  simp [slots, size]

theorem unrotate_rotate (s : Stencil α) (state : Vec α) :
    (s.rotate state).unrotate s.oldest = s := by
  obtain ⟨newest, older⟩ := s
  cases older with
  | nil =>
      simp [rotate, slots, unrotate, oldest]
  | cons second rest =>
      simp [rotate, slots, unrotate, oldest, List.dropLast_concat_getLast]

theorem rotate_unrotate (s : Stencil α) (state : Vec α) :
    (s.unrotate state).rotate s.newest = s := by
  obtain ⟨newest, older⟩ := s
  cases older with
  | nil =>
      simp [rotate, slots, unrotate]
  | cons second rest =>
      simp only [rotate, slots, unrotate]
      rw [← List.cons_append, List.dropLast_concat]

end Stencil

end TimeStepping
