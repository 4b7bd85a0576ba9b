import TimeStepping.System

/-!
# Central differences

The Jacobian of a continuous-time system by central differences, one column per
component of the state.  It serves to check a Jacobian that was written by hand.
-/

namespace TimeStepping

namespace Difference

variable {σ α : Type} [Scalar α]

def displacement (x : α) : α :=
  Scalar.larger (Scalar.ratio 1 1000 * Scalar.abs x) (Scalar.ratio 1 10000000000000000)

/-- The slope of every component of the velocity between two displaced states. -/
def column (h : α) (plus minus : Vec α) : Vec α :=
  Array.zipWith (fun p m => (p - m) / (((2 : Nat) : α) * h)) plus minus

/-- The columns for `remaining` components from `i` on, together with those
before them.  The two buffers are used for every component. -/
def columnsFrom (system : ContinuousSystem σ α) (state : Vec α) (time : α) :
    (remaining i : Nat) → (plus minus : Vec α) → (columns : List (Vec α)) →
      StateM σ (Outcome α (List (Vec α)))
  | 0, _, _, _, columns => pure (.done columns)
  | remaining + 1, i, plus, minus, columns =>
      match Vec.entry state i with
      | .error cause => pure ⟨columns, .fault cause⟩
      | .ok x => do
          let h := displacement x
          let above ← system.velocity (state.setIfInBounds i (x + h)) time plus
          match above.ending with
          | .done =>
              let below ← system.velocity (state.setIfInBounds i (x - h)) time minus
              match below.ending with
              | .done =>
                  columnsFrom system state time remaining (i + 1) above.value below.value
                    (columns ++ [column h above.value below.value])
              | ending => pure ⟨columns, ending⟩
          | ending => pure ⟨columns, ending⟩

def jacobian (system : ContinuousSystem σ α) (state : Vec α) (time : α) :
    StateM σ (Outcome α (Mat α)) := do
  let rows := system.velocityBuffer.size
  let columns ← columnsFrom system state time state.size 0
    system.velocityBuffer system.velocityBuffer []
  let entry (i j : Nat) : α := ((columns.value[j]?.getD #[])[i]?).getD 0
  pure ⟨Mat.ofFn rows state.size entry, columns.ending⟩

end Difference

end TimeStepping
