import TimeStepping.StepEquation

/-!
# Chains of implicit steppers

A scheme over several past states cannot take its first steps before those
states exist.  A stepper is therefore a chain: its first member is the scheme
itself, and the rest is the lower-order stepper that takes the first steps for
it.  The empty chain ends every chain and takes no step.
-/

namespace TimeStepping

/-- Where a member of a chain stands. -/
inductive Phase where
  | bootstrapping
  | steadyState
  /-- The last step failed, and all it changed was restored. -/
  | rolledBack
  deriving DecidableEq

def Phase.afterStep (delegated : Bool) : Phase :=
  if delegated then bootstrapping else steadyState

/-- One scheme of a chain with all it keeps between steps: its history, the
oldest state dropped by the last rotation, and what it last attempted. -/
structure Member (α : Type) where
  name : String
  order : Nat
  stencil : Stencil α
  recovery : Vec α
  point : StepPoint α
  phase : Phase

/-- A stepper: a scheme, followed by the auxiliary steppers that start it up. -/
abbrev Chain (α : Type) := List (Member α)

namespace Chain

variable {α : Type}

/-- The number of states the chain builds on; none for the empty chain. -/
def stencilSize : Chain α → Nat
  | [] => 0
  | member :: _ => member.stencil.size

def order : Chain α → Nat
  | [] => 0
  | member :: _ => member.order

def bdfName : (size : Nat) → String
  | 1 => "bdf1"
  | 2 => "bdf2"
  | 3 => "bdf3"
  | _ => "implicit"

def initialPhase (auxiliary : Chain α) : Phase :=
  if 0 < auxiliary.stencilSize then .bootstrapping else .steadyState

/-- A new scheme in front of an auxiliary chain, all of whose history is `state`. -/
def fresh [Scalar α] (name : String) (order extra : Nat) (state : Vec α) (auxiliary : Chain α) :
    Chain α :=
  { name := name
    order := order
    stencil := Stencil.filled extra state
    recovery := state
    point := ⟨0, 0, 0⟩
    phase := initialPhase auxiliary } :: auxiliary

/-- The backward differentiation formula over `size` states, started up by the
formulas over fewer states. -/
def bdf [Scalar α] (state : Vec α) : (size : Nat) → Chain α
  | 0 => []
  | extra + 1 => fresh (bdfName (extra + 1)) (extra + 1) extra state (bdf state extra)

@[simp] theorem stencilSize_bdf [Scalar α] (state : Vec α) (size : Nat) :
    stencilSize (bdf state size) = size := by
  cases size <;> simp [bdf, fresh, stencilSize]

@[simp] theorem order_bdf [Scalar α] (state : Vec α) (size : Nat) :
    order (bdf state size) = size := by
  cases size <;> simp [bdf, fresh, order]

/-- A scheme whose equation the system states itself, over one to three states
and with a declared order. -/
def discrete [Scalar α] (order : Nat) (state : Vec α) (size : Nat) : Except (Failure α) (Chain α) :=
  if size = 0 ∨ 3 < size then .error (.configuration (.stencilSize size))
  else if order = 0 then .error (.configuration .orderZero)
  else .ok (fresh "arbitrary" order (size - 1) state [])

def system? {σ : Type} (equation : StepEquation σ α) : Chain α → Option (AlgebraicSystem σ α)
  | [] => none
  | member :: _ => some (equation.system member.point member.stencil)

end Chain

end TimeStepping
