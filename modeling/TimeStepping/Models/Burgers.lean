import TimeStepping.System

/-!
# Burgers equation

The inviscid Burgers equation in one space dimension with a source term,

    du/dt + 1/2 d(u^2)/dx = mu1 * exp(mu2 * x)   for 0 <= x <= 100,
    u(0, t) = mu0,  u(x, 0) = 1,

discretized by first-order upwind finite volumes on cells of one width.
-/

namespace TimeStepping

structure Burgers.Parameters (α : Type) where
  inflow : α
  strength : α
  rate : α

/-- The discretized equation: its parameters, the width of a cell and the cell
centers. -/
structure Burgers (α : Type) where
  parameters : Burgers.Parameters α
  width : α
  grid : Vec α

namespace Burgers

variable {α : Type} [Scalar α]

def Parameters.standard : Parameters α :=
  ⟨((5 : Nat) : α), Scalar.ratio 2 100, Scalar.ratio 2 100⟩

def ofCells (parameters : Parameters α) (cells : Nat) : Except (Failure α) (Burgers α) :=
  if cells = 0 then .error (.configuration .noCells)
  else
    let left : α := 0
    let width := (((100 : Nat) : α) - left) / (cells : α)
    .ok {
      parameters := parameters
      width := width
      grid := Array.ofFn fun i : Fin cells =>
        left + width * ((i : Nat) : α) + Scalar.ratio 1 2 * width }

def cells (model : Burgers α) : Nat :=
  model.grid.size

def initialState (model : Burgers α) : Vec α :=
  Array.replicate model.cells 1

def upwind (model : Burgers α) (u : Vec α) : (i : Nat) → α
  | 0 => model.parameters.inflow
  | i + 1 => u.getD i 0

def flux (model : Burgers α) (u : Vec α) (i : Nat) : α :=
  let inflow := model.upwind u i
  let value := u.getD i 0
  Scalar.ratio 1 2 / model.width * (inflow * inflow - value * value)

variable [Exponential α]

def source (model : Burgers α) (x : α) : α :=
  model.parameters.strength * Exponential.exp (model.parameters.rate * x)

/-- The rate of change of every cell of `u`; entries of the buffer behind them
are kept. -/
def velocity (model : Burgers α) (u buffer : Vec α) : Except Fault (Vec α) :=
  if u.size = 0 ∨ buffer.size < u.size ∨ model.cells < u.size then .error .outOfBounds
  else
    .ok (buffer.mapIdx fun i kept =>
      if i < u.size then model.flux u i + model.source (model.grid.getD i 0) else kept)

def jacobianEntry (model : Burgers α) (u : Vec α) (i j : Nat) : α :=
  if u.size ≤ i then 0
  else if j = i then -(1 / model.width) * u.getD i 0
  else if j + 1 = i then 1 / model.width * u.getD j 0
  else 0

/-- The derivative of the velocity, in a matrix of the shape of the buffer. -/
def jacobian (model : Burgers α) (u : Vec α) (buffer : Mat α) : Except Fault (Mat α) :=
  if u.size = 0 ∨ buffer.rows < u.size ∨ buffer.cols < u.size then .error .outOfBounds
  else .ok (Mat.ofFn buffer.rows buffer.cols (model.jacobianEntry u))

omit [Exponential α] in
theorem jacobian_of_fits (model : Burgers α) {u : Vec α} {buffer : Mat α} (hpos : 0 < u.size)
    (hrows : u.size ≤ buffer.rows) (hcols : u.size ≤ buffer.cols) :
    model.jacobian u buffer = .ok (.ofFn buffer.rows buffer.cols (model.jacobianEntry u)) :=
  if_neg (by omega)

def system {σ : Type} (model : Burgers α) : ContinuousSystem σ α where
  velocityBuffer := Vec.zeros model.cells
  jacobianBuffer := Mat.zeros model.cells model.cells
  velocity u _ buffer := pure (.ofChecked buffer (model.velocity u buffer))
  jacobian u _ buffer := pure (.ofChecked buffer (model.jacobian u buffer))

end Burgers

end TimeStepping
