import TimeStepping.Linear.Vec

/-!
# Matrices

Dense matrices, stored by columns.  That every column has as many entries as
the matrix has rows is part of the type.  Products with a matrix check sizes and
run column by column.
-/

namespace TimeStepping

structure Mat (α : Type) where
  rows : Nat
  columns : Array (Vec α)
  size_column : ∀ column ∈ columns, column.size = rows

namespace Mat

variable {α : Type}

def cols (a : Mat α) : Nat :=
  a.columns.size

def ofFn (rows cols : Nat) (f : Nat → Nat → α) : Mat α where
  rows := rows
  columns := Array.ofFn fun j : Fin cols => Array.ofFn fun i : Fin rows => f i j
  size_column := by
    intro column h
    obtain ⟨j, rfl⟩ := Array.mem_ofFn.1 h
    simp

def map (f : α → α) (a : Mat α) : Mat α where
  rows := a.rows
  columns := a.columns.map fun column => column.map f
  size_column := by
    intro column h
    obtain ⟨old, hold, rfl⟩ := Array.mem_map.1 h
    simpa using a.size_column old hold

def entry? (a : Mat α) (i j : Nat) : Option α :=
  a.columns[j]?.bind fun column => column[i]?

/-- Change the entry in row `i` and column `j`; a matrix without it stays as it is. -/
def modify (a : Mat α) (i j : Nat) (f : α → α) : Mat α where
  rows := a.rows
  columns := a.columns.modify j fun column => column.modify i f
  size_column := by
    intro column h
    obtain ⟨k, hk, rfl⟩ := Array.mem_iff_getElem.1 h
    have hk' : k < a.columns.size := by simpa using hk
    have hsize := a.size_column _ (Array.getElem_mem hk')
    rw [Array.getElem_modify]
    split <;> simpa using hsize

def store (buffer value : Mat α) : Except Fault (Mat α) :=
  if buffer.rows = value.rows ∧ buffer.cols = value.cols then .ok value else .error .sizeMismatch

def toRows (a : Mat α) : List (List α) :=
  (List.range a.rows).map fun i => a.columns.toList.filterMap (·[i]?)

variable [Scalar α]

def zeros (rows cols : Nat) : Mat α :=
  ofFn rows cols fun _ _ => 0

def scale (c : α) (a : Mat α) : Mat α :=
  a.map (c * ·)

def addIdentity (a : Mat α) : Mat α :=
  (List.range (min a.rows a.cols)).foldl (fun b i => b.modify i i (· + 1)) a

def accumulate (y : Vec α) (terms : List (Vec α × α)) : Vec α :=
  terms.foldl (fun y term => Array.zipWith (fun c yi => c * term.2 + yi) term.1 y) y

/-- The combination of the columns of a matrix with the given coefficients. -/
def combination (a : Mat α) (x : Vec α) : Vec α :=
  match a.columns.toList.zip x.toList with
  | [] => Vec.zeros a.rows
  | (column, c) :: terms => accumulate (column.map (· * c)) terms

theorem size_accumulate {n : Nat} {y : Vec α} {terms : List (Vec α × α)} (hy : y.size = n)
    (hterms : ∀ term ∈ terms, term.1.size = n) : (accumulate y terms).size = n := by
  induction terms generalizing y with
  | nil =>
      simpa [accumulate] using hy
  | cons term terms ih =>
      have hterm : term.1.size = n := hterms term List.mem_cons_self
      refine ih ?_ fun t ht => hterms t (List.mem_cons_of_mem term ht)
      simp [hy, hterm]

theorem size_combination (a : Mat α) (x : Vec α) : (a.combination x).size = a.rows := by
  have hmem : ∀ term ∈ a.columns.toList.zip x.toList, term.1.size = a.rows := by
    intro term h
    exact a.size_column _ (Array.mem_toList_iff.1 (List.of_mem_zip h).1)
  unfold combination
  split
  · simp [Vec.zeros]
  · rename_i column c terms heq
    rw [heq] at hmem
    refine size_accumulate ?_ fun t ht => hmem t (List.mem_cons_of_mem _ ht)
    simpa using hmem _ List.mem_cons_self

def apply (a : Mat α) (x : Vec α) : Except Fault (Vec α) :=
  if a.cols = x.size then .ok (a.combination x) else .error .sizeMismatch

def applyTranspose (a : Mat α) (x : Vec α) : Except Fault (Vec α) :=
  if a.rows = x.size then .ok (a.columns.map (Vec.dot · x)) else .error .sizeMismatch

def mul (a b : Mat α) : Except Fault (Mat α) :=
  if a.cols = b.rows then
    .ok {
      rows := a.rows
      columns := b.columns.map a.combination
      size_column := by
        intro column h
        obtain ⟨old, _, rfl⟩ := Array.mem_map.1 h
        exact a.size_combination old }
  else .error .sizeMismatch

def mulTranspose (a b : Mat α) : Except Fault (Mat α) :=
  if a.rows = b.rows then
    .ok {
      rows := a.cols
      columns := b.columns.map fun column => a.columns.map (Vec.dot · column)
      size_column := by
        intro column h
        obtain ⟨old, _, rfl⟩ := Array.mem_map.1 h
        simp [cols] }
  else .error .sizeMismatch

end Mat

end TimeStepping
