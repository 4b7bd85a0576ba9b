import TimeStepping.Outcome
import TimeStepping.Scalar

/-!
# Vectors

State vectors of any size.  Operations on two vectors check that the sizes
agree.  Sums of products are accumulated in eight lanes, so that the order of
the additions is fixed.
-/

namespace TimeStepping

abbrev Vec (α : Type) := Array α

namespace Vec

variable {α : Type}

def combine (f : α → α → α) (x y : Vec α) : Except Fault (Vec α) :=
  if x.size = y.size then .ok (Array.zipWith f x y) else .error .sizeMismatch

theorem size_of_combine {f : α → α → α} {x y z : Vec α} (h : combine f x y = .ok z) :
    z.size = x.size := by
  unfold combine at h
  split at h
  · rename_i hsize
    cases h
    rw [Array.size_zipWith, ← hsize, Nat.min_self]
  · cases h

def store (buffer value : Vec α) : Except Fault (Vec α) :=
  if buffer.size = value.size then .ok value else .error .sizeMismatch

def entry (x : Vec α) (i : Nat) : Except Fault α :=
  match x[i]? with
  | some value => .ok value
  | none => .error .outOfBounds

variable [Scalar α]

def zeros (n : Nat) : Vec α :=
  Array.replicate n 0

def add (x y : Vec α) : Except Fault (Vec α) :=
  combine (· + ·) x y

def sub (x y : Vec α) : Except Fault (Vec α) :=
  combine (· - ·) x y

def scale (c : α) (x : Vec α) : Vec α :=
  x.map (c * ·)

def negate (x : Vec α) : Vec α :=
  x.map (- ·)

def axpy (a : α) (x y : Vec α) : Except Fault (Vec α) :=
  combine (fun xi yi => a * xi + yi) x y

/-- Eight partial sums. -/
structure Lanes (α : Type) where
  (s0 s1 s2 s3 s4 s5 s6 s7 : α)

namespace Lanes

def empty : Lanes α :=
  ⟨0, 0, 0, 0, 0, 0, 0, 0⟩

def total (s : Lanes α) : α :=
  0 + (s.s0 + s.s4) + (s.s1 + s.s5) + (s.s2 + s.s6) + (s.s3 + s.s7)

/-- Spread full blocks of eight terms over the lanes, then add the lanes and the
terms left over. -/
def sum : Lanes α → List α → α
  | s, a :: b :: c :: d :: e :: f :: g :: h :: rest =>
      sum ⟨s.s0 + a, s.s1 + b, s.s2 + c, s.s3 + d, s.s4 + e, s.s5 + f, s.s6 + g, s.s7 + h⟩ rest
  | s, rest => rest.foldl (· + ·) s.total

end Lanes

def dot (x y : Vec α) : α :=
  Lanes.empty.sum (Array.zipWith (· * ·) x y).toList

/-- The least entry, zero if there is none.  Of two entries that cannot be
compared the later one is kept. -/
def least (x : Vec α) : α :=
  match x.toList with
  | [] => 0
  | first :: rest => rest.foldl (fun a b => if a ≤ b then a else b) first

/-- The greatest entry, zero if there is none.  Of two entries that cannot be
compared the later one is kept. -/
def greatest (x : Vec α) : α :=
  match x.toList with
  | [] => 0
  | first :: rest => rest.foldl (fun a b => if b ≤ a then a else b) first

def norm (x : Vec α) : α :=
  Scalar.sqrt (dot x x)

end Vec

end TimeStepping
