import FlashNext.PyError
import Mathlib.Data.Nat.Init

/-!
# FlashNext.Mat

Two-dimensional tensors.

A tensor is its shape and the entry at each position; views that cut, split or
repeat it compute new positions.  A view that does not fit the shape raises, as
it does in torch.  A `Region` is a rectangle of a larger tensor, the target of an
assignment; `Region.copy` broadcasts dimensions of size one.
-/

namespace FlashNext

variable {ρ : Type*}

/-- The dimensions of a two-dimensional tensor. -/
inductive Dim where
  | zero
  | one
deriving DecidableEq, Repr

/-- The dimension that is not this one. -/
def Dim.other : Dim → Dim
  | .zero => .one
  | .one => .zero

/-- A tensor: shape and entries (`get` is only read inside the shape). -/
structure Mat (ρ : Type*) where
  rows : Nat
  cols : Nat
  get : Nat → Nat → ρ

namespace Mat

/-- `shape[dim]`. -/
def size (m : Mat ρ) : Dim → Nat
  | .zero => m.rows
  | .one => m.cols

/-- The same shape with each entry converted. -/
def map {τ : Type*} (f : ρ → τ) (m : Mat ρ) : Mat τ := ⟨m.rows, m.cols, fun i j => f (m.get i j)⟩

/-- `.T`. -/
def T (m : Mat ρ) : Mat ρ := ⟨m.cols, m.rows, fun i j => m.get j i⟩

/-- The `length` rows or columns from `start` on. -/
def slice (m : Mat ρ) (dim : Dim) (start length : Nat) : Mat ρ :=
  match dim with
  | .zero => ⟨length, m.cols, fun i j => m.get (start + i) j⟩
  | .one => ⟨m.rows, length, fun i j => m.get i (start + j)⟩

/-- `narrow(dim, start, length)`. -/
def narrow (m : Mat ρ) (dim : Dim) (start length : Nat) : Except PyError (Mat ρ) :=
  if start + length ≤ m.size dim then .ok (m.slice dim start length)
  else .error (.runtimeError "start + length exceeds dimension size")

/-- `repeat_interleave(repeats, 1)`. -/
def repeatInterleave (m : Mat ρ) (repeats : Nat) : Mat ρ :=
  ⟨m.rows, m.cols * repeats, fun i j => m.get i (j / repeats)⟩

/-- `torch.cat([m, n], dim=0)`. -/
def stack (m n : Mat ρ) : Mat ρ :=
  ⟨m.rows + n.rows, m.cols, fun i j => if i < m.rows then m.get i j else n.get (i - m.rows) j⟩

/-- `view` with `dim` split into `parts` and a size left to infer, then entry `index` of the
parts. -/
def part (m : Mat ρ) (dim : Dim) (parts index : Nat) : Except PyError (Mat ρ) :=
  if 0 < parts * m.size dim.other ∧ parts ∣ m.size dim then
    if index < parts then .ok (m.slice dim (index * (m.size dim / parts)) (m.size dim / parts))
    else .error .indexError
  else .error (.runtimeError "shape is invalid for input")

/-- `[start::2]` along `dim`. -/
def everySecond (m : Mat ρ) (dim : Dim) (start : Nat) : Mat ρ :=
  match dim with
  | .zero => ⟨(m.rows + 1 - start) / 2, m.cols, fun i j => m.get (2 * i + start) j⟩
  | .one => ⟨m.rows, (m.cols + 1 - start) / 2, fun i j => m.get i (2 * j + start)⟩

/-- An elementwise operation, with dimensions of size one broadcast. -/
def zipWith {σ τ : Type*} (f : ρ → σ → τ) (m : Mat ρ) (n : Mat σ) : Except PyError (Mat τ) :=
  if (m.rows = n.rows ∨ m.rows = 1 ∨ n.rows = 1) ∧ (m.cols = n.cols ∨ m.cols = 1 ∨ n.cols = 1) then
    .ok {
      rows := if m.rows = 1 then n.rows else m.rows
      cols := if m.cols = 1 then n.cols else m.cols
      get := fun i j =>
        f (m.get (if m.rows = 1 then 0 else i) (if m.cols = 1 then 0 else j))
          (n.get (if n.rows = 1 then 0 else i) (if n.cols = 1 then 0 else j)) }
  else .error (.runtimeError "The size of tensor a must match the size of tensor b")

/-- Start and length of the pieces that `chunk(2)` makes of `size`. -/
def chunkBounds (size : Nat) : List (Nat × Nat) :=
  let half := (size + 1) / 2
  if size = 1 then [(0, 1)] else [(0, half), (half, size - half)]

theorem narrow_of_le {m : Mat ρ} {dim : Dim} {start length : Nat}
    (h : start + length ≤ m.size dim) :
    m.narrow dim start length = .ok (m.slice dim start length) :=
  if_pos h

/-- Tensors of one shape are combined entry by entry. -/
theorem zipWith_of_same_shape {σ τ : Type*} (f : ρ → σ → τ) {m : Mat ρ} {n : Mat σ}
    (hr : m.rows = n.rows) (hc : m.cols = n.cols) :
    ∃ o, zipWith f m n = .ok o ∧ o.rows = m.rows ∧ o.cols = m.cols ∧
      ∀ i < m.rows, ∀ j < m.cols, o.get i j = f (m.get i j) (n.get i j) := by
  refine ⟨_, if_pos ⟨.inl hr, .inl hc⟩, by grind, by grind, ?_⟩
  rintro i hi j hj
  have hi' : (if m.rows = 1 then 0 else i) = i := by split <;> omega
  have hj' : (if m.cols = 1 then 0 else j) = j := by split <;> omega
  simp only [← hr, ← hc, hi', hj']

/-- A part of a split tensor is the slice at its place. -/
theorem part_eq_ok {m n : Mat ρ} {dim : Dim} {parts index : Nat} :
    m.part dim parts index = .ok n ↔
      0 < m.size dim.other ∧ index < parts ∧ parts ∣ m.size dim ∧
        n = m.slice dim (index * (m.size dim / parts)) (m.size dim / parts) := by
  rw [part, guard_eq_ok, guard_eq_ok, Except.ok.injEq]
  constructor
  · rintro ⟨⟨hpos, hdvd⟩, hi, h⟩
    exact ⟨Nat.pos_of_mul_pos_left hpos, hi, hdvd, h.symm⟩
  · rintro ⟨hpos, hi, hdvd, h⟩
    exact ⟨⟨Nat.mul_pos (by omega) hpos, hdvd⟩, hi, h.symm⟩

end Mat

/-! ## assignment into a rectangle -/

/-- A rectangle: its first row and column and its shape. -/
structure Region where
  row : Nat
  col : Nat
  rows : Nat
  cols : Nat
deriving DecidableEq, Repr

namespace Region

/-- All of a tensor. -/
def whole (rows cols : Nat) : Region := ⟨0, 0, rows, cols⟩

/-- `shape[dim]`. -/
def size (r : Region) : Dim → Nat
  | .zero => r.rows
  | .one => r.cols

/-- The `length` rows or columns from `start` on. -/
def slice (r : Region) (dim : Dim) (start length : Nat) : Region :=
  match dim with
  | .zero => { r with row := r.row + start, rows := length }
  | .one => { r with col := r.col + start, cols := length }

/-- `narrow(dim, start, length)`. -/
def narrow (r : Region) (dim : Dim) (start length : Nat) : Except PyError Region :=
  if start + length ≤ r.size dim then .ok (r.slice dim start length)
  else .error (.runtimeError "start + length exceeds dimension size")

/-- The position lies in the rectangle. -/
def Mem (r : Region) (i j : Nat) : Prop :=
  r.row ≤ i ∧ i < r.row + r.rows ∧ r.col ≤ j ∧ j < r.col + r.cols

instance (r : Region) (i j : Nat) : Decidable (r.Mem i j) :=
  inferInstanceAs (Decidable (_ ∧ _ ∧ _ ∧ _))

/-- What an assignment of `m` gives to the positions of the rectangle. -/
def fill (r : Region) (m : Mat ρ) (i j : Nat) : Option ρ :=
  if r.Mem i j then
    some (m.get (if m.rows = 1 then 0 else i - r.row) (if m.cols = 1 then 0 else j - r.col))
  else none

/-- `copy_`. -/
def copy (r : Region) (m : Mat ρ) : Except PyError (Nat → Nat → Option ρ) :=
  if (m.rows = r.rows ∨ m.rows = 1) ∧ (m.cols = r.cols ∨ m.cols = 1) then .ok (r.fill m)
  else .error (.runtimeError "The size of tensor a must match the size of tensor b")

/-- One rectangle lies in the other. -/
def Sub (r s : Region) : Prop := ∀ i j, r.Mem i j → s.Mem i j

theorem Sub.refl (r : Region) : r.Sub r := fun _ _ h => h

theorem Sub.trans {r s t : Region} (h : r.Sub s) (h' : s.Sub t) : r.Sub t :=
  fun i j hm => h' i j (h i j hm)

theorem narrow_of_le {r : Region} {dim : Dim} {start length : Nat}
    (h : start + length ≤ r.size dim) :
    r.narrow dim start length = .ok (r.slice dim start length) :=
  if_pos h

theorem slice_sub {r : Region} {dim : Dim} {start length : Nat}
    (h : start + length ≤ r.size dim) : (r.slice dim start length).Sub r := by
  intro i j hm
  cases dim <;> simp only [Mem, slice, size] at * <;> omega

/-- Outside the rectangle nothing is assigned. -/
theorem fill_eq_none {r : Region} {m : Mat ρ} {i j : Nat} (h : ¬ r.Mem i j) :
    r.fill m i j = none :=
  if_neg h

theorem fill_isSome (r : Region) (m : Mat ρ) (i j : Nat) :
    (r.fill m i j).isSome = decide (r.Mem i j) := by
  rw [fill]
  by_cases h : r.Mem i j <;> simp [h]

/-- Inside the rectangle a tensor of its shape is copied entry by entry. -/
theorem fill_eq_some {r : Region} {m : Mat ρ} {i j : Nat} (hr : m.rows = r.rows)
    (hc : m.cols = r.cols) (h : r.Mem i j) :
    r.fill m i j = some (m.get (i - r.row) (j - r.col)) := by
  have hi : (if m.rows = 1 then 0 else i - r.row) = i - r.row := by
    simp only [Mem] at h
    split <;> omega
  have hj : (if m.cols = 1 then 0 else j - r.col) = j - r.col := by
    simp only [Mem] at h
    split <;> omega
  rw [fill, if_pos h, hi, hj]

theorem copy_of_same_shape {r : Region} {m : Mat ρ} (hr : m.rows = r.rows)
    (hc : m.cols = r.cols) : r.copy m = .ok (r.fill m) :=
  if_pos ⟨.inl hr, .inl hc⟩

theorem copy_of_slice {r : Region} {m : Mat ρ} {dim : Dim} {start length : Nat}
    (hlength : length = r.size dim) (hother : m.size dim.other = r.size dim.other) :
    r.copy (m.slice dim start length) = .ok (r.fill (m.slice dim start length)) := by
  cases dim with
  | zero => exact copy_of_same_shape hlength hother
  | one => exact copy_of_same_shape hother hlength

theorem copy_eq_ok {r : Region} {m : Mat ρ} {w : Nat → Nat → Option ρ} :
    r.copy m = .ok w ↔
      ((m.rows = r.rows ∨ m.rows = 1) ∧ (m.cols = r.cols ∨ m.cols = 1)) ∧ w = r.fill m := by
  rw [copy, guard_eq_ok, Except.ok.injEq, eq_comm (a := w)]

end Region

end FlashNext
