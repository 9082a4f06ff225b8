import Mathlib.Algebra.BigOperators.Group.List.Basic
import Mathlib.Data.List.Forall2

/-!
# FlashNext.Strided

Strided views of a storage.

A view has an offset into its storage and, for each dimension, a size and the distance between
neighbours.  A view is contiguous when its elements lie one after another in row-major order:

* `address_eq_of_isContiguous` — then the address of an element is its row-major position;
* `ravel_lt`, `exists_ravel` — positions are exactly the numbers below the number of elements.
-/

namespace FlashNext

/-- A dimension of a view: how many elements it has, and how far apart they are. -/
structure Extent where
  size : Nat
  stride : Nat
deriving DecidableEq, Repr

/-- The dimensions of a view, the outermost first. -/
abbrev Extents := List Extent

namespace Extents

/-- `shape` -/
def shape (dims : Extents) : List Nat := dims.map Extent.size

/-- `numel()` -/
def numel (dims : Extents) : Nat := dims.shape.prod

/-- The position of an element relative to the first. -/
def address : Extents → List Nat → Nat
  | d :: dims, i :: idx => i * d.stride + address dims idx
  | _, _ => 0

/-- The stride that contiguous dimensions leave to the next one outside, if they are contiguous;
dimensions of size one may have any stride. -/
def outerStride : Extents → Option Nat
  | [] => some 1
  | d :: dims =>
    match outerStride dims with
    | none => none
    | some z => if d.size = 1 then some z else if d.stride = z then some (z * d.size) else none

/-- `is_contiguous()` -/
def isContiguous (dims : Extents) : Bool := dims.numel = 0 || (outerStride dims).isSome

end Extents

/-- An index of every dimension that is within its size. -/
def InBounds (shape idx : List Nat) : Prop := List.Forall₂ (fun size i => i < size) shape idx

/-- The row-major position of an index. -/
def ravel : List Nat → List Nat → Nat
  | _ :: shape, i :: idx => i * shape.prod + ravel shape idx
  | _, _ => 0

theorem ravel_lt {shape idx : List Nat} (h : InBounds shape idx) :
    ravel shape idx < shape.prod := by
  induction h with
  | nil => exact Nat.zero_lt_one
  | @cons size i shape idx hi _ ih =>
    calc ravel (size :: shape) (i :: idx)
        < i * shape.prod + shape.prod := Nat.add_lt_add_left ih _
      _ = (i + 1) * shape.prod := (Nat.succ_mul _ _).symm
      _ ≤ size * shape.prod := Nat.mul_le_mul_right _ hi
      _ = (size :: shape).prod := List.prod_cons.symm

/-- Every position below the number of elements is that of an index. -/
theorem exists_ravel {shape : List Nat} {k : Nat} (h : k < shape.prod) :
    ∃ idx, InBounds shape idx ∧ ravel shape idx = k := by
  induction shape generalizing k with
  | nil =>
    rw [List.prod_nil, Nat.lt_one_iff] at h
    exact ⟨[], .nil, h.symm⟩
  | cons size shape ih =>
    rw [List.prod_cons] at h
    have hpos : 0 < shape.prod := Nat.pos_of_mul_pos_left (Nat.zero_lt_of_lt h)
    obtain ⟨idx, hidx, hk⟩ := ih (Nat.mod_lt k hpos)
    refine ⟨k / shape.prod :: idx, .cons ?_ hidx, ?_⟩
    · exact Nat.div_lt_of_lt_mul (by rwa [Nat.mul_comm])
    · rw [ravel, hk, Nat.mul_comm]
      exact Nat.div_add_mod k shape.prod

namespace Extents

/-- What contiguous dimensions leave to the next one is their number of elements. -/
theorem outerStride_eq {dims : Extents} {z : Nat} (h : outerStride dims = some z) :
    z = dims.numel := by
  induction dims generalizing z with
  | nil =>
    cases h
    rfl
  | cons d dims ih =>
    rw [outerStride] at h
    split at h
    · cases h
    · next z' hz =>
      have hz' := ih hz
      simp only [numel, shape, List.map_cons, List.prod_cons] at hz' ⊢
      split at h
      · next hone =>
        cases h
        rw [hone, Nat.one_mul, hz']
      · split at h
        · cases h
          rw [← hz', Nat.mul_comm]
        · cases h

/-- The dimensions behind the first of contiguous dimensions. -/
theorem outerStride_tail {d : Extent} {dims : Extents} (h : (outerStride (d :: dims)).isSome) :
    outerStride dims = some dims.numel ∧ (d.size = 1 ∨ d.stride = dims.numel) := by
  rw [outerStride] at h
  split at h
  · cases h
  · next z hz =>
    obtain rfl := outerStride_eq hz
    refine ⟨hz, ?_⟩
    split at h
    · next hone => exact .inl hone
    · split at h
      · next hstride => exact .inr hstride
      · cases h

/-- **In a contiguous view the address of an element is its row-major position.** -/
theorem address_eq_of_isContiguous {dims : Extents} (h : dims.isContiguous = true)
    {idx : List Nat} (hidx : InBounds dims.shape idx) :
    address dims idx = ravel dims.shape idx := by
  have hpos : dims.numel ≠ 0 := Nat.ne_zero_of_lt (ravel_lt hidx)
  have hsome : (outerStride dims).isSome := by simpa [isContiguous, hpos] using h
  clear h hpos
  induction dims generalizing idx with
  | nil =>
    cases hidx
    rfl
  | cons d dims ih =>
    obtain ⟨htail, hstride⟩ := outerStride_tail hsome
    rcases hidx with _ | ⟨hi, hidx⟩
    next i idx =>
    have hrest := ih hidx (by rw [htail]; rfl)
    rw [address, hrest]
    change _ = i * (shape dims).prod + ravel (shape dims) idx
    rcases hstride with hone | hstride
    · obtain rfl : i = 0 := by omega
      rw [Nat.zero_mul, Nat.zero_mul]
    · rw [hstride]
      rfl

end Extents

end FlashNext
