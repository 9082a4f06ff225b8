import Mathlib

/-!
# FlashNext.Segment

Looking back in a sequence that is cut after every occurrence of a mark `z`.

`segmentBack z xs p i` is the element `i` places before position `p`, unless a mark
lies in between.  `cummax`, the running maximum, is how the last mark is found:
`cummax_le_iff` bounds it by what it is the maximum of.
-/

namespace FlashNext

/-! ## the running maximum -/

/-- The running maximum of `m` and what follows. -/
def cummaxFrom (m : Int) : List Int → List Int
  | [] => []
  | x :: xs => max m x :: cummaxFrom (max m x) xs

/-- The running maximum. -/
def cummax : List Int → List Int
  | [] => []
  | x :: xs => x :: cummaxFrom x xs

@[simp] theorem length_cummaxFrom (m : Int) (xs : List Int) :
    (cummaxFrom m xs).length = xs.length := by
  induction xs generalizing m with
  | nil => rfl
  | cons x xs ih => simp [cummaxFrom, ih]

@[simp] theorem length_cummax (xs : List Int) : (cummax xs).length = xs.length := by
  cases xs <;> simp [cummax]

theorem cummaxFrom_le_iff {m b : Int} {xs : List Int} {k : Nat} (hk : k < xs.length) :
    (cummaxFrom m xs).getD k 0 ≤ b ↔ m ≤ b ∧ ∀ x ∈ xs.take (k + 1), x ≤ b := by
  induction xs generalizing m k with
  | nil => simp at hk
  | cons x xs ih =>
      rw [cummaxFrom, List.take_succ_cons, List.forall_mem_cons]
      cases k with
      | zero => simp
      | succ k =>
          rw [List.getD_cons_succ, ih (by simpa using hk), max_le_iff, and_assoc]

/-- The running maximum is below a bound when all elements so far are. -/
theorem cummax_le_iff {b : Int} {xs : List Int} {k : Nat} (hk : k < xs.length) :
    (cummax xs).getD k 0 ≤ b ↔ ∀ x ∈ xs.take (k + 1), x ≤ b := by
  cases xs with
  | nil => simp at hk
  | cons x xs =>
      rw [cummax, List.take_succ_cons, List.forall_mem_cons]
      cases k with
      | zero => simp
      | succ k => rw [List.getD_cons_succ, cummaxFrom_le_iff (by simpa using hk)]

/-! ## looking back -/

variable {ρ : Type*} [DecidableEq ρ]

/-- The element `i` places before position `p`, or `z` if there is a `z` in between. -/
def segmentBack (z : ρ) (xs : List ρ) (p i : Nat) : ρ :=
  if z ∈ (xs.drop (p - i)).take i then z else xs.getD (p - i) z

/-- Later elements are not looked at. -/
theorem segmentBack_append (z : ρ) (xs ys : List ρ) {p i : Nat} (hi : i ≤ p) (hp : p < xs.length) :
    segmentBack z (xs ++ ys) p i = segmentBack z xs p i := by
  have hlen : i ≤ (xs.drop (p - i)).length := by
    rw [List.length_drop]
    omega
  unfold segmentBack
  rw [List.drop_append_of_le_length (by omega), List.take_append_of_le_length hlen,
    List.getD_append _ _ _ _ (by omega)]

/-- Elements further back are not looked at. -/
theorem segmentBack_drop (z : ρ) (xs : List ρ) {n p i : Nat} (hi : i ≤ p) :
    segmentBack z (xs.drop n) p i = segmentBack z xs (n + p) i := by
  have hback : n + (p - i) = n + p - i := by omega
  unfold segmentBack
  rw [List.drop_drop, List.getD_eq_getElem?_getD, List.getElem?_drop, ← List.getD_eq_getElem?_getD,
    hback]

end FlashNext
