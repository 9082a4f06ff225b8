import Mathlib

/-!
# FlashNext.Window

The last `S` elements of a sequence, left padded with `z`: all that a fixed look-back
needs to keep of what came before.
-/

namespace FlashNext

variable {ρ : Type*}

/-- The last `S` elements of a sequence, left padded with `z`. -/
def window (z : ρ) (S : Nat) (xs : List ρ) : List ρ := (List.replicate S z ++ xs).drop xs.length

@[simp] theorem length_window (z : ρ) (S : Nat) (xs : List ρ) : (window z S xs).length = S := by
  simp [window]

@[simp] theorem window_nil (z : ρ) (S : Nat) : window z S [] = List.replicate S z := by
  simp [window]

/-- The window followed by new elements is a tail of the padded sequence. -/
theorem window_append_eq_drop (z : ρ) (S : Nat) (xs ys : List ρ) :
    window z S xs ++ ys = (List.replicate S z ++ (xs ++ ys)).drop xs.length := by
  have hle : xs.length ≤ (List.replicate S z ++ xs).length := by simp
  rw [← List.append_assoc, List.drop_append_of_le_length hle, window]

/-- The window moves on to the tail of itself followed by the new elements. -/
theorem window_append (z : ρ) (S : Nat) (xs ys : List ρ) :
    window z S (xs ++ ys) = (window z S xs ++ ys).drop ys.length := by
  rw [window_append_eq_drop, List.drop_drop, window, List.length_append]

theorem getD_window (z : ρ) (S : Nat) (xs ys : List ρ) (i : Nat) :
    (window z S (xs ++ ys)).getD i z = (window z S xs ++ ys).getD (ys.length + i) z := by
  rw [window_append, List.getD_eq_getElem?_getD, List.getElem?_drop,
    ← List.getD_eq_getElem?_getD]

end FlashNext
