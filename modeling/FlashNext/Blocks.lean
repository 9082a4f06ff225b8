import Mathlib.Data.List.Flatten

/-!
# FlashNext.Blocks

The numbers below `n` cut into `parts` blocks of one size, rounded up.

The last blocks may be short or empty.

* `mem_block_iff` — number `x` is in block `x / blockSize n parts` and no other;
* `getElem?_flatMap_blocks` — where it is in the blocks one behind another.
-/

namespace FlashNext

/-- The size of a block. -/
def blockSize (n parts : Nat) : Nat := (n + parts - 1) / parts

/-- The numbers in block `i`. -/
def blockLen (n parts i : Nat) : Nat := min (blockSize n parts) (n - i * blockSize n parts)

variable {n parts i x : Nat}

theorem blockSize_pos (hparts : 0 < parts) (hn : 0 < n) : 0 < blockSize n parts :=
  Nat.div_pos (by omega) hparts

/-- The blocks have room for all numbers. -/
theorem le_mul_blockSize (hparts : 0 < parts) : n ≤ parts * blockSize n parts := by
  have hmod := Nat.mod_lt (n + parts - 1) hparts
  have hdiv := Nat.div_add_mod (n + parts - 1) parts
  unfold blockSize
  omega

/-- Each number has a block. -/
theorem div_blockSize_lt (hparts : 0 < parts) (hx : x < n) : x / blockSize n parts < parts := by
  rw [Nat.div_lt_iff_lt_mul (blockSize_pos hparts (by omega))]
  exact Nat.lt_of_lt_of_le hx (le_mul_blockSize hparts)

/-- A number is in the block that its quotient names. -/
theorem mem_block_iff (hparts : 0 < parts) :
    (i * blockSize n parts ≤ x ∧ x < i * blockSize n parts + blockLen n parts i) ↔
      x < n ∧ x / blockSize n parts = i := by
  by_cases hn : n = 0
  · subst hn
    simp [blockLen]
  · have hpos := blockSize_pos hparts (Nat.pos_of_ne_zero hn)
    rw [Nat.div_eq_iff hpos]
    unfold blockLen
    omega

/-- The blocks one behind another, up to the `k`-th. -/
theorem length_flatMap_blocks (n parts : Nat) {α : Type*} (f : Nat → Nat → α) (k : Nat) :
    ((List.range k).flatMap fun i => (List.range (blockLen n parts i)).map (f i)).length =
      min (k * blockSize n parts) n := by
  induction k with
  | zero => simp
  | succ k ih =>
    rw [List.range_succ, List.flatMap_append, List.length_append, ih, Nat.succ_mul]
    simp only [List.flatMap_cons, List.flatMap_nil, List.append_nil, List.length_map,
      List.length_range, blockLen]
    omega

theorem getElem?_flatMap_blocks {α : Type*} (f : Nat → Nat → α) {k : Nat} (hx : x < n)
    (hk : x < k * blockSize n parts) :
    ((List.range k).flatMap fun i => (List.range (blockLen n parts i)).map (f i))[x]? =
      some (f (x / blockSize n parts) (x % blockSize n parts)) := by
  induction k with
  | zero => simp at hk
  | succ k ih =>
    rw [List.range_succ, List.flatMap_append]
    have hlen := length_flatMap_blocks n parts f k
    by_cases hlt : x < k * blockSize n parts
    · rw [List.getElem?_append_left (by omega), ih hlt]
    · have hdiv : x / blockSize n parts = k := Nat.div_eq_of_lt_le (by omega) hk
      have hmod := Nat.div_add_mod x (blockSize n parts)
      rw [hdiv, Nat.mul_comm] at hmod
      have hpos : x - min (k * blockSize n parts) n = x % blockSize n parts := by omega
      have hin : x % blockSize n parts < blockLen n parts k := by
        rw [Nat.succ_mul] at hk
        unfold blockLen
        omega
      rw [List.getElem?_append_right (by omega), hlen, hpos, hdiv]
      simp [hin]

end FlashNext
