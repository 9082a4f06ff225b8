import Mathlib.FieldTheory.Finite.Basic

/-!
# FlashNext.StrongTest

The strong test for primes, and why no prime fails it.

For a prime `p` with `p - 1 = 2 ^ s * d` and a base `a` that `p` does not divide, the
powers `a ^ d`, `a ^ (2 * d)`, …, `a ^ (2 ^ s * d)` are squares of one another and end
in 1.  In a field only 1 and -1 square to 1, so either the first is 1 or one before the
last is -1 (`strong_of_prime`).

`powMod` computes the powers by squaring; `hitsNegOne` squares a number up to a number
of times and looks for -1.
-/

namespace FlashNext

/-! ## modular powers -/

/-- `b ^ e % m` by squaring, for exponents of at most as many bits as the first
argument. -/
def powModBits : Nat → Nat → Nat → Nat → Nat
  | 0, _, _, m => 1 % m
  | bits + 1, b, e, m =>
    let half := powModBits bits (b * b % m) (e / 2) m
    if e % 2 = 1 then b * half % m else half

/-- `pow(b, e, m)` -/
def powMod (b e m : Nat) : Nat := powModBits (e.log2 + 1) b e m

theorem powModBits_eq {bits e : Nat} (he : e < 2 ^ bits) (b m : Nat) :
    powModBits bits b e m = b ^ e % m := by
  induction bits generalizing b e with
  | zero =>
    obtain rfl : e = 0 := by simpa using he
    simp [powModBits]
  | succ bits ih =>
    have hhalf : e / 2 < 2 ^ bits := by omega
    have hsq : (b * b % m) ^ (e / 2) % m = b ^ (2 * (e / 2)) % m := by
      rw [← Nat.pow_mod, pow_mul, sq]
    rw [powModBits, ih hhalf, hsq]
    by_cases hodd : e % 2 = 1
    · rw [if_pos hodd, Nat.mul_mod_mod, ← pow_succ', show 2 * (e / 2) + 1 = e by omega]
    · rw [if_neg hodd, show 2 * (e / 2) = e by omega]

/-- The squaring method computes the power. -/
theorem powMod_eq (b e m : Nat) : powMod b e m = b ^ e % m :=
  powModBits_eq Nat.lt_log2_self b m

/-! ## the test -/

/-- Square up to `k` times and look for -1. -/
def hitsNegOne (m : Nat) : Nat → Nat → Bool
  | 0, _ => false
  | k + 1, w =>
    let w := powMod w 2 m
    if w = m - 1 then true else hitsNegOne m k w

/-- A square that is -1 is found. -/
theorem hitsNegOne_of_pow {m k w i : Nat} (hi : 0 < i) (hik : i ≤ k)
    (h : w ^ 2 ^ i % m = m - 1) : hitsNegOne m k w = true := by
  induction k generalizing w i with
  | zero => omega
  | succ k ih =>
    rw [hitsNegOne]
    split
    · rfl
    · next hne =>
      rw [powMod_eq] at hne ⊢
      obtain ⟨i, rfl⟩ : ∃ j, i = j + 1 := ⟨i - 1, by omega⟩
      have hpos : 0 < i := by
        rcases Nat.eq_zero_or_pos i with rfl | hpos
        · exact absurd (by simpa using h) hne
        · exact hpos
      refine ih hpos (by omega) ?_
      rw [← Nat.pow_mod, ← pow_mul, ← pow_succ']
      exact h

/-- Repeated squares that end in 1 start with 1 or pass through -1. -/
theorem eq_one_or_pow_eq_neg_one {R : Type*} [Ring R] [NoZeroDivisors R] {s : Nat} {x : R}
    (h : x ^ 2 ^ s = 1) : x = 1 ∨ ∃ r < s, x ^ 2 ^ r = -1 := by
  induction s with
  | zero => simpa using h
  | succ s ih =>
    rw [pow_succ, pow_mul, sq] at h
    rcases mul_self_eq_one_iff.mp h with hone | hneg
    · rcases ih hone with hx | ⟨r, hr, hx⟩
      · exact .inl hx
      · exact .inr ⟨r, by omega, hx⟩
    · exact .inr ⟨s, by omega, hneg⟩

/-- The powers of a base up to `p - 1`: the first is 1, or one before the last is -1. -/
theorem strong_of_prime {p : Nat} (hp : p.Prime) {a s d : Nat} (ha : ¬ p ∣ a)
    (hsd : p - 1 = 2 ^ s * d) :
    a ^ d % p = 1 ∨ ∃ r < s, (a ^ d) ^ 2 ^ r % p = p - 1 := by
  have : Fact p.Prime := ⟨hp⟩
  have htwo := hp.two_le
  have ha' : (a : ZMod p) ≠ 0 := by rwa [ne_eq, ZMod.natCast_eq_zero_iff]
  have hlast : ((a : ZMod p) ^ d) ^ 2 ^ s = 1 := by
    rw [← pow_mul, mul_comm, ← hsd]
    exact ZMod.pow_card_sub_one_eq_one ha'
  -- residues below `p` are told apart in `ZMod p`
  have hres : ∀ {n v : Nat}, v < p → (n : ZMod p) = (v : ZMod p) → n % p = v := by
    intro n v hv h
    rw [ZMod.natCast_eq_natCast_iff'] at h
    rw [h, Nat.mod_eq_of_lt hv]
  rcases eq_one_or_pow_eq_neg_one hlast with hone | ⟨r, hr, hneg⟩
  · left
    exact hres htwo (by simpa using hone)
  · right
    refine ⟨r, hr, hres (by omega) ?_⟩
    have hcast : ((p - 1 : Nat) : ZMod p) = -1 := by
      simp [Nat.cast_pred hp.pos]
    rw [hcast]
    simpa using hneg

end FlashNext
