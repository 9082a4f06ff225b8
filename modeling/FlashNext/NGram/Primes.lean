import FlashNext.StrongTest
import Mathlib.NumberTheory.PrimeCounting
import Mathlib.Tactic.NormNum.Prime

/-!
# FlashNext.NGram.Primes

`_is_prime_64`, `_nth_prime_after` and the head sizes of `_make_vocab_layout`.

The test never rejects a prime (`isPrime64_of_prime`), so the search for the next
accepted number ends, and `searchPrime` is a function.  Where the test accepts primes
only, the search finds the next prime, the rounds count them off
(`nthPrimeAfter_eq_nth`), and the heads taken layer by layer get consecutive primes.
-/

namespace FlashNext

open Nat (nth primeCounting)

/-! ## the test -/

/-- `while exponent % 2 == 0`, at most as many times as the first argument says: the odd
part and the number of halvings. -/
def splitTwos : Nat → Nat → Nat → Nat × Nat
  | 0, exponent, shifts => (exponent, shifts)
  | fuel + 1, exponent, shifts =>
    if exponent % 2 = 0 then splitTwos fuel (exponent / 2) (shifts + 1) else (exponent, shifts)

/-- The divisors that are tried first. -/
def trialPrimes : List Nat := [2, 3, 5, 7, 11, 13, 17, 19, 23, 29, 31, 37]

/-- The bases of the strong test. -/
def strongBases : List Nat := [2, 325, 9375, 28178, 450775, 9780504, 1795265022]

/-- The loop body over the bases: whether the base does not show that the number is
composite. -/
def passesBase (value exponent shifts base : Nat) : Bool :=
  if base % value = 0 then true
  else
    let witness := powMod base exponent value
    if witness = 1 ∨ witness = value - 1 then true
    else hitsNegOne value (shifts - 1) witness

/-- `_is_prime_64` -/
def isPrime64 (value : Nat) : Bool :=
  if value < 2 then false
  else match trialPrimes.find? (value % · = 0) with
    | some prime => value = prime
    | none =>
      let (exponent, shifts) := splitTwos (value - 1) (value - 1) 0
      strongBases.all (passesBase value exponent shifts)

theorem splitTwos_of_even {e : Nat} (heven : e % 2 = 0) (fuel s : Nat) :
    splitTwos (fuel + 1) e s = splitTwos fuel (e / 2) (s + 1) :=
  if_pos heven

theorem splitTwos_of_odd {e : Nat} (hodd : ¬ e % 2 = 0) (fuel s : Nat) :
    splitTwos (fuel + 1) e s = (e, s) :=
  if_neg hodd

/-- The loop takes all factors two out of a positive number. -/
theorem splitTwos_spec {fuel e s : Nat} (he : 0 < e) (hfuel : e ≤ fuel) :
    e * 2 ^ s = (splitTwos fuel e s).1 * 2 ^ (splitTwos fuel e s).2 := by
  induction fuel generalizing e s with
  | zero => omega
  | succ fuel ih =>
    by_cases heven : e % 2 = 0
    · rw [splitTwos_of_even heven, ← ih (by omega) (by omega), pow_succ, mul_comm (2 ^ s),
        ← mul_assoc, show e / 2 * 2 = e by omega]
    · rw [splitTwos_of_odd heven]

/-- The loop leaves an odd number. -/
theorem splitTwos_odd {fuel e s : Nat} (he : 0 < e) (hfuel : e ≤ fuel) :
    (splitTwos fuel e s).1 % 2 = 1 := by
  induction fuel generalizing e s with
  | zero => omega
  | succ fuel ih =>
    by_cases heven : e % 2 = 0
    · rw [splitTwos_of_even heven]
      exact ih (by omega) (by omega)
    · rw [splitTwos_of_odd heven]
      exact Nat.mod_two_ne_zero.1 heven

/-- The loop ends by itself within as many halvings as the number says. -/
theorem splitTwos_of_le {fuel fuel' e s : Nat} (he : 0 < e) (h : e ≤ fuel) (h' : e ≤ fuel') :
    splitTwos fuel e s = splitTwos fuel' e s := by
  induction fuel generalizing fuel' e s with
  | zero => omega
  | succ fuel ih =>
    obtain ⟨fuel', rfl⟩ : ∃ n, fuel' = n + 1 := ⟨fuel' - 1, by omega⟩
    by_cases heven : e % 2 = 0
    · rw [splitTwos_of_even heven, splitTwos_of_even heven]
      exact ih (by omega) (by omega) (by omega)
    · rw [splitTwos_of_odd heven, splitTwos_of_odd heven]

/-- No base shows a prime to be composite. -/
theorem passesBase_of_prime {p d s : Nat} (hp : p.Prime) (hsd : p - 1 = 2 ^ s * d) (a : Nat) :
    passesBase p d s a = true := by
  rw [passesBase]
  split
  · rfl
  · next ha =>
    rw [← Nat.dvd_iff_mod_eq_zero] at ha
    dsimp only
    split
    · rfl
    · next hw =>
      rw [powMod_eq, not_or] at hw
      rcases strong_of_prime hp ha hsd with hone | ⟨r, hr, hneg⟩
      · exact absurd hone hw.1
      · have hpos : 0 < r := by
          rcases Nat.eq_zero_or_pos r with rfl | hpos
          · exact absurd (by simpa using hneg) hw.2
          · exact hpos
        rw [powMod_eq]
        refine hitsNegOne_of_pow hpos (by omega) ?_
        rwa [← Nat.pow_mod]

/-- The test accepts every prime. -/
theorem isPrime64_of_prime {p : Nat} (hp : p.Prime) : isPrime64 p = true := by
  have htwo := hp.two_le
  rw [isPrime64, if_neg (by omega)]
  rcases hfind : trialPrimes.find? (p % · = 0) with _ | q
  · have hsplit := splitTwos_spec (s := 0) (show 0 < p - 1 by omega) le_rfl
    simp only [List.all_eq_true]
    intro a _
    exact passesBase_of_prime hp (by rw [mul_comm, ← hsplit]; simp) a
  · have hq : ∀ q ∈ trialPrimes, q ≠ 1 := by decide
    have hdvd : q ∣ p := Nat.dvd_of_mod_eq_zero (by simpa using List.find?_some hfind)
    have := (Nat.dvd_prime hp).1 hdvd
    simpa [eq_comm] using this.resolve_left (hq q (List.mem_of_find?_eq_some hfind))

/-- **No prime is rejected**, of whatever size, and the halving loop splits its predecessor: however
many rounds it may take from `p - 1` on, it ends with the same odd part and power of two. -/
theorem prime_accepted {p : Nat} (hp : p.Prime) :
    isPrime64 p = true ∧ ∃ exponent shifts, exponent % 2 = 1 ∧ exponent * 2 ^ shifts = p - 1 ∧
      ∀ fuel, p - 1 ≤ fuel → splitTwos fuel (p - 1) 0 = (exponent, shifts) := by
  have htwo := hp.two_le
  have hpos : 0 < p - 1 := by omega
  have hsplit := splitTwos_spec (s := 0) hpos le_rfl
  refine ⟨isPrime64_of_prime hp, (splitTwos (p - 1) (p - 1) 0).1, (splitTwos (p - 1) (p - 1) 0).2,
    splitTwos_odd hpos le_rfl, ?_, ?_⟩
  · rw [← hsplit, pow_zero, mul_one]
  · intro fuel hfuel
    exact splitTwos_of_le hpos hfuel le_rfl

theorem prime_accepted_forty_one :
    isPrime64 41 = true ∧ ∃ exponent shifts, exponent % 2 = 1 ∧ exponent * 2 ^ shifts = 41 - 1 ∧
      ∀ fuel, 41 - 1 ≤ fuel → splitTwos fuel (41 - 1) 0 = (exponent, shifts) :=
  prime_accepted (by norm_num)

/-! ## the search -/

/-- The least prime from a number on. -/
def primeFrom (n : Nat) : Nat := Nat.find (Nat.exists_infinite_primes n)

theorem primeFrom_prime (n : Nat) : (primeFrom n).Prime :=
  (Nat.find_spec (Nat.exists_infinite_primes n)).2

theorem le_primeFrom (n : Nat) : n ≤ primeFrom n :=
  (Nat.find_spec (Nat.exists_infinite_primes n)).1

theorem primeFrom_le {n p : Nat} (hp : p.Prime) (h : n ≤ p) : primeFrom n ≤ p :=
  Nat.find_min' _ ⟨h, hp⟩

/-- From an odd number that is no prime the next prime is at least two away. -/
theorem add_two_le_primeFrom {c : Nat} (hodd : c % 2 = 1) (hc : ¬ c.Prime) (hone : c ≠ 1) :
    c + 2 ≤ primeFrom c := by
  have hp := primeFrom_prime c
  have hle := le_primeFrom c
  have hne : primeFrom c ≠ c := fun heq => hc (heq ▸ hp)
  rcases hp.eq_two_or_odd with htwo | hodd' <;> omega

/-- A rejected number is two closer to a prime that is accepted. -/
theorem search_decreases {c : Nat} (hodd : c % 2 = 1) (h : ¬ isPrime64 c = true) :
    primeFrom (c + 2) - (c + 2) < primeFrom c - c := by
  have hc : ¬ c.Prime := fun hp => h (isPrime64_of_prime hp)
  by_cases hone : c = 1
  · subst hone
    have htwo := primeFrom_le Nat.prime_three (show 1 + 2 ≤ 3 by omega)
    have hgt := (primeFrom_prime 1).two_le
    omega
  · have hle := add_two_le_primeFrom hodd hc hone
    have := primeFrom_le (primeFrom_prime c) hle
    omega

/-- `while not cls._is_prime_64(candidate): candidate += 2` -/
def searchPrime (candidate : Nat) (hodd : candidate % 2 = 1) : Nat :=
  if isPrime64 candidate = true then candidate else searchPrime (candidate + 2) (by omega)
termination_by primeFrom candidate - candidate
decreasing_by exact search_decreases hodd ‹_›

/-- A round of `_nth_prime_after`. -/
def nextPrime (prime : Int) : Int :=
  let candidate := prime + 1
  if h : candidate ≤ 2 then 2
  else if heven : candidate % 2 = 0 then searchPrime (candidate + 1).toNat (by omega)
  else searchPrime candidate.toNat (by omega)

/-- `_nth_prime_after` -/
def nthPrimeAfter (start : Int) : Nat → Int
  | 0 => start
  | count + 1 => nextPrime (nthPrimeAfter start count)

theorem le_searchPrime {c : Nat} (hodd : c % 2 = 1) : c ≤ searchPrime c hodd := by
  induction c, hodd using searchPrime.induct with
  | case1 c hodd hacc => rw [searchPrime, if_pos hacc]
  | case2 c hodd hrej ih =>
    rw [searchPrime, if_neg hrej]
    omega

/-- From an even number the search starts at the next one. -/
theorem nextPrime_sub_one {c : Nat} (hodd : c % 2 = 1) (hc : 3 ≤ c) :
    nextPrime ((c : Int) - 1) = searchPrime c hodd := by
  have hcast : ((c : Int) - 1 + 1).toNat = c := by omega
  have hsmall : ¬ (c : Int) - 1 + 1 ≤ 2 := by omega
  have heven : ¬ ((c : Int) - 1 + 1) % 2 = 0 := by omega
  simp only [nextPrime, hsmall, heven, hcast, dite_false]

/-- From an odd number the search starts two further. -/
theorem nextPrime_sub_two {c : Nat} (hodd : c % 2 = 1) (hc : 5 ≤ c) :
    nextPrime ((c : Int) - 2) = searchPrime c hodd := by
  have hcast : ((c : Int) - 2 + 1 + 1).toNat = c := by omega
  have hsmall : ¬ (c : Int) - 2 + 1 ≤ 2 := by omega
  have heven : ((c : Int) - 2 + 1) % 2 = 0 := by omega
  simp only [nextPrime, hsmall, heven, hcast, dite_true, dite_false]

/-- Every size is at least two. -/
theorem two_le_nextPrime (x : Int) : 2 ≤ nextPrime x := by
  by_cases hsmall : x + 1 ≤ 2
  · simp [nextPrime, hsmall]
  · by_cases heven : (x + 1) % 2 = 0
    · have := le_searchPrime (c := (x + 1 + 1).toNat) (by omega)
      simp only [nextPrime, hsmall, heven, dite_true, dite_false]
      omega
    · have := le_searchPrime (c := (x + 1).toNat) (by omega)
      simp only [nextPrime, hsmall, heven, dite_false]
      omega

/-! ## counting primes off -/

theorem primeFrom_eq_nth (n : Nat) : primeFrom n = nth Nat.Prime (Nat.count Nat.Prime n) := by
  apply le_antisymm
  · exact primeFrom_le (Nat.prime_nth_prime _) (Nat.le_nth_count Nat.infinite_setOfPred_prime n)
  · rw [← Nat.nth_count (primeFrom_prime n)]
    exact Nat.nth_monotone Nat.infinite_setOfPred_prime (Nat.count_monotone _ (le_primeFrom n))

/-- Nothing between a number and the next prime is prime. -/
theorem primeFrom_succ {n : Nat} (h : ¬ n.Prime) : primeFrom (n + 1) = primeFrom n := by
  apply le_antisymm
  · have hne : primeFrom n ≠ n := fun heq => h (heq ▸ primeFrom_prime n)
    have := le_primeFrom n
    exact primeFrom_le (primeFrom_prime n) (by omega)
  · have := le_primeFrom (n + 1)
    exact primeFrom_le (primeFrom_prime _) (by omega)

section accepted

variable {B : Nat} (hpub : ∀ n < B, isPrime64 n = true → n.Prime)
include hpub

/-- Where only primes are accepted the search ends at the next prime. -/
theorem searchPrime_eq {c : Nat} (hodd : c % 2 = 1) (hone : c ≠ 1) (hB : primeFrom c < B) :
    searchPrime c hodd = primeFrom c := by
  induction c, hodd using searchPrime.induct with
  | case1 c hodd hacc =>
    have hp := hpub c ((le_primeFrom c).trans_lt hB) hacc
    rw [searchPrime, if_pos hacc]
    exact le_antisymm (le_primeFrom c) (primeFrom_le hp le_rfl)
  | case2 c hodd hrej ih =>
    have hc : ¬ c.Prime := fun hp => hrej (isPrime64_of_prime hp)
    have heven : ¬ (c + 1).Prime := by
      intro hp
      rcases hp.eq_two_or_odd with htwo | hodd' <;> omega
    have hnext : primeFrom (c + 2) = primeFrom c :=
      (primeFrom_succ heven).trans (primeFrom_succ hc)
    rw [searchPrime, if_neg hrej, ih (by omega) (hnext ▸ hB), hnext]

/-- A round finds the least prime greater than a number. -/
theorem nextPrime_eq {x : Int} (hB : nth Nat.Prime (primeCounting x.toNat) < B) :
    nextPrime x = nth Nat.Prime (primeCounting x.toNat) := by
  by_cases hsmall : x + 1 ≤ 2
  · have hzero : primeCounting x.toNat = 0 := Nat.primeCounting_eq_zero_iff.2 (by omega)
    simp [nextPrime, hsmall, hzero]
  · obtain ⟨n, rfl⟩ : ∃ n : Nat, x = n := ⟨x.toNat, by omega⟩
    have hnth : nth Nat.Prime (primeCounting n) = primeFrom (n + 1) := (primeFrom_eq_nth _).symm
    rw [Int.toNat_natCast, hnth] at hB ⊢
    by_cases heven : (n + 1) % 2 = 0
    · have hnp : ¬ (n + 1).Prime := by
        intro hp
        rcases hp.eq_two_or_odd with htwo | hodd <;> omega
      have hstart : (n : Int) = (n + 2 : Nat) - 2 := by omega
      rw [hstart, nextPrime_sub_two (by omega) (by omega),
        searchPrime_eq hpub _ (by omega) (by rwa [primeFrom_succ hnp]), primeFrom_succ hnp]
    · have hstart : (n : Int) = (n + 1 : Nat) - 1 := by omega
      rw [hstart, nextPrime_sub_one (by omega) (by omega), searchPrime_eq hpub _ (by omega) hB]

/-- The rounds count the primes after a number off. -/
theorem nthPrimeAfter_eq_nth {start : Int} {count : Nat}
    (hB : nth Nat.Prime (primeCounting start.toNat + count) < B) :
    nthPrimeAfter start (count + 1) = nth Nat.Prime (primeCounting start.toNat + count) := by
  induction count with
  | zero => exact nextPrime_eq hpub hB
  | succ count ih =>
    have hlt : nth Nat.Prime (primeCounting start.toNat + count) <
        nth Nat.Prime (primeCounting start.toNat + (count + 1)) :=
      Nat.nth_strictMono Nat.infinite_setOfPred_prime (by omega)
    have hcount : primeCounting (nth Nat.Prime (primeCounting start.toNat + count)) =
        primeCounting start.toNat + (count + 1) :=
      Nat.count_nth_succ_of_infinite Nat.infinite_setOfPred_prime _
    rw [nthPrimeAfter, ih (hlt.trans hB)]
    rw [← hcount] at hB ⊢
    exact nextPrime_eq hpub hB

end accepted

/-! ## head sizes -/

/-- The loop body over the heads of a layer: sizes, offsets and the next offset. -/
def layoutStep (ngramVocabSizeBase : Int) (ngramHeads pleDenseLayerId : Nat)
    (st : List Int × List Int × Int) (localHead : Nat) : List Int × List Int × Int :=
  let globalHead := pleDenseLayerId * ngramHeads + localHead
  let size := nthPrimeAfter (ngramVocabSizeBase - 1) (globalHead + 1)
  (st.1 ++ [size], st.2.1 ++ [st.2.2], st.2.2 + size)

/-- `_make_vocab_layout` -/
def makeVocabLayout (ngramVocabSizeBase : Int) (ngramHeads pleDenseLayerId : Nat) :
    List Int × List Int × Int :=
  (List.range ngramHeads).foldl (layoutStep ngramVocabSizeBase ngramHeads pleDenseLayerId)
    ([], [], 0)

/-- The size of a head. -/
def headSize (base : Int) (heads layer h : Nat) : Int :=
  nthPrimeAfter (base - 1) (layer * heads + h + 1)

/-- The offset of a head: the sizes of the heads before it. -/
def headOffset (base : Int) (heads layer h : Nat) : Int :=
  ((List.range h).map (headSize base heads layer)).sum

theorem headOffset_succ (base : Int) (heads layer h : Nat) :
    headOffset base heads layer (h + 1) =
      headOffset base heads layer h + headSize base heads layer h := by
  simp [headOffset, List.range_succ]

theorem two_le_headSize (base : Int) (heads layer h : Nat) : 2 ≤ headSize base heads layer h :=
  two_le_nextPrime _

theorem headOffset_mono {base : Int} {heads layer h h' : Nat} (hle : h ≤ h') :
    headOffset base heads layer h ≤ headOffset base heads layer h' := by
  induction h', hle using Nat.le_induction with
  | base => rfl
  | succ h' _ ih =>
    have := two_le_headSize base heads layer h'
    rw [headOffset_succ]
    omega

/-- A row of the table is in the rows of a head. -/
theorem exists_head {base : Int} {heads layer k : Nat} {x : Int} (hx : 0 ≤ x)
    (hk : x < headOffset base heads layer k) :
    ∃ h < k, headOffset base heads layer h ≤ x ∧ x < headOffset base heads layer (h + 1) := by
  induction k with
  | zero =>
    have hzero : headOffset base heads layer 0 = 0 := rfl
    omega
  | succ k ih =>
    by_cases hlt : x < headOffset base heads layer k
    · obtain ⟨h, hh, hx⟩ := ih hlt
      exact ⟨h, by omega, hx⟩
    · exact ⟨k, by omega, by omega, hk⟩

/-- Two heads have no row in common. -/
theorem head_unique {base : Int} {heads layer h h' : Nat} {x : Int}
    (hx : headOffset base heads layer h ≤ x) (hx' : x < headOffset base heads layer (h + 1))
    (hy : headOffset base heads layer h' ≤ x) (hy' : x < headOffset base heads layer (h' + 1)) :
    h = h' := by
  rcases Nat.lt_trichotomy h h' with hlt | heq | hgt
  · have hmono : headOffset base heads layer (h + 1) ≤ _ := headOffset_mono hlt
    omega
  · exact heq
  · have hmono : headOffset base heads layer (h' + 1) ≤ _ := headOffset_mono hgt
    omega

/-- The layout lists the sizes and offsets of the heads, and the sum of the sizes. -/
theorem makeVocabLayout_eq (base : Int) (heads layer : Nat) :
    makeVocabLayout base heads layer =
      ((List.range heads).map (headSize base heads layer),
        (List.range heads).map (headOffset base heads layer),
        headOffset base heads layer heads) := by
  have key : ∀ k, (List.range k).foldl (layoutStep base heads layer) ([], [], 0) =
      ((List.range k).map (headSize base heads layer),
        (List.range k).map (headOffset base heads layer), headOffset base heads layer k) := by
    intro k
    induction k with
    | zero => rfl
    | succ k ih =>
      rw [List.range_succ, List.foldl_append, ih, headOffset_succ]
      simp [layoutStep, headSize]
  exact key heads

/-- The heads taken in the order (layer, head), by their global number. -/
theorem flatMap_range_heads {α : Type*} (f : Nat → α) (layers heads : Nat) :
    ((List.range layers).flatMap fun layer =>
      (List.range heads).map fun h => f (layer * heads + h)) =
      (List.range (layers * heads)).map f := by
  induction layers with
  | zero => simp
  | succ layers ih =>
    rw [List.range_succ, List.flatMap_append, ih, Nat.succ_mul, List.range_add]
    simp

/-- Below a bound under which only primes are accepted (the published one is `2 ^ 64`), the
search returns the primes after its start one by one, and the heads of all layers have
consecutive primes from the base on, no two the same. -/
theorem head_moduli_consecutive {B : Nat} (hpub : ∀ n < B, isPrime64 n = true → n.Prime) :
    (∀ (start : Int) (count : Nat), nth Nat.Prime (primeCounting start.toNat + count) < B →
      nthPrimeAfter start (count + 1) = nth Nat.Prime (primeCounting start.toNat + count)) ∧
    ∀ (base : Int) (heads layers : Nat),
      (∀ g < layers * heads, nth Nat.Prime (primeCounting (base - 1).toNat + g) < B) →
      ((List.range layers).flatMap fun layer => (makeVocabLayout base heads layer).1) =
          (List.range (layers * heads)).map
            (fun g => (nth Nat.Prime (primeCounting (base - 1).toNat + g) : Int)) ∧
        (∀ g < layers * heads, base ≤ nth Nat.Prime (primeCounting (base - 1).toNat + g)) ∧
        ((List.range layers).flatMap fun layer => (makeVocabLayout base heads layer).1).Nodup := by
  refine ⟨fun start count hB => nthPrimeAfter_eq_nth hpub hB, fun base heads layers hB => ?_⟩
  have hsizes : ((List.range layers).flatMap fun layer => (makeVocabLayout base heads layer).1) =
      (List.range (layers * heads)).map
        (fun g => (nth Nat.Prime (primeCounting (base - 1).toNat + g) : Int)) := by
    simp only [makeVocabLayout_eq]
    refine (flatMap_range_heads (fun g => nthPrimeAfter (base - 1) (g + 1)) layers heads).trans ?_
    apply List.map_congr_left
    intro g hg
    exact nthPrimeAfter_eq_nth hpub (hB g (List.mem_range.mp hg))
  refine ⟨hsizes, fun g _ => ?_, hsizes ▸ ?_⟩
  · have hlt : (base - 1).toNat + 1 ≤ nth Nat.Prime (primeCounting (base - 1).toNat + g) :=
      (Nat.count_le_iff_le_nth Nat.infinite_setOfPred_prime).1 (Nat.le_add_right _ g)
    omega
  · refine List.nodup_range.map_on ?_
    intro a _ b _ h
    have := Nat.nth_injective Nat.infinite_setOfPred_prime (Int.natCast_inj.mp h)
    omega

theorem head_moduli_consecutive_below_twelve :
    nthPrimeAfter (-3) 3 = 5 ∧
      ((List.range 2).flatMap fun layer => (makeVocabLayout 2 2 layer).1) = [2, 3, 5, 7] ∧
      ((List.range 2).flatMap fun layer => (makeVocabLayout 2 2 layer).1).Nodup := by
  have hpub : ∀ n < 12, isPrime64 n = true → n.Prime := by
    have hlist : ∀ n < 12, isPrime64 n = true → n ∈ [2, 3, 5, 7, 11] := by decide
    have hprime : ∀ p ∈ [2, 3, 5, 7, 11], p.Prime := by norm_num
    exact fun n hn h => hprime n (hlist n hn h)
  have hcount : primeCounting 1 = 0 := Nat.primeCounting_one
  have hbound : ∀ g < 4, nth Nat.Prime g < 12 := by
    intro g hg
    interval_cases g <;> simp
  obtain ⟨hsearch, hlayout⟩ := head_moduli_consecutive hpub
  obtain ⟨hsizes, -, hnodup⟩ := hlayout 2 2 2 (by simpa [hcount] using hbound)
  refine ⟨?_, ?_, hnodup⟩
  · simpa using hsearch (-3) 2 (by simp)
  · rw [hsizes]
    simp [hcount, List.range_succ]

end FlashNext
