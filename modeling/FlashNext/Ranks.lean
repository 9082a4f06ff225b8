import Mathlib.Algebra.Order.BigOperators.Group.Finset

/-!
# FlashNext.Ranks

Ranks that run one program over files they share, and meet in collectives.

Between two collectives every rank acts by itself, in any interleaving with the others.  A
collective waits for all of them and then changes all their states at once.  `Run k s s'` is
a run of `k` steps.

* `Run.invariant` — what every step keeps holds in every state of a run;
* `Run.length_le` — a run has no more steps than the ranks together have work to do.
-/

namespace FlashNext

universe u v w

/-- What one rank may do on its own, and what all may do together. -/
structure Ranks (ι : Type u) (S : Type v) (G : Type w) where
  act : ι → S → G → S → G → Prop
  meet : (ι → S) → (ι → S) → Prop

namespace Ranks

/-- The states of the ranks, and what they share. -/
structure State (ι : Type u) (S : Type v) (G : Type w) where
  rank : ι → S
  shared : G

variable {ι : Type u} {S : Type v} {G : Type w} [DecidableEq ι]

inductive Step (P : Ranks ι S G) : State ι S G → State ι S G → Prop
  | act {s : State ι S G} (i : ι) {l : S} {g : G} (h : P.act i (s.rank i) s.shared l g) :
      Step P s ⟨Function.update s.rank i l, g⟩
  | meet {s : State ι S G} {l : ι → S} (h : P.meet s.rank l) : Step P s ⟨l, s.shared⟩

/-- A run of so many steps. -/
inductive Run (P : Ranks ι S G) (s : State ι S G) : Nat → State ι S G → Prop
  | refl : Run P s 0 s
  | tail {k : Nat} {s' s'' : State ι S G} (h : Run P s k s') (hstep : Step P s' s'') :
      Run P s (k + 1) s''

/-- No step is possible. -/
def Stuck (P : Ranks ι S G) (s : State ι S G) : Prop := ∀ s', ¬ Step P s s'

variable {P : Ranks ι S G} {s s' : State ι S G} {I : State ι S G → Prop} {k : Nat}

/-- What every step keeps holds in every state of a run. -/
theorem Run.invariant (h : Run P s k s') (hs : I s) (hstep : ∀ {s s'}, I s → Step P s s' → I s') :
    I s' := by
  induction h with
  | refl => exact hs
  | tail _ hlast ih => exact hstep ih hlast

section work

variable [Fintype ι] {work : S → Nat}

/-- A step takes work off if it gets the ranks on that it moves. -/
theorem Step.work_lt [Nonempty ι] (h : Step P s s')
    (hact : ∀ {i l g}, P.act i (s.rank i) s.shared l g → work l < work (s.rank i))
    (hmeet : ∀ {l}, P.meet s.rank l → ∀ i, work (l i) < work (s.rank i)) :
    ∑ i, work (s'.rank i) < ∑ i, work (s.rank i) := by
  cases h with
  | act i h =>
    have hlt := hact h
    apply Finset.sum_lt_sum
    · intro j _
      by_cases hj : j = i
      · subst hj
        simpa using hlt.le
      · simp [hj]
    · exact ⟨i, Finset.mem_univ i, by simpa using hlt⟩
  | meet h => exact Finset.sum_lt_sum_of_nonempty Finset.univ_nonempty fun i _ => hmeet h i

/-- A run has no more steps than there is work, when every step takes work off. -/
theorem Run.length_le (h : Run P s k s') (hs : I s) (hstep : ∀ {s s'}, I s → Step P s s' → I s')
    (hwork : ∀ {s s'}, I s → Step P s s' → ∑ i, work (s'.rank i) < ∑ i, work (s.rank i)) :
    k + ∑ i, work (s'.rank i) ≤ ∑ i, work (s.rank i) := by
  induction h with
  | refl => simp
  | tail hrun hlast ih =>
    have hlt := hwork (hrun.invariant hs hstep) hlast
    omega

end work

end Ranks

end FlashNext
