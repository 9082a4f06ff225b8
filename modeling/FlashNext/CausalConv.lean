import FlashNext.Window

/-!
# FlashNext.CausalConv

Causal dilated convolution of a sequence of rows, continued from the window of
past rows.

`causalConv` is the definition on a whole sequence: tap `k` of a kernel of size
`K` and dilation `d` reads the row `(K - 1 - k) * d` places back, and zero
before the start.  `conv1d` is the unpadded form that slides the kernel over a
stretch of rows.  A sequence is continued from the window of its last
`S = (K - 1) * d` rows: `conv1d_window_append` says that sliding over the window
followed by new rows gives the causal convolution of the whole sequence there.

No law of addition is used: the taps are accumulated in one order throughout.
-/

namespace FlashNext

variable {ι α : Type*} [Zero α] [Add α] [Mul α]

/-- Slide a kernel of size `K` and dilation `d` over `h`, channel by channel. -/
def conv1d (K d : Nat) (w h : ι → Nat → α) (t : Nat) : ι → α := fun c =>
  ((List.range K).map fun k => w c k * h c (t + k * d)).sum

/-- The row `i` places before position `t`, and zero before the start. -/
def past (xs : List (ι → α)) (t i : Nat) : ι → α := if i ≤ t then xs.getD (t - i) 0 else 0

/-- Zero-padded causal dilated convolution of a whole sequence at position `t`. -/
def causalConv (K d : Nat) (w : ι → Nat → α) (xs : List (ι → α)) (t : Nat) : ι → α := fun c =>
  ((List.range K).map fun k => w c k * past xs t ((K - 1 - k) * d) c).sum

/-! ## the window -/

omit [Add α] [Mul α] in
/-- The row `i` places back, read in the padded sequence. -/
theorem getD_padded (S : Nat) (xs : List (ι → α)) {t i : Nat} (hi : i ≤ S) :
    (List.replicate S 0 ++ xs).getD (t + (S - i)) 0 = past xs t i := by
  unfold past
  split
  · next h =>
      rw [List.getD_append_right _ _ _ _ (by simp; omega), List.length_replicate]
      congr 1
      omega
  · next h =>
      rw [List.getD_append _ _ _ _ (by simp; omega)]
      simp

/-! ## sliding the kernel -/

/-- Only the columns under the taps matter. -/
theorem conv1d_congr {K d : Nat} {w h h' : ι → Nat → α} {t t' : Nat} {c : ι}
    (hh : ∀ k < K, h c (t + k * d) = h' c (t' + k * d)) :
    conv1d K d w h t c = conv1d K d w h' t' c := by
  unfold conv1d
  congr 1
  apply List.map_congr_left
  intro k hk
  rw [hh k (List.mem_range.mp hk)]

theorem tap_le {K d k : Nat} (hk : k < K) : k * d ≤ (K - 1) * d :=
  Nat.mul_le_mul_right d (by omega)

/-- Sliding over the padded sequence is the causal convolution. -/
theorem conv1d_padded (K d : Nat) (w : ι → Nat → α) (xs : List (ι → α)) (t : Nat) :
    conv1d K d w (fun c u => (List.replicate ((K - 1) * d) 0 ++ xs).getD u 0 c) t =
      causalConv K d w xs t := by
  funext c
  unfold conv1d causalConv
  congr 1
  apply List.map_congr_left
  intro k hk
  have hk : k < K := List.mem_range.mp hk
  have hsplit : k * d = (K - 1) * d - (K - 1 - k) * d := by
    rw [← Nat.sub_mul]
    congr 1
    omega
  have hle : (K - 1 - k) * d ≤ (K - 1) * d := Nat.mul_le_mul_right d (by omega)
  beta_reduce
  rw [hsplit, getD_padded _ _ hle]

/-- Sliding over the window of `xs` followed by new rows continues the causal convolution. -/
theorem conv1d_window_append (K d : Nat) (w : ι → Nat → α) (xs ys : List (ι → α)) (t : Nat) :
    conv1d K d w (fun c u => (window 0 ((K - 1) * d) xs ++ ys).getD u 0 c) t =
      causalConv K d w (xs ++ ys) (xs.length + t) := by
  rw [← conv1d_padded]
  funext c
  apply conv1d_congr
  intro k _
  rw [window_append_eq_drop, List.getD_eq_getElem?_getD, List.getElem?_drop,
    ← List.getD_eq_getElem?_getD, Nat.add_assoc]

/-- Causality: later rows do not change the convolution. -/
theorem causalConv_append_left (K d : Nat) (w : ι → Nat → α) (xs ys : List (ι → α)) {t : Nat}
    (ht : t < xs.length) : causalConv K d w (xs ++ ys) t = causalConv K d w xs t := by
  funext c
  unfold causalConv
  congr 1
  apply List.map_congr_left
  intro k _
  have hpast : past (xs ++ ys) t ((K - 1 - k) * d) = past xs t ((K - 1 - k) * d) := by
    unfold past
    split
    · rw [List.getD_append _ _ _ _ (by omega)]
    · rfl
  rw [hpast]

end FlashNext
