import FlashNext.ShortConv.Decode
import FlashNext.ShortConv.Prefill
import FlashNext.ShortConv.Spec

/-!
# FlashNext.ShortConv.History

What a cache slot means: the window of the inputs a request has consumed.

`HoldsAt L n xs s` says that the columns of the slot `s` from `n - 1` on are the
window of the history `xs`, which is what a speculative step with `n` accepted
tokens reads; every other step reads with `n = 1`.  One step of each kernel, on
one non-NULL slot that holds `xs`,

* outputs the causal convolution of `xs` followed by its own tokens;
* leaves a slot that holds the extended history (`prefill_step`, `decode_step`),
  or, after a speculative step, holds at every `a` the history extended by the
  first `a` tokens (`spec_step`).
-/

namespace FlashNext

variable {ι α β : Type}

/-- The cache dtype represents every activation exactly. -/
def PleLayer.Exact (L : PleLayer ι α β) : Prop := ∀ v, L.ofState (L.toState v) = v

/-- The columns of the slot from `n - 1` on are the window of `xs`. -/
def HoldsAt [Zero α] (L : PleLayer ι α β) (n : Nat) (xs : List (Row ι α)) (s : Slot ι β) : Prop :=
  ∀ c, ∀ t < L.convStateLen, s c (n - 1 + t) = L.toState ((window 0 L.convStateLen xs).getD t 0 c)

/-- `silu` of the zero-padded causal dilated convolution of a whole sequence. -/
def PleLayer.causal [Zero α] [Add α] [Mul α] (L : PleLayer ι α β) (xs : List (Row ι α)) (t : Nat) :
    Row ι α :=
  fun c => L.silu (causalConv L.convKernelSize L.shortConvDilation L.convWeights xs t c)

/-- `h` is the window of `xs` followed by `ys`, as far as those reach. -/
def Continues [Zero α] (L : PleLayer ι α β) (xs ys : List (Row ι α)) (h : ι → Nat → α) : Prop :=
  ∀ c, ∀ t < L.convStateLen + ys.length, h c t = (window 0 L.convStateLen xs ++ ys).getD t 0 c

section Continues

variable [Zero α]

/-- A state that is the window of `xs`, catenated with the rows of `ys`. -/
theorem continues_catHistory (L : PleLayer ι α β) {xs ys : List (Row ι α)} {state : ι → Nat → α}
    {tokens : Nat → Row ι α}
    (hstate : ∀ c, ∀ t < L.convStateLen, state c t = (window 0 L.convStateLen xs).getD t 0 c)
    (htokens : ∀ j < ys.length, tokens j = ys.getD j 0) :
    Continues L xs ys (catHistory L.convStateLen state tokens) := by
  intro c t ht
  by_cases hS : t < L.convStateLen
  · rw [List.getD_append _ _ _ _ (by simpa using hS), ← hstate c t hS, catHistory,
      if_pos (by omega), if_pos hS]
  · rw [List.getD_append_right _ _ _ _ (by simpa using hS), length_window,
      ← htokens _ (by omega), catHistory]
    split
    · exact if_neg hS
    · next hzero =>
        have hnil : L.convStateLen = 0 := by omega
        rw [hnil, Nat.sub_zero]

/-- The window after the first `a` of the new rows is found `a` columns further on. -/
theorem Continues.window_take {L : PleLayer ι α β} {xs ys : List (Row ι α)} {h : ι → Nat → α}
    (hh : Continues L xs ys h) {a : Nat} (ha : a ≤ ys.length) {t : Nat}
    (ht : t < L.convStateLen) (c : ι) :
    h c (a + t) = (window 0 L.convStateLen (xs ++ ys.take a)).getD t 0 c := by
  have hlen : (ys.take a).length = a := by rw [List.length_take]; omega
  rw [hh c _ (by omega), getD_window, hlen]
  conv_lhs => rw [← List.take_append_drop a ys, ← List.append_assoc]
  rw [List.getD_append _ _ _ _ (by rw [List.length_append, length_window, hlen]; omega)]

variable [Add α] [Mul α]

/-- Convolving the continued window is convolving the whole sequence. -/
theorem Continues.conv_eq {L : PleLayer ι α β} {xs ys : List (Row ι α)} {h : ι → Nat → α}
    (hh : Continues L xs ys h) {j : Nat} (hj : j < ys.length) :
    L.conv h j = L.causal (xs ++ ys) (xs.length + j) := by
  funext c
  unfold PleLayer.conv PleLayer.causal
  rw [← conv1d_window_append]
  congr 1
  apply conv1d_congr
  intro k hk
  have hk : k * L.shortConvDilation ≤ L.convStateLen := tap_le hk
  exact hh c _ (by omega)

/-- Causality of the layer: later rows do not change an output. -/
theorem PleLayer.causal_append (L : PleLayer ι α β) (xs ys : List (Row ι α)) {t : Nat}
    (ht : t < xs.length) : L.causal (xs ++ ys) t = L.causal xs t := by
  funext c
  unfold PleLayer.causal
  rw [causalConv_append_left _ _ _ _ _ ht]

/-- The outputs at the rows of `ys` after the history `xs`. -/
def PleLayer.causalRows (L : PleLayer ι α β) (xs ys : List (Row ι α)) : List (Row ι α) :=
  (List.range ys.length).map fun j => L.causal (xs ++ ys) (xs.length + j)

/-- Each output row is the convolution of the history and the step's tokens up to it. -/
theorem PleLayer.causalRows_eq (L : PleLayer ι α β) (xs ys : List (Row ι α)) :
    L.causalRows xs ys =
      (List.range ys.length).map fun j => L.causal (xs ++ ys.take (j + 1)) (xs.length + j) := by
  unfold PleLayer.causalRows
  apply List.map_congr_left
  intro j hj
  have hj : j < ys.length := List.mem_range.mp hj
  conv_lhs => rw [← List.take_append_drop (j + 1) ys, ← List.append_assoc]
  rw [L.causal_append _ _ (by rw [List.length_append, List.length_take]; omega)]

/-- The outputs of two stretches are those of the stretches one after the other. -/
theorem PleLayer.causalRows_append (L : PleLayer ι α β) (xs ys zs : List (Row ι α)) :
    L.causalRows xs (ys ++ zs) = L.causalRows xs ys ++ L.causalRows (xs ++ ys) zs := by
  unfold PleLayer.causalRows
  rw [List.length_append, List.range_add, List.map_append, List.map_map]
  congr 1
  · apply List.map_congr_left
    intro j hj
    have hj : j < ys.length := List.mem_range.mp hj
    rw [← List.append_assoc, L.causal_append _ _ (by rw [List.length_append]; omega)]
  · apply List.map_congr_left
    intro j _
    rw [Function.comp_apply, List.append_assoc, List.length_append, Nat.add_assoc]

end Continues

/-! ## one step of each kernel -/

section Steps

variable [Add α] [MulZeroOneClass α] {L : PleLayer ι α β} {slot : Nat} {xs : List (Row ι α)}
  {convState : ConvState ι β}

omit [Add α] in
/-- The initial state of a step that starts from a held window, or from nothing. -/
theorem initialState_eq (hexact : L.Exact) {started : Bool} {s : Slot ι β}
    (hstart : if started then HoldsAt L 1 xs s else xs = []) {c : ι} {t : Nat}
    (ht : t < L.convStateLen) :
    (if started then L.ofState (s c t) else 0) = (window 0 L.convStateLen xs).getD t 0 c := by
  cases started with
  | false =>
      have hnil : xs = [] := by simpa using hstart
      simp [hnil, ht]
  | true =>
      have hheld : HoldsAt L 1 xs s := by simpa using hstart
      have hcol := hheld c t ht
      rw [Nat.sub_self, Nat.zero_add] at hcol
      rw [if_pos rfl, hcol, hexact]

/-- One prefill chunk on one slot. -/
theorem prefill_step (hexact : L.Exact) (hslot : slot ≠ nullBlockId) (hin : slot < convState.slots)
    {chunk : List (Row ι α)} (hne : chunk ≠ []) {maxLen : Nat} (hmax : chunk.length ≤ maxLen)
    {started : Bool}
    (hstart : if started then HoldsAt L 1 xs (convState.data slot) else xs = []) :
    ∃ data, shortConvDilatedPrefillCore L chunk [0, chunk.length] [chunk.length] maxLen 1
        chunk.length [slot] [started] convState =
          .ok (L.causalRows xs chunk, { convState with data := data }) ∧
      HoldsAt L 1 (xs ++ chunk) (data slot) := by
  have hpos : 0 < chunk.length := List.length_pos_iff.mpr hne
  have hcached : 0 < convState.slots := by omega
  let q : PrefillReq ι α := ⟨chunk, slot, started⟩
  have hhist : Continues L xs chunk (q.history L true (convState.data slot)) := by
    apply continues_catHistory
    · intro c t ht
      simp only [q, bne_iff_ne.mpr hslot, Bool.true_and, if_true]
      exact initialState_eq hexact hstart ht
    · intro j _
      rfl
  have hrun := prefillCore_single L q (hpos.trans_le hmax) hmax convState
  rw [show decide (0 < convState.slots) = true by simpa using hcached] at hrun
  refine ⟨(runAll [q.job L true] convState.data).2, hrun.trans ?_, ?_⟩
  · congr 2
    simp only [runAll, List.map_cons, List.map_nil, List.flatten_singleton, PrefillReq.job, q,
      bne_iff_ne.mpr hslot, if_true]
    apply List.map_congr_left
    intro j hj
    exact hhist.conv_eq (List.mem_range.mp hj)
  · intro c t ht
    have hwin := hhist.window_take (Nat.le_refl _) ht c
    rw [List.take_length] at hwin
    simp [runAll, PrefillReq.job, q, hslot, hpos, setCols, ht, ← hwin]

/-- One decoded token on one slot. -/
theorem decode_step (hexact : L.Exact) (hslot : slot ≠ nullBlockId) {token : Row ι α}
    {started : Bool} {flags : Option (List Bool)} (hflags : flags = some [started] ∨
      (started = true ∧ flags = none))
    (hstart : if started then HoldsAt L 1 xs (convState.data slot) else xs = []) :
    ∃ data, shortConvDilatedDecodeBatched L [token] convState [slot] flags =
        .ok (L.causalRows xs [token], { convState with data := data }) ∧
      HoldsAt L 1 (xs ++ [token]) (data slot) := by
  let q : DecodeReq ι α := ⟨token, slot, started⟩
  have hhist : Continues L xs [token] (q.history L (convState.data slot)) := by
    apply continues_catHistory
    · intro c t ht
      simp only [q, bne_iff_ne.mpr hslot, Bool.and_true]
      exact initialState_eq hexact hstart ht
    · intro j hj
      have hzero : j = 0 := by simpa using hj
      subst hzero
      rfl
  have hq : DecodeFlags [q] flags := by
    rcases hflags with rfl | ⟨hstarted, rfl⟩
    · rfl
    · intro q' hq'
      rw [List.mem_singleton.mp hq']
      exact hstarted
  have hrun := decodeBatched_eq_runAll L [q] flags convState hq
  refine ⟨(runAll [q.job L] convState.data).2, hrun.trans ?_, ?_⟩
  · have hout := hhist.conv_eq (j := 0) (by simp)
    rw [Nat.add_zero] at hout
    congr 2
    simp [runAll, DecodeReq.job, q, hslot, ← hout, PleLayer.causalRows]
  · intro c t ht
    have hwin := hhist.window_take (a := 1) (by simp) ht c
    simp only [List.take_succ_cons, List.take_zero] at hwin
    simp [runAll, DecodeReq.job, q, hslot, setCols, ht, ← hwin, Nat.add_comm]

/-- One speculative step on one slot: whatever number of its tokens is accepted, the slot
holds the history extended by them. -/
theorem spec_step (hexact : L.Exact) (hslot : slot ≠ nullBlockId) {tokens : List (Row ι α)}
    {queryLen accepted : Nat} (hlen : tokens.length ≤ queryLen) (hne : tokens ≠ [])
    (hacc : accepted ≤ queryLen)
    (hcols : 0 < L.convStateLen → L.convStateLen + queryLen - 1 ≤ convState.columns)
    (hheld : HoldsAt L accepted xs (convState.data slot)) :
    ∃ data, shortConvDilatedSpecBatched L tokens convState [slot] [0, tokens.length] [accepted]
        queryLen =
          .ok (L.causalRows xs tokens, { convState with data := data }) ∧
      ∀ a, 1 ≤ a → a ≤ tokens.length → HoldsAt L a (xs ++ tokens.take a) (data slot) := by
  let q : SpecReq ι α := ⟨tokens, slot, accepted⟩
  have hpos : 0 < tokens.length := List.length_pos_iff.mpr hne
  have hpack : ∀ j, q.packed queryLen j = tokens.getD j 0 := by
    intro j
    have hid : (List.range tokens.length).map (fun i => min i (queryLen - 1)) =
        List.range tokens.length := by
      conv_rhs => rw [← List.map_id (List.range tokens.length)]
      apply List.map_congr_left
      intro i hi
      have := List.mem_range.mp hi
      simp only [id_eq]
      omega
    rw [SpecReq.packed, hid, scatter_range_zip]
  have hhist : Continues L xs tokens (q.history L queryLen (convState.data slot)) := by
    apply continues_catHistory
    · intro c t ht
      have hmin : min (accepted - 1) (queryLen - 1) = accepted - 1 := by omega
      simp only [q, bne_iff_ne.mpr hslot, if_true, hmin]
      rw [hheld c t ht, hexact]
    · intro j _
      exact hpack j
  have hrun := specBatched_eq_runAll L [q] [] convState [0, tokens.length] [accepted]
    (hpos.trans_le hlen) (by simp [cuSeqlens, cuSeqlensFrom, q]) rfl hcols
  simp only [List.map_cons, List.map_nil, List.flatten_singleton, List.append_nil] at hrun
  refine ⟨(runAll [q.job L queryLen] convState.data).2, hrun.trans ?_, ?_⟩
  · congr 2
    simp only [runAll, List.map_cons, List.map_nil, List.flatten_singleton, SpecReq.job, q]
    apply List.map_congr_left
    intro j hj
    have hj : j < tokens.length := List.mem_range.mp hj
    have hmin : min j (queryLen - 1) = j := by omega
    rw [hmin]
    exact hhist.conv_eq hj
  · intro a ha hle c t ht
    have hwin := hhist.window_take hle ht c
    have hcol : a - 1 + t + 1 = a + t := by omega
    have hcap : a - 1 + t < L.convStateLen + queryLen - 1 := by omega
    have hmask : a - 1 + t < L.convStateLen + tokens.length - 1 := by omega
    have hS : 0 < L.convStateLen := by omega
    simp [runAll, SpecReq.job, q, hslot, setCols, hS, hcap, hmask, hcol, ← hwin]

end Steps

end FlashNext
