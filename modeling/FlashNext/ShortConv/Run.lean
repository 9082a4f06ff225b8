import FlashNext.ShortConv.History

/-!
# FlashNext.ShortConv.Run

Runs of one request on one cache slot.

* `chunked_eq_causal` — prefill chunks and decode steps, cut in any way, compute
  one causal convolution of the whole input;
* `speculative_eq_causal` — speculative steps compute the causal convolution of
  the accepted tokens, whatever was drafted and rejected.

Runs that change between the two are in `FlashNext.ShortConv.Mixed`.
-/

namespace FlashNext

variable {ι α β : Type} [Add α] [MulZeroOneClass α]

/-! ## prefill chunks and decode steps -/

/-- A step of a request without drafts: a prefill chunk packed at width `maxLen`, or one
decoded token.  A decode batch may leave `has_initial_states_d` out when every row continues. -/
inductive ChunkStep (ι α : Type) where
  | prefill (chunk : List (Row ι α)) (maxLen : Nat)
  | decode (token : Row ι α) (withFlags : Bool)

/-- The tokens of a step. -/
def ChunkStep.tokens : ChunkStep ι α → List (Row ι α)
  | .prefill chunk _ => chunk
  | .decode token _ => [token]

/-- A chunk is non-empty and fits its packing width. -/
def ChunkStep.Valid : ChunkStep ι α → Prop
  | .prefill chunk maxLen => chunk ≠ [] ∧ chunk.length ≤ maxLen
  | .decode _ _ => True

/-- Run one step on `slot`; `started` is its `has_initial` flag. -/
def ChunkStep.run (L : PleLayer ι α β) (slot : Nat) (started : Bool) (convState : ConvState ι β) :
    ChunkStep ι α → Except PyError (List (Row ι α) × ConvState ι β)
  | .prefill chunk maxLen =>
    shortConvDilatedPrefillCore L chunk [0, chunk.length] [chunk.length] maxLen 1 chunk.length
      [slot] [started] convState
  | .decode token withFlags =>
    shortConvDilatedDecodeBatched L [token] convState [slot]
      (if withFlags || !started then some [started] else none)

/-- Run the steps in order, only the first of them without an initial state. -/
def runChunks (L : PleLayer ι α β) (slot : Nat) (started : Bool) :
    List (ChunkStep ι α) → ConvState ι β → Except PyError (List (Row ι α) × ConvState ι β)
  | [], convState => .ok ([], convState)
  | step :: steps, convState =>
    match step.run L slot started convState with
    | .error e => .error e
    | .ok (out, convState) =>
      match runChunks L slot true steps convState with
      | .error e => .error e
      | .ok (outs, convState) => .ok (out ++ outs, convState)

/-- All tokens of a list of steps, in order. -/
def chunkTokens (steps : List (ChunkStep ι α)) : List (Row ι α) :=
  (steps.map ChunkStep.tokens).flatten

theorem ChunkStep.run_eq {L : PleLayer ι α β} {slot : Nat} {xs : List (Row ι α)}
    (hexact : L.Exact) (hslot : slot ≠ nullBlockId) (convState : ConvState ι β)
    (hin : slot < convState.slots) (started : Bool)
    (hstart : if started then HoldsAt L 1 xs (convState.data slot) else xs = [])
    {step : ChunkStep ι α} (hvalid : step.Valid) :
    ∃ data, step.run L slot started convState =
        .ok (L.causalRows xs step.tokens, { convState with data := data }) ∧
      HoldsAt L 1 (xs ++ step.tokens) (data slot) := by
  cases step with
  | prefill chunk maxLen => exact prefill_step hexact hslot hin hvalid.1 hvalid.2 hstart
  | decode token withFlags =>
      refine decode_step hexact hslot ?_ hstart
      cases started <;> cases withFlags <;> simp

/-- The steps from any point on continue the convolution of what came before. -/
theorem runChunks_from {L : PleLayer ι α β} {slot : Nat} (hexact : L.Exact)
    (hslot : slot ≠ nullBlockId) (xs : List (Row ι α)) (convState : ConvState ι β)
    (hin : slot < convState.slots) (started : Bool)
    (hstart : if started then HoldsAt L 1 xs (convState.data slot) else xs = [])
    {steps : List (ChunkStep ι α)} (hvalid : ∀ step ∈ steps, step.Valid) :
    ∃ data, runChunks L slot started steps convState =
        .ok (L.causalRows xs (chunkTokens steps), { convState with data := data }) ∧
      (started = true ∨ steps ≠ [] → HoldsAt L 1 (xs ++ chunkTokens steps) (data slot)) := by
  induction steps generalizing xs convState started with
  | nil =>
      refine ⟨convState.data, rfl, fun h => ?_⟩
      have hheld : started = true := by simpa using h
      simpa [chunkTokens, hheld] using hstart
  | cons step steps ih =>
      obtain ⟨data, hrun, hheld⟩ :=
        ChunkStep.run_eq hexact hslot convState hin started hstart (hvalid step List.mem_cons_self)
      obtain ⟨data', hruns, hheld'⟩ := ih (xs ++ step.tokens)
        { convState with data := data } hin true (by simpa using hheld)
        (fun s hs => hvalid s (List.mem_cons_of_mem step hs))
      have htokens : chunkTokens (step :: steps) = step.tokens ++ chunkTokens steps := rfl
      refine ⟨data', ?_, fun _ => ?_⟩
      · rw [runChunks, hrun]
        simp only [hruns, htokens, L.causalRows_append]
      · rw [htokens, ← List.append_assoc]
        exact hheld' (.inl rfl)

/-- **Chunked prefill and plain decode compute one causal convolution**: after any number `k` of
the steps, the outputs so far are those of the convolution of the whole input, and the slot holds
the last inputs. -/
theorem chunked_eq_causal (L : PleLayer ι α β) (hexact : L.Exact) {slot : Nat}
    (hslot : slot ≠ nullBlockId) (convState : ConvState ι β) (hin : slot < convState.slots)
    (steps : List (ChunkStep ι α)) (hvalid : ∀ step ∈ steps, step.Valid) (k : Nat) :
    ∃ data, runChunks L slot false (steps.take k) convState =
        .ok ((List.range (chunkTokens (steps.take k)).length).map (L.causal (chunkTokens steps)),
          { convState with data := data }) ∧
      (steps.take k ≠ [] → ∀ c, ∀ t < L.convStateLen, data slot c t =
        L.toState ((window 0 L.convStateLen (chunkTokens (steps.take k))).getD t 0 c)) := by
  obtain ⟨data, hrun, hheld⟩ := runChunks_from hexact hslot [] convState hin false (by simp)
    (fun s hs => hvalid s (List.mem_of_mem_take (i := k) hs))
  have hsplit : chunkTokens steps = chunkTokens (steps.take k) ++ chunkTokens (steps.drop k) := by
    unfold chunkTokens
    rw [← List.flatten_append, ← List.map_append, List.take_append_drop]
  refine ⟨data, hrun.trans ?_, ?_⟩
  · congr 2
    apply List.map_congr_left
    intro j hj
    rw [hsplit, L.causal_append _ _ (List.mem_range.mp hj), List.length_nil, Nat.zero_add,
      List.nil_append]
  · intro hne c t ht
    have hcol := hheld (.inr hne) c t ht
    simpa using hcol

/-- A chunk of two tokens and a decoded token, in a slot with stale columns. -/
theorem chunked_eq_causal_two_steps :
    ∃ data, runChunks twoTapLayer 1 false
        [.prefill [fun _ => 5, fun _ => 7] 3, .decode (fun _ => 1) false] (constCache 4) =
      .ok ((List.range 3).map (twoTapLayer.causal [fun _ => 5, fun _ => 7, fun _ => 1]),
        { constCache 4 with data := data }) := by
  obtain ⟨data, hrun, _⟩ := chunked_eq_causal twoTapLayer (fun _ => rfl)
    (show 1 ≠ nullBlockId by decide) (constCache 4) (by decide)
    [.prefill [fun _ => 5, fun _ => 7] 3, .decode (fun _ => 1) false]
    (by simp [ChunkStep.Valid]) 2
  exact ⟨data, hrun⟩

/-! ## speculative steps -/

/-- A speculative step of at most `queryLen` tokens, of which the first `accepted` are accepted. -/
structure SpecStep (ι α : Type) (queryLen : Nat) where
  tokens : List (Row ι α)
  accepted : Nat
  accepted_pos : 1 ≤ accepted
  accepted_le : accepted ≤ tokens.length
  length_le : tokens.length ≤ queryLen

variable {queryLen : Nat}

/-- The tokens of a step that are kept. -/
def SpecStep.kept (step : SpecStep ι α queryLen) : List (Row ι α) :=
  step.tokens.take step.accepted

/-- Run one step on `slot`, given how many tokens of the step before were accepted. -/
def SpecStep.run (L : PleLayer ι α β) (slot numAccepted : Nat) (convState : ConvState ι β)
    (step : SpecStep ι α queryLen) : Except PyError (List (Row ι α) × ConvState ι β) :=
  shortConvDilatedSpecBatched L step.tokens convState [slot] [0, step.tokens.length] [numAccepted]
    queryLen

/-- Run the steps in order, each told what the one before accepted; the outputs step by step. -/
def runSpec (L : PleLayer ι α β) (slot : Nat) (numAccepted : Nat) :
    List (SpecStep ι α queryLen) → ConvState ι β →
      Except PyError (List (List (Row ι α)) × ConvState ι β)
  | [], convState => .ok ([], convState)
  | step :: steps, convState =>
    match step.run L slot numAccepted convState with
    | .error e => .error e
    | .ok (out, convState) =>
      match runSpec L slot step.accepted steps convState with
      | .error e => .error e
      | .ok (outs, convState) => .ok (out :: outs, convState)

/-- All tokens that a list of steps keeps, in order. -/
def keptTokens (steps : List (SpecStep ι α queryLen)) : List (Row ι α) :=
  (steps.map SpecStep.kept).flatten

omit [Add α] [MulZeroOneClass α] in
theorem SpecStep.tokens_ne_nil (step : SpecStep ι α queryLen) : step.tokens ≠ [] := by
  intro h
  have hpos := step.accepted_pos
  have hle := step.accepted_le
  rw [h, List.length_nil] at hle
  omega

omit [Add α] [MulZeroOneClass α] in
theorem SpecStep.accepted_le_queryLen (step : SpecStep ι α queryLen) :
    step.accepted ≤ queryLen :=
  Nat.le_trans step.accepted_le step.length_le

theorem SpecStep.run_eq {L : PleLayer ι α β} {slot : Nat} {xs : List (Row ι α)}
    {convState : ConvState ι β} (hexact : L.Exact) (hslot : slot ≠ nullBlockId)
    (hcols : 0 < L.convStateLen → L.convStateLen + queryLen - 1 ≤ convState.columns)
    {numAccepted : Nat} (hacc : numAccepted = 1 ∨ numAccepted ≤ queryLen)
    (hheld : HoldsAt L numAccepted xs (convState.data slot)) (step : SpecStep ι α queryLen) :
    ∃ data, step.run L slot numAccepted convState =
        .ok (L.causalRows xs step.tokens, { convState with data := data }) ∧
      ∀ a, 1 ≤ a → a ≤ step.tokens.length → HoldsAt L a (xs ++ step.tokens.take a) (data slot) := by
  have hpos := step.accepted_pos
  have hle := step.accepted_le_queryLen
  exact spec_step hexact hslot step.length_le step.tokens_ne_nil (by omega) hcols hheld

/-- **Speculative steps roll back exactly the rejected drafts**: the outputs of step `k` are the
convolution of what was there before, of the tokens kept by the first `k` steps, and of the step's
own tokens. -/
theorem speculative_eq_causal (L : PleLayer ι α β) (hexact : L.Exact) {slot : Nat}
    (hslot : slot ≠ nullBlockId) (convState : ConvState ι β)
    (hcols : 0 < L.convStateLen → L.convStateLen + queryLen - 1 ≤ convState.columns)
    (xs : List (Row ι α)) (hheld : HoldsAt L 1 xs (convState.data slot))
    (steps : List (SpecStep ι α queryLen)) :
    ∃ outs data, runSpec L slot 1 steps convState = .ok (outs, { convState with data := data }) ∧
      outs.length = steps.length ∧
      ∀ k (hk : k < steps.length),
        let history := xs ++ keptTokens (steps.take k)
        outs[k]? = some ((List.range steps[k].tokens.length).map fun j =>
          L.causal (history ++ steps[k].tokens.take (j + 1)) (history.length + j)) := by
  -- the first step is only special in what it is told to roll back
  suffices hfrom : ∀ numAccepted, numAccepted = 1 ∨ numAccepted ≤ queryLen →
      HoldsAt L numAccepted xs (convState.data slot) →
      ∃ outs data,
        runSpec L slot numAccepted steps convState = .ok (outs, { convState with data := data }) ∧
        outs.length = steps.length ∧
        ∀ k (hk : k < steps.length),
          outs[k]? = some (L.causalRows (xs ++ keptTokens (steps.take k)) steps[k].tokens) by
    simpa only [L.causalRows_eq] using hfrom 1 (.inl rfl) hheld
  clear hheld
  induction steps generalizing xs convState with
  | nil =>
      intro numAccepted _ _
      exact ⟨[], convState.data, rfl, rfl, fun k hk => absurd hk (Nat.not_lt_zero k)⟩
  | cons step steps ih =>
      intro numAccepted hacc hheld
      obtain ⟨data, hrun, hkept⟩ := step.run_eq hexact hslot hcols hacc hheld
      obtain ⟨outs, data', hruns, hlen, houts⟩ := ih { convState with data := data } hcols
        (xs ++ step.kept) step.accepted (.inr step.accepted_le_queryLen)
        (hkept step.accepted step.accepted_pos step.accepted_le)
      refine ⟨L.causalRows xs step.tokens :: outs, data', ?_, ?_, ?_⟩
      · simp only [runSpec, hrun, hruns]
      · rw [List.length_cons, List.length_cons, hlen]
      · intro k hk
        cases k with
        | zero => simp [keptTokens]
        | succ k =>
            have hout := houts k (by simpa using hk)
            rw [List.getElem?_cons_succ, hout]
            simp [keptTokens]

/-- A step that accepts both of its tokens. -/
def acceptedPair : SpecStep Unit Int 2 where
  tokens := [fun _ => 5, fun _ => 7]
  accepted := 2
  accepted_pos := by decide
  accepted_le := by decide
  length_le := by decide

theorem holdsAt_constCache : HoldsAt twoTapLayer 1 [] ((constCache 0).data 1) := by
  intro c t ht
  simp [constCache, twoTapLayer]

/-- Two tokens accepted, then the same two drafted again. -/
theorem speculative_eq_causal_two_steps :
    ∃ outs data, runSpec twoTapLayer 1 1 [acceptedPair, acceptedPair] (constCache 0) =
        .ok (outs, { constCache 0 with data := data }) ∧
      outs[1]? = some ((List.range 2).map fun j =>
        twoTapLayer.causal (acceptedPair.kept ++ acceptedPair.tokens.take (j + 1)) (2 + j)) := by
  obtain ⟨outs, data, hrun, _, houts⟩ := speculative_eq_causal twoTapLayer (fun _ => rfl)
    (show 1 ≠ nullBlockId by decide) (constCache 0) (by decide) [] holdsAt_constCache
    [acceptedPair, acceptedPair]
  exact ⟨outs, data, hrun, houts 1 (by decide)⟩

end FlashNext
