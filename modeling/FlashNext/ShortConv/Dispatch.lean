import FlashNext.ShortConv.Decode
import FlashNext.ShortConv.Prefill
import FlashNext.ShortConv.Spec

/-!
# FlashNext.ShortConv.Dispatch

`_short_conv_dilated_dispatch`: the tokens of a mixed batch are split by kind,
the speculative, decode and prefill kernels run one after another on the same
cache, and their rows are copied back to the tokens' original positions.
-/

namespace FlashNext

variable {ι α β : Type}

/-- What the dispatcher reads of a `PleShortConvAttentionMetadata`. -/
structure Metadata where
  numActualTokens : Nat
  numDecodes : Nat
  numDecodeTokens : Nat
  numPrefills : Nat
  numPrefillTokens : Nat
  numSpecDecodes : Nat
  stateIndicesTensor : Option (List Nat)
  hasInitialStatesD : Option (List Bool)
  hasInitialStatesP : Option (List Bool)
  nonSpecQueryStartLoc : Option (List Nat)
  maxPrefillQueryLen : Nat
  specSequenceMasks : Option (List Bool)
  specTokenIndx : Option (List Nat)
  nonSpecTokenIndx : Option (List Nat)
  specStateIndicesTensor : Option (List Nat)
  specQueryStartLoc : Option (List Nat)
  numAcceptedTokens : Option (List Nat)
  specQueryLen : Nat

/-! ## tensor operations -/

/-- `torch.split` of a tensor into two pieces. -/
def splitTwo {ρ : Type} (xs : List ρ) (a b : Nat) : Except PyError (List ρ × List ρ) :=
  let size := xs.length
  if a + b = size then .ok (xs.take a, xs.drop a)
  else
    .error (.runtimeError
      s!"split_with_sizes expects split_sizes to sum exactly to {size}, but got [{a}, {b}]")

/-- `index_select` of rows. -/
def indexSelect {ρ : Type} [Zero ρ] (xs : List ρ) (index : List Nat) : Except PyError (List ρ) :=
  if index.all (· < xs.length) then .ok (index.map (xs.getD · 0)) else .error .indexError

/-- `index_copy_` of rows. -/
def indexCopyRows {ρ : Type} [Zero ρ] (xs : List ρ) (index : List Nat) (source : List ρ) :
    Except PyError (List ρ) :=
  if source.length = index.length ∧ index.all (· < xs.length) then
    .ok ((List.range xs.length).map (scatter (xs.getD · 0) (index.zip source)))
  else .error .indexError

/-- `assert t is not None`. -/
def assertSome {τ : Type} : Option τ → Except PyError τ
  | none => .error .assertionError
  | some t => .ok t

/-! ## the dispatcher -/

section Dispatch

variable [Zero α] [Add α] [Mul α] [One α]

/-- Split spec / non-spec tokens; `None` where a kind is absent from the batch. -/
def splitTokens (m : Metadata) (x : List (Row ι α)) :
    Except PyError (Option (List (Row ι α)) × Option (List (Row ι α))) :=
  if m.specSequenceMasks.isSome then
    if 0 < m.numPrefills ∨ 0 < m.numDecodes then
      (assertSome m.specTokenIndx).bind fun specTokenIndx =>
      (assertSome m.nonSpecTokenIndx).bind fun nonSpecTokenIndx =>
      (indexSelect x specTokenIndx).bind fun xSpec =>
      (indexSelect x nonSpecTokenIndx).map fun xNonSpec => (some xSpec, some xNonSpec)
    else .ok (some x, none)
  else .ok (none, some x)

/-- 1. Run the multi-query speculative-decode part. -/
def runSpecPart (L : PleLayer ι α β) (m : Metadata) (convState : ConvState ι β) :
    Option (List (Row ι α)) → Except PyError (Option (List (Row ι α)) × ConvState ι β)
  | none => .ok (none, convState)
  | some xSpec =>
    (assertSome m.specStateIndicesTensor).bind fun specStateIndicesTensor =>
    (assertSome m.specQueryStartLoc).bind fun specQueryStartLoc =>
    (assertSome m.numAcceptedTokens).bind fun numAcceptedTokens =>
    (shortConvDilatedSpecBatched L xSpec convState (specStateIndicesTensor.take m.numSpecDecodes)
      specQueryStartLoc numAcceptedTokens m.specQueryLen).map (Prod.map some id)

/-- The decode requests of a batch that also has prefills, if there are any. -/
def runDecodePart (L : PleLayer ι α β) (m : Metadata) (convState : ConvState ι β)
    (xD : List (Row ι α)) (stateIndicesTensorD : List Nat) :
    Except PyError (List (Row ι α) × ConvState ι β) :=
  if 0 < m.numDecodes then
    shortConvDilatedDecodeBatched L xD convState stateIndicesTensorD m.hasInitialStatesD
  else .ok ([], convState)

/-- 2. Run regular decode and prefill requests. -/
def runNonSpecPart (L : PleLayer ι α β) (uninit : Nat → Row ι α) (m : Metadata)
    (convState : ConvState ι β) :
    Option (List (Row ι α)) → Except PyError (Option (List (Row ι α)) × ConvState ι β)
  | none => .ok (none, convState)
  | some xNonSpec =>
    (assertSome m.stateIndicesTensor).bind fun stateIndicesTensor =>
    if 0 < m.numPrefills then
      (splitTwo stateIndicesTensor m.numDecodes m.numPrefills).bind fun stateIndices =>
      (splitTwo xNonSpec m.numDecodeTokens m.numPrefillTokens).bind fun x =>
      (runDecodePart L m convState x.1 stateIndices.1).bind fun decoded =>
      (shortConvDilatedPrefillBatched L uninit x.2 m.nonSpecQueryStartLoc m.hasInitialStatesP
        m.maxPrefillQueryLen decoded.2 stateIndices.2 m.numPrefills m.numDecodeTokens
        m.numPrefillTokens).map fun prefilled => (some (decoded.1 ++ prefilled.1), prefilled.2)
    else
      (shortConvDilatedDecodeBatched L xNonSpec convState
        (stateIndicesTensor.take xNonSpec.length) m.hasInitialStatesD).map (Prod.map some id)

/-- 3. Merge both parts back into the original token order. -/
def mergeParts (uninit : Nat → Row ι α) (m : Metadata) (x : List (Row ι α)) :
    Option (List (Row ι α)) → Option (List (Row ι α)) → Except PyError (List (Row ι α))
  | some specOutput, some convOutNonSpec =>
    (assertSome m.specTokenIndx).bind fun specTokenIndx =>
    (assertSome m.nonSpecTokenIndx).bind fun nonSpecTokenIndx =>
    (indexCopyRows ((List.range m.numActualTokens).map uninit) specTokenIndx specOutput).bind
      fun output => indexCopyRows output nonSpecTokenIndx convOutNonSpec
  | some specOutput, none => .ok specOutput
  | none, some convOutNonSpec => .ok convOutNonSpec
  | none, none => .ok x

/-- `_short_conv_dilated_dispatch`.  `uninitP` and `uninit` are what `torch.empty_like` and
`new_empty` hand out. -/
def shortConvDilatedDispatch (L : PleLayer ι α β) (uninitP uninit : Nat → Row ι α)
    (inputs : List (Row ι α)) (m : Metadata) (convState : ConvState ι β) :
    Except PyError (List (Row ι α) × ConvState ι β) :=
  let x := inputs.take m.numActualTokens
  (splitTokens m x).bind fun tokens =>
  (runSpecPart L m convState tokens.1).bind fun spec =>
  (runNonSpecPart L uninitP m spec.2 tokens.2).bind fun nonSpec =>
  (mergeParts uninit m x spec.1 nonSpec.1).map fun output => (output, nonSpec.2)

end Dispatch

end FlashNext
