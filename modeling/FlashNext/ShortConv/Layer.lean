import FlashNext.CausalConv
import FlashNext.PyError
import FlashNext.Ragged

/-!
# FlashNext.ShortConv.Layer

The dilated short convolution of `Qwen4ExpPLELayer`: the cache it keeps per
request and the three batched kernels that read and rewrite it.

A row of hidden values is a function of the channel `ι`; channels never mix.
The cache has its own element type `β`, with the two dtype conversions as fields
of the layer.  A batched tensor is a function of its row index, with the number
of rows beside it; `scatter` is `index_put_` and `index_copy_`, `getD` a read
inside bounds.

* `shortConvDilatedDecodeBatched` — one token per request;
* `shortConvDilatedPrefillCore` — packed chunks of any length;
* `shortConvDilatedSpecBatched` — draft tokens with rollback.
-/

namespace FlashNext

/-- A token's hidden values, by channel. -/
abbrev Row (ι α : Type) := ι → α

/-- `NULL_BLOCK_ID`, the slot of graph-padded rows. -/
def nullBlockId : Nat := 0

/-- The columns of one cache slot, by channel. -/
abbrev Slot (ι β : Type) := ι → Nat → β

/-- The cache `conv_state[slot, channel, column]`. -/
structure ConvState (ι β : Type) where
  slots : Nat
  columns : Nat
  data : Nat → Slot ι β

/-- What the short convolution reads of a `Qwen4ExpPLELayer`: kernel size and
dilation, the depthwise weights, the activation, and the conversions between the
activation dtype and the cache dtype. -/
structure PleLayer (ι α β : Type) where
  convKernelSize : Nat
  shortConvDilation : Nat
  convWeights : ι → Nat → α
  silu : α → α
  toState : α → β
  ofState : β → α
  kernel_pos : 0 < convKernelSize

variable {ι α β : Type}

/-- `conv_state_len`: the number of past rows the kernel reaches back. -/
def PleLayer.convStateLen (L : PleLayer ι α β) : Nat :=
  (L.convKernelSize - 1) * L.shortConvDilation

/-- A layer of one channel and two taps, two rows apart, for runs on concrete inputs. -/
def twoTapLayer : PleLayer Unit Int Int where
  convKernelSize := 2
  shortConvDilation := 2
  convWeights _ k := if k = 0 then 2 else 3
  silu v := v
  toState v := v
  ofState v := v
  kernel_pos := Nat.two_pos

/-- A cache of four slots, every column of which holds `v`. -/
def constCache (v : Int) : ConvState Unit Int :=
  { slots := 4, columns := 3, data := fun _ _ _ => v }

/-! ## pieces the kernels share -/

/-- `state_indices != NULL_BLOCK_ID` at row `r`. -/
def validState (stateIndices : List Nat) (r : Nat) : Bool :=
  stateIndices.getD r 0 != nullBlockId

/-- The slot that row `r` gathers from and writes to: NULL rows are remapped to slot 0. -/
def stateIndex (stateIndices : List Nat) (r : Nat) : Nat :=
  if validState stateIndices r then stateIndices.getD r 0 else 0

/-- `torch.cat` of a state of `S` columns and packed token rows, or the token rows
alone when there is no state. -/
def catHistory [Zero α] (S : Nat) (state : ι → Nat → α) (tokens : Nat → Row ι α) :
    ι → Nat → α :=
  if 0 < S then fun c t => if t < S then state c t else tokens (t - S) c
  else fun c t => tokens t c

/-- `dilation * (kernel_size - 1) + 1`: the columns that the kernel covers. -/
def PleLayer.kernelExtent (L : PleLayer ι α β) : Nat := L.convStateLen + 1

/-- What `F.conv1d` raises on `columns` columns, padding included, that are fewer than the kernel
covers. -/
def PleLayer.kernelError (L : PleLayer ι α β) (columns : Nat) : PyError :=
  let extent := L.kernelExtent
  .runtimeError (s!"Calculated padded input size per channel: ({columns}). " ++
    s!"Kernel size: ({extent}). Kernel size can't be greater than actual input size")

/-- A history of the state and at least one column is long enough. -/
theorem PleLayer.not_lt_kernelExtent (L : PleLayer ι α β) {n : Nat} (hn : 0 < n) :
    ¬ L.convStateLen + n < L.kernelExtent := by
  rw [PleLayer.kernelExtent]
  omega

/-- Overwrite the first `n` columns of a slot. -/
def setCols (n : Nat) (slot new : Slot ι β) : Slot ι β :=
  fun c t => if t < n then new c t else slot c t

/-- `index_copy_` of `n` slot rows. -/
def ConvState.indexCopy (convState : ConvState ι β) (n : Nat) (index : Nat → Nat)
    (rows : Nat → Slot ι β) : ConvState ι β :=
  { convState with
    data := scatter convState.data ((List.range n).map fun r => (index r, rows r)) }

/-! ## the kernels -/

section Kernels

variable [Zero α] [Add α] [Mul α]

/-- `F.silu (F.conv1d history)` at column `t`. -/
def PleLayer.conv (L : PleLayer ι α β) (history : ι → Nat → α) (t : Nat) : Row ι α :=
  fun c => L.silu (conv1d L.convKernelSize L.shortConvDilation L.convWeights history t c)

/-- The rows of a decode batch that start from their cached state. -/
def decodeHasInitialState (stateIndicesTensorD : List Nat) :
    Option (List Bool) → Except PyError (Nat → Bool)
  | none => .ok (validState stateIndicesTensorD)
  | some flags =>
    let got := flags.length
    let need := stateIndicesTensorD.length
    if got < need then
      .error (.valueError s!"has_initial_states_d size mismatch: got {got}, need >= {need}.")
    else .ok fun r => flags.getD r false && validState stateIndicesTensorD r

/-- `_short_conv_dilated_decode_batched`. -/
def shortConvDilatedDecodeBatched [One α] (L : PleLayer ι α β) (xD : List (Row ι α))
    (convState : ConvState ι β) (stateIndicesTensorD : List Nat)
    (hasInitialStatesD : Option (List Bool)) :
    Except PyError (List (Row ι α) × ConvState ι β) :=
  (decodeHasInitialState stateIndicesTensorD hasInitialStatesD).map fun hasInitialState =>
    let S := L.convStateLen
    let numRows := stateIndicesTensorD.length
    let valid := validState stateIndicesTensorD
    let cachedState := fun r => convState.data (stateIndex stateIndicesTensorD r)
    let initialState := fun r c t =>
      if hasInitialState r then L.ofState (cachedState r c t) else 0
    let history := fun r => catHistory S (initialState r) fun _ => xD.getD r 0
    let output := (List.range numRows).map fun r c =>
      L.conv (history r) 0 c * if valid r then 1 else 0
    let nextState := fun r c t => L.toState (history r c (t + 1))
    let rows := fun r =>
      setCols S (cachedState r) (if valid r then nextState r else cachedState r)
    (output, if 0 < S then convState.indexCopy numRows (stateIndex stateIndicesTensorD) rows
      else convState)

/-- `_short_conv_dilated_prefill_core`.  A token whose request or column falls
outside the packed tensor raises, as the indexed store does, and so does the
convolution of a history that is shorter than the kernel. -/
def shortConvDilatedPrefillCore (L : PleLayer ι α β) (xP : List (Row ι α))
    (qStarts lengths : List Nat) (maxLen numPrefills numPrefillTokens : Nat)
    (stateIndicesTensorP : List Nat) (hasInitialStatesP : List Bool)
    (convState : ConvState ι β) : Except PyError (List (Row ι α) × ConvState ι β) :=
  let index := (List.range numPrefillTokens).map fun p => (rowOf qStarts p, colOf qStarts p)
  if index.any fun rc => numPrefills ≤ rc.1 || maxLen ≤ rc.2 then .error .indexError
  else if L.convStateLen + maxLen < L.kernelExtent then
    .error (L.kernelError (L.convStateLen + maxLen))
  else
    let S := L.convStateLen
    let packedTokens := scatter (fun _ => 0) (index.zip xP)
    let stateIndices := stateIndicesTensorP.take numPrefills
    let valid := validState stateIndices
    let hasInitial := fun r => (hasInitialStatesP.take numPrefills).getD r false
    let state := fun r c t =>
      if convState.slots = 0 then 0
      else L.ofState (convState.data (stateIndex stateIndices r) c t)
    let initialState := fun r c t => if valid r && hasInitial r then state r c t else 0
    let history := fun r => catHistory S (initialState r) fun j => packedTokens (r, j)
    let output := index.map fun rc =>
      if rc.2 < lengths.getD rc.1 0 && valid rc.1 then L.conv (history rc.1) rc.2 else 0
    let nextState := fun r c t => L.toState (history r c (lengths.getD r 0 + t))
    let existingState := fun r => convState.data (stateIndex stateIndices r)
    let updateMask := fun r => valid r && 0 < lengths.getD r 0
    let rows := fun r =>
      setCols S (existingState r) (if updateMask r then nextState r else existingState r)
    .ok (output, if 0 < S ∧ 0 < convState.slots then
        convState.indexCopy numPrefills (stateIndex stateIndices) rows
      else convState)

/-- `_short_conv_dilated_spec_batched`.  Row `numReqs` of the packed tensor is the
dummy sink of graph-padded tokens.  Without a column to pack into, a token row raises
at its store and an empty batch at the convolution. -/
def shortConvDilatedSpecBatched [One α] (L : PleLayer ι α β) (xSpec : List (Row ι α))
    (convState : ConvState ι β) (specStateIndicesTensor specQueryStartLoc : List Nat)
    (numAcceptedTokens : List Nat) (specQueryLen : Nat) :
    Except PyError (List (Row ι α) × ConvState ι β) :=
  let S := L.convStateLen
  let numReqs := specStateIndicesTensor.length
  let maxLen := specQueryLen
  let accepted := numAcceptedTokens.take numReqs
  let qStarts := specQueryStartLoc.take (numReqs + 1)
  let totalRealTokens := qStarts.getD numReqs 0
  let valid := validState specStateIndicesTensor
  let validToken := fun p => p < totalRealTokens && rowOf qStarts p < numReqs
  let index := (List.range xSpec.length).map fun p =>
    let req := min (rowOf qStarts p) (numReqs - 1)
    if validToken p then (req, min (p - qStarts.getD req 0) (maxLen - 1)) else (numReqs, 0)
  let packed := scatter (fun _ => 0) (index.zip xSpec)
  let cachedState := fun r => convState.data (stateIndex specStateIndicesTensor r)
  let rollbackOffset := fun r =>
    if valid r then min (accepted.getD r 0 - 1) (maxLen - 1) else 0
  let state := fun r c t =>
    if r < numReqs && valid r then L.ofState (cachedState r c (rollbackOffset r + t)) else 0
  let history := fun r => catHistory S (state r) fun j => packed (r, j)
  let output := (List.range xSpec.length).zipWith
    (fun p rc c => L.conv (history rc.1) rc.2 c * if validToken p then 1 else 0) index
  let stateCapacity := S + maxLen - 1
  let queryLength := fun r => qStarts.getD (r + 1) 0 - qStarts.getD r 0
  let updateMask := fun r t => valid r && t < S + queryLength r - 1
  let rows := fun r => setCols stateCapacity (cachedState r) fun c t =>
    if updateMask r t then L.toState (history r c (t + 1)) else cachedState r c t
  if maxLen = 0 ∧ 0 < xSpec.length then .error .indexError
  else if S + maxLen < L.kernelExtent then .error (L.kernelError (S + maxLen))
  else if 0 < S then
    let got := convState.columns
    if got < stateCapacity then
      .error (.runtimeError
        s!"PLE short-conv cache cannot retain speculative tokens: got {got}, need {stateCapacity}.")
    else .ok (output, convState.indexCopy numReqs (stateIndex specStateIndicesTensor) rows)
  else .ok (output, convState)

end Kernels

end FlashNext
