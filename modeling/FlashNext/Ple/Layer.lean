import FlashNext.NGram.Run
import FlashNext.ShortConv.Wrapper

/-!
# FlashNext.Ple.Layer

The forward pass of `Qwen4ExpPLELayer`: n-gram embeddings gate a value that is added
to its own short convolution.

The projections and the lookup of embedding rows are fields, functions of one token;
so are the operations of the two float types.  A hidden row has a channel for each
hyper-connection stream and position.

* `forward_fallback` — the layer on one whole sequence, `sequence`;
* `sequence_append` — what a sequence adds to the outputs of its beginning.
-/

namespace FlashNext

variable {hcCount hiddenSize embedDim : Nat} {α β φ : Type}

/-- A hidden row, by stream and position. -/
abbrev HiddenRow (hcCount hiddenSize : Nat) (α : Type) := Row (Fin hcCount × Fin hiddenSize) α

/-- A token of the layer: its id and its hidden row. -/
abbrev LayerToken (hcCount hiddenSize : Nat) (α : Type) := Long × HiddenRow hcCount hiddenSize α

/-- Operations of the activation dtype `α` and of `float32`, here `φ`. -/
structure FloatOps (α φ : Type) where
  float : α → φ
  toDtype : φ → α
  mean : List φ → φ
  rsqrt : φ → φ
  /-- the quotient by `math.sqrt(n)` -/
  divSqrt : α → Nat → α
  sign : α → α
  abs : α → α
  /-- `clamp_min(1e-6)` -/
  clampMin : α → α
  sqrt : α → α
  sigmoid : α → α

/-- `Qwen4ExpPLEGroupedNorm` on `n` channels. -/
structure GroupedNorm (n : Nat) (α φ : Type) where
  eps : φ
  groupSize : Option Nat
  weight : Fin n → α

/-- The channels that are averaged with channel `c`. -/
def GroupedNorm.group {n : Nat} (norm : GroupedNorm n α φ) (c : Fin n) : List (Fin n) :=
  match norm.groupSize with
  | none => List.finRange n
  | some groupSize => (List.finRange n).filter fun c' => c'.val / groupSize = c.val / groupSize

section Norm

variable [Add φ] [Mul φ] [One φ]

/-- `Qwen4ExpPLEGroupedNorm.forward` -/
def GroupedNorm.forward {n : Nat} (ops : FloatOps α φ) (norm : GroupedNorm n α φ)
    (hiddenStates : Row (Fin n) α) : Row (Fin n) α := fun c =>
  let x := fun c => ops.float (hiddenStates c)
  let variance := ops.mean ((norm.group c).map fun c' => x c' * x c')
  let normalized := x c * ops.rsqrt (variance + norm.eps)
  ops.toDtype (normalized * (1 + ops.float (norm.weight c)))

/-- `_apply_norm` -/
def applyNorm (ops : FloatOps α φ) (norm : GroupedNorm (hcCount * hiddenSize) α φ)
    (hiddenStates : HiddenRow hcCount hiddenSize α) : HiddenRow hcCount hiddenSize α :=
  fun c => norm.forward ops (fun k => hiddenStates (finProdFinEquiv.symm k)) (finProdFinEquiv c)

end Norm

/-- `Qwen4ExpPLELayer`: the short convolution, and what comes before it. -/
structure Qwen4ExpPLELayer (hcCount hiddenSize embedDim : Nat) (α β φ : Type) extends
    PleConvLayer (Fin hcCount × Fin hiddenSize) α β where
  ops : FloatOps α φ
  pleEmbedding : NGramEmbedding
  /-- the embedding rows of one token's ids, one after another -/
  ngramEmbedding : List Long → Row (Fin embedDim) α
  keyProj : Row (Fin embedDim) α → HiddenRow hcCount hiddenSize α
  valueProj : Row (Fin embedDim) α → Row (Fin hiddenSize) α
  normKey : GroupedNorm (hcCount * hiddenSize) α φ
  normQuery : GroupedNorm (hcCount * hiddenSize) α φ
  normConv : GroupedNorm (hcCount * hiddenSize) α φ

namespace Qwen4ExpPLELayer

section Forward

variable [Zero α] [Add α] [Mul α] [Add φ] [Mul φ] [One φ]

/-- The gate of one stream. -/
def gate (P : Qwen4ExpPLELayer hcCount hiddenSize embedDim α β φ)
    (key query : HiddenRow hcCount hiddenSize α) (g : Fin hcCount) : α :=
  let gate := P.ops.divSqrt ((List.finRange hiddenSize).map fun i => key (g, i) * query (g, i)).sum
    hiddenSize
  P.ops.sigmoid (P.ops.sign gate * P.ops.sqrt (P.ops.clampMin (P.ops.abs gate)))

/-- `gated_value` of one token with its n-gram ids. -/
def gatedValue (P : Qwen4ExpPLELayer hcCount hiddenSize embedDim α β φ) (ngramIds : List Long)
    (hiddenStates : HiddenRow hcCount hiddenSize α) : HiddenRow hcCount hiddenSize α :=
  let embeddings := P.ngramEmbedding ngramIds
  let key := applyNorm P.ops P.normKey (P.keyProj embeddings)
  let value := P.valueProj embeddings
  let query := applyNorm P.ops P.normQuery hiddenStates
  fun c => P.gate key query c.1 * value c.2

/-- `forward`, with the cache and the embedding's buffer that it leaves. -/
def forward [One α] (P : Qwen4ExpPLELayer hcCount hiddenSize embedDim α β φ)
    (uninitP uninit : Nat → HiddenRow hcCount hiddenSize α)
    (hiddenStates : List (HiddenRow hcCount hiddenSize α)) (inputIds : List Long)
    (queryStartLoc : List Nat) (ngramContext : List (List Long)) (attnMetadata : AttnMetadata)
    (kvCache : ConvState (Fin hcCount × Fin hiddenSize) β) (paddedBuffer : Nat × Nat → Long) :
    Except CallError (List (HiddenRow hcCount hiddenSize α) ×
      ConvState (Fin hcCount × Fin hiddenSize) β × (Nat × Nat → Long)) :=
  let tokens := inputIds.length
  let rows := hiddenStates.length
  if tokens ≠ rows then
    .error (.raised (.valueError
      ("PLE expects input_ids and hidden_states to have the same token length, got " ++
        s!"{tokens} and {rows}")))
  else
    match P.pleEmbedding.forward inputIds queryStartLoc ngramContext paddedBuffer with
    | .error e => .error (.raised e)
    | .ok (ngramIds, paddedBuffer) =>
      let gatedValue := List.zipWith P.gatedValue ngramIds hiddenStates
      let normalized := gatedValue.map (applyNorm P.ops P.normConv)
      match P.pleShortConv uninitP uninit normalized attnMetadata kvCache with
      | .error e => .error e
      | .ok (convOutput, kvCache) =>
        .ok (List.zipWith (· + ·) gatedValue convOutput, kvCache, paddedBuffer)

/-! ## one sequence -/

/-- The gated values of tokens that follow a history. -/
def gatedRows (P : Qwen4ExpPLELayer hcCount hiddenSize embedDim α β φ)
    (history tokens : List (LayerToken hcCount hiddenSize α)) :
    List (HiddenRow hcCount hiddenSize α) :=
  List.zipWith P.gatedValue
    ((P.pleEmbedding.resume (history.map Prod.fst) (tokens.map Prod.fst)).ids P.pleEmbedding)
    (tokens.map Prod.snd)

/-- The inputs of the convolution for tokens that follow a history. -/
def convRows (P : Qwen4ExpPLELayer hcCount hiddenSize embedDim α β φ)
    (history tokens : List (LayerToken hcCount hiddenSize α)) :
    List (HiddenRow hcCount hiddenSize α) :=
  (P.gatedRows history tokens).map (applyNorm P.ops P.normConv)

/-- The outputs of the layer on tokens that follow a history. -/
def outputRows (P : Qwen4ExpPLELayer hcCount hiddenSize embedDim α β φ)
    (history tokens : List (LayerToken hcCount hiddenSize α)) :
    List (HiddenRow hcCount hiddenSize α) :=
  List.zipWith (· + ·) (P.gatedRows history tokens)
    (P.causalRows (P.convRows [] history) (P.convRows history tokens))

variable {P : Qwen4ExpPLELayer hcCount hiddenSize embedDim α β φ}
  {history tokens xs ys : List (LayerToken hcCount hiddenSize α)}

@[simp] theorem length_gatedRows : (P.gatedRows history tokens).length = tokens.length := by
  simp [gatedRows, NGramReq.ids, NGramEmbedding.resume]

@[simp] theorem length_convRows : (P.convRows history tokens).length = tokens.length := by
  simp [convRows]

theorem gatedRows_append :
    P.gatedRows history (xs ++ ys) = P.gatedRows history xs ++ P.gatedRows (history ++ xs) ys := by
  unfold gatedRows
  rw [List.map_append, List.map_append, List.map_append, ids_append, List.zipWith_append]
  simp [NGramReq.ids, NGramEmbedding.resume]

theorem convRows_append :
    P.convRows history (xs ++ ys) = P.convRows history xs ++ P.convRows (history ++ xs) ys := by
  rw [convRows, gatedRows_append, List.map_append]
  rfl

/-- Fewer tokens, fewer rows. -/
theorem convRows_take (n : Nat) :
    P.convRows history (tokens.take n) = (P.convRows history tokens).take n := by
  by_cases hn : n ≤ tokens.length
  · conv_rhs => rw [← List.take_append_drop n tokens, convRows_append]
    rw [List.take_left']
    simpa using hn
  · rw [List.take_of_length_le (by omega), List.take_of_length_le (by simp; omega)]

/-- **What a sequence adds to its beginning**: the outputs of the layer on a whole sequence are
those on its first part, followed by those on the rest with the first part as its history. -/
theorem outputRows_append : P.outputRows history (xs ++ ys) =
    P.outputRows history xs ++ P.outputRows (history ++ xs) ys := by
  unfold outputRows
  rw [gatedRows_append, convRows_append, PleLayer.causalRows_append, List.zipWith_append,
    convRows_append]
  · rfl
  · simp [PleLayer.causalRows]

/-- **Without metadata the layer runs one sequence from its start**, if it has a token. -/
theorem forward_fallback [One α] (uninitP uninit : Nat → HiddenRow hcCount hiddenSize α)
    {tokens : List (LayerToken hcCount hiddenSize α)} (hne : tokens ≠ [])
    {attnMetadata : AttnMetadata} (hattn : attnMetadata = .none ∨ attnMetadata = .dict none)
    (kvCache : ConvState (Fin hcCount × Fin hiddenSize) β) (paddedBuffer : Nat × Nat → Long)
    (htokens : tokens.length ≤ P.pleEmbedding.maxTotalTokens)
    (hreqs : 1 ≤ P.pleEmbedding.maxNumReqs) :
    ∃ paddedBuffer', P.forward uninitP uninit (tokens.map Prod.snd) (tokens.map Prod.fst)
        [0, tokens.length] [List.replicate (P.pleEmbedding.ngramSize - 1) P.pleEmbedding.eosTokenId]
        attnMetadata kvCache paddedBuffer =
      .ok (P.outputRows [] tokens, kvCache, paddedBuffer') := by
  obtain ⟨padIds, paddedBuffer', hpad, hrun⟩ := forward_eq P.pleEmbedding
    [P.pleEmbedding.resume [] (tokens.map Prod.fst)] (by simp) [] [] paddedBuffer
    (by simp [NGramEmbedding.resume]) (by simpa [NGramEmbedding.resume] using htokens)
    (by simpa using hreqs)
  have hnil : padIds = [] := List.eq_nil_of_length_eq_zero hpad
  simp only [List.map_cons, List.map_nil, List.flatten_singleton, List.append_nil, hnil] at hrun
  have hids : P.pleEmbedding.forward (tokens.map Prod.fst) [0, tokens.length]
      [List.replicate (P.pleEmbedding.ngramSize - 1) P.pleEmbedding.eosTokenId] paddedBuffer =
        .ok ((P.pleEmbedding.resume [] (tokens.map Prod.fst)).ids P.pleEmbedding,
          paddedBuffer') := by
    simpa [NGramEmbedding.resume, cuSeqlens, cuSeqlensFrom] using hrun
  have hrows : P.convRows [] tokens ≠ [] := by
    rwa [← List.length_pos_iff, length_convRows, List.length_pos_iff]
  have hconv := pleShortConv_fallback (L := P.toPleConvLayer) uninitP uninit hrows hattn kvCache
  simp only [convRows, gatedRows, List.map_nil] at hconv
  refine ⟨paddedBuffer', ?_⟩
  simp only [forward, List.length_map, ne_eq, not_true_eq_false, if_false, hids, hconv]
  rfl

end Forward

end Qwen4ExpPLELayer

end FlashNext
