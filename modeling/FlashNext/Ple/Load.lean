import FlashNext.NGram.Embedding
import FlashNext.Str
import Mathlib.Data.Finset.Insert
import Mathlib.Data.Finset.Lattice.Basic

/-!
# FlashNext.Ple.Load

`Qwen4ExpNGramEmbedding.load_weights` with a table in host memory.

The rows of the table come in shards, each a tensor of the checkpoint that names its
number.  A loading that raises leaves what was written before, so the outcome of a
loop is an `EStateM.Result`, which has the state in both cases.
-/

namespace FlashNext

variable {ρ R : Type}

/-! ## checkpoint tensors -/

/-- An entry of a checkpoint tensor: `torch.long`, `float8_e4m3fn` or `bfloat16`. -/
inductive PleElem (ρ R : Type) where
  | long (x : Long)
  | fp8 (x : ρ)
  | bf16 (x : R)

/-- A tensor: shape and entries (`get` is only read inside the shape). -/
structure PleTensor (ρ R : Type) where
  shape : List Nat
  get : List Nat → PleElem ρ R

/-- `str` of a tuple. -/
def tupleStr : List Nat → String
  | [] => "()"
  | [n] => s!"({n},)"
  | ns => "(" ++ ", ".intercalate (ns.map toString) ++ ")"

/-! ## the embedding -/

/-- The buffers that a checkpoint may hold. -/
inductive PersistentBuffer where
  | layerMultipliers
  | ngramHeadsOffsets
  | ngramHeadsVocabSizes
deriving DecidableEq, Repr

def PersistentBuffer.name : PersistentBuffer → Str
  | .layerMultipliers => "layer_multipliers".toList
  | .ngramHeadsOffsets => "ngram_heads_offsets".toList
  | .ngramHeadsVocabSizes => "ngram_heads_vocab_sizes".toList

/-- `persistent_buffers` -/
def persistentBuffers : List PersistentBuffer :=
  [.layerMultipliers, .ngramHeadsOffsets, .ngramHeadsVocabSizes]

/-- What the ranks agree on: the table is `orgVocabSize` by `embeddingDim`. -/
structure PleTable where
  orgVocabSize : Nat
  embeddingDim : Nat
  splitNgramParts : Nat
  splitNgramParts_pos : 0 < splitNgramParts

/-- What `get_masked_input_and_mask` gets of `shard_indices`. -/
structure ShardIndices where
  orgVocabStartIndex : Nat
  orgVocabEndIndex : Nat
  numOrgVocabPadding : Nat
  addedVocabStartIndex : Nat
  addedVocabEndIndex : Nat

/-- The part of the table that a rank keeps, and the rows of its `weight`. -/
structure PleRank where
  shardIndices : ShardIndices
  numEmbeddingsPerPartition : Nat

/-- What loading changes on a rank. -/
structure PleState (ρ R : Type) where
  buffers : PersistentBuffer → List Long
  weight : Nat × Nat → ρ
  weightScale : R

/-- The functions from outside: `isdigit` and the value of a decimal digit for a character, `to` for
the three dtypes, `copy_ple_embedding_shard_`, `AutoWeightsLoader(self).load_weights`,
`get_masked_input_and_mask` for one id, and `tensor_model_parallel_all_reduce` for one entry. -/
structure PleEnv (ρ R : Type) where
  isDigit : Char → Bool
  decimal : Char → Option Nat
  toLong : PleElem ρ R → Long
  toFp8 : PleElem ρ R → ρ
  toBf16 : PleElem ρ R → R
  copyPleEmbeddingShard : ShardIndices → (Nat × Nat → ρ) → PleTensor ρ R → Nat → Nat × Nat → ρ
  autoWeightsLoader : List (Str × PleTensor ρ R) → PleState ρ R →
    EStateM.Result PyError (PleState ρ R) (Finset Str)
  getMaskedInputAndMask : ShardIndices → Int → Int × Bool
  allReduce : List R → R

/-! ## `load_weights` -/

/-- What the loop has so far: the embedding, `loaded` and `regular_weights`. -/
structure Loading (ρ R : Type) where
  state : PleState ρ R
  loaded : Finset Str
  regularWeights : List (Str × PleTensor ρ R)

/-- `name.rsplit(".", 1)[-1]` -/
def leafName (name : Str) : Str := (name.reverse.takeWhile (· ≠ '.')).reverse

/-- `shard_prefix` -/
def shardPrefix : Str := "ngram_embedding.shard_".toList

/-- `".weight"` -/
def weightSuffix : Str := ".weight".toList

/-- `name[len(shard_prefix) : -len(".weight")]` -/
def shardText (name : Str) : Str :=
  (name.take (name.length - weightSuffix.length)).drop shardPrefix.length

/-- `int(text)` for a text of digits. -/
def PleEnv.int (X : PleEnv ρ R) (text : Str) : Option Nat :=
  (text.mapM X.decimal).map (List.foldl (fun n d => 10 * n + d) 0)

/-- `shard_size` -/
def PleTable.shardSize (S : PleTable) : Nat :=
  (S.orgVocabSize + S.splitNgramParts - 1) / S.splitNgramParts

/-- `checkpoint_start` -/
def PleTable.checkpointStart (S : PleTable) (shardIndex : Nat) : Nat := shardIndex * S.shardSize

/-- `expected_rows` -/
def PleTable.expectedRows (S : PleTable) (shardIndex : Nat) : Nat :=
  (max 0 (min (S.shardSize : Int) (S.orgVocabSize - S.checkpointStart shardIndex))).toNat

/-- The loop body. -/
def loadEntry (X : PleEnv ρ R) (S : PleTable) (rank : PleRank) (name : Str)
    (loadedWeight : PleTensor ρ R) (l : Loading ρ R) :
    EStateM.Result PyError (Loading ρ R) Unit :=
  let leaf := leafName name
  let regular := { l with regularWeights := l.regularWeights ++ [(name, loadedWeight)] }
  let got := tupleStr loadedWeight.shape
  if "hashstats_".toList <+: leaf ∨ leaf = "token_lookup".toList then .ok () l
  else match persistentBuffers.find? (·.name = name) with
  | some b =>
    let buffer := l.state.buffers b
    if [buffer.length] ≠ loadedWeight.shape then
      let key := String.ofList name
      let expected := tupleStr [buffer.length]
      .error (.valueError s!"Shape mismatch for {key}: expected {expected}, got {got}") l
    else
      let copied := (List.range buffer.length).map fun i => X.toLong (loadedWeight.get [i])
      .ok () { l with
        state := { l.state with buffers := Function.update l.state.buffers b copied }
        loaded := insert name l.loaded }
  | none =>
    if shardPrefix <+: name ∧ weightSuffix <:+ name then
      let text := shardText name
      if text = [] ∨ text.all X.isDigit = false then .ok () regular
      else match X.int text with
      | none =>
        let literal := String.ofList text
        .error (.valueError s!"invalid literal for int() with base 10: '{literal}'") l
      | some shardIndex =>
        let parts := S.splitNgramParts
        if parts ≤ shardIndex then
          .error (.valueError
            s!"PLE embedding shard index {shardIndex} exceeds split_ngram_parts={parts}") l
        else
          let expectedShape := [S.expectedRows shardIndex, S.embeddingDim]
          if loadedWeight.shape ≠ expectedShape then
            let expected := tupleStr expectedShape
            .error (.valueError (s!"Shape mismatch for PLE embedding shard {shardIndex}: " ++
              s!"expected {expected}, got {got}")) l
          else
            let weight := X.copyPleEmbeddingShard rank.shardIndices l.state.weight loadedWeight
              (S.checkpointStart shardIndex)
            .ok () { l with
              state := { l.state with weight := weight }
              loaded := insert "ngram_embedding.weight".toList l.loaded }
    else .ok () regular

/-- The loop over `weights`. -/
def loadLoop (X : PleEnv ρ R) (S : PleTable) (rank : PleRank) :
    List (Str × PleTensor ρ R) → Loading ρ R → EStateM.Result PyError (Loading ρ R) Unit
  | [], l => .ok () l
  | w :: ws, l =>
    match loadEntry X S rank w.1 w.2 l with
    | .ok _ l' => loadLoop X S rank ws l'
    | .error e l' => .error e l'

/-- `load_weights` -/
def loadWeights (X : PleEnv ρ R) (S : PleTable) (rank : PleRank)
    (weights : List (Str × PleTensor ρ R)) (st : PleState ρ R) :
    EStateM.Result PyError (PleState ρ R) (Finset Str) :=
  match loadLoop X S rank weights ⟨st, ∅, []⟩ with
  | .error e l => .error e l.state
  | .ok _ l =>
    if l.regularWeights.isEmpty then .ok l.loaded l.state
    else match X.autoWeightsLoader l.regularWeights l.state with
      | .ok names st' => .ok (l.loaded ∪ names) st'
      | .error e st' => .error e st'

/-- The calls of `load_weights` while a checkpoint is read. -/
def loadCalls (X : PleEnv ρ R) (S : PleTable) (rank : PleRank) :
    List (List (Str × PleTensor ρ R)) → PleState ρ R →
      EStateM.Result PyError (PleState ρ R) Unit
  | [], st => .ok () st
  | ws :: calls, st =>
    match loadWeights X S rank ws st with
    | .ok _ st' => loadCalls X S rank calls st'
    | .error e st' => .error e st'

end FlashNext
