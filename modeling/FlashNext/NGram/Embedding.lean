import FlashNext.PyError
import FlashNext.Ragged
import FlashNext.Segment

/-!
# FlashNext.NGram.Embedding

The n-gram ids of `Qwen4ExpNGramEmbedding.forward`.

The tokens of a batch are packed into a buffer that is kept between calls, one
row per request, behind the request's own context; shifted copies of these rows
are multiplied, mixed by exclusive or and reduced modulo the size of each head.
A two-dimensional tensor is a list of rows, the buffer a function of row and
column.
-/

namespace FlashNext

/-- `torch.long`. -/
abbrev Long := BitVec 64

/-- What `forward` reads of a `Qwen4ExpNGramEmbedding`.  The workspace has `maxNumReqs` rows of
`maxTotalTokens` columns. -/
structure NGramEmbedding where
  ngramSize : Nat
  headsPerNgram : Nat
  eosTokenId : Long
  layerMultipliers : List Long
  ngramHeadsVocabSizes : List Long
  ngramHeadsOffsets : List Long
  maxTotalTokens : Nat
  maxNumReqs : Nat
  ngramSize_ge : 2 ≤ ngramSize
  length_sizes : ngramHeadsVocabSizes.length = (ngramSize - 1) * headsPerNgram
  length_offsets : ngramHeadsOffsets.length = (ngramSize - 1) * headsPerNgram

/-- Bigrams and trigrams with one head each and EOS 0, for runs on concrete inputs. -/
def trigramEmbedding : NGramEmbedding where
  ngramSize := 3
  headsPerNgram := 1
  eosTokenId := 0
  layerMultipliers := [3, 5, 7]
  ngramHeadsVocabSizes := [11, 13]
  ngramHeadsOffsets := [0, 11]
  maxTotalTokens := 8
  maxNumReqs := 2
  ngramSize_ge := by decide
  length_sizes := rfl
  length_offsets := rfl

/-- `_shift_precompute` of one row: how far each position is into its segment. -/
def shiftPrecompute (tokens : List Long) (eosTokenId : Long) : List Int :=
  let eosPositions := tokens.zipIdx.map fun tp => if tp.1 = eosTokenId then (tp.2 : Int) else -1
  let previousEos := -1 :: (cummax eosPositions).dropLast
  (List.range tokens.length).zipWith (fun (p : Nat) e => (p : Int) - e - 1) previousEos

/-- `_shift_apply` of one row. -/
def shiftApply (tokens : List Long) (positionInSegment : List Int) (shift : Nat)
    (eosTokenId : Long) : List Long :=
  if shift = 0 then tokens
  else (List.range tokens.length).map fun (p : Nat) =>
    let source := (p : Int) - shift
    let shifted := tokens.getD (max source 0).toNat 0
    if 0 ≤ source ∧ shift ≤ positionInSegment.getD p 0 then shifted else eosTokenId

/-- The ids of the heads of one n-gram size. -/
def NGramEmbedding.idBlock (E : NGramEmbedding) (ngram : Nat) (mixed : Long) : List Long :=
  let start := (ngram - 2) * E.headsPerNgram
  let sizes := (E.ngramHeadsVocabSizes.drop start).take E.headsPerNgram
  let offsets := (E.ngramHeadsOffsets.drop start).take E.headsPerNgram
  List.zipWith (fun size offset => mixed.smod size + offset) sizes offsets

/-- `forward` up to the ids, with the buffer it leaves. -/
def NGramEmbedding.forward (E : NGramEmbedding) (inputIds : List Long) (queryStartLoc : List Nat)
    (ngramContext : List (List Long)) (paddedBuffer : Nat × Nat → Long) :
    Except PyError (List (List Long) × (Nat × Nat → Long)) :=
  let numReqs := queryStartLoc.length - 1
  let numTokens := inputIds.length
  let maxTokens := E.maxTotalTokens
  let maxReqs := E.maxNumReqs
  if maxTokens < numTokens then
    .error (.valueError
      s!"PLE received {numTokens} tokens, but its workspace supports at most {maxTokens}")
  else if maxReqs < numReqs then
    .error (.valueError
      s!"PLE received {numReqs} requests, but its workspace supports at most {maxReqs}")
  else
    let filled := fun rc => if rc.1 < numReqs then E.eosTokenId else paddedBuffer rc
    let requestIndices := (List.range numTokens).map fun p =>
      min (searchsortedRight queryStartLoc p - 1) (numReqs - 1)
    let columns := (List.range numTokens).zipWith
      (fun p r => min (p - queryStartLoc.getD r 0) (maxTokens - 1)) requestIndices
    let index := requestIndices.zip columns
    let packed := scatter filled (index.zip inputIds)
    let ngramContext := ngramContext.take numReqs
    if ngramContext.length ≠ numReqs then
      .error (.runtimeError "Sizes of tensors must match except in dimension 1.")
    else
      let context := ngramContext.zipIdx.map fun cr =>
        cr.1 ++ (List.range maxTokens).map fun col => packed (cr.2, col)
      let shifted := fun shift => context.map fun row =>
        shiftApply row (shiftPrecompute row E.eosTokenId) shift E.eosTokenId
      let entry := fun shift r col => ((shifted shift).getD r []).getD col 0
      let mixed := fun ngram r col => (List.range' 1 (ngram - 1)).foldl
        (fun acc i => acc ^^^ (entry i r col * E.layerMultipliers.getD i 0))
        (entry 0 r col * E.layerMultipliers.getD 0 0)
      let ids := index.map fun rc =>
        ((List.range' 2 (E.ngramSize - 1)).map fun ngram =>
          E.idBlock ngram (mixed ngram rc.1 (rc.2 + E.ngramSize - 1))).flatten
      .ok (ids, packed)

/-! ## shifting within a segment -/

theorem length_shiftPrecompute (tokens : List Long) (eos : Long) :
    (shiftPrecompute tokens eos).length = tokens.length := by
  cases tokens with
  | nil => rfl
  | cons t tokens => simp [shiftPrecompute]

/-- The positions of EOS among the tokens before `p`, with -1 for any other token. -/
theorem forall_mem_eosPositions_take {tokens : List Long} {eos : Long} {p : Nat} {b : Int} :
    (∀ x ∈ (tokens.zipIdx.map fun tp => if tp.1 = eos then (tp.2 : Int) else -1).take p, x ≤ b) ↔
      ∀ j < p, ∀ t, tokens[j]? = some t → (if t = eos then (j : Int) else -1) ≤ b := by
  constructor
  · intro h j hj t ht
    apply h
    refine List.mem_iff_getElem?.mpr ⟨j, ?_⟩
    rw [List.getElem?_take, if_pos hj]
    simp [ht]
  · intro h x hx
    obtain ⟨j, hj⟩ := List.mem_iff_getElem?.mp hx
    rw [List.getElem?_take] at hj
    split at hj
    · next hlt =>
        simp only [List.getElem?_map, List.getElem?_zipIdx, Option.map_map, Option.map_eq_some_iff,
          Function.comp_apply, Nat.zero_add] at hj
        obtain ⟨t, ht, rfl⟩ := hj
        exact h j hlt t ht
    · cases hj

/-- A mark among the `i` elements before `p`. -/
theorem mem_take_drop_iff {tokens : List Long} {eos : Long} {p i : Nat} (hi : i ≤ p) :
    eos ∈ (tokens.drop (p - i)).take i ↔ ∃ j, p ≤ j + i ∧ j < p ∧ tokens[j]? = some eos := by
  constructor
  · intro h
    obtain ⟨k, hk⟩ := List.mem_iff_getElem?.mp h
    rw [List.getElem?_take] at hk
    split at hk
    · next hlt =>
        rw [List.getElem?_drop] at hk
        exact ⟨p - i + k, by omega, by omega, hk⟩
    · cases hk
  · rintro ⟨j, hle, hlt, hj⟩
    refine List.mem_iff_getElem?.mpr ⟨j - (p - i), ?_⟩
    rw [List.getElem?_take, if_pos (by omega), List.getElem?_drop]
    rwa [show p - i + (j - (p - i)) = j by omega]

/-- A position is `i` deep into its segment when none of the `i` tokens before it is EOS. -/
theorem le_shiftPrecompute_iff {tokens : List Long} {eos : Long} {p i : Nat}
    (hp : p < tokens.length) (hi : i ≤ p) :
    (i : Int) ≤ (shiftPrecompute tokens eos).getD p 0 ↔ eos ∉ (tokens.drop (p - i)).take i := by
  rw [mem_take_drop_iff hi]
  have hget : (shiftPrecompute tokens eos).getD p 0 = (p : Int) -
      (-1 :: (cummax (tokens.zipIdx.map fun tp =>
        if tp.1 = eos then (tp.2 : Int) else -1)).dropLast).getD p 0 - 1 := by
    rw [List.getD_eq_getElem _ _ (by rwa [length_shiftPrecompute])]
    simp only [shiftPrecompute, List.getElem_zipWith, List.getElem_range]
    rw [List.getD_eq_getElem]
  rw [hget]
  cases p with
  | zero =>
      have hzero : i = 0 := by omega
      simp [hzero]
  | succ p =>
      -- the last EOS among the first `p + 1` tokens is at most at `p - i`
      have hlast : (cummax (tokens.zipIdx.map fun tp =>
          if tp.1 = eos then (tp.2 : Int) else -1)).dropLast.getD p 0 ≤ (p : Int) - i ↔
            ∀ j < p + 1, ∀ t, tokens[j]? = some t →
              (if t = eos then (j : Int) else -1) ≤ p - i := by
        rw [← forall_mem_eosPositions_take, ← cummax_le_iff (by simp; omega),
          List.getD_eq_getElem?_getD, List.getElem?_dropLast, if_pos (by simp; omega),
          ← List.getD_eq_getElem?_getD]
      rw [List.getD_cons_succ,
        show ∀ e : Int, (i : Int) ≤ (p + 1 : Nat) - e - 1 ↔ e ≤ p - i by omega, hlast]
      constructor
      · rintro h ⟨j, hle, hlt, hj⟩
        have hbound := h j hlt eos hj
        rw [if_pos rfl] at hbound
        omega
      · intro h j hlt t ht
        split
        · next heq =>
            subst heq
            by_contra hgt
            exact h ⟨j, by omega, hlt, ht⟩
        · omega

/-- The shifted row looks back within the segment. -/
theorem getD_shiftApply {tokens : List Long} {eos : Long} {p i : Nat} (hp : p < tokens.length)
    (hi : i ≤ p) :
    (shiftApply tokens (shiftPrecompute tokens eos) i eos).getD p 0 =
      segmentBack eos tokens p i := by
  unfold shiftApply
  split
  · next hzero =>
      subst hzero
      simp [segmentBack, List.getElem?_eq_getElem hp]
  · have hsource : (max ((p : Int) - i) 0).toNat = p - i := by omega
    have hnonneg : (0 : Int) ≤ (p : Int) - i := by omega
    have hseg : _ ↔ eos ∉ _ := le_shiftPrecompute_iff hp hi
    unfold segmentBack
    rw [List.getD_eq_getElem _ _ (by simpa using hp), List.getElem_map, List.getElem_range]
    simp only [hsource, hnonneg, true_and, hseg, ite_not]
    rw [List.getD_eq_getElem _ _ (by omega), List.getD_eq_getElem _ _ (by omega)]

end FlashNext
