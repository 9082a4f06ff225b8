import FlashNext.NGram.Embedding

/-!
# FlashNext.NGram.Request

The n-gram ids of one request, from its own context and tokens, and the proof
that `forward` computes exactly these for every request of a batch.
-/

namespace FlashNext

/-- A request: the tokens before its chunk, and the chunk. -/
structure NGramReq where
  context : List Long
  tokens : List Long

/-- The token `i` places back from token `j` of the chunk, in the request's own context and
chunk, if no EOS occurs in the `i` tokens just before `j`, and EOS otherwise. -/
def NGramReq.back (E : NGramEmbedding) (q : NGramReq) (j i : Nat) : Long :=
  segmentBack E.eosTokenId (q.context ++ q.tokens) (q.context.length + j) i

/-- The exclusive or of the multiplied tokens of the `n`-gram that ends at token `j`. -/
def NGramReq.mix (E : NGramEmbedding) (q : NGramReq) (j n : Nat) : Long :=
  (List.range n).foldl (fun acc i => acc ^^^ (E.layerMultipliers.getD i 0 * q.back E j i)) 0

/-- The ids of token `j`: for each n-gram size those of its heads. -/
def NGramReq.tokenIds (E : NGramEmbedding) (q : NGramReq) (j : Nat) : List Long :=
  ((List.range' 2 (E.ngramSize - 1)).map fun n => E.idBlock n (q.mix E j n)).flatten

/-- The ids of all tokens of the chunk. -/
def NGramReq.ids (E : NGramEmbedding) (q : NGramReq) : List (List Long) :=
  (List.range q.tokens.length).map (q.tokenIds E)

/-- The request's row of a packed buffer looks back like the request itself. -/
theorem getD_shiftApply_row {E : NGramEmbedding} {q : NGramReq} {row rest : List Long}
    (hctx : q.context.length = E.ngramSize - 1) (hrow : row = q.context ++ q.tokens ++ rest)
    {j i : Nat} (hj : j < q.tokens.length) (hi : i < E.ngramSize) :
    (shiftApply row (shiftPrecompute row E.eosTokenId) i E.eosTokenId).getD
      (j + E.ngramSize - 1) 0 = q.back E j i := by
  have hge := E.ngramSize_ge
  have hpos : j + E.ngramSize - 1 = q.context.length + j := by omega
  rw [hpos, getD_shiftApply (by rw [hrow]; simp; omega) (by omega), hrow,
    segmentBack_append _ _ _ (by omega) (by simp; omega)]
  rfl

/-- Mixing shift by shift, the unshifted token first, is mixing the whole n-gram. -/
theorem foldl_mix {E : NGramEmbedding} {q : NGramReq} {j n : Nat} {entry : Nat → Long}
    (hn : 0 < n) (hentry : ∀ i < n, entry i = q.back E j i) :
    (List.range' 1 (n - 1)).foldl (fun acc i => acc ^^^ (entry i * E.layerMultipliers.getD i 0))
        (entry 0 * E.layerMultipliers.getD 0 0) = q.mix E j n := by
  have hrange : List.range n = 0 :: List.range' 1 (n - 1) := by
    rw [List.range_eq_range', show n = n - 1 + 1 by omega, List.range'_succ]
    simp
  have hzero : ∀ x : Long, 0 ^^^ x = x := fun _ => BitVec.zero_xor
  unfold NGramReq.mix
  rw [hrange, List.foldl_cons, hzero, hentry 0 hn, BitVec.mul_comm]
  apply List.foldl_ext
  intro acc i hi
  have hlt : i < n := by
    have := List.mem_range'.mp hi
    omega
  rw [hentry i hlt, BitVec.mul_comm]

/-! ## packing -/

/-- Searching all offsets finds one more than searching the ends of the rows. -/
theorem searchsortedRight_cuSeqlens (lens : List Nat) (p : Nat) :
    searchsortedRight (cuSeqlens lens) p - 1 = rowOf (cuSeqlens lens) p := by
  rw [cuSeqlens, cuSeqlensFrom_eq_cons, searchsortedRight_cons, if_pos (Nat.zero_le p)]
  rfl

/-- The last row of a batch reaches to its end. -/
theorem getD_cuSeqlens_last {lens : List Nat} (hne : lens ≠ []) :
    (cuSeqlens lens).getD (lens.length - 1) 0 + lens.getLast hne = lens.sum := by
  have hpos : 0 < lens.length := List.length_pos_iff.mpr hne
  have hsucc := getD_cuSeqlensFrom_succ 0 lens (r := lens.length - 1) (by omega)
  rw [Nat.sub_add_cancel hpos, getD_cuSeqlensFrom_length, ← List.getLast_eq_getElem hne] at hsucc
  rw [cuSeqlens]
  omega

/-- The rows and columns under which the tokens of a batch and its padding are packed: the
padding goes behind the last request. -/
theorem packIndex_eq {lens : List Nat} (hne : lens ≠ []) (pad : Nat) {maxTokens : Nat}
    (hmax : lens.sum + pad ≤ maxTokens) :
    let requestIndices := (List.range (lens.sum + pad)).map fun p =>
      min (searchsortedRight (cuSeqlens lens) p - 1) (lens.length - 1)
    requestIndices.zip ((List.range (lens.sum + pad)).zipWith
      (fun p r => min (p - (cuSeqlens lens).getD r 0) (maxTokens - 1)) requestIndices) =
    ragged lens ++ (List.range pad).map fun i => (lens.length - 1, lens.getLast hne + i) := by
  intro requestIndices
  have hpos : 0 < lens.length := List.length_pos_iff.mpr hne
  have hzip : requestIndices.zip ((List.range (lens.sum + pad)).zipWith
      (fun p r => min (p - (cuSeqlens lens).getD r 0) (maxTokens - 1)) requestIndices) =
      (List.range (lens.sum + pad)).map fun p =>
        let r := min (rowOf (cuSeqlens lens) p) (lens.length - 1)
        (r, min (p - (cuSeqlens lens).getD r 0) (maxTokens - 1)) := by
    apply List.ext_getElem
    · simp [requestIndices]
    · intro p hp _
      simp [requestIndices, searchsortedRight_cuSeqlens]
  rw [hzip, List.range_add, List.map_append, ← rowCol_range, List.map_map]
  congr 1
  · apply List.map_congr_left
    intro p hp
    have hp : p < lens.sum := List.mem_range.mp hp
    have hrow : min (rowOf (cuSeqlens lens) p) (lens.length - 1) = rowOf (cuSeqlens lens) p := by
      have := rowOf_lt hp
      omega
    simp only [hrow, colOf]
    congr 1
    omega
  · apply List.map_congr_left
    intro i hi
    have hi : i < pad := List.mem_range.mp hi
    have hlast := getD_cuSeqlens_last hne
    have hrow :
        min (rowOf (cuSeqlens lens) (lens.sum + i)) (lens.length - 1) = lens.length - 1 := by
      rw [rowOf_of_sum_le (Nat.le_add_right _ _)]
      omega
    simp only [Function.comp_apply, hrow]
    congr 1
    omega

/-- What a packed buffer holds in the columns of a request, whatever padding was written behind
the last one. -/
theorem scatter_packIndex {reqs : List NGramReq} (hne : reqs.map (·.tokens.length) ≠ [])
    (pad : List Long) {base : Nat × Nat → Long} {eos : Long}
    (hbase : ∀ r col, r < reqs.length → base (r, col) = eos) {r : Nat} (hr : r < reqs.length)
    {col : Nat} (hcol : col < reqs[r].tokens.length) :
    scatter base ((ragged (reqs.map (·.tokens.length)) ++ (List.range pad.length).map fun i =>
        ((reqs.map (·.tokens.length)).length - 1,
          (reqs.map (·.tokens.length)).getLast hne + i)).zip
      ((reqs.map NGramReq.tokens).flatten ++ pad)) (r, col) = reqs[r].tokens.getD col eos := by
  have hlens : reqs.map (·.tokens.length) = (reqs.map NGramReq.tokens).map List.length := by
    rw [List.map_map]
    rfl
  rw [List.zip_append (by simp [Function.comp_def]), scatter_append, scatter_of_notMem]
  · rw [hlens, ragged_zip_flatten, scatter_congr_base (fun _ => eos) _ (hbase r col hr)]
    exact scatter_entries col (by simp [hr])
  · intro hmem
    rw [List.map_fst_zip (by simp)] at hmem
    obtain ⟨i, _, hi⟩ := List.mem_map.mp hmem
    have hrow : (reqs.map (·.tokens.length)).length - 1 = r := congrArg Prod.fst hi
    have hpast : (reqs.map (·.tokens.length)).getLast hne + i = col := congrArg Prod.snd hi
    have hlast : (reqs.map (·.tokens.length)).getLast hne = reqs[r].tokens.length := by
      rw [List.getLast_eq_getElem]
      simp [← hrow]
    omega

/-- A row that is known on its first columns. -/
theorem map_range_of_prefix {ρ : Type} {f : Nat → ρ} {ys : List ρ} {n : Nat} (hle : ys.length ≤ n)
    (h : ∀ k (hk : k < ys.length), f k = ys[k]) : ∃ rest, (List.range n).map f = ys ++ rest := by
  refine ⟨(List.range (n - ys.length)).map fun i => f (ys.length + i), ?_⟩
  conv_lhs => rw [← Nat.add_sub_cancel' hle, List.range_add, List.map_append, List.map_map]
  congr 1
  apply List.ext_getElem
  · simp
  · intro k hk _
    rw [List.getElem_map, List.getElem_range, h k (by simpa using hk)]

/-! ## the whole batch -/

/-- **`forward` computes the ids of each request by itself**: the ids of a batch, with any padding
tokens behind it, start with those of its requests one after another, whatever the buffer held. -/
theorem forward_eq (E : NGramEmbedding) (reqs : List NGramReq) (hne : reqs ≠ []) (pad : List Long)
    (more : List (List Long)) (paddedBuffer : Nat × Nat → Long)
    (hctx : ∀ q ∈ reqs, q.context.length = E.ngramSize - 1)
    (htokens : (reqs.map (·.tokens.length)).sum + pad.length ≤ E.maxTotalTokens)
    (hreqs : reqs.length ≤ E.maxNumReqs) :
    ∃ padIds paddedBuffer', padIds.length = pad.length ∧
      E.forward ((reqs.map NGramReq.tokens).flatten ++ pad)
          (cuSeqlens (reqs.map (·.tokens.length))) (reqs.map NGramReq.context ++ more)
          paddedBuffer =
        .ok ((reqs.map (NGramReq.ids E)).flatten ++ padIds, paddedBuffer') := by
  have hne' : reqs.map (·.tokens.length) ≠ [] := by simpa using hne
  have hcount : (cuSeqlens (reqs.map (·.tokens.length))).length - 1 = reqs.length := by
    simp [cuSeqlens]
  have hlen : ((reqs.map NGramReq.tokens).flatten ++ pad).length =
      (reqs.map (·.tokens.length)).sum + pad.length := by
    simp [Function.comp_def]
  unfold NGramEmbedding.forward
  extract_lets numReqs numTokens maxTokens maxReqs filled requestIndices columns index packed
    ngramContext context shifted entry mixed ids
  have hnum : numReqs = (reqs.map (·.tokens.length)).length := by
    rw [List.length_map]
    exact hcount
  have htok : numTokens = (reqs.map (·.tokens.length)).sum + pad.length := hlen
  have hnumReqs : numReqs = reqs.length := hcount
  have hcontexts : ngramContext = reqs.map NGramReq.context := by
    simp only [ngramContext, hnumReqs]
    exact List.take_left' (List.length_map _)
  have hindex : index = ragged (reqs.map (·.tokens.length)) ++ (List.range pad.length).map fun i =>
      ((reqs.map (·.tokens.length)).length - 1,
        (reqs.map (·.tokens.length)).getLast hne' + i) := by
    simp only [index, columns, requestIndices, htok, hnum]
    exact packIndex_eq hne' pad.length htokens
  have hpacked : ∀ r (hr : r < reqs.length) col, col < reqs[r].tokens.length →
      packed (r, col) = reqs[r].tokens.getD col E.eosTokenId := by
    intro r hr col hcol
    simp only [packed, hindex]
    exact scatter_packIndex hne' pad (fun r col hr => if_pos (hnumReqs ▸ hr)) hr hcol
  have hrow : ∀ r (hr : r < reqs.length), ∃ rest,
      context.getD r [] = reqs[r].context ++ reqs[r].tokens ++ rest := by
    intro r hr
    have hfits : reqs[r].tokens.length ≤ maxTokens := by
      have hle := List.single_le_sum (fun n _ => Nat.zero_le n) _
        (List.mem_map.mpr ⟨reqs[r], List.getElem_mem hr, rfl⟩ :
          reqs[r].tokens.length ∈ reqs.map (·.tokens.length))
      omega
    obtain ⟨rest, hrest⟩ := map_range_of_prefix (f := fun col => packed (r, col)) hfits
      (fun col hcol => by rw [hpacked r hr col hcol, List.getD_eq_getElem _ _ hcol])
    exact ⟨rest, by simp [context, hcontexts, hr, hrest]⟩
  have hmixed : ∀ r (hr : r < reqs.length) j, j < reqs[r].tokens.length →
      ∀ n, 0 < n → n ≤ E.ngramSize →
        mixed n r (j + E.ngramSize - 1) = reqs[r].mix E j n := by
    intro r hr j hj n hn hle
    apply foldl_mix hn
    intro i hi
    obtain ⟨rest, hrest⟩ := hrow r hr
    have hshift : (shifted i).getD r [] = shiftApply (context.getD r [])
        (shiftPrecompute (context.getD r []) E.eosTokenId) i E.eosTokenId := by
      have hlt : r < context.length := by simpa [context, hcontexts] using hr
      simp [shifted, hlt]
    simp only [entry, hshift]
    exact getD_shiftApply_row (hctx _ (List.getElem_mem hr)) hrest hj (by omega)
  obtain ⟨padIds, hpadIds, hids⟩ : ∃ padIds, padIds.length = pad.length ∧
      ids = (reqs.map (NGramReq.ids E)).flatten ++ padIds := by
    simp only [ids, hindex, List.map_append]
    refine ⟨_, ?_, congrArg (· ++ _) ?_⟩
    · rw [List.length_map, List.length_map, List.length_range]
    refine map_ragged_eq_flatten reqs _ (fun r col => ((List.range' 2 (E.ngramSize - 1)).map
      fun ngram => E.idBlock ngram (mixed ngram r (col + E.ngramSize - 1))).flatten) _ ?_
    intro r hr j hj
    unfold NGramReq.tokenIds
    congr 1
    apply List.map_congr_left
    intro n hn
    obtain ⟨k, hk, rfl⟩ := List.mem_range'.mp hn
    rw [hmixed r hr j hj _ (by omega) (by omega)]
  refine ⟨padIds, packed, hpadIds, ?_⟩
  rw [if_neg (by simp only [maxTokens]; omega), if_neg (by simp only [maxReqs]; omega),
    if_neg (by simp [hcontexts, hnumReqs]), hids]

/-- Every token of a call gets ids. -/
theorem length_of_forward {E : NGramEmbedding} {inputIds : List Long} {queryStartLoc : List Nat}
    {ngramContext : List (List Long)} {paddedBuffer paddedBuffer' : Nat × Nat → Long}
    {ngramIds : List (List Long)}
    (h : E.forward inputIds queryStartLoc ngramContext paddedBuffer =
      .ok (ngramIds, paddedBuffer')) : ngramIds.length = inputIds.length := by
  unfold NGramEmbedding.forward at h
  dsimp only at h
  split_ifs at h
  obtain ⟨rfl, _⟩ := Prod.mk.inj (Except.ok.inj h)
  simp

end FlashNext
