import FlashNext.NGram.Hashing
import FlashNext.Ple.Forward

/-!
# FlashNext.Ple.Embed

From token ids to embedding rows: the hashing and the split table together.

* `forward_pad_eq` — padding tokens are hashed as more tokens of the last request;
* `embed_eq_table_rows` — with a layer built from a configuration and a checkpoint read
  on every rank, every id of every token is a row of a shard, on every rank the same.
-/

namespace FlashNext

/-! ## padding -/

/-- `index`: the rows and columns under which tokens are packed. -/
def packIndex (queryStartLoc : List Nat) (numTokens maxTokens : Nat) : List (Nat × Nat) :=
  let requestIndices := (List.range numTokens).map fun p =>
    min (searchsortedRight queryStartLoc p - 1) (queryStartLoc.length - 1 - 1)
  requestIndices.zip ((List.range numTokens).zipWith
    (fun p r => min (p - queryStartLoc.getD r 0) (maxTokens - 1)) requestIndices)

/-- The offsets matter only for how tokens are packed. -/
theorem NGramEmbedding.forward_congr (E : NGramEmbedding) {inputIds : List Long}
    {loc loc' : List Nat} (hlen : loc.length = loc'.length)
    (hindex : packIndex loc inputIds.length E.maxTotalTokens =
      packIndex loc' inputIds.length E.maxTotalTokens)
    (ngramContext : List (List Long)) (paddedBuffer : Nat × Nat → Long) :
    E.forward inputIds loc ngramContext paddedBuffer =
      E.forward inputIds loc' ngramContext paddedBuffer := by
  unfold packIndex at hindex
  unfold NGramEmbedding.forward
  dsimp only at hindex ⊢
  rw [hindex, hlen]

/-- A request with more tokens. -/
def NGramReq.extend (q : NGramReq) (pad : List Long) : NGramReq where
  context := q.context
  tokens := q.tokens ++ pad

/-- The columns of the last row come last. -/
theorem ragged_concat (lens : List Nat) (n : Nat) :
    ragged (lens ++ [n]) = ragged lens ++ (List.range n).map (lens.length, ·) := by
  induction lens with
  | nil => simp [ragged]
  | cons m lens ih => simp [ragged, ih, Function.comp_def]

/-- Padding is packed behind the last request, as its own tokens are. -/
theorem packIndex_extend {lens : List Nat} {n pad maxTokens : Nat}
    (hmax : (lens ++ [n]).sum + pad ≤ maxTokens) :
    packIndex (cuSeqlens (lens ++ [n])) ((lens ++ [n]).sum + pad) maxTokens =
      packIndex (cuSeqlens (lens ++ [n + pad])) ((lens ++ [n]).sum + pad) maxTokens := by
  have hcount : ∀ k, (cuSeqlens (lens ++ [k])).length - 1 - 1 = (lens ++ [k]).length - 1 := by
    intro k
    simp [cuSeqlens]
  have hsum : (lens ++ [n]).sum + pad = (lens ++ [n + pad]).sum + 0 := by
    simp [Nat.add_assoc]
  have hne : ∀ k, lens ++ [k] ≠ [] := fun k => List.concat_ne_nil k lens
  have hpacked := packIndex_eq (hne n) pad hmax
  have hwhole := packIndex_eq (hne (n + pad)) 0 (hsum ▸ hmax)
  unfold packIndex
  rw [hcount, hcount]
  refine hpacked.trans ?_
  rw [hsum]
  refine Eq.trans ?_ hwhole.symm
  rw [ragged_concat, ragged_concat, List.range_add]
  simp [Function.comp_def]

/-- **Padding is hashed as more tokens of the last request.** -/
theorem forward_pad_eq (E : NGramEmbedding) (reqs : List NGramReq) (last : NGramReq)
    (pad : List Long) (more : List (List Long)) (paddedBuffer : Nat × Nat → Long)
    (htokens : ((reqs ++ [last]).map (·.tokens.length)).sum + pad.length ≤ E.maxTotalTokens) :
    E.forward (((reqs ++ [last]).map NGramReq.tokens).flatten ++ pad)
        (cuSeqlens ((reqs ++ [last]).map (·.tokens.length)))
        ((reqs ++ [last]).map NGramReq.context ++ more) paddedBuffer =
      E.forward (((reqs ++ [last.extend pad]).map NGramReq.tokens).flatten ++ [])
        (cuSeqlens ((reqs ++ [last.extend pad]).map (·.tokens.length)))
        ((reqs ++ [last.extend pad]).map NGramReq.context ++ more) paddedBuffer := by
  have hids : ((reqs ++ [last]).map NGramReq.tokens).flatten ++ pad =
      ((reqs ++ [last.extend pad]).map NGramReq.tokens).flatten ++ [] := by
    simp [NGramReq.extend]
  have hcontexts : (reqs ++ [last]).map NGramReq.context =
      (reqs ++ [last.extend pad]).map NGramReq.context := by
    simp [NGramReq.extend]
  rw [← hids, ← hcontexts]
  apply E.forward_congr
  · simp [cuSeqlens]
  · have hlen : (((reqs ++ [last]).map NGramReq.tokens).flatten ++ pad).length =
        (reqs.map (·.tokens.length) ++ [last.tokens.length]).sum + pad.length := by
      simp [Function.comp_def, Nat.add_assoc]
    simp only [List.map_append, List.map_cons, List.map_nil] at htokens hlen ⊢
    rw [hlen, packIndex_extend htokens]
    simp [NGramReq.extend]

/-! ## from ids to rows -/

section Embed

variable {ρ R : Type} [Mul R] [Zero R]

/-- The custom op `qwen4_exp_amd_ple_ngram_embedding` on the ids that `forward` computes, on rank
`r`: the rows of a token's ids one after another. -/
def NGramEmbedding.embed (E : NGramEmbedding) (X : PleEnv ρ R) (S : PleTable) (tpSize : Nat)
    (rank : Nat → PleRank) (st : Nat → PleState ρ R) (r : Nat) (inputIds : List Long)
    (queryStartLoc : List Nat) (ngramContext : List (List Long)) (paddedBuffer : Nat × Nat → Long) :
    Except PyError (List (List R) × (Nat × Nat → Long)) := do
  let (ngramIds, paddedBuffer) ← E.forward inputIds queryStartLoc ngramContext paddedBuffer
  let result ← FlashNext.forward X S tpSize rank st r (ngramIds.flatten.map BitVec.toInt)
  let heads := E.ngramHeadsOffsets.length
  return ((List.range ngramIds.length).map fun t =>
    ((result.drop (t * heads)).take heads).flatten, paddedBuffer)

/-- The rows of one list among lists of one length. -/
theorem take_drop_flatten {σ : Type} {rows : List (List σ)} {w t : Nat}
    (hw : ∀ row ∈ rows, row.length = w) (ht : t < rows.length) :
    (rows.flatten.drop (t * w)).take w = rows[t] := by
  induction rows generalizing t with
  | nil => simp at ht
  | cons row rows ih =>
      have hrow : row.length = w := hw row List.mem_cons_self
      have hrows : ∀ row ∈ rows, row.length = w := fun r hr => hw r (List.mem_cons_of_mem row hr)
      cases t with
      | zero => simp [← hrow]
      | succ t =>
          have ht : t < rows.length := by simpa using ht
          rw [List.flatten_cons, Nat.succ_mul, Nat.add_comm, ← List.drop_drop,
            List.drop_left' hrow, ih hrows ht, List.getElem_cons_succ]

end Embed

/-! ## ids of tokens -/

/-- A token has an id for each head. -/
theorem NGramReq.length_tokenIds (E : NGramEmbedding) (q : NGramReq) (j : Nat) :
    (q.tokenIds E j).length = E.ngramHeadsOffsets.length := by
  have hblocks : (List.range' 2 (E.ngramSize - 1)).map
      (List.length ∘ fun n => E.idBlock n (q.mix E j n)) =
        (List.range' 2 (E.ngramSize - 1)).map fun _ => E.headsPerNgram := by
    apply List.map_congr_left
    intro n hn
    obtain ⟨k, hk, rfl⟩ := List.mem_range'.mp hn
    exact E.length_idBlock (by omega) (by omega) _
  rw [NGramReq.tokenIds, List.length_flatten, List.map_map, E.length_offsets, hblocks]
  simp

/-- An id of a token is that of some head. -/
theorem NGramReq.mem_tokenIds {E : NGramEmbedding} {q : NGramReq} {j : Nat} {id : Long}
    (h : id ∈ q.tokenIds E j) : ∃ n, 2 ≤ n ∧ n ≤ E.ngramSize ∧ ∃ k < E.headsPerNgram,
      (E.idBlock n (q.mix E j n))[k]? = some id := by
  obtain ⟨block, hblock, hid⟩ := List.mem_flatten.mp h
  obtain ⟨n, hn, rfl⟩ := List.mem_map.mp hblock
  obtain ⟨i, hi, rfl⟩ := List.mem_range'.mp hn
  obtain ⟨k, hk, hget⟩ := List.getElem_of_mem hid
  have hlen := E.length_idBlock (n := 2 + 1 * i) (by omega) (by omega) (q.mix E j (2 + 1 * i))
  exact ⟨_, by omega, by omega, k, by omega, List.getElem?_eq_some_iff.mpr ⟨hk, hget⟩⟩

/-- The ids of a token are rows of the heads, whatever the token. -/
theorem BuiltFrom.tokenIds_lt {cfg : NGramConfig} {layer : Nat} {ms : List Int}
    {E : NGramEmbedding} {padded : Int} (hb : BuiltFrom cfg layer ms E padded)
    (htotal : headOffset cfg.ngramVocabSizeBase cfg.ngramHeads layer cfg.ngramHeads < 2 ^ 63)
    {q : NGramReq} {j : Nat} {id : Long} (hid : id ∈ q.tokenIds E j) :
    0 ≤ id.toInt ∧
      id.toInt < headOffset cfg.ngramVocabSizeBase cfg.ngramHeads layer cfg.ngramHeads := by
  obtain ⟨n, hn2, hn, k, hk, hget⟩ := NGramReq.mem_tokenIds hid
  obtain ⟨h, hh, -, id', hget', -, hin⟩ := hb.id_inHead htotal (q.mix E j n) hn2 hn hk
  obtain rfl : id = id' := Option.some.inj (hget.symm.trans hget')
  exact (hb.exists_inHead_iff _).mpr ⟨h, hh, hin⟩

/-! ## one embedding on all ranks -/

section Ranks

variable {ρ R : Type} [AddCommMonoid R] [Mul R] {X : PleEnv ρ R} {S : PleTable} {T : Nat}
  {rank : Nat → PleRank} {shard : Nat → PleTensor ρ R} {scale : PleElem ρ R}
  {st : Nat → PleState ρ R}

/-- **Every token gets rows of the checkpoint, on every rank the same**: with hash buffers built
from the configuration and a table padded as the configuration says, no id of a batch, padding
included, is out of the table, and each token gets the rows of its request's own ids. -/
theorem embed_eq_table_rows {embeddingCls : EmbeddingCls} {cfg : NGramConfig} {embeddingDim : Int}
    {layer maxTotalTokens maxNumReqs : Nat} {E : NGramEmbedding} {padded : Int}
    (hcls : embeddingCls.Documented)
    (hinit : NGramEmbedding.init embeddingCls cfg embeddingDim layer maxTotalTokens maxNumReqs =
      .ok (E, padded))
    (hX : X.Documented S T rank) (hsize : S.orgVocabSize = padded)
    (hst : ∀ r < T, HoldsRows X S shard scale (rank r) (st r)) (reqs : List NGramReq)
    (hne : reqs ≠ []) (pad : List Long) (more : List (List Long))
    (paddedBuffer : Nat × Nat → Long)
    (hreq : ∀ q ∈ reqs, q.context.length = cfg.ngramSize - 1)
    (htokens : (reqs.map (·.tokens.length)).sum + pad.length ≤ maxTotalTokens)
    (hreqs : reqs.length ≤ maxNumReqs) :
    ∃ embeddings paddedBuffer',
      (∀ r < T, E.embed X S T rank st r ((reqs.map NGramReq.tokens).flatten ++ pad)
          (cuSeqlens (reqs.map (·.tokens.length))) (reqs.map NGramReq.context ++ more)
          paddedBuffer = .ok (embeddings, paddedBuffer')) ∧
      embeddings.length = (reqs.map (·.tokens.length)).sum + pad.length ∧
      ∀ r (hr : r < reqs.length) j, j < reqs[r].tokens.length →
        embeddings[(cuSeqlens (reqs.map (·.tokens.length))).getD r 0 + j]? =
          some ((reqs[r].tokenIds E j).map fun id =>
            tableRow X S shard scale id.toInt.toNat).flatten := by
  obtain ⟨⟨ms, hb⟩, -, -, rfl, rfl⟩ := NGramEmbedding.init_eq_ok hinit
  have htotal := init_total_lt hcls hinit
  rw [← hb.ngramSize] at hreq
  obtain ⟨ids, paddedBuffer', hrun, hrows⟩ := forward_tokenIds E reqs hne pad more paddedBuffer
    hreq htokens hreqs
  have hidsLen := length_of_forward hrun
  -- the rows of ids are those of tokens, if padding belongs to the last request
  have hids : ∀ row ∈ ids, ∃ (q : NGramReq) (j : Nat), row = q.tokenIds E j := by
    obtain ⟨reqs, last, rfl⟩ := (List.eq_nil_or_concat' reqs).resolve_left hne
    have hreq' : ∀ q ∈ reqs ++ [last.extend pad], q.context.length = E.ngramSize - 1 := by
      intro q hq
      rcases List.mem_append.mp hq with hq | hq
      · exact hreq q (List.mem_append_left _ hq)
      · rw [List.mem_singleton.mp hq]
        exact hreq last (by simp)
    obtain ⟨padIds, left, hnil, hwhole⟩ := forward_eq E (reqs ++ [last.extend pad]) (by simp) []
      more paddedBuffer hreq'
      (by simpa [NGramReq.extend, Nat.add_assoc] using htokens) (by simpa using hreqs)
    rw [← forward_pad_eq E reqs last pad more paddedBuffer htokens, hrun,
      List.eq_nil_of_length_eq_zero hnil, List.append_nil] at hwhole
    obtain ⟨rfl, _⟩ := Prod.mk.inj (Except.ok.inj hwhole)
    intro row hrow
    obtain ⟨rows, hmem, hrow⟩ := List.mem_flatten.mp hrow
    obtain ⟨q, hq, rfl⟩ := List.mem_map.mp hmem
    obtain ⟨j, hj, rfl⟩ := List.mem_map.mp hrow
    exact ⟨q, j, rfl⟩
  have hlens : ∀ row ∈ ids, row.length = E.ngramHeadsOffsets.length := by
    intro row hrow
    obtain ⟨q, j, rfl⟩ := hids row hrow
    exact q.length_tokenIds E j
  have hbounds : ∀ id ∈ ids.flatten.map BitVec.toInt, 0 ≤ id ∧ id < S.orgVocabSize := by
    intro id hid
    obtain ⟨id', hid', rfl⟩ := List.mem_map.mp hid
    obtain ⟨row, hrow, hmem⟩ := List.mem_flatten.mp hid'
    obtain ⟨q, j, rfl⟩ := hids row hrow
    obtain ⟨hpos, hlt⟩ := hb.tokenIds_lt htotal hmem
    have hle := hb.padded
    exact ⟨hpos, by omega⟩
  refine ⟨ids.map fun row => (row.map fun id => tableRow X S shard scale id.toInt.toNat).flatten,
    paddedBuffer', ?_, ?_, ?_⟩
  · intro r hr
    unfold NGramEmbedding.embed
    refine bind_eq_ok.2 ⟨_, hrun, ?_⟩
    refine bind_eq_ok.2 ⟨_, forward_eq_tableRow hX hst hbounds hr, congrArg Except.ok ?_⟩
    congr 1
    rw [List.map_map, List.map_flatten]
    apply List.ext_getElem (by simp)
    intro t ht _
    have ht : t < ids.length := by simpa using ht
    simp only [List.getElem_map, List.getElem_range]
    rw [take_drop_flatten (t := t) _ (by simpa using ht)]
    · simp [Function.comp_def]
    · intro row hrow
      obtain ⟨row', hrow', rfl⟩ := List.mem_map.mp hrow
      rw [List.length_map, hlens row' hrow']
  · rw [List.length_map, hidsLen]
    simp [Function.comp_def]
  · intro r hr j hj
    rw [List.getElem?_map, hrows r hr j hj, Option.map_some]

end Ranks

/-! ## two ranks -/

/-- The half of a table that rank `r` of two keeps. -/
def halfRank (S : PleTable) (r : Nat) : PleRank :=
  let half := (S.orgVocabSize + 1) / 2
  { shardIndices := ⟨r * half, min (r * half + half) S.orgVocabSize, 0, 0, 0⟩
    numEmbeddingsPerPartition := half }

theorem exactEnv_documented_halves (S : PleTable) : exactEnv.Documented S 2 (halfRank S) where
  digit := exactEnv_documented.digit
  copies := fun _ _ _ _ _ => rfl
  ranges := by
    intro x hx
    refine ⟨if x < (S.orgVocabSize + 1) / 2 then 0 else 1, ⟨?_, ?_⟩, ?_⟩
    · split <;> omega
    · split <;> simp only [PleRank.Owns, halfRank] <;> omega
    · rintro r ⟨hr, hstart, hend⟩
      simp only [halfRank] at hstart hend
      interval_cases r <;> split <;> omega
  roomy := by
    intro r _
    exact Nat.min_le_left _ _
  maskOwn := by
    intro r _ x _ hown
    exact if_pos ⟨Int.ofNat_le.2 hown.1, Int.ofNat_lt.2 hown.2⟩
  maskOther := by
    intro r _ x hx hown
    refine ⟨0, ?_, if_neg ?_⟩
    · show 0 < (S.orgVocabSize + 1) / 2
      omega
    · rintro ⟨hstart, hend⟩
      exact hown ⟨Int.ofNat_le.1 hstart, Int.ofNat_lt.1 hend⟩
  reduces := fun _ => rfl
  loadsScale := exactEnv_documented.loadsScale

/-- The weights of a rank that has read the table. -/
def halfState (S : PleTable) (shard : Nat → PleTensor Int Int) (r : Nat) : PleState Int Int where
  buffers := fun _ => []
  weight := fun rj =>
    stored exactEnv S shard ((halfRank S r).shardIndices.orgVocabStartIndex + rj.1) rj.2
  weightScale := 2

/-- A table for the rows of all heads. -/
def tableOf (padded : Int) : PleTable where
  orgVocabSize := padded.toNat
  embeddingDim := 1
  splitNgramParts := 2
  splitNgramParts_pos := Nat.two_pos

/-- A request of two tokens and a padding token, on two ranks. -/
theorem embed_eq_table_rows_bigram :
    ∃ (E : NGramEmbedding) (S : PleTable) (embeddings : List (List Int)) (left : _), ∀ r < 2,
      E.embed exactEnv S 2 (halfRank S) (halfState S fiveShard) r [3, 7, 9] [0, 2] [[0]]
        (fun _ => 8) = .ok (embeddings, left) ∧ embeddings.length = 3 := by
  obtain ⟨E, padded, h⟩ := exists_bigramEmbedding
  have hrows : headOffset bigramConfig.ngramVocabSizeBase bigramConfig.ngramHeads 0
      bigramConfig.ngramHeads = 12 := by
    have := congrArg (·.2.2) makeVocabLayout_bigram
    rwa [makeVocabLayout_eq] at this
  obtain ⟨ms, hb⟩ := init_builtFrom h
  have hpadded := hb.padded
  have hst : ∀ r < 2, HoldsRows exactEnv (tableOf padded) fiveShard (.bf16 2)
      (halfRank (tableOf padded) r) (halfState (tableOf padded) fiveShard r) := by
    intro r _
    refine ⟨rfl, ?_⟩
    intro x j _ hown
    simp only [HoldsRow, halfState, Nat.add_sub_cancel' hown.1]
  have hreq : ∀ q ∈ [(⟨[0], [3, 7]⟩ : NGramReq)],
      q.context.length = bigramConfig.ngramSize - 1 := by
    intro q hq
    obtain rfl := List.mem_singleton.mp hq
    rfl
  obtain ⟨embeddings, left, hrun, hlen, _⟩ := embed_eq_table_rows storageCls_documented h
    (exactEnv_documented_halves (tableOf padded)) (Int.toNat_of_nonneg (by omega)) hst
    [⟨[0], [3, 7]⟩] (by decide) [9] [] (fun _ => 8) hreq (by decide) (by decide)
  exact ⟨E, tableOf padded, embeddings, left, fun r hr => ⟨hrun r hr, hlen⟩⟩

end FlashNext
