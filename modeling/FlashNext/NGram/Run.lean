import FlashNext.NGram.Request
import FlashNext.Window

/-!
# FlashNext.NGram.Run

* `forward_id` — the id of every head at every token of a batch;
* `chunked_ids_eq` — a request may be cut into chunks, and batched with anything,
  without changing its ids.
-/

namespace FlashNext

/-! ## the ids of a batch -/

/-- The heads of the `n`-grams end within those of the embedding. -/
theorem NGramEmbedding.headBlock_le (E : NGramEmbedding) {n : Nat} (hn : 2 ≤ n)
    (hle : n ≤ E.ngramSize) :
    (n - 2) * E.headsPerNgram + E.headsPerNgram ≤ (E.ngramSize - 1) * E.headsPerNgram := by
  rw [← Nat.succ_mul]
  exact Nat.mul_le_mul_right _ (by omega)

theorem NGramEmbedding.getElem?_idBlock (E : NGramEmbedding) {n h : Nat} (hn : 2 ≤ n)
    (hle : n ≤ E.ngramSize) (hh : h < E.headsPerNgram) (mixed : Long) :
    (E.idBlock n mixed)[h]? =
      some (mixed.smod (E.ngramHeadsVocabSizes.getD ((n - 2) * E.headsPerNgram + h) 0) +
        E.ngramHeadsOffsets.getD ((n - 2) * E.headsPerNgram + h) 0) := by
  have hlt : (n - 2) * E.headsPerNgram + h < (E.ngramSize - 1) * E.headsPerNgram :=
    (Nat.add_lt_add_left hh _).trans_le (E.headBlock_le hn hle)
  have hsize : (n - 2) * E.headsPerNgram + h < E.ngramHeadsVocabSizes.length :=
    E.length_sizes ▸ hlt
  have hoffset : (n - 2) * E.headsPerNgram + h < E.ngramHeadsOffsets.length :=
    E.length_offsets ▸ hlt
  simp [NGramEmbedding.idBlock, List.getElem?_zipWith, hh, hsize, hoffset]

theorem NGramEmbedding.length_idBlock (E : NGramEmbedding) {n : Nat} (hn : 2 ≤ n)
    (hle : n ≤ E.ngramSize) (mixed : Long) : (E.idBlock n mixed).length = E.headsPerNgram := by
  have hroom := E.headBlock_le hn hle
  simp only [NGramEmbedding.idBlock, List.length_zipWith, List.length_take, List.length_drop,
    E.length_sizes, E.length_offsets]
  omega

/-- Head `h` of the `n`-gram that ends at token `j`. -/
theorem NGramReq.getElem?_tokenIds (E : NGramEmbedding) (q : NGramReq) (j : Nat) {n h : Nat}
    (hn : 2 ≤ n) (hle : n ≤ E.ngramSize) (hh : h < E.headsPerNgram) :
    (q.tokenIds E j)[(n - 2) * E.headsPerNgram + h]? =
      some ((q.mix E j n).smod (E.ngramHeadsVocabSizes.getD ((n - 2) * E.headsPerNgram + h) 0) +
        E.ngramHeadsOffsets.getD ((n - 2) * E.headsPerNgram + h) 0) := by
  have hge := E.ngramSize_ge
  have hblock : (List.range' 2 (E.ngramSize - 1))[n - 2]? = some n := by
    rw [List.getElem?_range' (by omega)]
    congr 1
    omega
  unfold NGramReq.tokenIds
  rw [getElem?_flatten_uniform _ hh, List.getElem?_map, hblock, Option.map_some, Option.bind_some,
    E.getElem?_idBlock hn hle hh]
  intro block hmem
  obtain ⟨m, hm, rfl⟩ := List.mem_map.mp hmem
  obtain ⟨k, hk, rfl⟩ := List.mem_range'.mp hm
  exact E.length_idBlock (by omega) (by omega) _

/-- A batch gets the ids of its requests, each token at its place in the batch. -/
theorem forward_tokenIds (E : NGramEmbedding) (reqs : List NGramReq) (hne : reqs ≠ [])
    (pad : List Long) (more : List (List Long)) (paddedBuffer : Nat × Nat → Long)
    (hctx : ∀ q ∈ reqs, q.context.length = E.ngramSize - 1)
    (htokens : (reqs.map (·.tokens.length)).sum + pad.length ≤ E.maxTotalTokens)
    (hreqs : reqs.length ≤ E.maxNumReqs) :
    ∃ ids paddedBuffer',
      E.forward ((reqs.map NGramReq.tokens).flatten ++ pad)
          (cuSeqlens (reqs.map (·.tokens.length))) (reqs.map NGramReq.context ++ more)
          paddedBuffer = .ok (ids, paddedBuffer') ∧
      ∀ r (hr : r < reqs.length) j, j < reqs[r].tokens.length →
        ids[(cuSeqlens (reqs.map (·.tokens.length))).getD r 0 + j]? =
          some (reqs[r].tokenIds E j) := by
  obtain ⟨padIds, paddedBuffer', _, hrun⟩ :=
    forward_eq E reqs hne pad more paddedBuffer hctx htokens hreqs
  refine ⟨_, paddedBuffer', hrun, ?_⟩
  intro r hr j hj
  have hlens : reqs.map (·.tokens.length) = (reqs.map (NGramReq.ids E)).map List.length := by
    rw [List.map_map]
    apply List.map_congr_left
    intro q _
    simp [NGramReq.ids]
  have hrow : (reqs.map (NGramReq.ids E)).flatten[
      (cuSeqlens (reqs.map (·.tokens.length))).getD r 0 + j]? = some (reqs[r].tokenIds E j) := by
    rw [hlens, getElem?_flatten_cuSeqlens
      (show (reqs.map (NGramReq.ids E))[r]? = some (reqs[r].ids E) by simp [hr])
      (by simpa [NGramReq.ids] using hj)]
    simp [NGramReq.ids, hj]
  have hlt := (List.getElem?_eq_some_iff.mp hrow).1
  rw [List.getElem?_append_left hlt, hrow]

/-- **Batched n-gram hashing is the definition, request by request**: whatever the buffer held and
whatever else is in the batch, the id of head `h` of the `n`-gram that ends at token `j` of request
`r` is the offset of the head plus the mixed n-gram modulo the size of the head. -/
theorem forward_id (E : NGramEmbedding) (reqs : List NGramReq) (hne : reqs ≠ []) (pad : List Long)
    (more : List (List Long)) (paddedBuffer : Nat × Nat → Long)
    (hctx : ∀ q ∈ reqs, q.context.length = E.ngramSize - 1)
    (htokens : (reqs.map (·.tokens.length)).sum + pad.length ≤ E.maxTotalTokens)
    (hreqs : reqs.length ≤ E.maxNumReqs) :
    ∃ ids paddedBuffer',
      E.forward ((reqs.map NGramReq.tokens).flatten ++ pad)
          (cuSeqlens (reqs.map (·.tokens.length))) (reqs.map NGramReq.context ++ more)
          paddedBuffer = .ok (ids, paddedBuffer') ∧
      ∀ r (hr : r < reqs.length) j, j < reqs[r].tokens.length →
        ∀ n, 2 ≤ n → n ≤ E.ngramSize → ∀ h < E.headsPerNgram,
          let token := (cuSeqlens (reqs.map (·.tokens.length))).getD r 0 + j
          let head := (n - 2) * E.headsPerNgram + h
          ids[token]?.bind (·[head]?) =
            some (((List.range n).foldl (fun acc i => acc ^^^
                (E.layerMultipliers.getD i 0 * reqs[r].back E j i)) 0).smod
              (E.ngramHeadsVocabSizes.getD head 0) + E.ngramHeadsOffsets.getD head 0) := by
  obtain ⟨ids, paddedBuffer', hrun, hrow⟩ :=
    forward_tokenIds E reqs hne pad more paddedBuffer hctx htokens hreqs
  refine ⟨ids, paddedBuffer', hrun, ?_⟩
  intro r hr j hj n hn hle h hh
  simp only
  rw [hrow r hr j hj, Option.bind_some]
  exact reqs[r].getElem?_tokenIds E j hn hle hh

/-- The trigram that ends at the only token of the second request, cut by an EOS in its context. -/
theorem forward_id_second_request :
    ∃ ids paddedBuffer', trigramEmbedding.forward [4, 0, 6, 9] [0, 2, 3] [[1, 2], [0, 5]]
        (fun _ => 8) = .ok (ids, paddedBuffer') ∧
      ids[2]?.bind (·[1]?) = some 22 := by
  obtain ⟨ids, paddedBuffer', hrun, hid⟩ := forward_id trigramEmbedding
    [⟨[1, 2], [4, 0]⟩, ⟨[0, 5], [6]⟩] (by decide) [9] [] (fun _ => 8) (by decide) (by decide)
    (by decide)
  refine ⟨ids, paddedBuffer', hrun, ?_⟩
  have htrigram := hid 1 (by decide) 0 (by decide) 3 (by decide) (by decide) 0 (by decide)
  exact htrigram.trans (by decide)

/-! ## chunks -/

/-- The ids of a token depend only on the tokens that an n-gram reaches. -/
theorem NGramReq.tokenIds_congr {E : NGramEmbedding} {q q' : NGramReq} {j j' : Nat}
    (h : ∀ i < E.ngramSize, q.back E j i = q'.back E j' i) : q.tokenIds E j = q'.tokenIds E j' := by
  have hge := E.ngramSize_ge
  unfold NGramReq.tokenIds
  congr 1
  apply List.map_congr_left
  intro n hn
  obtain ⟨k, hk, rfl⟩ := List.mem_range'.mp hn
  congr 1
  apply List.foldl_ext
  intro acc i hi
  have hi : i < 2 + 1 * k := List.mem_range.mp hi
  rw [h i (by omega)]

/-- A request that continues `history`: its context is the window of the history. -/
def NGramEmbedding.resume (E : NGramEmbedding) (history tokens : List Long) : NGramReq where
  context := window E.eosTokenId (E.ngramSize - 1) history
  tokens := tokens

/-- Cutting a chunk in two does not change its ids: no n-gram sees further back than the window. -/
theorem ids_append (E : NGramEmbedding) (history xs ys : List Long) :
    (E.resume history (xs ++ ys)).ids E =
      (E.resume history xs).ids E ++ (E.resume (history ++ xs) ys).ids E := by
  have hge := E.ngramSize_ge
  unfold NGramReq.ids
  rw [NGramEmbedding.resume, List.length_append, List.range_add, List.map_append, List.map_map]
  congr 1
  · apply List.map_congr_left
    intro j hj
    have hj : j < xs.length := List.mem_range.mp hj
    apply NGramReq.tokenIds_congr
    intro i hi
    unfold NGramReq.back NGramEmbedding.resume
    rw [← List.append_assoc, segmentBack_append _ _ _ (by rw [length_window]; omega)
      (by rw [List.length_append]; omega)]
  · apply List.map_congr_left
    intro j _
    apply NGramReq.tokenIds_congr
    intro i hi
    have hseq : window E.eosTokenId (E.ngramSize - 1) (history ++ xs) ++ ys =
        (window E.eosTokenId (E.ngramSize - 1) history ++ (xs ++ ys)).drop xs.length := by
      rw [window_append_eq_drop, window_append_eq_drop, List.drop_drop, List.length_append,
        List.append_assoc]
    unfold NGramReq.back NGramEmbedding.resume
    simp only [length_window]
    rw [hseq, segmentBack_drop _ _ (by omega)]
    congr 1
    omega

/-- One call of `forward` that feeds a chunk of the request among other requests. -/
structure NGramCall where
  before : List NGramReq
  chunk : List Long
  after : List NGramReq
  pad : List Long
  moreContext : List (List Long)

/-- The requests of a call, given the tokens the request has been fed before. -/
def NGramCall.reqs (E : NGramEmbedding) (history : List Long) (call : NGramCall) : List NGramReq :=
  call.before ++ E.resume history call.chunk :: call.after

/-- The call is non-empty and fits the workspace, and its contexts have the right width. -/
structure NGramCall.Fits (E : NGramEmbedding) (call : NGramCall) : Prop where
  chunk_ne : call.chunk ≠ []
  context : ∀ q ∈ call.before ++ call.after, q.context.length = E.ngramSize - 1
  tokens : (call.before.map (·.tokens.length)).sum + call.chunk.length +
    (call.after.map (·.tokens.length)).sum + call.pad.length ≤ E.maxTotalTokens
  count : call.before.length + 1 + call.after.length ≤ E.maxNumReqs

/-- The ids that a call returns for the request's chunk. -/
def NGramCall.run (E : NGramEmbedding) (history : List Long) (paddedBuffer : Nat × Nat → Long)
    (call : NGramCall) : Except PyError (List (List Long) × (Nat × Nat → Long)) :=
  let reqs := call.reqs E history
  (E.forward ((reqs.map NGramReq.tokens).flatten ++ call.pad)
    (cuSeqlens (reqs.map (·.tokens.length))) (reqs.map NGramReq.context ++ call.moreContext)
    paddedBuffer).map fun r =>
      ((r.1.drop (call.before.map (·.tokens.length)).sum).take call.chunk.length, r.2)

/-- Feed the chunks call by call, each with the context that the ones before leave, on the same
buffer. -/
def runCalls (E : NGramEmbedding) : List NGramCall → List Long → (Nat × Nat → Long) →
    Except PyError (List (List Long) × (Nat × Nat → Long))
  | [], _, paddedBuffer => .ok ([], paddedBuffer)
  | call :: calls, history, paddedBuffer =>
    match call.run E history paddedBuffer with
    | .error e => .error e
    | .ok (ids, paddedBuffer) =>
      match runCalls E calls (history ++ call.chunk) paddedBuffer with
      | .error e => .error e
      | .ok (rest, paddedBuffer) => .ok (ids ++ rest, paddedBuffer)

/-- One call returns the ids of the chunk continuing its history. -/
theorem NGramCall.run_eq {E : NGramEmbedding} {call : NGramCall} (hfits : call.Fits E)
    (history : List Long) (paddedBuffer : Nat × Nat → Long) :
    ∃ paddedBuffer', call.run E history paddedBuffer =
      .ok ((E.resume history call.chunk).ids E, paddedBuffer') := by
  have hctx : ∀ q ∈ call.reqs E history, q.context.length = E.ngramSize - 1 := by
    intro q hq
    rcases List.mem_append.mp hq with hq | hq
    · exact hfits.context q (List.mem_append_left _ hq)
    · rcases List.mem_cons.mp hq with rfl | hq
      · exact length_window _ _ _
      · exact hfits.context q (List.mem_append_right _ hq)
  obtain ⟨padIds, paddedBuffer', _, hrun⟩ := forward_eq E (call.reqs E history)
    (by simp [NGramCall.reqs]) call.pad call.moreContext paddedBuffer hctx
    (by simpa [NGramCall.reqs, NGramEmbedding.resume, Nat.add_assoc] using hfits.tokens)
    (by simpa [NGramCall.reqs, Nat.add_assoc, Nat.add_comm, Nat.add_left_comm] using hfits.count)
  refine ⟨paddedBuffer', ?_⟩
  unfold NGramCall.run
  simp only [hrun, Except.map]
  congr 2
  have hbefore : ((call.before.map (NGramReq.ids E)).flatten).length =
      (call.before.map (·.tokens.length)).sum := by
    simp [NGramReq.ids, Function.comp_def]
  have hchunk : ((E.resume history call.chunk).ids E).length = call.chunk.length := by
    simp [NGramReq.ids, NGramEmbedding.resume]
  rw [NGramCall.reqs, List.map_append, List.flatten_append, List.append_assoc,
    List.drop_left' hbefore, List.map_cons, List.flatten_cons, List.append_assoc,
    List.take_left' hchunk]

/-- The calls from any point on continue the ids of what came before. -/
theorem runCalls_from {E : NGramEmbedding} {calls : List NGramCall}
    (hfits : ∀ call ∈ calls, call.Fits E) (history : List Long)
    (paddedBuffer : Nat × Nat → Long) :
    ∃ paddedBuffer', runCalls E calls history paddedBuffer =
      .ok ((E.resume history (calls.map NGramCall.chunk).flatten).ids E, paddedBuffer') := by
  induction calls generalizing history paddedBuffer with
  | nil => exact ⟨paddedBuffer, rfl⟩
  | cons call calls ih =>
      obtain ⟨paddedBuffer₁, hrun⟩ :=
        NGramCall.run_eq (hfits call List.mem_cons_self) history paddedBuffer
      obtain ⟨paddedBuffer₂, hruns⟩ := ih (fun c hc => hfits c (List.mem_cons_of_mem _ hc))
        (history ++ call.chunk) paddedBuffer₁
      refine ⟨paddedBuffer₂, ?_⟩
      simp only [runCalls, hrun, hruns, List.map_cons, List.flatten_cons, ids_append]

/-- **N-gram ids do not depend on how a request is chunked**: whatever is batched with the chunks
and whatever the buffer held, their ids one after another are those of one call on the whole
sequence with a context of EOS. -/
theorem chunked_ids_eq (E : NGramEmbedding) (calls : List NGramCall)
    (hfits : ∀ call ∈ calls, call.Fits E) (paddedBuffer paddedBuffer' : Nat × Nat → Long)
    (hwhole : (calls.map NGramCall.chunk).flatten.length ≤ E.maxTotalTokens)
    (hreqs : 1 ≤ E.maxNumReqs) :
    let whole := (calls.map NGramCall.chunk).flatten
    ∃ ids left left', runCalls E calls [] paddedBuffer = .ok (ids, left) ∧
      E.forward whole [0, whole.length] [List.replicate (E.ngramSize - 1) E.eosTokenId]
        paddedBuffer' = .ok (ids, left') := by
  intro whole
  obtain ⟨left, hruns⟩ := runCalls_from hfits [] paddedBuffer
  obtain ⟨padIds, left', hpad, hrun⟩ := forward_eq E [E.resume [] whole]
    (by simp) [] [] paddedBuffer' (by simp [NGramEmbedding.resume])
    (by simpa [NGramEmbedding.resume, whole] using hwhole) (by simpa using hreqs)
  have hnil : padIds = [] := List.eq_nil_of_length_eq_zero hpad
  refine ⟨_, left, left', hruns, ?_⟩
  simpa [NGramEmbedding.resume, cuSeqlens, cuSeqlensFrom, hnil] using hrun

/-- Two chunks, the second batched behind another request. -/
theorem chunked_ids_eq_two_chunks :
    ∃ ids left left', runCalls trigramEmbedding
        [⟨[], [4, 0], [], [], []⟩, ⟨[⟨[1, 1], [8]⟩], [6], [], [9], []⟩] [] (fun _ => 8) =
          .ok (ids, left) ∧
      trigramEmbedding.forward [4, 0, 6] [0, 3] [[0, 0]] (fun _ => 5) = .ok (ids, left') :=
  chunked_ids_eq trigramEmbedding
    [⟨[], [4, 0], [], [], []⟩, ⟨[⟨[1, 1], [8]⟩], [6], [], [9], []⟩]
    (by
      intro call hcall
      simp only [List.mem_cons, List.not_mem_nil, or_false] at hcall
      rcases hcall with rfl | rfl
      · exact ⟨by decide, by decide, by decide, by decide⟩
      · exact ⟨by decide, by decide, by decide, by decide⟩)
    (fun _ => 8) (fun _ => 5) (by decide) (by decide)

end FlashNext
