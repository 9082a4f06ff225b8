import FlashNext.ShortConv.Batch

/-!
# FlashNext.ShortConv.Isolation

A mixed batch is as good as its requests one by one: jobs on distinct slots do
not meet (`runAll_at_key`), so the rows and the slot of each request are those of
dispatching it alone.
-/

namespace FlashNext

variable {ι α β : Type}

/-! ## one request alone -/

/-- The metadata of an empty batch. -/
def emptyMetadata (specQueryLen : Nat) : Metadata where
  numActualTokens := 0
  numDecodes := 0
  numDecodeTokens := 0
  numPrefills := 0
  numPrefillTokens := 0
  numSpecDecodes := 0
  stateIndicesTensor := none
  hasInitialStatesD := none
  hasInitialStatesP := none
  nonSpecQueryStartLoc := none
  maxPrefillQueryLen := 0
  specSequenceMasks := none
  specTokenIndx := none
  nonSpecTokenIndx := none
  specStateIndicesTensor := none
  specQueryStartLoc := none
  numAcceptedTokens := none
  specQueryLen := specQueryLen

/-- The metadata of a batch of one request. -/
def Req.alone (specQueryLen : Nat) : Req ι α → Metadata
  | .spec q =>
    { emptyMetadata specQueryLen with
      numActualTokens := q.tokens.length
      numSpecDecodes := 1
      specSequenceMasks := some [true]
      specStateIndicesTensor := some [q.slot]
      specQueryStartLoc := some [0, q.tokens.length]
      numAcceptedTokens := some [q.accepted] }
  | .decode q =>
    { emptyMetadata specQueryLen with
      numActualTokens := 1
      numDecodes := 1
      numDecodeTokens := 1
      stateIndicesTensor := some [q.slot]
      hasInitialStatesD := some [q.hasInitial]
      nonSpecQueryStartLoc := some [0, 1] }
  | .prefill q =>
    { emptyMetadata specQueryLen with
      numActualTokens := q.tokens.length
      numPrefills := 1
      numPrefillTokens := q.tokens.length
      stateIndicesTensor := some [q.slot]
      hasInitialStatesP := some [q.hasInitial]
      nonSpecQueryStartLoc := some [0, q.tokens.length]
      maxPrefillQueryLen := q.tokens.length }

/-- The batch of one request. -/
def Req.batch (q : Req ι α) : Batch ι α :=
  let rows := List.range q.tokens.length
  match q with
  | .spec q => ⟨[⟨q, rows⟩], [], []⟩
  | .decode q => ⟨[], [⟨q, rows⟩], []⟩
  | .prefill q => ⟨[], [], [⟨q, rows⟩]⟩

theorem Req.requests_batch (q : Req ι α) :
    q.batch.requests = [⟨q, List.range q.tokens.length⟩] := by
  cases q <;> rfl

/-- The metadata of one request describes the batch of that request. -/
theorem Req.describes_alone {specQueryLen : Nat} (q : Req ι α)
    (hlen : (∃ p, q = .spec p) → 0 < specQueryLen) :
    (q.alone specQueryLen).Describes q.tokens q.batch := by
  have htokens : ∀ p ∈ q.batch.requests, p.rows.map (q.tokens[·]?) = p.req.tokens.map some := by
    rw [q.requests_batch]
    intro p hp
    rw [List.mem_singleton.mp hp]
    apply List.ext_getElem <;> simp
  cases q with
  | spec q =>
      exact {
        tokens := htokens
        numActualTokens := Nat.le_refl _
        numSpecDecodes := rfl
        numDecodes := rfl
        numDecodeTokens := rfl
        numPrefills := rfl
        numPrefillTokens := rfl
        spec := fun _ => ⟨rfl, by simp [Req.alone, Req.batch, cuSeqlens, cuSeqlensFrom], rfl,
          hlen ⟨q, rfl⟩⟩
        nonSpec := by simp [Req.alone, Req.batch]
        layout := .specOnly rfl rfl rfl (Nat.le_refl _) (by
          simp [Batch.rows, Req.alone, Req.batch, Batch.requests, Req.tokens]) }
  | decode q =>
      exact {
        tokens := htokens
        numActualTokens := Nat.le_refl _
        numSpecDecodes := rfl
        numDecodes := rfl
        numDecodeTokens := rfl
        numPrefills := rfl
        numPrefillTokens := rfl
        spec := by simp [Req.alone, emptyMetadata]
        nonSpec := fun _ => ⟨⟨[], rfl, fun _ => rfl⟩, rfl, by simp [Req.batch], by simp [Req.batch],
          by simp [Req.batch]⟩
        layout := .plain rfl rfl (by
          simp [Batch.rows, Req.alone, Req.batch, Batch.requests, Req.tokens]) }
  | prefill q =>
      exact {
        tokens := htokens
        numActualTokens := Nat.le_refl _
        numSpecDecodes := rfl
        numDecodes := rfl
        numDecodeTokens := rfl
        numPrefills := rfl
        numPrefillTokens := by simp [Req.alone, Req.batch]
        spec := by simp [Req.alone, emptyMetadata]
        nonSpec := fun _ => ⟨⟨[], rfl, fun _ => rfl⟩,
          by simp [Req.alone, Req.batch, emptyMetadata, DecodeFlags], fun _ => rfl,
          fun _ => by simp [Req.alone, Req.batch, cuSeqlens, cuSeqlensFrom],
          by simp [Req.alone, Req.batch]⟩
        layout := .plain rfl rfl (by
          simp [Batch.rows, Req.alone, Req.batch, Batch.requests, Req.tokens]) }

section Isolation

variable [Add α] [MulZeroOneClass α] {L : PleLayer ι α β} {convState : ConvState ι β}

/-- Dispatching one request alone runs its job. -/
theorem dispatch_alone (uninitP uninit : Nat → Row ι α) {specQueryLen : Nat} (q : Req ι α)
    (hspec : (∃ p, q = .spec p) → 0 < specQueryLen)
    (hcols : (∃ p, q = .spec p) → 0 < L.convStateLen →
      L.convStateLen + specQueryLen - 1 ≤ convState.columns) :
    let run := (q.job L specQueryLen (0 < convState.slots)).run (convState.data q.slot)
    shortConvDilatedDispatch L uninitP uninit q.tokens (q.alone specQueryLen) convState =
      .ok (run.1, { convState with data := Function.update convState.data q.slot run.2 }) := by
  intro run
  have hdistinct : DistinctSlots q.batch.slots := by
    unfold DistinctSlots Batch.slots
    rw [q.requests_batch]
    exact List.Nodup.filter _ (List.nodup_singleton _)
  have hlen : (q.alone specQueryLen).specQueryLen = specQueryLen := by cases q <;> rfl
  have hcount : (q.alone specQueryLen).numActualTokens = run.1.length := by
    rw [Req.length_job]
    cases q <;> rfl
  have hrows : q.batch.rows = List.range run.1.length := by
    rw [Batch.rows, q.requests_batch, Req.length_job]
    simp
  have hjobs : q.batch.jobs L specQueryLen (0 < convState.slots) =
      [q.job L specQueryLen (0 < convState.slots)] := by
    rw [Batch.jobs, q.requests_batch]
    rfl
  have h := dispatch_eq_runAll L uninitP uninit convState
    (q.describes_alone hspec) hdistinct (by
      rw [hlen]
      intro hmask
      apply hcols
      cases q with
      | spec q => exact ⟨q, rfl⟩
      | decode q => simp [Req.alone, emptyMetadata] at hmask
      | prefill q => simp [Req.alone, emptyMetadata] at hmask)
  rw [hlen, hjobs, hcount, hrows] at h
  simp only [runAll, List.map_cons, List.map_nil, List.flatten_singleton, Req.job_key, scatter_cons,
    scatter_nil] at h
  rw [h, map_scatter_range_zip _ _ (Nat.le_refl _)]
  simp [run]

/-! ## one request among others -/

omit [Add α] [MulZeroOneClass α] in
theorem Metadata.Describes.nodup_rows {m : Metadata} {inputs : List (Row ι α)} {b : Batch ι α}
    (h : m.Describes inputs b) : b.rows.Nodup := by
  cases h.layout with
  | plain _ _ hrows => exact hrows ▸ List.nodup_range
  | specOnly _ _ _ _ hrows => exact hrows ▸ List.nodup_range
  | mixed _ _ _ _ hcover => exact hcover.nodup_iff.mpr List.nodup_range

omit [Add α] [MulZeroOneClass α] in
theorem Metadata.Describes.rows_lt {m : Metadata} {inputs : List (Row ι α)} {b : Batch ι α}
    (h : m.Describes inputs b) {k : Nat} (hk : k ∈ b.rows) : k < m.numActualTokens := by
  cases h.layout with
  | plain _ _ hrows => exact List.mem_range.mp (hrows ▸ hk)
  | specOnly _ _ _ htotal hrows =>
      exact Nat.lt_of_lt_of_le (List.mem_range.mp (hrows ▸ hk)) htotal
  | mixed _ _ _ _ hcover => exact List.mem_range.mp (hcover.mem_iff.mp hk)

/-- In the merged output a request finds the rows that its job computes. -/
theorem Metadata.Describes.output_rows {m : Metadata} {inputs : List (Row ι α)} {b : Batch ι α}
    (h : m.Describes inputs b) (maxLen : Nat) (cached : Bool) (st : Nat → Slot ι β)
    {p : Placed (Req ι α)} (hp : p ∈ b.requests) :
    p.rows.map (((List.range m.numActualTokens).map
        (scatter (fun _ => 0) (b.rows.zip (runAll (b.jobs L maxLen cached) st).1.flatten)))[·]?) =
      ((p.req.job L maxLen cached).run (st p.req.slot)).1.map some := by
  have hlen : ∀ p ∈ b.requests,
      p.rows.length = ((p.req.job L maxLen cached).run (st p.req.slot)).1.length :=
    fun p hp => (h.length_rows hp).trans (Req.length_job L maxLen cached p.req _).symm
  have hzip : b.rows.zip (runAll (b.jobs L maxLen cached) st).1.flatten =
      (b.requests.map fun p => p.rows.zip
        ((p.req.job L maxLen cached).run (st p.req.slot)).1).flatten := by
    rw [← zip_flatten _ _ _ hlen]
    simp [runAll, Batch.jobs, Batch.rows, Function.comp_def]
  have hkeys :
      ((b.rows.zip (runAll (b.jobs L maxLen cached) st).1.flatten).map Prod.fst).Nodup := by
    rw [List.map_fst_zip (Nat.le_of_eq (h.length_runAll maxLen cached st).symm)]
    exact h.nodup_rows
  apply List.ext_getElem
  · simpa using hlen p hp
  · intro j hj hj'
    rw [List.length_map] at hj hj'
    have hrow : p.rows[j] ∈ b.rows :=
      List.mem_flatten.mpr ⟨_, List.mem_map.mpr ⟨p, hp, rfl⟩, List.getElem_mem hj⟩
    have hwrite : (p.rows[j], ((p.req.job L maxLen cached).run (st p.req.slot)).1[j]) ∈
        b.rows.zip (runAll (b.jobs L maxLen cached) st).1.flatten := by
      rw [hzip]
      refine List.mem_flatten.mpr ⟨_, List.mem_map.mpr ⟨p, hp, rfl⟩, ?_⟩
      rw [← List.getElem_zip (h := by simpa using ⟨hj, hj'⟩)]
      exact List.getElem_mem _
    rw [List.getElem_map, List.getElem_map, List.getElem?_map,
      List.getElem?_range (h.rows_lt hrow), Option.map_some, scatter_of_nodup hkeys hwrite]

/-- **Batching is invisible to a request**: its rows, at the positions of its tokens, and its slot
are those of dispatching it alone; padding rows are zero, and a slot that no request names, or the
NULL slot, is unchanged. -/
theorem dispatch_isolated (L : PleLayer ι α β) (uninitP uninit : Nat → Row ι α) (m : Metadata)
    (inputs : List (Row ι α)) (b : Batch ι α) (convState : ConvState ι β)
    (h : m.Describes inputs b) (hdistinct : DistinctSlots b.slots)
    (hcols : m.specSequenceMasks.isSome → 0 < L.convStateLen →
      L.convStateLen + m.specQueryLen - 1 ≤ convState.columns) :
    ∃ output data,
      shortConvDilatedDispatch L uninitP uninit inputs m convState =
        .ok (output, { convState with data := data }) ∧
      output.length = m.numActualTokens ∧
      (∀ p ∈ b.requests, ∀ uninitP' uninit', ∃ rows dataAlone,
        shortConvDilatedDispatch L uninitP' uninit' p.req.tokens (p.req.alone m.specQueryLen)
          convState = .ok (rows, { convState with data := dataAlone }) ∧
        p.rows.map (output[·]?) = rows.map some ∧
        data p.req.slot = dataAlone p.req.slot) ∧
      (∀ k < m.numActualTokens, k ∉ b.rows → output[k]? = some 0) ∧
      (∀ slot, slot = nullBlockId ∨ slot ∉ b.slots → data slot = convState.data slot) := by
  have hsep := Batch.separate_jobs L m.specQueryLen (0 < convState.slots) hdistinct
  refine ⟨_, _, dispatch_eq_runAll L uninitP uninit convState h hdistinct hcols, by simp,
    ?_, ?_, ?_⟩
  · intro p hp uninitP' uninit'
    have hmask : (∃ q, p.req = .spec q) → m.specSequenceMasks.isSome := by
      rintro ⟨q, hq⟩
      cases h.layout with
      | plain _ hspec _ =>
          obtain ⟨req, rows⟩ := p
          subst hq
          simp [Batch.requests, hspec] at hp
      | specOnly hmask => exact hmask
      | mixed hmask => exact hmask
    refine ⟨_, _, dispatch_alone uninitP' uninit' p.req (fun hq => (h.spec (hmask hq)).queryLen)
      (fun hq => hcols (hmask hq)), h.output_rows _ _ _ hp, ?_⟩
    · have hjob : p.req.job L m.specQueryLen (0 < convState.slots) ∈
          b.jobs L m.specQueryLen (0 < convState.slots) := List.mem_map.mpr ⟨p, hp, rfl⟩
      have hslot := runAll_at_key hsep convState.data hjob
      rw [Req.job_key] at hslot
      rw [hslot, Function.update_self]
  · intro k hk hpad
    rw [List.getElem?_map, List.getElem?_range hk, Option.map_some, scatter_of_notMem]
    rw [List.map_fst_zip (Nat.le_of_eq (h.length_runAll _ _ _).symm)]
    exact hpad
  · intro slot hslot
    apply runAll_at_idle
    intro j hj hkey
    obtain ⟨p, hp, rfl⟩ := List.mem_map.mp hj
    rw [Req.job_key] at hkey
    rcases hslot with hnull | hnot
    · exact Req.job_idle L _ _ (hkey.trans hnull)
    · exact absurd (List.mem_map.mpr ⟨p, hp, hkey⟩) hnot

end Isolation

/-- A speculative request on rows 0 and 2, a decode request on row 3 and a prefill request on
row 1. -/
def interleavedBatch : Batch Unit Int where
  spec := [⟨⟨[fun _ => 5, fun _ => 7], 1, 1⟩, [0, 2]⟩]
  decode := [⟨⟨fun _ => 1, 2, true⟩, [3]⟩]
  prefill := [⟨⟨[fun _ => 4], 3, false⟩, [1]⟩]

/-- The metadata of `interleavedBatch`. -/
def interleavedMetadata : Metadata where
  numActualTokens := 4
  numDecodes := 1
  numDecodeTokens := 1
  numPrefills := 1
  numPrefillTokens := 1
  numSpecDecodes := 1
  stateIndicesTensor := some [2, 3]
  hasInitialStatesD := none
  hasInitialStatesP := some [false]
  nonSpecQueryStartLoc := some [0, 1, 2]
  maxPrefillQueryLen := 1
  specSequenceMasks := some [true, false, false]
  specTokenIndx := some [0, 2]
  nonSpecTokenIndx := some [3, 1]
  specStateIndicesTensor := some [1, 0]
  specQueryStartLoc := some [0, 2, 2]
  numAcceptedTokens := some [1, 0]
  specQueryLen := 2

theorem interleavedMetadata_describes : interleavedMetadata.Describes
    [fun _ => 5, fun _ => 4, fun _ => 7, fun _ => 1] interleavedBatch where
  tokens := by simp [Batch.requests, interleavedBatch, Req.tokens]
  numActualTokens := by decide
  numSpecDecodes := rfl
  numDecodes := rfl
  numDecodeTokens := rfl
  numPrefills := rfl
  numPrefillTokens := rfl
  spec _ := ⟨rfl, rfl, rfl, Nat.two_pos⟩
  nonSpec _ := ⟨⟨[], rfl, fun _ => rfl⟩, by simp [interleavedMetadata, interleavedBatch,
    DecodeFlags], fun _ => rfl, fun _ => rfl, by simp [interleavedMetadata, interleavedBatch]⟩
  layout := .mixed rfl (.inl (by simp [interleavedBatch])) rfl rfl (by decide)

/-- The three requests of `interleavedBatch` do not see each other. -/
theorem dispatch_isolated_interleaved :
    ∃ output data,
      shortConvDilatedDispatch twoTapLayer (fun _ _ => 8) (fun _ _ => 9)
          [fun _ => 5, fun _ => 4, fun _ => 7, fun _ => 1] interleavedMetadata (constCache 3) =
        .ok (output, { constCache 3 with data := data }) ∧
      output.length = 4 ∧ data 0 = (constCache 3).data 0 := by
  obtain ⟨output, data, hrun, hlen, _, _, hframe⟩ := dispatch_isolated twoTapLayer (fun _ _ => 8)
    (fun _ _ => 9) interleavedMetadata [fun _ => 5, fun _ => 4, fun _ => 7, fun _ => 1]
    interleavedBatch (constCache 3) interleavedMetadata_describes (by decide) (fun _ => by decide)
  exact ⟨output, data, hrun, hlen, hframe 0 (.inl rfl)⟩

end FlashNext
