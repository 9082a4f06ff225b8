import FlashNext.Ple.Layer
import FlashNext.ShortConv.Server

/-!
# FlashNext.Ple.Serve

The whole layer in a server, step after step.

A request's history is what it kept of its token ids and hidden rows.  In a step that
the scheduler keeps allowed, and for which the n-gram context of each request is the end
of its history, the layer gives each request the rows that the rest of the sequence adds
to its outputs.

* `Batch.refill` — a batch of hidden rows read as a batch of the convolution's inputs;
* `runLayers_eq_sequences` — serving agrees with the layer on whole sequences.
-/

namespace FlashNext

/-! ## reading at positions -/

section Positions

variable {ρ σ τ : Type} {index : List Nat} {xs : List ρ} {as : List ρ}

/-- Reading with a default where nothing is missing. -/
theorem map_getD_of_read (h : index.map (xs[·]?) = as.map some) (d : ρ) :
    index.map (xs.getD · d) = as := by
  have hget := congrArg (List.map (Option.getD · d)) h
  simpa [Function.comp_def, List.getD_eq_getElem?_getD] using hget

/-- Reading a list that is computed element by element. -/
theorem map_read_map (h : index.map (xs[·]?) = as.map some) (f : ρ → σ) :
    index.map ((xs.map f)[·]?) = (as.map f).map some := by
  have hget := congrArg (List.map (Option.map f)) h
  simpa [Function.comp_def] using hget

theorem map_read_zipWith {ys bs : List σ} (h : index.map (xs[·]?) = as.map some)
    (h' : index.map (ys[·]?) = bs.map some) (f : ρ → σ → τ) :
    index.map ((List.zipWith f xs ys)[·]?) = (List.zipWith f as bs).map some := by
  induction index generalizing as bs with
  | nil =>
      obtain rfl : as = [] := by simpa using h.symm
      rfl
  | cons k index ih =>
      cases as with
      | nil => simp at h
      | cons a as =>
          cases bs with
          | nil => simp at h'
          | cons b bs =>
              obtain ⟨hk, h⟩ := List.cons.inj h
              obtain ⟨hk', h'⟩ := List.cons.inj h'
              have hhead : (List.zipWith f xs ys)[k]? = some (f a b) := by
                simp only [List.getElem?_zipWith, hk, hk']
              rw [List.map_cons, List.zipWith_cons_cons, List.map_cons, hhead, ih h h']

end Positions

/-! ## other rows in the same places -/

section Refill

variable {ι α β : Type} [Zero α]

/-- The request with tokens read from other inputs. -/
def Placed.refill (inputs : List (Row ι α)) (p : Placed (Req ι α)) : Placed (Req ι α) where
  req := match p.req with
    | .spec q => .spec { q with tokens := p.rows.map (inputs.getD · 0) }
    | .decode q => .decode { q with token := inputs.getD (p.rows.headD 0) 0 }
    | .prefill q => .prefill { q with tokens := p.rows.map (inputs.getD · 0) }
  rows := p.rows

/-- The batch with tokens read from other inputs. -/
def Batch.refill (inputs : List (Row ι α)) (b : Batch ι α) : Batch ι α where
  spec := b.spec.map fun p => ⟨{ p.req with tokens := p.rows.map (inputs.getD · 0) }, p.rows⟩
  decode := b.decode.map fun p => ⟨{ p.req with token := inputs.getD (p.rows.headD 0) 0 }, p.rows⟩
  prefill := b.prefill.map fun p => ⟨{ p.req with tokens := p.rows.map (inputs.getD · 0) }, p.rows⟩

theorem Batch.requests_refill (inputs : List (Row ι α)) (b : Batch ι α) :
    (b.refill inputs).requests = b.requests.map (Placed.refill inputs) := by
  simp [Batch.requests, Batch.refill, Placed.refill, Function.comp_def]

@[simp] theorem Placed.slot_refill (inputs : List (Row ι α)) (p : Placed (Req ι α)) :
    (p.refill inputs).req.slot = p.req.slot := by
  obtain ⟨q, rows⟩ := p
  cases q <;> rfl

theorem Batch.slots_refill (inputs : List (Row ι α)) (b : Batch ι α) :
    (b.refill inputs).slots = b.slots := by
  simp [Batch.slots, Batch.requests_refill, Function.comp_def]

theorem Batch.rows_refill (inputs : List (Row ι α)) (b : Batch ι α) :
    (b.refill inputs).rows = b.rows := by
  simp only [Batch.rows, Batch.requests_refill, List.map_map]
  rfl

variable {m : Metadata} {inputs inputs' : List (Row ι α)} {b : Batch ι α}

/-- A request of a described batch has as many tokens elsewhere. -/
theorem Metadata.Describes.tokens_refill (h : m.Describes inputs b) {p : Placed (Req ι α)}
    (hp : p ∈ b.requests) : (p.refill inputs').req.tokens = p.rows.map (inputs'.getD · 0) := by
  have hlen := h.length_rows hp
  obtain ⟨q, rows⟩ := p
  cases q with
  | spec q => rfl
  | decode q =>
      obtain ⟨k, rfl⟩ : ∃ k, rows = [k] := List.length_eq_one_iff.mp hlen
      rfl
  | prefill q => rfl

omit [Zero α] in
/-- The requests of one kind have as many rows as tokens. -/
theorem Metadata.Describes.length_spec_rows (h : m.Describes inputs b) :
    b.spec.map (·.rows.length) = b.spec.map (·.req.tokens.length) := by
  apply List.map_congr_left
  intro p hp
  exact h.length_rows (p := ⟨.spec p.req, p.rows⟩)
    (List.mem_append_left _ (List.mem_map.mpr ⟨p, hp, rfl⟩))

omit [Zero α] in
theorem Metadata.Describes.length_prefill_rows (h : m.Describes inputs b) :
    b.prefill.map (·.rows.length) = b.prefill.map (·.req.tokens.length) := by
  apply List.map_congr_left
  intro p hp
  exact h.length_rows (p := ⟨.prefill p.req, p.rows⟩)
    (List.mem_append_right _ (List.mem_append_right _ (List.mem_map.mpr ⟨p, hp, rfl⟩)))

/-- Metadata that describes a batch describes it with other rows in the same places. -/
theorem Metadata.Describes.refill (h : m.Describes inputs b)
    (hlen : inputs'.length = inputs.length) : m.Describes inputs' (b.refill inputs') where
  tokens := by
    rw [Batch.requests_refill]
    intro p' hp'
    obtain ⟨p, hp, rfl⟩ := List.mem_map.mp hp'
    rw [h.tokens_refill hp, List.map_map]
    apply List.map_congr_left
    intro k hk
    have hlt := h.rows_lt (List.mem_flatten.mpr ⟨p.rows, List.mem_map.mpr ⟨p, hp, rfl⟩, hk⟩)
    have hle := h.numActualTokens
    have hin : k < inputs'.length := by omega
    simp [hin]
  numActualTokens := hlen ▸ h.numActualTokens
  numSpecDecodes := by simpa [Batch.refill] using h.numSpecDecodes
  numDecodes := by simpa [Batch.refill] using h.numDecodes
  numDecodeTokens := by simpa [Batch.refill] using h.numDecodeTokens
  numPrefills := by simpa [Batch.refill] using h.numPrefills
  numPrefillTokens := by
    simpa [Batch.refill, Function.comp_def, h.length_prefill_rows] using h.numPrefillTokens
  spec hmask := by
    have hspec := h.spec hmask
    refine ⟨?_, ?_, ?_, hspec.queryLen⟩
    · simpa [Batch.refill, Function.comp_def] using hspec.slots
    · simpa [Batch.refill, Function.comp_def, h.length_spec_rows] using hspec.loc
    · simpa [Batch.refill, Function.comp_def] using hspec.accepted
  nonSpec hkinds := by
    have hnonSpec := h.nonSpec (by simpa [Batch.refill] using hkinds)
    refine ⟨?_, ?_, ?_, ?_, ?_⟩
    · simpa [Batch.refill, Function.comp_def] using hnonSpec.slots
    · simpa [Batch.refill, Function.comp_def, DecodeFlags] using hnonSpec.flags
    · simpa [Batch.refill, Function.comp_def] using hnonSpec.flagsP
    · simpa [Batch.refill, Function.comp_def, h.length_prefill_rows] using hnonSpec.locP
    · intro q' hq'
      simp only [Batch.refill, List.map_map, List.mem_map, Function.comp_apply] at hq'
      obtain ⟨p, hp, rfl⟩ := hq'
      have hrows := h.length_rows (p := ⟨.prefill p.req, p.rows⟩)
        (List.mem_append_right _ (List.mem_append_right _ (List.mem_map.mpr ⟨p, hp, rfl⟩)))
      have hmax := hnonSpec.maxLen p.req (List.mem_map.mpr ⟨p, hp, rfl⟩)
      rw [List.length_map, hrows]
      exact hmax
  layout := by
    have hrowsEq := b.rows_refill inputs'
    have hspecRows : (b.refill inputs').spec.map Placed.rows = b.spec.map Placed.rows := by
      simp [Batch.refill, Function.comp_def]
    have hdecodeRows : (b.refill inputs').decode.map Placed.rows = b.decode.map Placed.rows := by
      simp [Batch.refill, Function.comp_def]
    have hprefillRows : (b.refill inputs').prefill.map Placed.rows =
        b.prefill.map Placed.rows := by
      simp [Batch.refill, Function.comp_def]
    cases h.layout with
    | plain hmask hspec hrows =>
        exact .plain hmask (by simp [Batch.refill, hspec]) (hrowsEq.trans hrows)
    | specOnly hmask hdecode hprefill htotal hrows =>
        exact .specOnly hmask (by simp [Batch.refill, hdecode]) (by simp [Batch.refill, hprefill])
          htotal (hrowsEq.trans hrows)
    | mixed hmask hother hspec hnonSpec hcover =>
        refine .mixed hmask (by simpa [Batch.refill] using hother) ?_ ?_ (hrowsEq ▸ hcover)
        · rw [hspecRows, hspec]
        · rw [hdecodeRows, hprefillRows, hnonSpec]

/-- What a request does with the owner of its slot does not depend on its rows. -/
theorem Placed.before_refill {τ : Type} (p : Placed (Req ι α)) (owner : Option (Owner τ)) :
    (p.refill inputs).req.before owner = p.req.before owner := by
  obtain ⟨q, rows⟩ := p
  cases q <;> rfl

theorem Placed.after_refill {τ : Type} (p : Placed (Req ι α)) (accepted : Nat) (tokens : List τ)
    (owner : Option (Owner τ)) :
    (p.refill inputs).req.after accepted tokens owner = p.req.after accepted tokens owner := by
  obtain ⟨q, rows⟩ := p
  cases q <;> rfl

/-- A step that is allowed is allowed with other rows in the same places. -/
theorem AllowedStep.refill {L : PleConvLayer ι α β} {slots : Nat}
    {owners : Nat → Option (Owner (Row ι α))} {step : ServerStep ι α}
    (h : AllowedStep L slots owners step) (hlen : inputs'.length = step.inputs.length) :
    AllowedStep L slots owners
      { step with inputs := inputs', batch := step.batch.refill inputs' } where
  describes := h.describes.refill hlen
  distinct := by simpa only [Batch.slots_refill] using h.distinct
  slots_lt := by simpa only [Batch.slots_refill] using h.slots_lt
  drafts := h.drafts
  agrees := by
    intro p' hp' hslot
    rw [Batch.requests_refill] at hp'
    obtain ⟨p, hp, rfl⟩ := List.mem_map.mp hp'
    have hlen := h.describes.length_rows hp
    rw [Placed.slot_refill] at hslot ⊢
    have hagrees := h.agrees p hp hslot
    obtain ⟨q, rows⟩ := p
    cases q with
    | spec q =>
        have hrows : (rows.map (inputs'.getD · 0)).length = q.tokens.length := by
          rw [List.length_map]
          exact hlen
        simpa only [Placed.refill, Req.Agrees, hrows] using hagrees
    | decode q => exact hagrees
    | prefill q => exact hagrees

end Refill

/-! ## steps of the layer -/

variable {hcCount hiddenSize embedDim : Nat} {α β φ : Type}

/-- A step of the server with what the layer is given besides the hidden states. -/
structure LayerStep (hcCount hiddenSize : Nat) (α : Type) extends
    ServerStep (Fin hcCount × Fin hiddenSize) α where
  inputIds : List Long
  queryStartLoc : List Nat
  ngramContext : List (List Long)

/-- The tokens of a request, read at its rows. -/
def LayerStep.tokens [Zero α] (step : LayerStep hcCount hiddenSize α)
    (p : Placed (Req (Fin hcCount × Fin hiddenSize) α)) : List (LayerToken hcCount hiddenSize α) :=
  p.rows.map fun k => (step.inputIds.getD k 0, step.inputs.getD k 0)

/-- The owners after a step. -/
def LayerStep.owners [Zero α] (step : LayerStep hcCount hiddenSize α)
    (owners : Nat → Option (Owner (LayerToken hcCount hiddenSize α))) :
    Nat → Option (Owner (LayerToken hcCount hiddenSize α)) :=
  step.batch.after step.accepted step.tokens owners

/-- The ids are packed request by request, and a request's context is the end of its history. -/
structure LayerStep.Packs [Zero α] (step : LayerStep hcCount hiddenSize α) (E : NGramEmbedding)
    (owners : Nat → Option (Owner (LayerToken hcCount hiddenSize α))) (reqs : List NGramReq)
    (pad : List Long) (more : List (List Long)) : Prop where
  reqs_ne : reqs ≠ []
  inputIds : step.inputIds = (reqs.map NGramReq.tokens).flatten ++ pad
  queryStartLoc : step.queryStartLoc = cuSeqlens (reqs.map (·.tokens.length))
  ngramContext : step.ngramContext = reqs.map NGramReq.context ++ more
  length_context : ∀ q ∈ reqs, q.context.length = E.ngramSize - 1
  tokens_le : step.inputIds.length ≤ E.maxTotalTokens
  reqs_le : reqs.length ≤ E.maxNumReqs
  placed : ∀ p ∈ step.batch.requests, p.req.slot ≠ nullBlockId → ∃ r q, reqs[r]? = some q ∧
    p.rows = List.range' ((cuSeqlens (reqs.map (·.tokens.length))).getD r 0) q.tokens.length ∧
    q.context = window E.eosTokenId (E.ngramSize - 1)
      ((p.req.before (owners p.req.slot)).map Prod.fst)

namespace Qwen4ExpPLELayer

section Runs

variable [Add α] [MulZeroOneClass α] [Add φ] [Mul φ] [One φ]

/-- The convolution's view of an owner. -/
def rowOwner (P : Qwen4ExpPLELayer hcCount hiddenSize embedDim α β φ)
    (o : Owner (LayerToken hcCount hiddenSize α)) : Owner (HiddenRow hcCount hiddenSize α) where
  kept := P.convRows [] o.kept
  numAccepted := o.numAccepted
  plain := P.convRows [] o.plain

/-- What the scheduler and the model runner owe the layer in a step. -/
structure AllowedLayerStep (P : Qwen4ExpPLELayer hcCount hiddenSize embedDim α β φ) (slots : Nat)
    (owners : Nat → Option (Owner (LayerToken hcCount hiddenSize α)))
    (step : LayerStep hcCount hiddenSize α) : Prop where
  conv : AllowedStep P.toPleConvLayer slots (fun slot => (owners slot).map P.rowOwner)
    step.toServerStep
  length : step.inputIds.length = step.inputs.length
  packs : ∃ reqs pad more, step.Packs P.pleEmbedding owners reqs pad more

/-- Every step of the run is allowed when it is taken. -/
def AllowedLayerRun (P : Qwen4ExpPLELayer hcCount hiddenSize embedDim α β φ) (slots : Nat) :
    (Nat → Option (Owner (LayerToken hcCount hiddenSize α))) →
      List (LayerStep hcCount hiddenSize α) → Prop
  | _, [] => True
  | owners, step :: steps =>
    P.AllowedLayerStep slots owners step ∧ P.AllowedLayerRun slots (step.owners owners) steps

/-- The layer, step after step on one cache and one buffer; the outputs of every step. -/
def runLayers (P : Qwen4ExpPLELayer hcCount hiddenSize embedDim α β φ) :
    List (LayerStep hcCount hiddenSize α) → ConvState (Fin hcCount × Fin hiddenSize) β →
      (Nat × Nat → Long) →
      Except CallError (List (List (HiddenRow hcCount hiddenSize α)) ×
        ConvState (Fin hcCount × Fin hiddenSize) β × (Nat × Nat → Long))
  | [], kvCache, paddedBuffer => .ok ([], kvCache, paddedBuffer)
  | step :: steps, kvCache, paddedBuffer =>
    match P.forward step.uninitP step.uninit step.inputs step.inputIds step.queryStartLoc
        step.ngramContext (.dict (some (.pleShortConv step.metadata))) kvCache paddedBuffer with
    | .error e => .error e
    | .ok (output, kvCache, paddedBuffer) =>
      match P.runLayers steps kvCache paddedBuffer with
      | .error e => .error e
      | .ok (outputs, kvCache, paddedBuffer) => .ok (output :: outputs, kvCache, paddedBuffer)

/-! ## owners -/

theorem before_rowOwner (P : Qwen4ExpPLELayer hcCount hiddenSize embedDim α β φ)
    (q : Req (Fin hcCount × Fin hiddenSize) α)
    (owner : Option (Owner (LayerToken hcCount hiddenSize α))) :
    q.before (owner.map P.rowOwner) = P.convRows [] (q.before owner) := by
  unfold Req.before
  cases q.continues <;> cases owner <;> rfl

/-- The convolution's owner after a step is its view of the owner after the step. -/
theorem after_rowOwner (P : Qwen4ExpPLELayer hcCount hiddenSize embedDim α β φ)
    (q : Req (Fin hcCount × Fin hiddenSize) α) (accepted : Nat)
    (tokens : List (LayerToken hcCount hiddenSize α))
    (owner : Option (Owner (LayerToken hcCount hiddenSize α))) :
    q.after accepted (P.convRows (q.before owner) tokens) (owner.map P.rowOwner) =
      (q.after accepted tokens owner).map P.rowOwner := by
  have hkept : ∀ xs, P.convRows [] (q.before owner ++ xs) =
      P.convRows [] (q.before owner) ++ P.convRows (q.before owner) xs :=
    fun xs => convRows_append
  have hbefore := P.before_rowOwner q owner
  have hempty : (P.convRows (q.before owner) tokens).isEmpty = tokens.isEmpty := by
    rw [Bool.eq_iff_iff, List.isEmpty_iff_length_eq_zero, List.isEmpty_iff_length_eq_zero,
      length_convRows]
  cases q with
  | spec q => simp [Req.after, rowOwner, hbefore, hkept, convRows_take]
  | decode q | prefill q =>
      simp only [Req.after, hbefore, hempty]
      split
      · rfl
      · simp [rowOwner, hkept]

/-! ## one step -/

variable {P : Qwen4ExpPLELayer hcCount hiddenSize embedDim α β φ}
  {owners : Nat → Option (Owner (LayerToken hcCount hiddenSize α))}
  {step : LayerStep hcCount hiddenSize α} {kvCache : ConvState (Fin hcCount × Fin hiddenSize) β}

omit [Add α] [Add φ] [Mul φ] [One φ] in
/-- The embedding gives a request's tokens the ids that continue its history. -/
theorem embedding_rows {reqs : List NGramReq} {pad : List Long} {more : List (List Long)}
    (hpacks : step.Packs P.pleEmbedding owners reqs pad more) (paddedBuffer : Nat × Nat → Long) :
    ∃ ngramIds paddedBuffer', P.pleEmbedding.forward step.inputIds step.queryStartLoc
        step.ngramContext paddedBuffer = .ok (ngramIds, paddedBuffer') ∧
      ngramIds.length = step.inputIds.length ∧
      ∀ p ∈ step.batch.requests, p.req.slot ≠ nullBlockId →
        p.rows.map (ngramIds[·]?) = ((P.pleEmbedding.resume
          ((p.req.before (owners p.req.slot)).map Prod.fst)
          ((step.tokens p).map Prod.fst)).ids P.pleEmbedding).map some := by
  have hids := hpacks.inputIds
  have hlen : (reqs.map (·.tokens.length)).sum + pad.length = step.inputIds.length := by
    rw [hids]
    simp [Function.comp_def]
  obtain ⟨ngramIds, paddedBuffer', hrun, hrows⟩ := forward_tokenIds P.pleEmbedding reqs
    hpacks.reqs_ne pad more paddedBuffer hpacks.length_context (hlen ▸ hpacks.tokens_le)
    hpacks.reqs_le
  rw [← hids, ← hpacks.queryStartLoc, ← hpacks.ngramContext] at hrun
  refine ⟨ngramIds, paddedBuffer', hrun, length_of_forward hrun, ?_⟩
  intro p hp hslot
  obtain ⟨r, q, hq, hplaced, hcontext⟩ := hpacks.placed p hp hslot
  obtain ⟨hr, rfl⟩ := List.getElem?_eq_some_iff.mp hq
  -- the request of the packed ids is the one that resumes the history
  have htokens : (step.tokens p).map Prod.fst = reqs[r].tokens := by
    have hread : ∀ j < reqs[r].tokens.length, step.inputIds[
        (cuSeqlens (reqs.map (·.tokens.length))).getD r 0 + j]? = reqs[r].tokens[j]? := by
      intro j hj
      have hrow := getElem?_flatten_cuSeqlens
        (show (reqs.map NGramReq.tokens)[r]? = some reqs[r].tokens by simp [hr]) hj
      rw [List.map_map] at hrow
      rw [hids, List.getElem?_append_left, ← hrow]
      · rfl
      · exact (List.getElem?_eq_some_iff.mp (hrow.trans (List.getElem?_eq_getElem hj))).1
    have hmap : (step.tokens p).map Prod.fst = (List.range reqs[r].tokens.length).map fun j =>
        step.inputIds.getD ((cuSeqlens (reqs.map (·.tokens.length))).getD r 0 + j) 0 := by
      simp [LayerStep.tokens, hplaced, List.range'_eq_map_range, Function.comp_def]
    rw [hmap]
    apply List.ext_getElem (by simp)
    intro j _ hj
    rw [List.getElem_map, List.getElem_range, List.getD_eq_getElem?_getD, hread j hj,
      List.getElem?_eq_getElem hj, Option.getD_some]
  have hresume : P.pleEmbedding.resume ((p.req.before (owners p.req.slot)).map Prod.fst)
      ((step.tokens p).map Prod.fst) = reqs[r] := by
    rw [NGramEmbedding.resume, htokens, ← hcontext]
  rw [hresume, hplaced, NGramReq.ids, List.range'_eq_map_range, List.map_map, List.map_map]
  apply List.map_congr_left
  intro j hj
  exact hrows r hr j (List.mem_range.mp hj)

/-- The output of a step gives every request what its tokens add to the outputs of its history. -/
structure Serves (P : Qwen4ExpPLELayer hcCount hiddenSize embedDim α β φ)
    (owners : Nat → Option (Owner (LayerToken hcCount hiddenSize α)))
    (step : LayerStep hcCount hiddenSize α) (output : List (HiddenRow hcCount hiddenSize α)) :
    Prop where
  length : output.length = step.inputs.length
  rows : ∀ p ∈ step.batch.requests, p.req.slot ≠ nullBlockId → p.rows.map (output[·]?) =
    (P.outputRows (p.req.before (owners p.req.slot)) (step.tokens p)).map some

/-- The convolution's owners after a step are its view of the layer's owners after the step. -/
theorem rowOwner_after (hallowed : P.AllowedLayerStep kvCache.slots owners step)
    {normalized : List (HiddenRow hcCount hiddenSize α)}
    (htokens : ∀ p ∈ step.batch.requests, p.req.slot ≠ nullBlockId →
      (p.refill normalized).req.tokens =
        P.convRows (p.req.before (owners p.req.slot)) (step.tokens p))
    {slot : Nat} (hslot : slot ≠ nullBlockId) :
    (step.batch.refill normalized).after step.accepted (·.req.tokens)
        (fun slot => (owners slot).map P.rowOwner) slot =
      (step.owners owners slot).map P.rowOwner := by
  have hdistinct := hallowed.conv.distinct
  unfold Batch.after LayerStep.owners Batch.after
  rw [Batch.requests_refill, List.map_map]
  refine runAll_related
    (R := fun slot o o' => slot ≠ nullBlockId → o = Option.map P.rowOwner o') ?_
    (Batch.separate_ownerJobs hdistinct step.accepted step.tokens) ?_ (fun _ _ => rfl) ?_ slot hslot
  · have hrefill := Batch.separate_ownerJobs (b := step.batch.refill normalized)
      (by simpa only [Batch.slots_refill] using hdistinct) step.accepted (·.req.tokens)
    rwa [Batch.requests_refill, List.map_map] at hrefill
  · intro p
    exact (Placed.slot_refill normalized p).symm
  · intro p hp hslot
    have hkey : ((p.refill normalized).req.ownerJob step.accepted
        (p.refill normalized).req.tokens).key = p.req.slot := Placed.slot_refill normalized p
    simp only [Function.comp_apply] at hslot ⊢
    rw [hkey] at hslot ⊢
    simp only [Req.ownerJob, Placed.slot_refill, if_neg hslot, htokens p hp hslot,
      Placed.after_refill, after_rowOwner]

/-- **One step of the layer** in a server. -/
theorem forward_holds (hexact : P.Exact) (hcols : P.stateCapacity ≤ kvCache.columns)
    (hallowed : P.AllowedLayerStep kvCache.slots owners step)
    (hheld : CacheHeld P.toPleConvLayer kvCache fun slot => (owners slot).map P.rowOwner)
    (paddedBuffer : Nat × Nat → Long) :
    ∃ output data paddedBuffer',
      P.forward step.uninitP step.uninit step.inputs step.inputIds step.queryStartLoc
          step.ngramContext (.dict (some (.pleShortConv step.metadata))) kvCache paddedBuffer =
        .ok (output, { kvCache with data := data }, paddedBuffer') ∧
      CacheHeld P.toPleConvLayer { kvCache with data := data }
        (fun slot => (step.owners owners slot).map P.rowOwner) ∧
      P.Serves owners step output ∧
      ∀ slot, slot = nullBlockId ∨ slot ∉ step.batch.slots → data slot = kvCache.data slot := by
  obtain ⟨reqs, pad, more, hpacks⟩ := hallowed.packs
  obtain ⟨ngramIds, paddedBuffer', hids, hidsLen, hidsRows⟩ := embedding_rows hpacks paddedBuffer
  let gated := List.zipWith P.gatedValue ngramIds step.inputs
  let normalized := gated.map (applyNorm P.ops P.normConv)
  have hlen : normalized.length = step.inputs.length := by
    simp [normalized, gated, hidsLen, hallowed.length]
  obtain ⟨convOutput, data, hconv, hafter, hcomputes, hframe⟩ :=
    pleShortConv_holds hexact hcols (hallowed.conv.refill hlen) hheld
  -- what is read at the rows of a request
  have hgated : ∀ p ∈ step.batch.requests, p.req.slot ≠ nullBlockId → p.rows.map (gated[·]?) =
      (P.gatedRows (p.req.before (owners p.req.slot)) (step.tokens p)).map some := by
    intro p hp hslot
    refine map_read_zipWith (hidsRows p hp hslot) ?_ P.gatedValue
    rw [LayerStep.tokens, List.map_map, List.map_map]
    apply List.map_congr_left
    intro k hk
    have hlt := hallowed.conv.describes.rows_lt
      (List.mem_flatten.mpr ⟨p.rows, List.mem_map.mpr ⟨p, hp, rfl⟩, hk⟩)
    have hle := hallowed.conv.describes.numActualTokens
    have hin : k < step.inputs.length := by omega
    simp [hin]
  have htokens : ∀ p ∈ step.batch.requests, p.req.slot ≠ nullBlockId →
      (p.refill normalized).req.tokens =
        P.convRows (p.req.before (owners p.req.slot)) (step.tokens p) := by
    intro p hp hslot
    rw [hallowed.conv.describes.tokens_refill hp]
    exact map_getD_of_read (map_read_map (hgated p hp hslot) _) 0
  refine ⟨List.zipWith (· + ·) gated convOutput, data, paddedBuffer', ?_, ?_, ⟨?_, ?_⟩, ?_⟩
  · have hsame : ¬ (step.inputIds.length ≠ step.inputs.length) := by simp [hallowed.length]
    simp only [forward, if_neg hsame, hids]
    simp only at hconv
    rw [hconv]
  · intro slot hslot o ho
    exact hafter slot hslot o ((rowOwner_after hallowed htokens hslot).trans ho)
  · have houtLen : convOutput.length = normalized.length := hcomputes.length
    simp [gated, houtLen, hlen, hidsLen, hallowed.length]
  · intro p hp hslot
    have hrows := hcomputes.rows (p.refill normalized)
      (by rw [Batch.requests_refill]; exact List.mem_map_of_mem hp)
      (by rwa [Placed.slot_refill])
    rw [Placed.slot_refill, Placed.before_refill, before_rowOwner, htokens p hp hslot] at hrows
    exact map_read_zipWith (hgated p hp hslot) hrows (· + ·)
  · intro slot hslot
    exact hframe slot (by simpa only [Batch.slots_refill] using hslot)

/-! ## whole runs -/

/-- The owners after some steps. -/
def ownersFrom (owners : Nat → Option (Owner (LayerToken hcCount hiddenSize α)))
    (steps : List (LayerStep hcCount hiddenSize α)) :
    Nat → Option (Owner (LayerToken hcCount hiddenSize α)) :=
  steps.foldl (fun owners step => step.owners owners) owners

/-- The run from any owners on. -/
theorem runLayers_from (hexact : P.Exact) (hcols : P.stateCapacity ≤ kvCache.columns)
    {steps : List (LayerStep hcCount hiddenSize α)}
    (hallowed : P.AllowedLayerRun kvCache.slots owners steps)
    (hheld : CacheHeld P.toPleConvLayer kvCache fun slot => (owners slot).map P.rowOwner)
    (paddedBuffer : Nat × Nat → Long) :
    ∃ outputs data paddedBuffer', P.runLayers steps kvCache paddedBuffer =
        .ok (outputs, { kvCache with data := data }, paddedBuffer') ∧
      outputs.length = steps.length ∧
      ∀ k (hk : k < steps.length), ∃ output, outputs[k]? = some output ∧
        P.Serves (ownersFrom owners (steps.take k)) steps[k] output := by
  induction steps generalizing kvCache owners paddedBuffer with
  | nil =>
      exact ⟨[], kvCache.data, paddedBuffer, rfl, rfl, fun k hk => absurd hk (Nat.not_lt_zero k)⟩
  | cons step steps ih =>
      obtain ⟨hstep, hsteps⟩ := hallowed
      obtain ⟨output, data, paddedBuffer₁, hrun, hafter, hserves, _⟩ :=
        forward_holds hexact hcols hstep hheld paddedBuffer
      have hcols' : P.stateCapacity ≤ ConvState.columns { kvCache with data := data } := hcols
      obtain ⟨outputs, data', paddedBuffer₂, hruns, hlen, houts⟩ :=
        ih hcols' hsteps hafter paddedBuffer₁
      refine ⟨output :: outputs, data', paddedBuffer₂, ?_, ?_, ?_⟩
      · simp only [runLayers, hrun, hruns]
      · rw [List.length_cons, List.length_cons, hlen]
      · intro k hk
        cases k with
        | zero => exact ⟨output, rfl, hserves⟩
        | succ k => exact houts k (Nat.lt_of_succ_lt_succ hk)

/-- **Serving computes sequences**: on any cache and buffer, in any run that the scheduler and the
model runner keep allowed, no step fails, and what the layer gives a request in a step is the end of
what it would give, without metadata, to the request's whole history and its tokens at once, if
these are any and fit the workspace. -/
theorem runLayers_eq_sequences (P : Qwen4ExpPLELayer hcCount hiddenSize embedDim α β φ)
    (hexact : P.Exact) (kvCache : ConvState (Fin hcCount × Fin hiddenSize) β)
    (hcols : P.stateCapacity ≤ kvCache.columns) (steps : List (LayerStep hcCount hiddenSize α))
    (hallowed : P.AllowedLayerRun kvCache.slots (fun _ => none) steps)
    (paddedBuffer : Nat × Nat → Long) :
    ∃ outputs data paddedBuffer', P.runLayers steps kvCache paddedBuffer =
        .ok (outputs, { kvCache with data := data }, paddedBuffer') ∧
      outputs.length = steps.length ∧
      ∀ k (hk : k < steps.length), ∃ output, outputs[k]? = some output ∧
        output.length = steps[k].inputs.length ∧
        ∀ p ∈ steps[k].batch.requests, p.req.slot ≠ nullBlockId →
          let before := p.req.before (ownersFrom (fun _ => none) (steps.take k) p.req.slot)
          let sequence := before ++ steps[k].tokens p
          sequence ≠ [] → sequence.length ≤ P.pleEmbedding.maxTotalTokens →
          1 ≤ P.pleEmbedding.maxNumReqs → ∀ uninitP uninit kvCache' paddedBuffer', ∃ rows left,
            P.forward uninitP uninit (sequence.map Prod.snd) (sequence.map Prod.fst)
                [0, sequence.length]
                [List.replicate (P.pleEmbedding.ngramSize - 1) P.pleEmbedding.eosTokenId]
                .none kvCache' paddedBuffer' = .ok (rows, kvCache', left) ∧
            p.rows.map (output[·]?) = (rows.drop before.length).map some := by
  obtain ⟨outputs, data, paddedBuffer', hrun, hlen, houts⟩ := runLayers_from hexact hcols hallowed
    (by intro slot _ o ho; cases ho) paddedBuffer
  refine ⟨outputs, data, paddedBuffer', hrun, hlen, ?_⟩
  intro k hk
  obtain ⟨output, hout, hserves⟩ := houts k hk
  refine ⟨output, hout, hserves.length, ?_⟩
  intro p hp hslot before sequence hne htokens hreqs uninitP uninit kvCache' paddedBuffer'
  obtain ⟨left, hwhole⟩ := P.forward_fallback uninitP uninit hne (.inl rfl) kvCache'
    paddedBuffer' htokens hreqs
  refine ⟨_, left, hwhole, ?_⟩
  have hlenBefore : (P.outputRows [] before).length = before.length := by
    simp [outputRows, PleLayer.causalRows]
  rw [hserves.rows p hp hslot, outputRows_append, List.drop_left' hlenBefore]
  rfl

end Runs

end Qwen4ExpPLELayer

/-- A layer of one channel, on trigrams. -/
def streamLayer : Qwen4ExpPLELayer 1 1 1 Int Int Int where
  convKernelSize := 2
  shortConvDilation := 3
  convWeights _ k := if k = 0 then 2 else 3
  silu v := v
  toState v := v
  ofState v := v
  kernel_pos := Nat.two_pos
  layerName := "ple"
  numSpecTokens := 1
  ops :=
    { float := id
      toDtype := id
      mean := List.sum
      rsqrt := id
      divSqrt := fun v _ => v
      sign := Int.sign
      abs := fun v => v.natAbs
      clampMin := max 1
      sqrt := id
      sigmoid := id }
  pleEmbedding := trigramEmbedding
  ngramEmbedding ids _ := (ids.map BitVec.toInt).sum
  keyProj embedding _ := embedding 0
  valueProj embedding _ := embedding 0
  normKey := ⟨0, some 1, fun _ => 0⟩
  normQuery := ⟨0, some 1, fun _ => 0⟩
  normConv := ⟨0, some 1, fun _ => 0⟩

/-- A step of one request. -/
def aloneStep (q : Req (Fin 1 × Fin 1) Int) (inputIds context : List Long) : LayerStep 1 1 Int where
  inputs := q.tokens
  metadata := q.alone 2
  batch := q.batch
  accepted := fun _ => 2
  uninitP := fun _ _ => 8
  uninit := fun _ _ => 9
  inputIds := inputIds
  queryStartLoc := [0, inputIds.length]
  ngramContext := [context]

theorem aloneStep_describes (q : Req (Fin 1 × Fin 1) Int) (inputIds context : List Long) :
    (aloneStep q inputIds context).metadata.Describes (aloneStep q inputIds context).inputs
      (aloneStep q inputIds context).batch :=
  q.describes_alone fun _ => Nat.two_pos

/-- One token is prefilled in slot 1, and two are drafted after it. -/
def draftedSteps : List (LayerStep 1 1 Int) :=
  [aloneStep (.prefill ⟨[fun _ => 6], 1, false⟩) [4] [0, 0],
    aloneStep (.spec ⟨[fun _ => 5, fun _ => 7], 1, 1⟩) [5, 6] [0, 4]]

theorem aloneStep_packs {q : Req (Fin 1 × Fin 1) Int} {inputIds context : List Long}
    {owners : Nat → Option (Owner (LayerToken 1 1 Int))}
    (hlen : inputIds.length = q.tokens.length) (hle : inputIds.length ≤ 8)
    (hcontext : context = window 0 2 ((q.before (owners q.slot)).map Prod.fst)) :
    (aloneStep q inputIds context).Packs trigramEmbedding owners [⟨context, inputIds⟩] [] [] where
  reqs_ne := List.cons_ne_nil _ _
  inputIds := by simp [aloneStep]
  queryStartLoc := by simp [aloneStep, cuSeqlens, cuSeqlensFrom]
  ngramContext := rfl
  length_context := by simp [hcontext, trigramEmbedding]
  tokens_le := hle
  reqs_le := Nat.le_succ 1
  placed := by
    intro p hp _
    rw [aloneStep, q.requests_batch] at hp
    obtain rfl := List.mem_singleton.mp hp
    refine ⟨0, _, rfl, ?_, hcontext⟩
    simp [cuSeqlens, cuSeqlensFrom, List.range_eq_range', hlen]

theorem draftedSteps_allowed : streamLayer.AllowedLayerRun 4 (fun _ => none) draftedSteps := by
  refine ⟨⟨⟨aloneStep_describes _ _ _, by decide, by decide, by decide, ?_⟩, rfl,
      ⟨_, _, _, aloneStep_packs rfl (by decide) (by decide)⟩⟩,
    ⟨⟨aloneStep_describes _ _ _, by decide, by decide, by decide, ?_⟩, rfl,
      ⟨_, _, _, aloneStep_packs rfl (by decide) (by decide)⟩⟩, trivial⟩
  · intro p hp _
    rw [aloneStep, Req.requests_batch] at hp
    obtain rfl := List.mem_singleton.mp hp
    simp [Req.Agrees]
  · intro p hp _
    rw [aloneStep, Req.requests_batch] at hp
    obtain rfl := List.mem_singleton.mp hp
    exact ⟨by decide, by decide, by decide, _, rfl, rfl, by decide⟩

/-- A cache of four slots. -/
def streamCache : ConvState (Fin 1 × Fin 1) Int where
  slots := 4
  columns := 4
  data := fun _ _ _ => 3

/-- The drafts get what all three tokens get at once. -/
theorem runLayers_eq_sequences_drafted :
    ∃ outputs data left output rows left',
      streamLayer.runLayers draftedSteps streamCache (fun _ => 8) =
        .ok (outputs, { streamCache with data := data }, left) ∧
      outputs[1]? = some output ∧
      streamLayer.forward (fun _ _ => 8) (fun _ _ => 9) [fun _ => 6, fun _ => 5, fun _ => 7]
          [4, 5, 6] [0, 3] [[0, 0]] .none streamCache (fun _ => 8) =
        .ok (rows, streamCache, left') ∧
      [0, 1].map (output[·]?) = (rows.drop 1).map some := by
  obtain ⟨outputs, data, left, hrun, _, houts⟩ :=
    Qwen4ExpPLELayer.runLayers_eq_sequences streamLayer (fun _ => rfl) streamCache (by decide)
      draftedSteps draftedSteps_allowed (fun _ => 8)
  obtain ⟨output, hout, _, hrows⟩ := houts 1 Nat.one_lt_two
  obtain ⟨rows, left', hwhole, hrows⟩ := hrows
    ⟨.spec ⟨[fun _ => 5, fun _ => 7], 1, 1⟩, [0, 1]⟩ (List.mem_singleton_self _) (by decide)
    (List.cons_ne_nil _ _) (by decide) (by decide) (fun _ _ => 8) (fun _ _ => 9) streamCache
    (fun _ => 8)
  exact ⟨outputs, data, left, output, rows, left', hrun, hout, hwhole, hrows⟩

end FlashNext
