import FlashNext.ShortConv.History
import FlashNext.ShortConv.Isolation

/-!
# FlashNext.ShortConv.Wrapper

`_short_conv` and the custom op around it.

What the forward context holds decides between the dispatcher and a fallback that
keeps no state.  The dispatcher works on a view of the cache, its last columns.

* `shortConv_eq_dispatch` — the view is written back and the other columns stay;
* `fallback_eq_fresh_prefill` — the fallback computes what one new request would get.
-/

namespace FlashNext

variable {ι α β : Type}

/-- The exceptions of `_short_conv`. -/
inductive CallError where
  | typeError (msg : String)
  | raised (e : PyError)

/-- The attention metadata of a layer. -/
inductive LayerAttnMetadata where
  | pleShortConv (m : Metadata)
  | other (typeName : String)

/-- `forward_context.attn_metadata`; a dictionary is what it has for `self.prefix`. -/
inductive AttnMetadata where
  | none
  | dict (layer : Option LayerAttnMetadata)
  | other (typeName : String)

/-- A layer with its name, `self.prefix`, and the number of draft tokens. -/
structure PleConvLayer (ι α β : Type) extends PleLayer ι α β where
  layerName : String
  numSpecTokens : Nat

/-- `state_capacity` -/
def PleConvLayer.stateCapacity (L : PleConvLayer ι α β) : Nat :=
  L.convStateLen + L.numSpecTokens

/-! ## the view -/

/-- `conv_state[..., -n:]` -/
def ConvState.lastColumns (convState : ConvState ι β) (n : Nat) : ConvState ι β where
  slots := convState.slots
  columns := n
  data := fun slot c t => convState.data slot c (convState.columns - n + t)

/-- The tensor after a write through a view of its last columns. -/
def ConvState.writeLast (convState view : ConvState ι β) : ConvState ι β :=
  let start := convState.columns - view.columns
  { convState with
    data := fun slot c t =>
      if start ≤ t ∧ t < convState.columns then view.data slot c (t - start)
      else convState.data slot c t }

/-- What the view shows after the write. -/
theorem lastColumns_writeLast {convState view : ConvState ι β}
    (hle : view.columns ≤ convState.columns) (slot : Nat) (c : ι) {t : Nat}
    (ht : t < view.columns) :
    ((convState.writeLast view).lastColumns view.columns).data slot c t = view.data slot c t := by
  simp only [ConvState.writeLast, ConvState.lastColumns]
  rw [if_pos (by omega), Nat.add_sub_cancel_left]

/-- A slot that is the same in the view is the same in the tensor. -/
theorem writeLast_slot {convState view : ConvState ι β} {slot : Nat}
    (h : view.data slot = (convState.lastColumns view.columns).data slot) :
    (convState.writeLast view).data slot = convState.data slot := by
  funext c t
  simp only [ConvState.writeLast, h, ConvState.lastColumns]
  split
  · next hin => rw [Nat.add_sub_cancel' hin.1]
  · rfl

/-- The part of the cache that the dispatcher works on. -/
def PleConvLayer.view (L : PleConvLayer ι α β) (kvCache : ConvState ι β) : ConvState ι β :=
  if 0 < L.stateCapacity then kvCache.lastColumns L.stateCapacity else kvCache

@[simp] theorem PleConvLayer.view_slots (L : PleConvLayer ι α β) (kvCache : ConvState ι β) :
    (L.view kvCache).slots = kvCache.slots := by
  rw [PleConvLayer.view]
  split <;> rfl

theorem PleConvLayer.view_columns (L : PleConvLayer ι α β) {kvCache : ConvState ι β}
    (hcols : L.stateCapacity ≤ kvCache.columns) :
    L.stateCapacity ≤ (L.view kvCache).columns ∧
      (L.view kvCache).columns ≤ kvCache.columns := by
  rw [PleConvLayer.view]
  split
  · exact ⟨Nat.le_refl _, hcols⟩
  · exact ⟨hcols, Nat.le_refl _⟩

/-- A slot that is the same in the view is the same in the cache. -/
theorem PleConvLayer.writeLast_view (L : PleConvLayer ι α β) (kvCache : ConvState ι β)
    {data : Nat → Slot ι β} {slot : Nat} (h : data slot = (L.view kvCache).data slot) :
    (kvCache.writeLast { L.view kvCache with data := data }).data slot = kvCache.data slot := by
  apply writeLast_slot
  refine h.trans ?_
  rw [PleConvLayer.view]
  split
  · rfl
  · simp [ConvState.lastColumns]

/-- The view of a cache after a write through the view. -/
theorem PleConvLayer.view_writeLast (L : PleConvLayer ι α β) {kvCache : ConvState ι β}
    (hcols : L.stateCapacity ≤ kvCache.columns) (data : Nat → Slot ι β) (slot : Nat) (c : ι)
    {t : Nat} (ht : t < L.stateCapacity) :
    (L.view (kvCache.writeLast { L.view kvCache with data := data })).data slot c t =
      data slot c t := by
  have hpos : 0 < L.stateCapacity := Nat.zero_lt_of_lt ht
  have hview : ∀ kvCache : ConvState ι β, L.view kvCache = kvCache.lastColumns L.stateCapacity :=
    fun _ => if_pos hpos
  rw [hview, hview]
  exact lastColumns_writeLast hcols slot c ht

/-! ## the functions -/

section Wrapper

variable [Zero α] [Add α] [Mul α]

/-- `_short_conv_fallback`: a convolution padded on both sides, cut to the length of the
inputs.  `nn.Conv1d` refuses inputs without columns, whatever the padding. -/
def PleLayer.shortConvFallback (L : PleLayer ι α β) (inputs : List (Row ι α)) :
    Except PyError (List (Row ι α)) :=
  let padding := List.replicate L.convStateLen 0
  let padded := fun c t => (padding ++ inputs ++ padding).getD t 0 c
  let columns := (padding ++ inputs ++ padding).length
  if columns < L.kernelExtent then .error (L.kernelError columns)
  else if inputs.length = 0 then
    .error (.runtimeError "Only zero batch or zero channel inputs are supported")
  else
    .ok (((List.range (inputs.length + L.convStateLen)).map (L.conv padded)).take inputs.length)

/-- `_short_conv`, with the cache it leaves. -/
def PleConvLayer.shortConv [One α] (L : PleConvLayer ι α β) (uninitP uninit : Nat → Row ι α)
    (inputs : List (Row ι α)) (attnMetadata : AttnMetadata) (kvCache : ConvState ι β) :
    Except CallError (List (Row ι α) × ConvState ι β) :=
  match attnMetadata with
  | .none | .dict none =>
    match L.shortConvFallback inputs with
    | .error e => .error (.raised e)
    | .ok result => .ok (result, kvCache)
  | .other typeName =>
    .error (.raised (.runtimeError
      ("PLE short-conv expects per-layer attention metadata dict during inference, " ++
        s!"got {typeName}.")))
  | .dict (some (.other typeName)) =>
    let layerName := L.layerName
    .error (.typeError
      s!"Expected PleShortConvAttentionMetadata for layer '{layerName}', got {typeName}.")
  | .dict (some (.pleShortConv m)) =>
    let stateCapacity := L.stateCapacity
    let got := kvCache.columns
    if 0 < stateCapacity ∧ got < stateCapacity then
      .error (.raised (.runtimeError
        ("PLE short-conv cache is smaller than expected for dilated convolution: " ++
          s!"got {got}, expect at least {stateCapacity}.")))
    else
      match shortConvDilatedDispatch L.toPleLayer uninitP uninit inputs m (L.view kvCache) with
      | .error e => .error (.raised e)
      | .ok (result, convState) => .ok (result, kvCache.writeLast convState)

/-- `output[: result.shape[0]].copy_(result)` -/
def copyRows {ρ : Type} (output result : List ρ) : Except PyError (List ρ) :=
  if result.length ≤ output.length then .ok (result ++ output.drop result.length)
  else .error (.runtimeError "The size of tensor a must match the size of tensor b")

/-- `qwen4_exp_ple_short_conv` on a zeroed output of the inputs' shape. -/
def PleConvLayer.pleShortConv [One α] (L : PleConvLayer ι α β) (uninitP uninit : Nat → Row ι α)
    (inputs : List (Row ι α)) (attnMetadata : AttnMetadata) (kvCache : ConvState ι β) :
    Except CallError (List (Row ι α) × ConvState ι β) :=
  match L.shortConv uninitP uninit inputs attnMetadata kvCache with
  | .error e => .error e
  | .ok (result, kvCache) =>
    match copyRows (List.replicate inputs.length 0) result with
    | .error e => .error (.raised e)
    | .ok output => .ok (output, kvCache)

end Wrapper

/-! ## the fallback -/

section Fallback

variable [Zero α] [Add α] [Mul α]

/-- The fallback convolves its inputs as one sequence from its start. -/
theorem shortConvFallback_eq (L : PleLayer ι α β) {inputs : List (Row ι α)} (hne : inputs ≠ []) :
    L.shortConvFallback inputs = .ok (L.causalRows [] inputs) := by
  have hpos : 0 < inputs.length := List.length_pos_iff.mpr hne
  have hcolumns : ¬ (List.replicate L.convStateLen (0 : Row ι α) ++ inputs ++
      List.replicate L.convStateLen 0).length < L.kernelExtent := by
    simp only [List.length_append, List.length_replicate, PleLayer.kernelExtent]
    omega
  unfold PleLayer.shortConvFallback PleLayer.causalRows
  dsimp only
  rw [if_neg hcolumns, if_neg (Nat.pos_iff_ne_zero.mp hpos), ← List.map_take, List.take_range,
    Nat.min_eq_left (Nat.le_add_right _ _)]
  congr 1
  apply List.map_congr_left
  intro t ht
  have ht : t < inputs.length := List.mem_range.mp ht
  funext c
  rw [PleLayer.conv, PleLayer.causal, List.length_nil, Nat.zero_add, List.nil_append,
    ← conv1d_padded]
  congr 1
  apply conv1d_congr
  intro k hk
  -- the taps end before the padding at the end
  have hk : k * L.shortConvDilation ≤ L.convStateLen := tap_le hk
  have hlen : t + k * L.shortConvDilation < (List.replicate L.convStateLen 0 ++ inputs).length := by
    rw [List.length_append, List.length_replicate]
    omega
  rw [List.getD_append _ _ _ _ hlen]
  rfl

theorem copyRows_of_le {ρ : Type} {output result : List ρ} (h : result.length ≤ output.length) :
    copyRows output result = .ok (result ++ output.drop result.length) :=
  if_pos h

/-- Without metadata the layer leaves the cache alone. -/
theorem pleShortConv_fallback [One α] {L : PleConvLayer ι α β} (uninitP uninit : Nat → Row ι α)
    {inputs : List (Row ι α)} (hne : inputs ≠ []) {attnMetadata : AttnMetadata}
    (hattn : attnMetadata = .none ∨ attnMetadata = .dict none) (kvCache : ConvState ι β) :
    L.pleShortConv uninitP uninit inputs attnMetadata kvCache =
      .ok (L.causalRows [] inputs, kvCache) := by
  have hlen : (L.causalRows [] inputs).length = inputs.length := by
    rw [PleLayer.causalRows, List.length_map, List.length_range]
  have hcopy : copyRows (List.replicate inputs.length 0) (L.causalRows [] inputs) =
      .ok (L.causalRows [] inputs) := by
    rw [copyRows_of_le (by simp [hlen]), hlen]
    simp
  rcases hattn with rfl | rfl <;>
    simp only [PleConvLayer.pleShortConv, PleConvLayer.shortConv, shortConvFallback_eq _ hne,
      hcopy]

end Fallback

/-! ## the dispatcher -/

section Dispatched

variable [Add α] [MulZeroOneClass α] {L : PleConvLayer ι α β} {uninitP uninit : Nat → Row ι α}
  {inputs : List (Row ι α)} {m : Metadata} {b : Batch ι α} {kvCache : ConvState ι β}

/-- Where the cache is large enough, the dispatcher runs on the view. -/
theorem shortConv_eq_dispatch (hcols : L.stateCapacity ≤ kvCache.columns)
    {result : List (Row ι α)} {view : ConvState ι β}
    (hrun : shortConvDilatedDispatch L.toPleLayer uninitP uninit inputs m (L.view kvCache) =
      .ok (result, view)) :
    L.shortConv uninitP uninit inputs (.dict (some (.pleShortConv m))) kvCache =
      .ok (result, kvCache.writeLast view) := by
  unfold PleConvLayer.shortConv
  dsimp only
  rw [if_neg (by omega), hrun]

omit [Add α] in
/-- Where no row is copied to, the buffer is zero. -/
theorem scatter_zip_eq_zero {k : Nat} {index : List Nat} (hk : k ∉ index)
    (rows : List (Row ι α)) : scatter (fun _ => 0) (index.zip rows) k = 0 := by
  apply scatter_of_notMem
  intro hmem
  obtain ⟨p, hp, rfl⟩ := List.mem_map.mp hmem
  exact hk (List.of_mem_zip hp).1

/-- **The layer runs the jobs of a batch** on the view of its cache, if drafts fit into the state
capacity; rows of no request are zero. -/
theorem pleShortConv_eq_runAll (h : m.Describes inputs b) (hdistinct : DistinctSlots b.slots)
    (hcols : L.stateCapacity ≤ kvCache.columns)
    (hdrafts : m.specSequenceMasks.isSome → m.specQueryLen ≤ L.numSpecTokens + 1) :
    let run := runAll (b.jobs L.toPleLayer m.specQueryLen (0 < kvCache.slots)) (L.view kvCache).data
    L.pleShortConv uninitP uninit inputs (.dict (some (.pleShortConv m))) kvCache =
      .ok ((List.range inputs.length).map (scatter (fun _ => 0) (b.rows.zip run.1.flatten)),
        kvCache.writeLast { L.view kvCache with data := run.2 }) := by
  have hview := L.view_columns hcols
  have hrun := dispatch_eq_runAll L.toPleLayer uninitP uninit (L.view kvCache) h hdistinct (by
    intro hmask _
    have hroom := hdrafts hmask
    have hcapacity : L.stateCapacity = L.convStateLen + L.numSpecTokens := rfl
    omega)
  rw [L.view_slots] at hrun
  intro run
  have hle := h.numActualTokens
  unfold PleConvLayer.pleShortConv
  rw [shortConv_eq_dispatch hcols hrun]
  dsimp only
  rw [copyRows_of_le (by simpa using hle)]
  dsimp only
  congr 2
  -- behind the actual tokens nothing is written
  rw [List.length_map, List.length_range, List.drop_replicate]
  conv_rhs => rw [← Nat.add_sub_cancel' hle, List.range_add, List.map_append, List.map_map]
  congr 1
  symm
  rw [List.eq_replicate_iff]
  refine ⟨by simp, ?_⟩
  intro row hrow
  obtain ⟨i, _, rfl⟩ := List.mem_map.mp hrow
  apply scatter_zip_eq_zero
  intro hmem
  have hlt : m.numActualTokens + i < m.numActualTokens := h.rows_lt hmem
  omega

/-- In the output buffer a request finds the rows that its job computes. -/
theorem Metadata.Describes.buffer_rows (h : m.Describes inputs b) (maxLen : Nat) (cached : Bool)
    (st : Nat → Slot ι β) {p : Placed (Req ι α)} (hp : p ∈ b.requests) :
    p.rows.map (((List.range inputs.length).map (scatter (fun _ => 0)
        (b.rows.zip (runAll (b.jobs L.toPleLayer maxLen cached) st).1.flatten)))[·]?) =
      ((p.req.job L.toPleLayer maxLen cached).run (st p.req.slot)).1.map some := by
  refine Eq.trans ?_ (h.output_rows maxLen cached st hp)
  apply List.map_congr_left
  intro k hk
  have hk : k < m.numActualTokens :=
    h.rows_lt (List.mem_flatten.mpr ⟨p.rows, List.mem_map.mpr ⟨p, hp, rfl⟩, hk⟩)
  have hle := h.numActualTokens
  rw [List.getElem?_map, List.getElem?_map, List.getElem?_range hk,
    List.getElem?_range (by omega)]

/-- A request that has just started convolves its tokens alone. -/
theorem PrefillReq.job_fresh (L : PleLayer ι α β) (cached : Bool) {q : PrefillReq ι α}
    (hslot : q.slot ≠ nullBlockId) (hfresh : q.hasInitial = false) (s : Slot ι β) :
    ((q.job L cached).run s).1 = L.causalRows [] q.tokens := by
  have hhist : Continues L [] q.tokens (q.history L cached s) := by
    apply continues_catHistory
    · intro c t ht
      simp [hfresh, ht]
    · intro j _
      rfl
  simp only [PrefillReq.job, bne_iff_ne.mpr hslot, if_true]
  unfold PleLayer.causalRows
  apply List.map_congr_left
  intro j hj
  exact hhist.conv_eq (List.mem_range.mp hj)

/-- **Without metadata the layer computes what a new request gets**: the fallback leaves the cache
alone, and its rows are those that any batch gives a request with the same tokens, one at least,
and no initial state. -/
theorem fallback_eq_fresh_prefill (L : PleConvLayer ι α β) (uninitP uninit : Nat → Row ι α)
    (m : Metadata) (inputs : List (Row ι α)) (b : Batch ι α) (kvCache : ConvState ι β)
    (h : m.Describes inputs b) (hdistinct : DistinctSlots b.slots)
    (hcols : L.stateCapacity ≤ kvCache.columns)
    (hdrafts : m.specSequenceMasks.isSome → m.specQueryLen ≤ L.numSpecTokens + 1) :
    ∃ output data,
      L.pleShortConv uninitP uninit inputs (.dict (some (.pleShortConv m))) kvCache =
        .ok (output, { kvCache with data := data }) ∧
      ∀ p ∈ b.requests, ∀ q, p.req = .prefill q → q.slot ≠ nullBlockId → q.hasInitial = false →
        q.tokens ≠ [] → ∃ rows, p.rows.map (output[·]?) = rows.map some ∧ ∀ attnMetadata,
          (attnMetadata = .none ∨ attnMetadata = .dict none) →
          L.pleShortConv uninitP uninit q.tokens attnMetadata kvCache = .ok (rows, kvCache) := by
  refine ⟨_, _, pleShortConv_eq_runAll h hdistinct hcols hdrafts, ?_⟩
  rintro ⟨_, rows⟩ hp q rfl hslot hfresh hne
  refine ⟨L.causalRows [] q.tokens, ?_, ?_⟩
  · rw [← q.job_fresh L.toPleLayer (0 < kvCache.slots) hslot hfresh]
    exact h.buffer_rows _ _ _ hp
  · intro attnMetadata hattn
    exact pleShortConv_fallback uninitP uninit hne hattn kvCache

end Dispatched

/-- A layer with one draft token, for runs on concrete inputs. -/
def draftLayer : PleConvLayer Unit Int Int :=
  { twoTapLayer with layerName := "ple.short_conv", numSpecTokens := 1 }

/-- The new request of `interleavedBatch` gets what it would get without metadata. -/
theorem fallback_eq_fresh_prefill_interleaved :
    ∃ output data rows,
      draftLayer.pleShortConv (fun _ _ => 8) (fun _ _ => 9)
          [fun _ => 5, fun _ => 4, fun _ => 7, fun _ => 1]
          (.dict (some (.pleShortConv interleavedMetadata))) (constCache 3) =
        .ok (output, { constCache 3 with data := data }) ∧
      [1].map (output[·]?) = rows.map some ∧
      draftLayer.pleShortConv (fun _ _ => 8) (fun _ _ => 9) [fun _ => 4] .none (constCache 3) =
        .ok (rows, constCache 3) := by
  obtain ⟨output, data, hrun, hfresh⟩ := fallback_eq_fresh_prefill draftLayer (fun _ _ => 8)
    (fun _ _ => 9) interleavedMetadata [fun _ => 5, fun _ => 4, fun _ => 7, fun _ => 1]
    interleavedBatch (constCache 3) interleavedMetadata_describes (by decide) (by decide)
    (fun _ => by decide)
  obtain ⟨rows, hrows, halone⟩ := hfresh ⟨.prefill ⟨[fun _ => 4], 3, false⟩, [1]⟩
    (by simp [Batch.requests, interleavedBatch]) ⟨[fun _ => 4], 3, false⟩ rfl (by decide) rfl
    (List.cons_ne_nil _ _)
  exact ⟨output, data, rows, hrun, hrows, halone .none (.inl rfl)⟩

end FlashNext
