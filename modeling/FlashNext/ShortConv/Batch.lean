import FlashNext.ShortConv.Dispatch

/-!
# FlashNext.ShortConv.Batch

Mixed batches as lists of requests.

`Metadata.Describes` says which metadata and inputs describe a batch of placed
requests.  `dispatch_eq_runAll` shows that the dispatcher then runs the jobs of
those requests and puts their rows back where their tokens were.
-/

namespace FlashNext

variable {ι α β : Type}

/-! ## requests of a batch -/

/-- A request of any kind. -/
inductive Req (ι α : Type) where
  | spec (q : SpecReq ι α)
  | decode (q : DecodeReq ι α)
  | prefill (q : PrefillReq ι α)

def Req.tokens : Req ι α → List (Row ι α)
  | .spec q => q.tokens
  | .decode q => [q.token]
  | .prefill q => q.tokens

def Req.slot : Req ι α → Nat
  | .spec q => q.slot
  | .decode q => q.slot
  | .prefill q => q.slot

/-- A request with the rows that its tokens have in the batch. -/
structure Placed (ρ : Type) where
  req : ρ
  rows : List Nat

/-- A batch of requests of the three kinds. -/
structure Batch (ι α : Type) where
  spec : List (Placed (SpecReq ι α))
  decode : List (Placed (DecodeReq ι α))
  prefill : List (Placed (PrefillReq ι α))

/-- All requests, in the order in which the dispatcher runs them. -/
def Batch.requests (b : Batch ι α) : List (Placed (Req ι α)) :=
  b.spec.map (fun p => ⟨.spec p.req, p.rows⟩) ++
    (b.decode.map (fun p => ⟨.decode p.req, p.rows⟩) ++
      b.prefill.map (fun p => ⟨.prefill p.req, p.rows⟩))

/-- The slots that the requests name. -/
def Batch.slots (b : Batch ι α) : List Nat := b.requests.map (·.req.slot)

/-- The rows of all tokens, request by request. -/
def Batch.rows (b : Batch ι α) : List Nat := (b.requests.map Placed.rows).flatten

/-- The tokens of the speculative requests. -/
def Batch.specTokens (b : Batch ι α) : List (Row ι α) :=
  ((b.spec.map Placed.req).map SpecReq.tokens).flatten

/-- The tokens of the decode requests, followed by those of the prefill requests. -/
def Batch.nonSpecTokens (b : Batch ι α) : List (Row ι α) :=
  (b.decode.map Placed.req).map DecodeReq.token ++
    ((b.prefill.map Placed.req).map PrefillReq.tokens).flatten

/-- Where the tokens of a batch are.  Without speculative requests, or with nothing else, they
follow one another, and rows behind speculative tokens are graph padding; otherwise the two index
tensors cover the actual tokens between them. -/
inductive Metadata.Layout (m : Metadata) (b : Batch ι α) : Prop where
  | plain (hmask : m.specSequenceMasks = none) (hspec : b.spec = [])
      (hrows : b.rows = List.range m.numActualTokens)
  | specOnly (hmask : m.specSequenceMasks.isSome) (hdecode : b.decode = [])
      (hprefill : b.prefill = []) {total : Nat} (htotal : total ≤ m.numActualTokens)
      (hrows : b.rows = List.range total)
  | mixed (hmask : m.specSequenceMasks.isSome) (hother : b.decode ≠ [] ∨ b.prefill ≠ [])
      (hspec : m.specTokenIndx = some (b.spec.map Placed.rows).flatten)
      (hnonSpec : m.nonSpecTokenIndx =
        some ((b.decode.map Placed.rows).flatten ++ (b.prefill.map Placed.rows).flatten))
      (hcover : b.rows.Perm (List.range m.numActualTokens))

/-- The tensors of the speculative requests; graph padding may make them longer.  The packing
width `spec_query_len` is the number of draft tokens and one. -/
structure Metadata.DescribesSpec (m : Metadata) (qs : List (SpecReq ι α)) : Prop where
  slots : m.specStateIndicesTensor.map (List.take qs.length) = some (qs.map SpecReq.slot)
  loc : m.specQueryStartLoc.map (List.take (qs.length + 1)) =
    some (cuSeqlens (qs.map (·.tokens.length)))
  accepted : m.numAcceptedTokens.map (List.take qs.length) = some (qs.map SpecReq.accepted)
  queryLen : 0 < m.specQueryLen

/-- The tensors of the decode and prefill requests. -/
structure Metadata.DescribesNonSpec (m : Metadata) (ds : List (DecodeReq ι α))
    (ps : List (PrefillReq ι α)) : Prop where
  slots : ∃ tail, m.stateIndicesTensor =
      some (ds.map DecodeReq.slot ++ ps.map PrefillReq.slot ++ tail) ∧ (ps ≠ [] → tail = [])
  flags : DecodeFlags ds m.hasInitialStatesD
  flagsP : ps ≠ [] →
    m.hasInitialStatesP.map (List.take ps.length) = some (ps.map PrefillReq.hasInitial)
  locP : ps ≠ [] → m.nonSpecQueryStartLoc.map (fun loc =>
    (loc.drop (loc.length - (ps.length + 1))).map (· - ds.length)) =
      some (cuSeqlens (ps.map (·.tokens.length)))
  maxLen : ∀ q ∈ ps, q.tokens.length ≤ m.maxPrefillQueryLen

/-- The metadata and the input rows describe the batch. -/
structure Metadata.Describes (m : Metadata) (inputs : List (Row ι α)) (b : Batch ι α) : Prop where
  tokens : ∀ p ∈ b.requests, p.rows.map (inputs[·]?) = p.req.tokens.map some
  numActualTokens : m.numActualTokens ≤ inputs.length
  numSpecDecodes : m.numSpecDecodes = b.spec.length
  numDecodes : m.numDecodes = b.decode.length
  numDecodeTokens : m.numDecodeTokens = b.decode.length
  numPrefills : m.numPrefills = b.prefill.length
  numPrefillTokens : m.numPrefillTokens = (b.prefill.map (·.req.tokens.length)).sum
  spec : m.specSequenceMasks.isSome → m.DescribesSpec (b.spec.map Placed.req)
  nonSpec : m.specSequenceMasks = none ∨ b.decode ≠ [] ∨ b.prefill ≠ [] →
    m.DescribesNonSpec (b.decode.map Placed.req) (b.prefill.map Placed.req)
  layout : m.Layout b

/-! ## jobs of a batch -/

section Jobs

variable [Add α] [MulZeroOneClass α]

/-- What a request does to its slot. -/
def Req.job (L : PleLayer ι α β) (maxLen : Nat) (cached : Bool) :
    Req ι α → Job Nat (Slot ι β) (List (Row ι α))
  | .spec q => q.job L maxLen
  | .decode q => q.job L
  | .prefill q => q.job L cached

/-- What the requests of a batch do to their slots. -/
def Batch.jobs (L : PleLayer ι α β) (maxLen : Nat) (cached : Bool) (b : Batch ι α) :
    List (Job Nat (Slot ι β) (List (Row ι α))) :=
  b.requests.map fun p => p.req.job L maxLen cached

@[simp] theorem Req.job_key (L : PleLayer ι α β) (maxLen : Nat) (cached : Bool) (q : Req ι α) :
    (q.job L maxLen cached).key = q.slot := by
  cases q <;> rfl

/-- A NULL request leaves its slot alone. -/
theorem Req.job_idle (L : PleLayer ι α β) (maxLen : Nat) (cached : Bool) {q : Req ι α}
    (h : q.slot = nullBlockId) : (q.job L maxLen cached).Idle := by
  cases q with
  | spec q => exact q.job_idle L maxLen h
  | decode q => exact q.job_idle L h
  | prefill q => exact q.job_idle L cached (.inl h)

/-- A request has one output row for each of its tokens. -/
theorem Req.length_job (L : PleLayer ι α β) (maxLen : Nat) (cached : Bool) (q : Req ι α)
    (s : Slot ι β) : ((q.job L maxLen cached).run s).1.length = q.tokens.length := by
  cases q <;> simp [Req.job, SpecReq.job, DecodeReq.job, PrefillReq.job, Req.tokens]

theorem Batch.separate_jobs (L : PleLayer ι α β) (maxLen : Nat) (cached : Bool) {b : Batch ι α}
    (h : DistinctSlots b.slots) : Separate (b.jobs L maxLen cached) := by
  apply separate_of_distinctSlots
  · simpa [Batch.jobs, Batch.slots, Function.comp_def] using h
  · intro j hj hkey
    obtain ⟨p, _, rfl⟩ := List.mem_map.mp hj
    exact Req.job_idle L maxLen cached (by simpa using hkey)

/-- The jobs of the speculative requests. -/
def Batch.specJobs (L : PleLayer ι α β) (maxLen : Nat) (b : Batch ι α) :
    List (Job Nat (Slot ι β) (List (Row ι α))) :=
  (b.spec.map Placed.req).map (SpecReq.job L maxLen)

/-- The jobs of the decode requests, followed by those of the prefill requests. -/
def Batch.nonSpecJobs (L : PleLayer ι α β) (cached : Bool) (b : Batch ι α) :
    List (Job Nat (Slot ι β) (List (Row ι α))) :=
  (b.decode.map Placed.req).map (DecodeReq.job L) ++
    (b.prefill.map Placed.req).map (PrefillReq.job L cached)

theorem Batch.jobs_eq (L : PleLayer ι α β) (maxLen : Nat) (cached : Bool) (b : Batch ι α) :
    b.jobs L maxLen cached = b.specJobs L maxLen ++ b.nonSpecJobs L cached := by
  simp only [Batch.jobs, Batch.requests, Batch.specJobs, Batch.nonSpecJobs, List.map_append,
    List.map_map]
  rfl

end Jobs

/-! ## the parts of the dispatcher -/

section Parts

variable [Add α] [MulZeroOneClass α] {L : PleLayer ι α β} {m : Metadata}
  {convState : ConvState ι β}

/-- The speculative part on the tokens of its requests, followed by padding rows. -/
theorem runSpecPart_eq {qs : List (SpecReq ι α)} (hn : m.numSpecDecodes = qs.length)
    (hm : m.DescribesSpec qs) (pad : List (Row ι α))
    (hcols : 0 < L.convStateLen → L.convStateLen + m.specQueryLen - 1 ≤ convState.columns) :
    runSpecPart L m convState (some ((qs.map SpecReq.tokens).flatten ++ pad)) =
      .ok (some ((runAll (qs.map (SpecReq.job L m.specQueryLen)) convState.data).1.flatten ++
          pad.map fun _ => 0),
        { convState with
          data := (runAll (qs.map (SpecReq.job L m.specQueryLen)) convState.data).2 }) := by
  obtain ⟨idx, hidx, hslots⟩ := Option.map_eq_some_iff.mp hm.slots
  obtain ⟨loc, hloc, hlens⟩ := Option.map_eq_some_iff.mp hm.loc
  obtain ⟨acc, hacc, haccepted⟩ := Option.map_eq_some_iff.mp hm.accepted
  simp only [runSpecPart, hidx, hloc, hacc, assertSome, Except.bind, hn, hslots]
  rw [specBatched_eq_runAll L qs pad convState loc acc hm.queryLen hlens haccepted hcols]
  rfl

/-- The non-speculative part on the tokens of its requests. -/
theorem runNonSpecPart_eq (ds : List (DecodeReq ι α)) (ps : List (PrefillReq ι α))
    (uninit : Nat → Row ι α) (convState : ConvState ι β) (hd : m.numDecodes = ds.length)
    (hdt : m.numDecodeTokens = ds.length) (hp : m.numPrefills = ps.length)
    (hpt : m.numPrefillTokens = (ps.map (·.tokens.length)).sum) (hm : m.DescribesNonSpec ds ps)
    (hsep : Separate (ds.map (DecodeReq.job L) ++
      ps.map (PrefillReq.job L (0 < convState.slots)))) :
    runNonSpecPart L uninit m convState
        (some (ds.map DecodeReq.token ++ (ps.map PrefillReq.tokens).flatten)) =
      .ok (some (runAll (ds.map (DecodeReq.job L) ++
          ps.map (PrefillReq.job L (0 < convState.slots))) convState.data).1.flatten,
        { convState with
          data := (runAll (ds.map (DecodeReq.job L) ++
            ps.map (PrefillReq.job L (0 < convState.slots))) convState.data).2 }) := by
  obtain ⟨tail, hidx, htail⟩ := hm.slots
  have hdecode := decodeBatched_eq_runAll L ds m.hasInitialStatesD convState hm.flags
  have hlen : (ps.map PrefillReq.tokens).flatten.length = (ps.map (·.tokens.length)).sum := by
    rw [List.length_flatten, List.map_map]
    rfl
  simp only [runNonSpecPart, hidx, assertSome, Except.bind, hp, hd, hdt, hpt]
  by_cases hne : ps = []
  · subst hne
    simp [hdecode, Except.map]
  · have hpos : 0 < ps.length := List.length_pos_iff.mpr hne
    obtain ⟨flags, hflags, hinit⟩ := Option.map_eq_some_iff.mp (hm.flagsP hne)
    obtain ⟨loc, hloc, hlens⟩ := Option.map_eq_some_iff.mp (hm.locP hne)
    rw [if_pos hpos, htail hne, List.append_nil, splitTwo, if_pos (by simp)]
    simp only [splitTwo, List.length_append, List.length_map, hlen, if_true,
      List.take_left' (List.length_map _), List.drop_left' (List.length_map _)]
    have hdecoded : runDecodePart L m convState (ds.map DecodeReq.token) (ds.map DecodeReq.slot) =
        .ok ((runAll (ds.map (DecodeReq.job L)) convState.data).1.flatten,
          { convState with data := (runAll (ds.map (DecodeReq.job L)) convState.data).2 }) := by
      unfold runDecodePart
      split
      · exact hdecode
      · next h =>
          have hnil : ds = [] := List.eq_nil_of_length_eq_zero (by omega)
          subst hnil
          rfl
    rw [hdecoded, hflags, hloc]
    have hprefill := prefillBatched_eq_runAll L uninit ps loc (ps.map PrefillReq.slot) flags
      m.maxPrefillQueryLen ds.length
      { convState with data := (runAll (ds.map (DecodeReq.job L)) convState.data).2 }
      (by simp) hinit hm.maxLen (List.pairwise_append.mp hsep).2.1 hlens
    simp only [hprefill, Except.map, runAll_append hsep, List.flatten_append]

omit [Add α] in
/-- Copying rows to positions of a buffer. -/
theorem indexCopyRows_map_range (f : Nat → Row ι α) {n : Nat} {index : List Nat}
    {source : List (Row ι α)} (hlen : source.length = index.length) (hlt : ∀ k ∈ index, k < n) :
    indexCopyRows ((List.range n).map f) index source =
      .ok ((List.range n).map (scatter f (index.zip source))) := by
  unfold indexCopyRows
  rw [if_pos ⟨hlen, by simpa using hlt⟩, List.length_map, List.length_range]
  congr 1
  apply List.map_congr_left
  intro p hp
  apply scatter_congr_base
  simp [List.mem_range.mp hp]

end Parts

/-! ## the whole dispatcher -/

/-- Reading the first rows one by one is cutting them off. -/
theorem take_eq_of_map_range {ρ : Type} {xs ys : List ρ} {n : Nat}
    (h : (List.range n).map (xs[·]?) = ys.map some) : xs.take n = ys := by
  have hlen : n = ys.length := by simpa using congrArg List.length h
  apply List.ext_getElem?
  intro i
  rw [List.getElem?_take]
  by_cases hi : i < n
  · have hrow := congrArg (·[i]?) h
    rw [if_pos hi]
    simpa [hi, hlen ▸ hi] using hrow
  · rw [if_neg hi, List.getElem?_eq_none (by omega)]

/-- Selecting rows that hold known values. -/
theorem indexSelect_eq {ρ : Type} [Zero ρ] {xs ys : List ρ} {index : List Nat}
    (h : index.map (xs[·]?) = ys.map some) : indexSelect xs index = .ok ys := by
  have hlt : ∀ k ∈ index, k < xs.length := by
    intro k hk
    have hmem : xs[k]? ∈ ys.map some := h ▸ List.mem_map.mpr ⟨k, hk, rfl⟩
    obtain ⟨y, _, hy⟩ := List.mem_map.mp hmem
    exact (List.getElem?_eq_some_iff.mp hy.symm).1
  have hread : index.map (xs.getD · 0) = ys := by
    have hget := congrArg (List.map (Option.getD · 0)) h
    simpa [Function.comp_def, List.getD_eq_getElem?_getD] using hget
  unfold indexSelect
  rw [if_pos (by simpa using hlt), hread]

/-- Reading the rows of all requests reads their tokens one request after another. -/
theorem map_rows_flatten {ρ τ : Type} {ps : List (Placed ρ)} {read : Nat → Option τ}
    (tokens : ρ → List τ) (h : ∀ p ∈ ps, p.rows.map read = (tokens p.req).map some) :
    (ps.map Placed.rows).flatten.map read = ((ps.map Placed.req).map tokens).flatten.map some := by
  induction ps with
  | nil => rfl
  | cons p ps ih =>
      simp only [List.map_cons, List.flatten_cons, List.map_append]
      rw [h p List.mem_cons_self, ih fun p hp => h p (List.mem_cons_of_mem _ hp)]

section Batches

variable {m : Metadata} {inputs : List (Row ι α)} {b : Batch ι α}

theorem Batch.rows_eq (b : Batch ι α) : b.rows = (b.spec.map Placed.rows).flatten ++
    ((b.decode.map Placed.rows).flatten ++ (b.prefill.map Placed.rows).flatten) := by
  simp [Batch.rows, Batch.requests, Function.comp_def]

theorem Metadata.Describes.specRows (h : m.Describes inputs b) :
    (b.spec.map Placed.rows).flatten.map (inputs[·]?) =
      b.specTokens.map some :=
  map_rows_flatten _ fun p hp => h.tokens ⟨.spec p.req, p.rows⟩
    (List.mem_append_left _ (List.mem_map.mpr ⟨p, hp, rfl⟩))

theorem Metadata.Describes.nonSpecRows (h : m.Describes inputs b) :
    ((b.decode.map Placed.rows).flatten ++ (b.prefill.map Placed.rows).flatten).map (inputs[·]?) =
      b.nonSpecTokens.map some := by
  rw [Batch.nonSpecTokens, List.map_append, List.map_append]
  congr 1
  · rw [map_rows_flatten (fun q => [DecodeReq.token q]), flatten_map_singleton]
    exact fun p hp => h.tokens ⟨.decode p.req, p.rows⟩
      (List.mem_append_right _ (List.mem_append_left _ (List.mem_map.mpr ⟨p, hp, rfl⟩)))
  · exact map_rows_flatten _ fun p hp => h.tokens ⟨.prefill p.req, p.rows⟩
      (List.mem_append_right _ (List.mem_append_right _ (List.mem_map.mpr ⟨p, hp, rfl⟩)))

theorem Metadata.Describes.length_rows (h : m.Describes inputs b) {p : Placed (Req ι α)}
    (hp : p ∈ b.requests) : p.rows.length = p.req.tokens.length := by
  simpa using congrArg List.length (h.tokens p hp)

variable [Add α] [MulZeroOneClass α] {L : PleLayer ι α β} {convState : ConvState ι β}

/-- The batch has one output row for each of its rows. -/
theorem Metadata.Describes.length_runAll (h : m.Describes inputs b) (maxLen : Nat) (cached : Bool)
    (st : Nat → Slot ι β) :
    (runAll (b.jobs L maxLen cached) st).1.flatten.length = b.rows.length := by
  unfold Batch.jobs
  rw [length_runAll_flatten (fun p : Placed (Req ι α) => p.req.tokens.length)
    fun p s => Req.length_job L maxLen cached p.req s, Batch.rows, List.length_flatten,
    List.map_map]
  congr 1
  exact List.map_congr_left fun p hp => (h.length_rows hp).symm

omit [Add α] [MulZeroOneClass α] in
/-- The three parts one after another. -/
theorem dispatch_of_parts [Zero α] [Add α] [Mul α] [One α] {uninitP uninit : Nat → Row ι α}
    {tokens : Option (List (Row ι α)) × Option (List (Row ι α))}
    {spec nonSpec : Option (List (Row ι α)) × ConvState ι β} {output : List (Row ι α)}
    (htokens : splitTokens m (inputs.take m.numActualTokens) = .ok tokens)
    (hspec : runSpecPart L m convState tokens.1 = .ok spec)
    (hnonSpec : runNonSpecPart L uninitP m spec.2 tokens.2 = .ok nonSpec)
    (hmerge : mergeParts uninit m (inputs.take m.numActualTokens) spec.1 nonSpec.1 = .ok output) :
    shortConvDilatedDispatch L uninitP uninit inputs m convState = .ok (output, nonSpec.2) := by
  unfold shortConvDilatedDispatch
  simp only [htokens, hspec, hnonSpec, hmerge, Except.bind, Except.map]

/-- The speculative part runs the jobs of the speculative requests. -/
theorem Metadata.Describes.specPart (h : m.Describes inputs b)
    (hmask : m.specSequenceMasks.isSome) (pad : List (Row ι α))
    (hcols : 0 < L.convStateLen → L.convStateLen + m.specQueryLen - 1 ≤ convState.columns) :
    let run := runAll (b.specJobs L m.specQueryLen) convState.data
    runSpecPart L m convState (some (b.specTokens ++ pad)) =
      .ok (some (run.1.flatten ++ pad.map fun _ => 0), { convState with data := run.2 }) :=
  runSpecPart_eq (by simpa using h.numSpecDecodes) (h.spec hmask) pad hcols

/-- The other part runs the jobs of the decode and prefill requests. -/
theorem Metadata.Describes.nonSpecPart (h : m.Describes inputs b)
    (hkinds : m.specSequenceMasks = none ∨ b.decode ≠ [] ∨ b.prefill ≠ [])
    (uninit : Nat → Row ι α) (hsep : Separate (b.nonSpecJobs L (0 < convState.slots))) :
    let run := runAll (b.nonSpecJobs L (0 < convState.slots)) convState.data
    runNonSpecPart L uninit m convState (some b.nonSpecTokens) =
      .ok (some run.1.flatten, { convState with data := run.2 }) :=
  runNonSpecPart_eq _ _ uninit convState (by simpa using h.numDecodes)
    (by simpa using h.numDecodeTokens) (by simpa using h.numPrefills)
    (by simpa [Function.comp_def] using h.numPrefillTokens) (h.nonSpec hkinds) hsep

/-- Without speculative requests the outputs follow one another as the tokens do. -/
theorem dispatch_plain (h : m.Describes inputs b) (uninitP uninit : Nat → Row ι α)
    (hmask : m.specSequenceMasks = none) (hspec : b.spec = [])
    (hrows : b.rows = List.range m.numActualTokens)
    (hsep : Separate (b.jobs L m.specQueryLen (0 < convState.slots))) :
    let run := runAll (b.jobs L m.specQueryLen (0 < convState.slots)) convState.data
    shortConvDilatedDispatch L uninitP uninit inputs m convState =
      .ok (run.1.flatten, { convState with data := run.2 }) := by
  have hjobs : b.jobs L m.specQueryLen (0 < convState.slots) =
      b.nonSpecJobs L (0 < convState.slots) := by
    rw [Batch.jobs_eq, Batch.specJobs, hspec]
    rfl
  rw [hjobs] at hsep ⊢
  have hx : inputs.take m.numActualTokens = b.nonSpecTokens := by
    apply take_eq_of_map_range
    rw [← h.nonSpecRows, ← hrows, b.rows_eq, hspec]
    rfl
  have htokens : splitTokens m (inputs.take m.numActualTokens) =
      .ok (none, some b.nonSpecTokens) := by
    simp [splitTokens, hmask, hx]
  exact dispatch_of_parts htokens rfl (h.nonSpecPart (.inl hmask) uninitP hsep) rfl

/-- With nothing but speculative requests, zeros follow for the padding rows. -/
theorem dispatch_specOnly (h : m.Describes inputs b) (uninitP uninit : Nat → Row ι α)
    (hmask : m.specSequenceMasks.isSome) (hdecode : b.decode = []) (hprefill : b.prefill = [])
    {total : Nat} (htotal : total ≤ m.numActualTokens) (hrows : b.rows = List.range total)
    (hcols : 0 < L.convStateLen → L.convStateLen + m.specQueryLen - 1 ≤ convState.columns) :
    let run := runAll (b.jobs L m.specQueryLen (0 < convState.slots)) convState.data
    shortConvDilatedDispatch L uninitP uninit inputs m convState =
      .ok (run.1.flatten ++ List.replicate (m.numActualTokens - total) 0,
        { convState with data := run.2 }) := by
  have hjobs : b.jobs L m.specQueryLen (0 < convState.slots) = b.specJobs L m.specQueryLen := by
    simp [Batch.jobs_eq, Batch.nonSpecJobs, hdecode, hprefill]
  rw [hjobs]
  have hx : inputs.take m.numActualTokens =
      b.specTokens ++ (inputs.take m.numActualTokens).drop total := by
    conv_lhs => rw [← List.take_append_drop total (inputs.take m.numActualTokens)]
    rw [List.take_take, Nat.min_eq_left htotal]
    congr 1
    apply take_eq_of_map_range
    rw [← h.specRows, ← hrows, b.rows_eq, hdecode, hprefill]
    simp
  have htokens : splitTokens m (inputs.take m.numActualTokens) =
      .ok (some (inputs.take m.numActualTokens), none) := by
    simp [splitTokens, hmask, h.numPrefills, h.numDecodes, hdecode, hprefill]
  have hpart := h.specPart hmask ((inputs.take m.numActualTokens).drop total) hcols
  rw [← hx] at hpart
  have hpad : ((inputs.take m.numActualTokens).drop total).length = m.numActualTokens - total := by
    have := h.numActualTokens
    simp only [List.length_drop, List.length_take]
    omega
  rw [dispatch_of_parts htokens hpart rfl rfl, List.map_const', hpad]

/-- In a mixed batch each part's rows are copied back to where its tokens were. -/
theorem dispatch_mixed (h : m.Describes inputs b) (uninitP uninit : Nat → Row ι α)
    (hmask : m.specSequenceMasks.isSome) (hother : b.decode ≠ [] ∨ b.prefill ≠ [])
    (hspec : m.specTokenIndx = some (b.spec.map Placed.rows).flatten)
    (hnonSpec : m.nonSpecTokenIndx =
      some ((b.decode.map Placed.rows).flatten ++ (b.prefill.map Placed.rows).flatten))
    (hcover : b.rows.Perm (List.range m.numActualTokens))
    (hsep : Separate (b.jobs L m.specQueryLen (0 < convState.slots)))
    (hcols : 0 < L.convStateLen → L.convStateLen + m.specQueryLen - 1 ≤ convState.columns) :
    let run := runAll (b.jobs L m.specQueryLen (0 < convState.slots)) convState.data
    shortConvDilatedDispatch L uninitP uninit inputs m convState =
      .ok ((List.range m.numActualTokens).map (scatter (fun _ => 0) (b.rows.zip run.1.flatten)),
        { convState with data := run.2 }) := by
  have hlen := h.length_runAll (L := L) m.specQueryLen (0 < convState.slots) convState.data
  have hlt : ∀ k ∈ b.rows, k < m.numActualTokens :=
    fun k hk => List.mem_range.mp (hcover.mem_iff.mp hk)
  rw [Batch.jobs_eq] at hsep hlen ⊢
  rw [b.rows_eq] at hlen hlt hcover ⊢
  -- the positions of each kind read that kind's tokens
  have hread : ∀ rows : List Nat, (∀ k ∈ rows, k < m.numActualTokens) →
      rows.map ((inputs.take m.numActualTokens)[·]?) = rows.map (inputs[·]?) := by
    intro rows hrows
    apply List.map_congr_left
    intro k hk
    rw [List.getElem?_take, if_pos (hrows k hk)]
  have hltSpec := fun k hk => hlt k (List.mem_append_left _ hk)
  have hltNonSpec := fun k hk => hlt k (List.mem_append_right _ hk)
  have hxSpec := indexSelect_eq ((hread _ hltSpec).trans h.specRows)
  have hxNonSpec := indexSelect_eq ((hread _ hltNonSpec).trans h.nonSpecRows)
  have hkinds : 0 < m.numPrefills ∨ 0 < m.numDecodes := by
    rw [h.numPrefills, h.numDecodes, List.length_pos_iff, List.length_pos_iff]
    exact hother.symm
  have htokens : splitTokens m (inputs.take m.numActualTokens) =
      .ok (some b.specTokens, some b.nonSpecTokens) := by
    rw [splitTokens, if_pos hmask, if_pos hkinds, hspec, hnonSpec]
    simp only [assertSome, Except.bind, hxSpec, hxNonSpec, Except.map]
  have hpart := h.specPart hmask [] hcols
  simp only [List.append_nil, List.map_nil] at hpart
  have hspecLen : (runAll (b.specJobs L m.specQueryLen) convState.data).1.flatten.length =
      (b.spec.map Placed.rows).flatten.length := by
    rw [Batch.specJobs, length_runAll_flatten (fun q : SpecReq ι α => q.tokens.length)
      (by simp [SpecReq.job])]
    simpa [Batch.specTokens, Function.comp_def] using congrArg List.length h.specRows.symm
  rw [runAll_append hsep] at hlen ⊢
  simp only [List.flatten_append] at hlen ⊢
  rw [List.length_append, List.length_append, hspecLen] at hlen
  refine dispatch_of_parts htokens hpart
    (h.nonSpecPart (.inr hother) uninitP (List.pairwise_append.mp hsep).2.1) ?_
  simp only [mergeParts, hspec, hnonSpec, assertSome, Except.bind]
  rw [indexCopyRows_map_range _ hspecLen hltSpec]
  simp only
  rw [indexCopyRows_map_range _ (by omega) hltNonSpec]
  congr 1
  apply List.map_congr_left
  intro k hk
  rw [← scatter_append, ← List.zip_append hspecLen.symm]
  apply scatter_congr_of_mem
  rw [List.map_fst_zip (by simp only [List.length_append] at hlen ⊢; omega)]
  exact hcover.mem_iff.mpr hk

/-- **The dispatcher runs the jobs of the requests** it is given, and copies their rows back to
where their tokens were; other rows are zero. -/
theorem dispatch_eq_runAll (L : PleLayer ι α β) (uninitP uninit : Nat → Row ι α)
    (convState : ConvState ι β) (h : m.Describes inputs b) (hdistinct : DistinctSlots b.slots)
    (hcols : m.specSequenceMasks.isSome → 0 < L.convStateLen →
      L.convStateLen + m.specQueryLen - 1 ≤ convState.columns) :
    let run := runAll (b.jobs L m.specQueryLen (0 < convState.slots)) convState.data
    shortConvDilatedDispatch L uninitP uninit inputs m convState =
      .ok ((List.range m.numActualTokens).map (scatter (fun _ => 0) (b.rows.zip run.1.flatten)),
        { convState with data := run.2 }) := by
  intro run
  have hsep := Batch.separate_jobs L m.specQueryLen (0 < convState.slots) hdistinct
  have hlen : run.1.flatten.length = b.rows.length := h.length_runAll _ _ _
  have hbuffer : ∀ total ≤ m.numActualTokens, b.rows = List.range total →
      (List.range m.numActualTokens).map (scatter (fun _ => 0) (b.rows.zip run.1.flatten)) =
        run.1.flatten ++ List.replicate (m.numActualTokens - total) 0 := by
    intro total htotal hrows
    rw [hrows, List.length_range] at hlen
    rw [hrows, ← hlen, map_scatter_range_zip _ _ (hlen ▸ htotal)]
  cases h.layout with
  | plain hmask hspec hrows =>
      rw [hbuffer _ (Nat.le_refl _) hrows, Nat.sub_self, List.replicate_zero, List.append_nil]
      exact dispatch_plain h uninitP uninit hmask hspec hrows hsep
  | specOnly hmask hdecode hprefill htotal hrows =>
      rw [hbuffer _ htotal hrows]
      exact dispatch_specOnly h uninitP uninit hmask hdecode hprefill htotal hrows (hcols hmask)
  | mixed hmask hother hspec hnonSpec hcover =>
      exact dispatch_mixed h uninitP uninit hmask hother hspec hnonSpec hcover hsep (hcols hmask)

end Batches

end FlashNext
