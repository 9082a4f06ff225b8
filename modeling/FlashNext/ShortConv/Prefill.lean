import FlashNext.ShortConv.Request

/-!
# FlashNext.ShortConv.Prefill

The packed and the unpadded prefill path.

A prefill request is a `Job` on its cache slot: `PrefillReq.job` says what one
request does to its slot, with no packing and no other request in sight.

* `prefillCore_eq_runAll` — the packed kernel is `runAll` of the jobs;
* `prefillPerRequest_eq_runSeq` — the loop over requests is `runSeq` of them.

The two paths then agree by `runSeq_eq_runAll`, whichever of them the padding
test of `shortConvDilatedPrefillBatched` picks.  It picks neither for a batch without
tokens, which is too narrow for the packed convolution.
-/

namespace FlashNext

variable {ι α β : Type} [Zero α] [Add α] [Mul α]

/-! ## the two paths -/

/-- The loop of `_short_conv_dilated_prefill_per_request` from request `i`, whose
first token is row `start`. -/
def prefillLoop (L : PleLayer ι α β) (xP : List (Row ι α)) (lengths stateIndicesTensorP : List Nat)
    (hasInitialStatesP : List Bool) : List Nat → Nat → Nat → List (Row ι α) → ConvState ι β →
    Except PyError (List (Row ι α) × ConvState ι β)
  | [], _, _, output, convState => .ok (output, convState)
  | n :: lens, i, start, output, convState =>
    if 0 < n then
      match shortConvDilatedPrefillCore L ((xP.drop start).take n) [0, n] ((lengths.drop i).take 1)
          n 1 n ((stateIndicesTensorP.drop i).take 1) ((hasInitialStatesP.drop i).take 1)
          convState with
      | .error e => .error e
      | .ok (rows, convState) =>
        prefillLoop L xP lengths stateIndicesTensorP hasInitialStatesP lens (i + 1) (start + n)
          (output.take start ++ rows ++ output.drop (start + n)) convState
    else
      prefillLoop L xP lengths stateIndicesTensorP hasInitialStatesP lens (i + 1) (start + n)
        output convState

/-- `_short_conv_dilated_prefill_per_request`. -/
def shortConvDilatedPrefillPerRequest (L : PleLayer ι α β) (xP output : List (Row ι α))
    (lengths stateIndicesTensorP : List Nat) (hasInitialStatesP : List Bool)
    (convState : ConvState ι β) : Except PyError (List (Row ι α) × ConvState ι β) :=
  prefillLoop L xP lengths stateIndicesTensorP hasInitialStatesP lengths 0 0 output convState

/-- `_short_conv_dilated_prefill_batched`.  `uninit` is what `torch.empty_like` hands out. -/
def shortConvDilatedPrefillBatched (L : PleLayer ι α β) (uninit : Nat → Row ι α)
    (xP : List (Row ι α)) (nonSpecQueryStartLoc : Option (List Nat))
    (hasInitialStatesP : Option (List Bool)) (maxPrefillQueryLen : Nat)
    (convState : ConvState ι β) (stateIndicesTensorP : List Nat)
    (numPrefills numDecodeTokens numPrefillTokens : Nat) :
    Except PyError (List (Row ι α) × ConvState ι β) :=
  match nonSpecQueryStartLoc, hasInitialStatesP with
  | none, _ => .error (.valueError "query_start_loc is required for prefill short-conv")
  | some _, none => .error (.valueError "has_initial_states_p is required for prefill short-conv")
  | some queryStartLoc, some hasInitialStatesP =>
    let qStarts := (queryStartLoc.drop (queryStartLoc.length - (numPrefills + 1))).map
      (· - numDecodeTokens)
    let output := (List.range xP.length).map uninit
    let gotStates := stateIndicesTensorP.length
    let gotFlags := hasInitialStatesP.length
    let lengths := List.zipWith (· - ·) qStarts.tail qStarts
    if gotStates < numPrefills then
      .error (.valueError
        s!"state_indices_tensor_p size mismatch: got {gotStates}, need >= {numPrefills}.")
    else if gotFlags < numPrefills then
      .error (.valueError
        s!"has_initial_states_p size mismatch: got {gotFlags}, need >= {numPrefills}.")
    else if numPrefills = 0 ∨ xP.length = 0 then .ok (output, convState)
    else if maxPrefillQueryLen = 0 then .ok (output, convState)
    else if 1 < numPrefills ∧
        numPrefillTokens + numPrefillTokens / 4 < numPrefills * maxPrefillQueryLen then
      shortConvDilatedPrefillPerRequest L xP output lengths stateIndicesTensorP hasInitialStatesP
        convState
    else
      shortConvDilatedPrefillCore L xP qStarts lengths maxPrefillQueryLen numPrefills
        numPrefillTokens stateIndicesTensorP hasInitialStatesP convState

/-! ## the packed path -/

omit [Zero α] [Add α] [Mul α] in
/-- Every token of a batch lies inside the packed tensor. -/
theorem not_any_outside {qs : List (PrefillReq ι α)} {maxLen : Nat}
    (hmax : ∀ q ∈ qs, q.tokens.length ≤ maxLen) :
    ¬ ((ragged (qs.map (·.tokens.length))).any fun rc => qs.length ≤ rc.1 || maxLen ≤ rc.2) := by
  simp only [List.any_eq_true, not_exists, not_and, Bool.or_eq_true, decide_eq_true_eq, not_or,
    not_le]
  intro rc hrc
  obtain ⟨n, hn, hlt⟩ := mem_ragged hrc
  rw [List.getElem?_map, Option.map_eq_some_iff] at hn
  obtain ⟨q, hq, rfl⟩ := hn
  exact ⟨(List.getElem?_eq_some_iff.mp hq).1,
    Nat.lt_of_lt_of_le hlt (hmax q (List.mem_of_getElem? hq))⟩

/-- A batch of prefill requests, as the packed kernel is given it. -/
theorem prefillCore_eq_runAll (L : PleLayer ι α β) (qs : List (PrefillReq ι α))
    (slots : List Nat) (flags : List Bool) {maxLen : Nat} (hpos : 0 < maxLen)
    (convState : ConvState ι β)
    (hslots : slots.take qs.length = qs.map PrefillReq.slot)
    (hflags : flags.take qs.length = qs.map PrefillReq.hasInitial)
    (hmax : ∀ q ∈ qs, q.tokens.length ≤ maxLen) :
    shortConvDilatedPrefillCore L (qs.map PrefillReq.tokens).flatten
        (cuSeqlens (qs.map (·.tokens.length))) (qs.map (·.tokens.length)) maxLen qs.length
        (qs.map (·.tokens.length)).sum slots flags convState =
      .ok ((runAll (qs.map (PrefillReq.job L (0 < convState.slots))) convState.data).1.flatten,
        { convState with
          data :=
            (runAll (qs.map (PrefillReq.job L (0 < convState.slots))) convState.data).2 }) := by
  unfold shortConvDilatedPrefillCore
  rw [rowCol_range, hslots, hflags]
  extract_lets index S packedTokens stateIndices valid hasInitial state initialState history output
    nextState existingState updateMask rows
  rw [if_neg (not_any_outside hmax), if_neg (L.not_lt_kernelExtent hpos)]
  have hpacked : ∀ r (hr : r < qs.length) j,
      packedTokens (r, j) = qs[r].tokens.getD j 0 := by
    intro r hr j
    have hlens : qs.map (·.tokens.length) = (qs.map PrefillReq.tokens).map List.length := by
      simp
    simp only [packedTokens, index]
    rw [hlens, ragged_zip_flatten]
    exact scatter_entries j (by simp [hr])
  have hslot : ∀ r (hr : r < qs.length), stateIndices.getD r 0 = qs[r].slot :=
    fun r hr => getD_slots _ hr
  have hvalid : ∀ r (hr : r < qs.length), valid r = (qs[r].slot != nullBlockId) :=
    fun r hr => validState_slots _ hr
  have hinit : ∀ r (hr : r < qs.length), hasInitial r = qs[r].hasInitial := by
    intro r hr
    simp [hasInitial, hr]
  have hlen : ∀ r (hr : r < qs.length),
      (qs.map (·.tokens.length)).getD r 0 = qs[r].tokens.length := by
    intro r hr
    simp [hr]
  have hhist : ∀ r (hr : r < qs.length),
      history r = qs[r].history L (0 < convState.slots) (convState.data qs[r].slot) := by
    intro r hr
    simp only [history, PrefillReq.history, initialState, state, hvalid r hr, hinit r hr,
      hpacked r hr, stateIndex_eq, hslot r hr]
    congr 1
    funext c t
    grind
  have hout : output =
      (runAll (qs.map (PrefillReq.job L (0 < convState.slots))) convState.data).1.flatten := by
    simp only [output, index, runAll, List.map_map]
    refine map_ragged_eq_flatten qs _ (fun r j =>
      if j < (qs.map (·.tokens.length)).getD r 0 && valid r then L.conv (history r) j else 0) _ ?_
    intro r hr j hj
    simp [hr, hj, hvalid r hr, hhist r hr, PrefillReq.job]
  have hrows : ∀ r (hr : r < qs.length), rows r =
      setCols S (convState.data qs[r].slot) (if qs[r].slot != nullBlockId && 0 < qs[r].tokens.length
        then fun c t => L.toState (qs[r].history L (0 < convState.slots)
          (convState.data qs[r].slot) c (qs[r].tokens.length + t))
        else convState.data qs[r].slot) := by
    intro r hr
    simp only [rows, updateMask, nextState, existingState, stateIndex_eq, hslot r hr, hvalid r hr,
      hlen r hr, hhist r hr]
  rw [hout]
  congr 2
  apply writeBack_eq_runAll
  · intro r hr
    rw [stateIndex_eq, hslot r hr, PrefillReq.job]
  · intro hS r hr
    rw [hrows r hr]
    simp only [PrefillReq.job, hS.2, decide_true, Bool.true_and, S]
    split <;> simp
  · intro hS q s
    have hzero : ¬ 0 < convState.slots ∨ L.convStateLen = 0 := by
      simp only [S] at hS
      omega
    rcases hzero with h | h <;> simp [PrefillReq.job, h]

/-! ## the unpadded path -/

omit [Zero α] [Add α] [Mul α] in
/-- The one-element slice `xs[k : k + 1]` of a list known on a prefix. -/
theorem take_one_drop {τ : Type} {xs ys : List τ} {k m : Nat} {y : τ} (h : xs.take m = ys)
    (hk : ys[k]? = some y) : (xs.drop k).take 1 = [y] := by
  have hxs : xs[k]? = some y := by
    rw [← h, List.getElem?_take] at hk
    split at hk
    · exact hk
    · contradiction
  obtain ⟨hlt, rfl⟩ := List.getElem?_eq_some_iff.mp hxs
  rw [List.drop_eq_getElem_cons hlt]
  rfl

/-- One packed call for one request. -/
theorem prefillCore_single (L : PleLayer ι α β) (q : PrefillReq ι α) {maxLen : Nat}
    (hpos : 0 < maxLen) (hmax : q.tokens.length ≤ maxLen) (convState : ConvState ι β) :
    shortConvDilatedPrefillCore L q.tokens [0, q.tokens.length] [q.tokens.length] maxLen 1
        q.tokens.length [q.slot] [q.hasInitial] convState =
      .ok ((runAll [q.job L (0 < convState.slots)] convState.data).1.flatten,
        { convState with data := (runAll [q.job L (0 < convState.slots)] convState.data).2 }) := by
  have h := prefillCore_eq_runAll L [q] [q.slot] [q.hasInitial] hpos convState
    rfl rfl (by simpa using hmax)
  simpa [cuSeqlens, cuSeqlensFrom] using h

/-- The loop from any request on: the requests left are run one after another, and their
outputs replace what is left of the output buffer. -/
theorem prefillLoop_eq_runSeq (L : PleLayer ι α β) (done left : List (PrefillReq ι α))
    (slots : List Nat) (flags : List Bool) (out rest : List (Row ι α)) (convState : ConvState ι β)
    (hslots : slots.take (done.length + left.length) = (done ++ left).map PrefillReq.slot)
    (hflags : flags.take (done.length + left.length) = (done ++ left).map PrefillReq.hasInitial)
    (hout : out.length = (done.map (·.tokens.length)).sum)
    (hrest : rest.length = (left.map (·.tokens.length)).sum) :
    prefillLoop L ((done ++ left).map PrefillReq.tokens).flatten
        ((done ++ left).map (·.tokens.length)) slots flags (left.map (·.tokens.length)) done.length
        out.length (out ++ rest) convState =
      .ok (out ++ (runSeq (left.map (PrefillReq.job L (0 < convState.slots)))
          convState.data).1.flatten,
        { convState with
          data := (runSeq (left.map (PrefillReq.job L (0 < convState.slots)))
            convState.data).2 }) := by
  induction left generalizing done out rest convState with
  | nil => simp_all [prefillLoop, runSeq]
  | cons q left ih =>
      have hsplit : done ++ q :: left = (done ++ [q]) ++ left := by simp
      have hmid : ∀ {τ : Type} (f : PrefillReq ι α → τ),
          ((done ++ q :: left).map f)[done.length]? = some (f q) := by simp
      have hcount : (done ++ [q]).length + left.length = done.length + (q :: left).length := by
        simp only [List.length_append, List.length_cons, List.length_nil]
        omega
      have hstep := fun out' rest' cs h h' =>
        ih (done ++ [q]) out' rest' cs (by rw [hcount, hslots, hsplit])
          (by rw [hcount, hflags, hsplit]) h h'
      rw [← hsplit, List.length_append, List.length_singleton] at hstep
      have hrow : ((((done ++ q :: left).map PrefillReq.tokens).flatten).drop out.length).take
          q.tokens.length = q.tokens := by
        rw [List.map_append, List.flatten_append,
          List.drop_left' (by simp [hout, Function.comp_def])]
        simp
      rw [List.map_cons, List.map_cons, prefillLoop, runSeq]
      by_cases hn : 0 < q.tokens.length
      · rw [if_pos hn, hrow, take_one_drop hslots (hmid _), take_one_drop hflags (hmid _),
          take_one_drop (List.take_length) (hmid _), prefillCore_single L q hn (Nat.le_refl _)]
        generalize hr : (q.job L (0 < convState.slots)).run (convState.data q.slot) = r
        have hrlen : r.1.length = q.tokens.length := by
          rw [← hr, PrefillReq.job, List.length_map, List.length_range]
        have hone : runAll [q.job L (0 < convState.slots)] convState.data =
            ([r.1], Function.update convState.data q.slot r.2) := by
          rw [← hr]
          rfl
        have hbuf : (out ++ rest).take out.length ++ r.1 ++
            (out ++ rest).drop (out.length + q.tokens.length) =
              (out ++ r.1) ++ rest.drop q.tokens.length := by
          rw [List.take_left, List.drop_append]
          simp
        have hgoal := hstep (out ++ r.1) (rest.drop q.tokens.length)
          { convState with data := Function.update convState.data q.slot r.2 }
          (by simp [hout, hrlen]) (by simp [hrest])
        rw [List.length_append, hrlen] at hgoal
        simp only [hone, List.flatten_singleton, hbuf]
        rw [hgoal, show (q.job L (0 < convState.slots)).key = q.slot from rfl, hr]
        simp
      · have hnil : q.tokens = [] := List.eq_nil_of_length_eq_zero (by omega)
        have hrun : (q.job L (0 < convState.slots)).run (convState.data q.slot) =
            ([], convState.data q.slot) := by
          simp [PrefillReq.job, hnil]
        have hgoal := hstep out rest convState (by simp [hout, hnil]) (by simpa [hnil] using hrest)
        rw [if_neg hn, show (q.job L (0 < convState.slots)).key = q.slot from rfl, hrun,
          Function.update_eq_self]
        simpa [hnil] using hgoal

/-- The unpadded path runs the requests one after another. -/
theorem prefillPerRequest_eq_runSeq (L : PleLayer ι α β) (qs : List (PrefillReq ι α))
    (slots : List Nat) (flags : List Bool) (output : List (Row ι α)) (convState : ConvState ι β)
    (hslots : slots.take qs.length = qs.map PrefillReq.slot)
    (hflags : flags.take qs.length = qs.map PrefillReq.hasInitial)
    (hout : output.length = (qs.map (·.tokens.length)).sum) :
    shortConvDilatedPrefillPerRequest L (qs.map PrefillReq.tokens).flatten output
        (qs.map (·.tokens.length)) slots flags convState =
      .ok ((runSeq (qs.map (PrefillReq.job L (0 < convState.slots))) convState.data).1.flatten,
        { convState with
          data := (runSeq (qs.map (PrefillReq.job L (0 < convState.slots)))
            convState.data).2 }) := by
  have h := prefillLoop_eq_runSeq L [] qs slots flags [] output convState
    (by simpa using hslots) (by simpa using hflags) rfl hout
  simpa [shortConvDilatedPrefillPerRequest] using h

/-! ## the two paths agree -/

omit [Zero α] [Add α] [Mul α] in
/-- The arguments of a prefill batch are those of a list of requests. -/
theorem exists_prefillReqs {xP : List (Row ι α)} {lengths slots : List Nat} {flags : List Bool}
    (hsum : lengths.sum = xP.length) (hslots : lengths.length ≤ slots.length)
    (hflags : lengths.length ≤ flags.length) :
    ∃ qs : List (PrefillReq ι α), qs.length = lengths.length ∧
      (qs.map PrefillReq.tokens).flatten = xP ∧ qs.map (·.tokens.length) = lengths ∧
      qs.map PrefillReq.slot = slots.take lengths.length ∧
      qs.map PrefillReq.hasInitial = flags.take lengths.length := by
  induction lengths generalizing xP slots flags with
  | nil =>
      have hnil : xP = [] := List.eq_nil_of_length_eq_zero (by simpa using hsum.symm)
      exact ⟨[], by simp [hnil]⟩
  | cons n lengths ih =>
      obtain ⟨s, slots, rfl⟩ := List.exists_cons_of_length_pos (Nat.lt_of_lt_of_le
        (Nat.succ_pos _) hslots)
      obtain ⟨f, flags, rfl⟩ := List.exists_cons_of_length_pos (Nat.lt_of_lt_of_le
        (Nat.succ_pos _) hflags)
      rw [List.sum_cons] at hsum
      obtain ⟨qs, hcount, htokens, hlens, hqslots, hqflags⟩ :=
        ih (show lengths.sum = (xP.drop n).length by rw [List.length_drop]; omega)
          (by simpa using hslots) (by simpa using hflags)
      have hlen : (xP.take n).length = n := by rw [List.length_take]; omega
      refine ⟨⟨xP.take n, s, f⟩ :: qs, ?_, ?_, ?_, ?_, ?_⟩
      · simp [hcount]
      · simp [htokens]
      · simp [hlens, hlen]
      · simp [hqslots]
      · simp [hqflags]

/-- A batch without tokens has no output and leaves the cache alone. -/
theorem runAll_prefillJobs_of_empty (L : PleLayer ι α β) (cached : Bool)
    {qs : List (PrefillReq ι α)} (hnil : ∀ q ∈ qs, q.tokens = []) (st : Nat → Slot ι β) :
    (runAll (qs.map (PrefillReq.job L cached)) st).1.flatten = [] ∧
      (runAll (qs.map (PrefillReq.job L cached)) st).2 = st := by
  constructor
  · rw [List.flatten_eq_nil_iff]
    simp only [runAll, List.map_map, List.mem_map]
    rintro _ ⟨q, hq, rfl⟩
    simp [PrefillReq.job, hnil q hq]
  · apply runAll_eq_self
    intro j hj
    obtain ⟨q, hq, rfl⟩ := List.mem_map.mp hj
    exact q.job_idle L cached (.inr (hnil q hq))

/-- Whatever path the padding test picks, a prefill batch runs the jobs of its requests. -/
theorem prefillBatched_eq_runAll (L : PleLayer ι α β) (uninit : Nat → Row ι α)
    (qs : List (PrefillReq ι α)) (queryStartLoc slots : List Nat) (flags : List Bool)
    (maxLen numDecodeTokens : Nat) (convState : ConvState ι β)
    (hslots : slots.take qs.length = qs.map PrefillReq.slot)
    (hflags : flags.take qs.length = qs.map PrefillReq.hasInitial)
    (hmax : ∀ q ∈ qs, q.tokens.length ≤ maxLen)
    (hsep : Separate (qs.map (PrefillReq.job L (0 < convState.slots))))
    (hloc : (queryStartLoc.drop (queryStartLoc.length - (qs.length + 1))).map
      (· - numDecodeTokens) = cuSeqlens (qs.map (·.tokens.length))) :
    shortConvDilatedPrefillBatched L uninit (qs.map PrefillReq.tokens).flatten (some queryStartLoc)
        (some flags) maxLen convState slots qs.length numDecodeTokens
        (qs.map (·.tokens.length)).sum =
      .ok ((runAll (qs.map (PrefillReq.job L (0 < convState.slots))) convState.data).1.flatten,
        { convState with
          data :=
            (runAll (qs.map (PrefillReq.job L (0 < convState.slots))) convState.data).2 }) := by
  have hgot : qs.length ≤ slots.length := by
    have := congrArg List.length hslots
    simp only [List.length_take, List.length_map] at this
    omega
  have hgot' : qs.length ≤ flags.length := by
    have := congrArg List.length hflags
    simp only [List.length_take, List.length_map] at this
    omega
  have hlen : (qs.map PrefillReq.tokens).flatten.length = (qs.map (·.tokens.length)).sum := by
    rw [List.length_flatten, List.map_map]
    rfl
  simp only [shortConvDilatedPrefillBatched, hloc]
  rw [if_neg (by omega), if_neg (by omega), cuSeqlens, diff_cuSeqlensFrom, ← cuSeqlens]
  split
  · next hempty =>
      have hzero : (qs.map PrefillReq.tokens).flatten.length = 0 := by
        rcases hempty with h | h
        · rw [List.eq_nil_of_length_eq_zero h]
          rfl
        · exact h
      have hnil : ∀ q ∈ qs, q.tokens = [] := fun q hq =>
        List.flatten_eq_nil_iff.mp (List.eq_nil_of_length_eq_zero hzero) _
          (List.mem_map.mpr ⟨q, hq, rfl⟩)
      obtain ⟨hrows, hdata⟩ := runAll_prefillJobs_of_empty L (0 < convState.slots) hnil
        convState.data
      rw [hrows, hdata, hzero]
      rfl
  · next hne =>
      have hpos : 0 < maxLen := by
        rw [Nat.pos_iff_ne_zero]
        rintro rfl
        have hzero : (qs.map (·.tokens.length)).sum = 0 := by
          rw [List.sum_eq_zero_iff]
          intro n hn
          obtain ⟨q, hq, rfl⟩ := List.mem_map.mp hn
          exact Nat.le_zero.mp (hmax q hq)
        omega
      rw [if_neg (Nat.pos_iff_ne_zero.mp hpos)]
      split
      · rw [prefillPerRequest_eq_runSeq L qs slots flags _ convState hslots hflags
          (by rw [List.length_map, List.length_range, hlen]),
          runSeq_eq_runAll hsep]
      · exact prefillCore_eq_runAll L qs slots flags hpos convState hslots hflags hmax

/-- **The packed and the unpadded prefill path are interchangeable**: on every batch packed at a
positive width they return the same output rows and leave the same cache, so the padding test
cannot be observed. -/
theorem prefill_paths_agree (L : PleLayer ι α β) (xP output : List (Row ι α))
    (lengths slots : List Nat) (flags : List Bool) (maxLen : Nat) (convState : ConvState ι β)
    (hpos : 0 < maxLen) (hsum : lengths.sum = xP.length) (hout : output.length = xP.length)
    (hslots : lengths.length ≤ slots.length) (hflags : lengths.length ≤ flags.length)
    (hmax : ∀ n ∈ lengths, n ≤ maxLen) (hdistinct : DistinctSlots (slots.take lengths.length)) :
    ∃ r, shortConvDilatedPrefillCore L xP (cuSeqlens lengths) lengths maxLen lengths.length
        xP.length slots flags convState = .ok r ∧
      shortConvDilatedPrefillPerRequest L xP output lengths slots flags convState = .ok r ∧
      ∀ (uninit : Nat → Row ι α) (queryStartLoc : List Nat) (numDecodeTokens : Nat),
        (queryStartLoc.drop (queryStartLoc.length - (lengths.length + 1))).map
            (· - numDecodeTokens) = cuSeqlens lengths →
        shortConvDilatedPrefillBatched L uninit xP (some queryStartLoc) (some flags) maxLen
          convState slots lengths.length numDecodeTokens xP.length = .ok r := by
  obtain ⟨qs, hcount, rfl, rfl, hqslots, hqflags⟩ := exists_prefillReqs hsum hslots hflags
  rw [List.length_map] at *
  have hqmax : ∀ q ∈ qs, q.tokens.length ≤ maxLen :=
    fun q hq => hmax _ (List.mem_map.mpr ⟨q, hq, rfl⟩)
  have hsep : Separate (qs.map (PrefillReq.job L (0 < convState.slots))) :=
    separate_prefillJobs L _ (hqslots ▸ hdistinct)
  have hseq := prefillPerRequest_eq_runSeq L qs slots flags output convState hqslots.symm
    hqflags.symm (hout.trans hsum.symm)
  rw [runSeq_eq_runAll hsep] at hseq
  rw [← hsum]
  refine ⟨_, prefillCore_eq_runAll L qs slots flags hpos convState hqslots.symm hqflags.symm
    hqmax, hseq, ?_⟩
  intro uninit queryStartLoc numDecodeTokens hloc
  exact prefillBatched_eq_runAll L uninit qs queryStartLoc slots flags maxLen numDecodeTokens
    convState hqslots.symm hqflags.symm hqmax hsep hloc

/-- A batch with an empty NULL request between two others. -/
theorem prefill_paths_agree_three_requests :
    ∃ r, shortConvDilatedPrefillCore twoTapLayer [fun _ => 5, fun _ => 7, fun _ => 1]
        (cuSeqlens [2, 0, 1]) [2, 0, 1] 4 3 3 [1, 0, 2] [true, false, false] (constCache 4) =
          .ok r ∧
      shortConvDilatedPrefillPerRequest twoTapLayer [fun _ => 5, fun _ => 7, fun _ => 1]
        [0, 0, 0] [2, 0, 1] [1, 0, 2] [true, false, false] (constCache 4) = .ok r := by
  obtain ⟨r, hcore, hloop, _⟩ := prefill_paths_agree twoTapLayer
    [fun _ => 5, fun _ => 7, fun _ => 1] [0, 0, 0] [2, 0, 1] [1, 0, 2] [true, false, false] 4
    (constCache 4) (by decide) (by decide) rfl (by decide) (by decide) (by decide) (by decide)
  exact ⟨r, hcore, hloop⟩

/-- A batch of empty requests, packed at width zero, raises in the convolution of the packed path,
and the unpadded path skips every request. -/
theorem empty_prefills_raise_when_packed :
    shortConvDilatedPrefillCore twoTapLayer [] (cuSeqlens [0, 0]) [0, 0] 0 2 0 [1, 2]
        [false, false] (constCache 4) = .error (twoTapLayer.kernelError 2) ∧
      shortConvDilatedPrefillPerRequest twoTapLayer [] [] [0, 0] [1, 2] [false, false]
        (constCache 4) = .ok ([], constCache 4) :=
  ⟨rfl, rfl⟩

end FlashNext
