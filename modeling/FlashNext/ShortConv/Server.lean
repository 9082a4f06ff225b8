import FlashNext.ShortConv.Wrapper

/-!
# FlashNext.ShortConv.Server

Whole runs of a server: batches of any mixture of requests, one after another, on one
cache.

The abstract server keeps no columns.  For each slot it knows its `Owner`: the inputs of
the request that has the slot, as far as they were kept.  `Req.ownerJob` is a request's
step there, and `AllowedStep` is what a scheduler owes the layer: the flags and the
accepted counts of a request agree with its owner, and slots are not shared.

* `Req.job_holds` — a request's step on its slot follows its step on the owner;
* `runServer_eq_histories` — in an allowed run every request gets, in every step, the
  causal convolution of its own history.
-/

namespace FlashNext

variable {ι α β : Type}

/-! ## owners -/

/-- The request that has a slot: its inputs so far, what its last step accepted of its
tokens, and the inputs whose window a step without drafts finds. -/
structure Owner (τ : Type) where
  kept : List τ
  numAccepted : Nat
  plain : List τ

/-- The request reads its slot. -/
def Req.continues : Req ι α → Bool
  | .spec _ => true
  | .decode q => q.hasInitial
  | .prefill q => q.hasInitial

section Owners

variable {τ : Type}

/-- The inputs that come before the tokens of the request. -/
def Req.before (q : Req ι α) (owner : Option (Owner τ)) : List τ :=
  if q.continues then (owner.map Owner.kept).getD [] else []

/-- The owner of the slot after the request's step on `tokens`, of which `accepted` are accepted. -/
def Req.after (accepted : Nat) (tokens : List τ) (q : Req ι α) (owner : Option (Owner τ)) :
    Option (Owner τ) :=
  let before := q.before owner
  match q with
  | .spec _ => some ⟨before ++ tokens.take accepted, accepted, before ++ tokens.take 1⟩
  | .decode _ | .prefill _ =>
    if tokens.isEmpty then owner else some ⟨before ++ tokens, 1, before ++ tokens⟩

/-- What a request does to the owner of its slot, and the inputs it continues. -/
def Req.ownerJob (accepted : Nat → Nat) (tokens : List τ) (q : Req ι α) :
    Job Nat (Option (Owner τ)) (List τ) where
  key := q.slot
  run owner :=
    (q.before owner,
      if q.slot = nullBlockId then owner else q.after (accepted q.slot) tokens owner)

/-- The owners after a batch, the requests of which bring `tokens`. -/
def Batch.after (accepted : Nat → Nat) (tokens : Placed (Req ι α) → List τ) (b : Batch ι α)
    (owners : Nat → Option (Owner τ)) : Nat → Option (Owner τ) :=
  (runAll (b.requests.map fun p => p.req.ownerJob accepted (tokens p)) owners).2

/-- The owners of distinct slots are separate. -/
theorem Batch.separate_ownerJobs {b : Batch ι α} (hdistinct : DistinctSlots b.slots)
    (accepted : Nat → Nat) (tokens : Placed (Req ι α) → List τ) :
    Separate (b.requests.map fun p => p.req.ownerJob accepted (tokens p)) := by
  apply separate_of_distinctSlots
  · simpa [Batch.slots, Function.comp_def, Req.ownerJob] using hdistinct
  · intro j hj hkey owner
    obtain ⟨p, _, rfl⟩ := List.mem_map.mp hj
    exact if_pos hkey

end Owners

/-! ## runs -/

/-- A step of the server: its metadata and inputs, the batch that they describe, how many tokens
are accepted in each slot afterwards, and the rows of uninitialised buffers. -/
structure ServerStep (ι α : Type) where
  inputs : List (Row ι α)
  metadata : Metadata
  batch : Batch ι α
  accepted : Nat → Nat
  uninitP : Nat → Row ι α
  uninit : Nat → Row ι α

/-- The owners after a step. -/
def ServerStep.after (step : ServerStep ι α) (owners : Nat → Option (Owner (Row ι α))) :
    Nat → Option (Owner (Row ι α)) :=
  step.batch.after step.accepted (·.req.tokens) owners

/-- The owners after some steps. -/
def ownersFrom (owners : Nat → Option (Owner (Row ι α))) (steps : List (ServerStep ι α)) :
    Nat → Option (Owner (Row ι α)) :=
  steps.foldl (fun owners step => step.after owners) owners

/-- The request agrees with the owner of its slot. -/
def Req.Agrees [Zero α] (L : PleLayer ι α β) (specQueryLen accepted : Nat)
    (owner : Option (Owner (Row ι α))) : Req ι α → Prop
  | .spec q =>
    1 ≤ accepted ∧ accepted ≤ q.tokens.length ∧ q.tokens.length ≤ specQueryLen ∧
      ∃ o, owner = some o ∧ q.accepted = o.numAccepted ∧ o.numAccepted ≤ specQueryLen
  | .decode q => q.hasInitial → ∃ o, owner = some o ∧
      window 0 L.convStateLen o.plain = window 0 L.convStateLen o.kept
  | .prefill q => q.hasInitial → ∃ o, owner = some o ∧
      window 0 L.convStateLen o.plain = window 0 L.convStateLen o.kept

/-- What the scheduler owes the layer in a step. -/
structure AllowedStep [Zero α] (L : PleConvLayer ι α β) (slots : Nat)
    (owners : Nat → Option (Owner (Row ι α))) (step : ServerStep ι α) : Prop where
  describes : step.metadata.Describes step.inputs step.batch
  distinct : DistinctSlots step.batch.slots
  slots_lt : ∀ slot ∈ step.batch.slots, slot < slots
  drafts : step.metadata.specSequenceMasks.isSome →
    step.metadata.specQueryLen ≤ L.numSpecTokens + 1
  agrees : ∀ p ∈ step.batch.requests, p.req.slot ≠ nullBlockId →
    p.req.Agrees L.toPleLayer step.metadata.specQueryLen (step.accepted p.req.slot)
      (owners p.req.slot)

/-- Every step of the run is allowed when it is taken. -/
def AllowedRun [Zero α] (L : PleConvLayer ι α β) (slots : Nat) :
    (Nat → Option (Owner (Row ι α))) → List (ServerStep ι α) → Prop
  | _, [] => True
  | owners, step :: steps =>
    AllowedStep L slots owners step ∧ AllowedRun L slots (step.after owners) steps

/-- The custom op, step after step on one cache; the outputs of every step. -/
def PleConvLayer.runServer [Zero α] [Add α] [Mul α] [One α] (L : PleConvLayer ι α β) :
    List (ServerStep ι α) → ConvState ι β →
      Except CallError (List (List (Row ι α)) × ConvState ι β)
  | [], kvCache => .ok ([], kvCache)
  | step :: steps, kvCache =>
    match L.pleShortConv step.uninitP step.uninit step.inputs
        (.dict (some (.pleShortConv step.metadata))) kvCache with
    | .error e => .error e
    | .ok (output, kvCache) =>
      match L.runServer steps kvCache with
      | .error e => .error e
      | .ok (outputs, kvCache) => .ok (output :: outputs, kvCache)

/-- The output of a step gives every request the convolution of its history, continued by its
tokens, and zero to the other rows. -/
structure ServerStep.Computes [Zero α] [Add α] [Mul α] (L : PleLayer ι α β)
    (owners : Nat → Option (Owner (Row ι α))) (step : ServerStep ι α) (output : List (Row ι α)) :
    Prop where
  length : output.length = step.inputs.length
  rows : ∀ p ∈ step.batch.requests, p.req.slot ≠ nullBlockId → p.rows.map (output[·]?) =
    (L.causalRows (p.req.before (owners p.req.slot)) p.req.tokens).map some
  padding : ∀ k < step.inputs.length, k ∉ step.batch.rows → output[k]? = some 0

/-! ## one request on its slot -/

/-- The slot holds what its owner is known to have left there. -/
structure Owner.HeldBy [Zero α] (o : Owner (Row ι α)) (L : PleConvLayer ι α β) (s : Slot ι β) :
    Prop where
  numAccepted : o.numAccepted ≤ L.numSpecTokens + 1
  kept : HoldsAt L.toPleLayer o.numAccepted o.kept s
  plain : HoldsAt L.toPleLayer 1 o.plain s

/-- The slot holds what its owner left there, if it has one; the NULL slot has none. -/
def SlotHeld [Zero α] (L : PleConvLayer ι α β) (slot : Nat) (s : Slot ι β)
    (owner : Option (Owner (Row ι α))) : Prop :=
  slot ≠ nullBlockId → ∀ o, owner = some o → o.HeldBy L s

/-- Only the columns of the state capacity matter. -/
theorem SlotHeld.congr [Zero α] {L : PleConvLayer ι α β} {slot : Nat} {s s' : Slot ι β}
    {owner : Option (Owner (Row ι α))} (h : SlotHeld L slot s owner)
    (hs : ∀ c, ∀ t < L.stateCapacity, s' c t = s c t) : SlotHeld L slot s' owner := by
  intro hslot o ho
  have hheld := h hslot o ho
  have haccepted := hheld.numAccepted
  have hcapacity : L.stateCapacity = L.convStateLen + L.numSpecTokens := rfl
  refine ⟨haccepted, ?_, ?_⟩
  · intro c t ht
    rw [hs c _ (by omega), hheld.kept c t ht]
  · intro c t ht
    rw [hs c _ (by omega), hheld.plain c t ht]

/-- The cache of a kernel that is given one slot. -/
def slotCache (slot columns : Nat) (s : Slot ι β) : ConvState ι β where
  slots := slot + 1
  columns := columns
  data := fun _ => s

/-- What a kernel that runs one job computes is what the job does. -/
theorem job_run_of_kernel {j : Job Nat (Slot ι β) (List (Row ι α))} {convState : ConvState ι β}
    {result : Except PyError (List (Row ι α) × ConvState ι β)} {rows : List (Row ι α)}
    {data : Nat → Slot ι β}
    (hjob : result = .ok ((runAll [j] convState.data).1.flatten,
      { convState with data := (runAll [j] convState.data).2 }))
    (hrun : result = .ok (rows, { convState with data := data })) :
    j.run (convState.data j.key) = (rows, data j.key) := by
  rw [hjob] at hrun
  obtain ⟨hrows, hstate⟩ := Prod.mk.inj (Except.ok.inj hrun)
  have hdata : (runAll [j] convState.data).2 = data := congrArg ConvState.data hstate
  have hkey := runAll_at_key (List.pairwise_singleton _ j) convState.data
    (List.mem_singleton_self j)
  rw [hdata] at hkey
  exact Prod.ext (by simpa [runAll] using hrows) hkey.symm

section Steps

variable [Add α] [MulZeroOneClass α] {L : PleLayer ι α β} {xs : List (Row ι α)} {s : Slot ι β}

/-- A prefill request with tokens. -/
theorem PrefillReq.job_holds (hexact : L.Exact) {q : PrefillReq ι α} (hslot : q.slot ≠ nullBlockId)
    (hne : q.tokens ≠ []) (hstart : if q.hasInitial then HoldsAt L 1 xs s else xs = []) :
    ∃ s', (q.job L true).run s = (L.causalRows xs q.tokens, s') ∧
      HoldsAt L 1 (xs ++ q.tokens) s' := by
  have hlt : q.slot < (slotCache q.slot 0 s).slots := Nat.lt_succ_self _
  obtain ⟨data, hrun, hheld⟩ := prefill_step hexact hslot hlt hne (Nat.le_refl _) hstart
  have hjob := prefillCore_single L q (List.length_pos_iff.mpr hne) (Nat.le_refl _)
    (slotCache q.slot 0 s)
  have hcached : decide (0 < (slotCache q.slot 0 s).slots) = true :=
    decide_eq_true (Nat.succ_pos _)
  rw [hcached] at hjob
  exact ⟨_, job_run_of_kernel hjob hrun, hheld⟩

/-- A decode request. -/
theorem DecodeReq.job_holds (hexact : L.Exact) {q : DecodeReq ι α} (hslot : q.slot ≠ nullBlockId)
    (hstart : if q.hasInitial then HoldsAt L 1 xs s else xs = []) :
    ∃ s', (q.job L).run s = (L.causalRows xs [q.token], s') ∧
      HoldsAt L 1 (xs ++ [q.token]) s' := by
  have hstart' : if q.hasInitial then HoldsAt L 1 xs ((slotCache q.slot 0 s).data q.slot)
      else xs = [] := hstart
  obtain ⟨data, hrun, hheld⟩ := decode_step hexact hslot (.inl rfl) hstart'
  have hjob := decodeBatched_eq_runAll L [q] (some [q.hasInitial]) (slotCache q.slot 0 s) rfl
  exact ⟨_, job_run_of_kernel hjob hrun, hheld⟩

/-- A speculative request with tokens. -/
theorem SpecReq.job_holds (hexact : L.Exact) {q : SpecReq ι α} (hslot : q.slot ≠ nullBlockId)
    {specQueryLen : Nat} (hlen : q.tokens.length ≤ specQueryLen) (hne : q.tokens ≠ [])
    (haccepted : q.accepted ≤ specQueryLen) (hheld : HoldsAt L q.accepted xs s) :
    ∃ s', (q.job L specQueryLen).run s = (L.causalRows xs q.tokens, s') ∧
      ∀ a, 1 ≤ a → a ≤ q.tokens.length → HoldsAt L a (xs ++ q.tokens.take a) s' := by
  let cache := slotCache q.slot (L.convStateLen + specQueryLen - 1) s
  have hheld' : HoldsAt L q.accepted xs (cache.data q.slot) := hheld
  obtain ⟨data, hrun, hheld⟩ := spec_step hexact hslot hlen hne haccepted
    (fun _ => Nat.le_refl _) hheld'
  have hjob := specBatched_eq_runAll L [q] [] cache [0, q.tokens.length] [q.accepted]
    ((List.length_pos_iff.mpr hne).trans_le hlen) (by simp [cuSeqlens, cuSeqlensFrom]) rfl
    (fun _ => Nat.le_refl _)
  simp only [List.map_cons, List.map_nil, List.flatten_singleton, List.append_nil] at hjob
  exact ⟨_, job_run_of_kernel hjob hrun, hheld⟩

end Steps

section Requests

variable {L : PleConvLayer ι α β} {slot : Nat} {s : Slot ι β} {owner : Option (Owner (Row ι α))}

/-- A plain step that reads its slot finds the window of the inputs kept. -/
theorem SlotHeld.start [Zero α] (hheld : SlotHeld L slot s owner) (hslot : slot ≠ nullBlockId)
    {hasInitial : Bool}
    (hagrees : hasInitial → ∃ o, owner = some o ∧
      window 0 L.convStateLen o.plain = window 0 L.convStateLen o.kept) :
    let before := if hasInitial then (owner.map Owner.kept).getD [] else []
    if hasInitial then HoldsAt L.toPleLayer 1 before s else before = [] := by
  cases hasInitial with
  | false => rfl
  | true =>
      obtain ⟨o, rfl, hwindow⟩ := hagrees rfl
      have hplain := (hheld hslot o rfl).plain
      simpa [HoldsAt, hwindow] using hplain

/-- What a plain step leaves is held by the owner that it leaves. -/
theorem slotHeld_plain [Zero α] {xs : List (Row ι α)} (h : HoldsAt L.toPleLayer 1 xs s) :
    SlotHeld L slot s (some ⟨xs, 1, xs⟩) := by
  intro _ o ho
  obtain rfl := Option.some.inj ho
  exact ⟨Nat.succ_pos _, h, h⟩

variable [Add α] [MulZeroOneClass α]

/-- A request that agrees with the owner of its slot continues the owner's inputs, and the slot
holds the owner after the step. -/
theorem Req.job_holds (hexact : L.Exact) {q : Req ι α} (hslot : q.slot ≠ nullBlockId)
    {specQueryLen accepted : Nat}
    (hdrafts : (∃ r, q = .spec r) → specQueryLen ≤ L.numSpecTokens + 1)
    (hagrees : q.Agrees L.toPleLayer specQueryLen accepted owner)
    (hheld : SlotHeld L q.slot s owner) :
    ∃ s', (q.job L.toPleLayer specQueryLen true).run s =
        (L.causalRows (q.before owner) q.tokens, s') ∧
      SlotHeld L q.slot s' (q.after accepted q.tokens owner) := by
  cases q with
  | spec q =>
      obtain ⟨hpos, hle, hlen, o, rfl, hacc, haccLe⟩ := hagrees
      have hne : q.tokens ≠ [] := List.length_pos_iff.mp (by omega)
      have hkept := (hheld hslot o rfl).kept
      rw [← hacc] at hkept haccLe
      obtain ⟨s', hrun, hafter⟩ := q.job_holds hexact hslot hlen hne haccLe hkept
      refine ⟨s', hrun, ?_⟩
      have hroom := hdrafts ⟨q, rfl⟩
      intro _ o' ho'
      obtain rfl := Option.some.inj ho'
      exact ⟨by dsimp only; omega, hafter accepted hpos hle, hafter 1 (Nat.le_refl 1) (by omega)⟩
  | decode q =>
      obtain ⟨s', hrun, hafter⟩ := q.job_holds hexact hslot (hheld.start hslot hagrees)
      exact ⟨s', hrun, slotHeld_plain hafter⟩
  | prefill q =>
      have htokens : (Req.prefill q).tokens = q.tokens := rfl
      by_cases hne : q.tokens = []
      · -- without tokens the slot keeps what it has
        refine ⟨s, Prod.ext ?_ (q.job_idle _ _ (.inr hne) s), ?_⟩
        · simp [Req.job, Req.tokens, PrefillReq.job, PleLayer.causalRows, hne]
        · simpa [Req.after, htokens, hne] using hheld
      · obtain ⟨s', hrun, hafter⟩ := q.job_holds hexact hslot hne (hheld.start hslot hagrees)
        refine ⟨s', hrun, ?_⟩
        simp only [Req.after, htokens, List.isEmpty_eq_false_iff.mpr hne, Bool.false_eq_true,
          if_false]
        exact slotHeld_plain hafter

end Requests

/-! ## one step -/

section Batches

variable {L : PleConvLayer ι α β} {step : ServerStep ι α} {owners : Nat → Option (Owner (Row ι α))}
  {kvCache : ConvState ι β}

/-- Every slot of the cache holds what its owner left there. -/
def CacheHeld [Zero α] (L : PleConvLayer ι α β) (kvCache : ConvState ι β)
    (owners : Nat → Option (Owner (Row ι α))) : Prop :=
  ∀ slot, SlotHeld L slot ((L.view kvCache).data slot) (owners slot)

variable [Add α] [MulZeroOneClass α]

omit [Add α] [MulZeroOneClass α] in
/-- A batch with speculative requests has a mask for them. -/
theorem Metadata.Describes.isSome_of_spec {m : Metadata} {inputs : List (Row ι α)} {b : Batch ι α}
    (h : m.Describes inputs b) {p : Placed (Req ι α)} (hp : p ∈ b.requests) {q : SpecReq ι α}
    (hq : p.req = .spec q) : m.specSequenceMasks.isSome := by
  cases h.layout with
  | plain _ hspec _ =>
      obtain ⟨req, rows⟩ := p
      subst hq
      simp [Batch.requests, hspec] at hp
  | specOnly hmask => exact hmask
  | mixed hmask => exact hmask

/-- A request of an allowed step follows its owner. -/
theorem AllowedStep.job_holds (hexact : L.Exact)
    (hallowed : AllowedStep L kvCache.slots owners step) (hheld : CacheHeld L kvCache owners)
    {p : Placed (Req ι α)} (hp : p ∈ step.batch.requests) (hslot : p.req.slot ≠ nullBlockId) :
    ∃ s', (p.req.job L.toPleLayer step.metadata.specQueryLen (0 < kvCache.slots)).run
        ((L.view kvCache).data p.req.slot) =
          (L.causalRows (p.req.before (owners p.req.slot)) p.req.tokens, s') ∧
      SlotHeld L p.req.slot s'
        (p.req.after (step.accepted p.req.slot) p.req.tokens (owners p.req.slot)) := by
  have hin := hallowed.slots_lt _ (List.mem_map.mpr ⟨p, hp, rfl⟩)
  have hcached : decide (0 < kvCache.slots) = true := decide_eq_true (by omega)
  rw [hcached]
  refine Req.job_holds hexact hslot ?_ (hallowed.agrees p hp hslot) (hheld _)
  rintro ⟨q, hq⟩
  apply hallowed.drafts
  exact hallowed.describes.isSome_of_spec hp hq

/-- **One step of the server**: every request gets the convolution of its own history, and the
cache holds the owners after the step. -/
theorem pleShortConv_holds (hexact : L.Exact) (hcols : L.stateCapacity ≤ kvCache.columns)
    (hallowed : AllowedStep L kvCache.slots owners step) (hheld : CacheHeld L kvCache owners) :
    ∃ output data,
      L.pleShortConv step.uninitP step.uninit step.inputs
          (.dict (some (.pleShortConv step.metadata))) kvCache =
        .ok (output, { kvCache with data := data }) ∧
      CacheHeld L { kvCache with data := data } (step.after owners) ∧
      step.Computes L.toPleLayer owners output ∧
      ∀ slot, slot = nullBlockId ∨ slot ∉ step.batch.slots → data slot = kvCache.data slot := by
  have h := hallowed.describes
  have hsep := Batch.separate_jobs L.toPleLayer step.metadata.specQueryLen (0 < kvCache.slots)
    hallowed.distinct
  refine ⟨_, _, pleShortConv_eq_runAll h hallowed.distinct hcols hallowed.drafts, ?_,
    ⟨?_, ?_, ?_⟩, ?_⟩
  · intro slot
    have hslot := runAll_related (R := fun slot s owner => SlotHeld L slot s owner) hsep
      (Batch.separate_ownerJobs hallowed.distinct step.accepted (·.req.tokens))
      (fun p => (Req.job_key ..).symm) hheld ?_ slot
    · exact hslot.congr fun c t ht => L.view_writeLast hcols _ _ c ht
    · intro p hp hslot
      rw [Req.job_key] at hslot ⊢
      obtain ⟨s', hrun, hafter⟩ := hallowed.job_holds hexact hheld hp hslot
      rw [hrun]
      have howner : ((p.req.ownerJob step.accepted p.req.tokens).run (owners p.req.slot)).2 =
          p.req.after (step.accepted p.req.slot) p.req.tokens (owners p.req.slot) := if_neg hslot
      rw [howner]
      exact hafter hslot
  · rw [List.length_map, List.length_range]
  · intro p hp hslot
    obtain ⟨s', hrun, _⟩ := hallowed.job_holds hexact hheld hp hslot
    rw [h.buffer_rows _ _ _ hp, hrun]
  · intro k hk hpad
    rw [List.getElem?_map, List.getElem?_range hk, Option.map_some, scatter_zip_eq_zero hpad]
  · intro slot hslot
    apply L.writeLast_view
    apply runAll_at_idle
    intro j hj hkey
    obtain ⟨p, hp, rfl⟩ := List.mem_map.mp hj
    rw [Req.job_key] at hkey
    rcases hslot with hnull | hnot
    · exact Req.job_idle _ _ _ (hkey.trans hnull)
    · exact absurd (List.mem_map.mpr ⟨p, hp, hkey⟩) hnot

end Batches

/-! ## whole runs -/

section Runs

variable [Add α] [MulZeroOneClass α]

/-- The run from any owners on. -/
theorem runServer_from {L : PleConvLayer ι α β} (hexact : L.Exact) {kvCache : ConvState ι β}
    (hcols : L.stateCapacity ≤ kvCache.columns) {owners : Nat → Option (Owner (Row ι α))}
    {steps : List (ServerStep ι α)} (hallowed : AllowedRun L kvCache.slots owners steps)
    (hheld : CacheHeld L kvCache owners) :
    ∃ outputs data, L.runServer steps kvCache = .ok (outputs, { kvCache with data := data }) ∧
      outputs.length = steps.length ∧
      (∀ k (hk : k < steps.length), ∃ output, outputs[k]? = some output ∧
        steps[k].Computes L.toPleLayer (ownersFrom owners (steps.take k)) output) ∧
      ∀ slot, (slot = nullBlockId ∨ ∀ step ∈ steps, slot ∉ step.batch.slots) →
        data slot = kvCache.data slot := by
  induction steps generalizing kvCache owners with
  | nil =>
      exact ⟨[], kvCache.data, rfl, rfl, fun k hk => absurd hk (Nat.not_lt_zero k), fun _ _ => rfl⟩
  | cons step steps ih =>
      obtain ⟨hstep, hsteps⟩ := hallowed
      obtain ⟨output, data, hrun, hafter, hright, hframe⟩ :=
        pleShortConv_holds hexact hcols hstep hheld
      have hcols' : L.stateCapacity ≤ ConvState.columns { kvCache with data := data } := hcols
      obtain ⟨outputs, data', hruns, hlen, houts, hframe'⟩ := ih hcols' hsteps hafter
      refine ⟨output :: outputs, data', ?_, ?_, ?_, ?_⟩
      · simp only [PleConvLayer.runServer, hrun, hruns]
      · rw [List.length_cons, List.length_cons, hlen]
      · intro k hk
        cases k with
        | zero => exact ⟨output, rfl, hright⟩
        | succ k => exact houts k (Nat.lt_of_succ_lt_succ hk)
      · intro slot hslot
        refine (hframe' slot ?_).trans (hframe slot ?_)
        · exact hslot.imp_right fun h s hs => h s (List.mem_cons_of_mem step hs)
        · exact hslot.imp_right fun h => h step List.mem_cons_self

/-- **The server computes histories**: on any cache, in any run that the scheduler keeps allowed, no
step fails, and each step gives each request the convolution of the inputs kept for it since its
slot was last started, followed by its tokens; other rows are zero, and the NULL slot and the slots
that no request names are never written. -/
theorem runServer_eq_histories (L : PleConvLayer ι α β) (hexact : L.Exact)
    (kvCache : ConvState ι β) (hcols : L.stateCapacity ≤ kvCache.columns)
    (steps : List (ServerStep ι α))
    (hallowed : AllowedRun L kvCache.slots (fun _ => none) steps) :
    ∃ outputs data, L.runServer steps kvCache = .ok (outputs, { kvCache with data := data }) ∧
      outputs.length = steps.length ∧
      (∀ k (hk : k < steps.length), ∃ output, outputs[k]? = some output ∧
        steps[k].Computes L.toPleLayer (ownersFrom (fun _ => none) (steps.take k)) output) ∧
      ∀ slot, (slot = nullBlockId ∨ ∀ step ∈ steps, slot ∉ step.batch.slots) →
        data slot = kvCache.data slot := by
  apply runServer_from hexact hcols hallowed
  intro slot _ o ho
  cases ho

end Runs

/-- Two requests start in slots 1 and 2. -/
def startStep : ServerStep Unit Int where
  inputs := [fun _ => 6, fun _ => 8]
  metadata :=
    { emptyMetadata 2 with
      numActualTokens := 2
      numPrefills := 2
      numPrefillTokens := 2
      stateIndicesTensor := some [1, 2]
      hasInitialStatesP := some [false, false]
      nonSpecQueryStartLoc := some [0, 1, 2]
      maxPrefillQueryLen := 1 }
  batch := ⟨[], [], [⟨⟨[fun _ => 6], 1, false⟩, [0]⟩, ⟨⟨[fun _ => 8], 2, false⟩, [1]⟩]⟩
  accepted := fun _ => 1
  uninitP := fun _ _ => 8
  uninit := fun _ _ => 9

/-- The first goes on with a draft and the second without, and a third starts. -/
def interleavedStep : ServerStep Unit Int where
  inputs := [fun _ => 5, fun _ => 4, fun _ => 7, fun _ => 1]
  metadata := interleavedMetadata
  batch := interleavedBatch
  accepted := fun _ => 2
  uninitP := fun _ _ => 8
  uninit := fun _ _ => 9

theorem startStep_describes : startStep.metadata.Describes startStep.inputs startStep.batch where
  tokens := by simp [Batch.requests, startStep, Req.tokens]
  numActualTokens := Nat.le_refl 2
  numSpecDecodes := rfl
  numDecodes := rfl
  numDecodeTokens := rfl
  numPrefills := rfl
  numPrefillTokens := rfl
  spec := by simp [startStep, emptyMetadata]
  nonSpec _ := ⟨⟨[], rfl, fun _ => rfl⟩, by simp [startStep, emptyMetadata, DecodeFlags],
    fun _ => rfl, fun _ => rfl, by simp [startStep]⟩
  layout := .plain rfl rfl rfl

theorem allowedRun_two_steps :
    AllowedRun draftLayer 4 (fun _ => none) [startStep, interleavedStep] := by
  refine ⟨⟨startStep_describes, by decide, by decide, by decide, ?_⟩,
    ⟨interleavedMetadata_describes, by decide, by decide, by decide, ?_⟩, trivial⟩
  · intro p hp _
    simp [Batch.requests, startStep] at hp
    rcases hp with rfl | rfl <;> simp [Req.Agrees]
  · intro p hp _
    simp [Batch.requests, interleavedStep, interleavedBatch] at hp
    rcases hp with rfl | rfl | rfl
    · exact ⟨by decide, by decide, by decide, _, rfl, rfl, by decide⟩
    · exact fun _ => ⟨_, rfl, rfl⟩
    · simp [Req.Agrees]

/-- The draft continues what the first step kept. -/
theorem runServer_eq_histories_two_steps :
    ∃ outputs data output,
      draftLayer.runServer [startStep, interleavedStep] (constCache 3) =
        .ok (outputs, { constCache 3 with data := data }) ∧
      outputs[1]? = some output ∧ [0, 2].map (output[·]?) =
        (draftLayer.causalRows [fun _ => 6] [fun _ => 5, fun _ => 7]).map some := by
  obtain ⟨outputs, data, hrun, _, hright, _⟩ := runServer_eq_histories draftLayer (fun _ => rfl)
    (constCache 3) (by decide) [startStep, interleavedStep] allowedRun_two_steps
  obtain ⟨output, hout, hright⟩ := hright 1 Nat.one_lt_two
  refine ⟨outputs, data, output, hrun, hout, ?_⟩
  exact hright.rows ⟨.spec ⟨[fun _ => 5, fun _ => 7], 1, 1⟩, [0, 2]⟩
    (by simp [Batch.requests, interleavedStep, interleavedBatch]) (by decide)

end FlashNext
