import FlashNext.Moe.Gptq

/-!
# FlashNext.Moe.Whole

A whole checkpoint arrives.

`load_weights` goes through the tensors of all experts as the checkpoint has them, and hands each
to the loader of its parameter once for every replica of its expert.

* `loadEvents_parts` — what a run over the parts of all experts does, event by event;
* `loadWeights_parts` — what it leaves in the parameters, and what it reports;
* `awqCheckpoint_loaded`, `gptqCheckpoint_loaded` — afterwards the slot of each local expert holds
  the rank's slice of its logical expert.
-/

namespace FlashNext

variable {α κ : Type}

/-! ## checkpoints -/

/-- The tensors that a checkpoint has of each expert, and how their names end. -/
structure PartsCheckpoint (α κ : Type) where
  calls : List (Shard × κ)
  suffix : κ → Str
  dotless : ∀ p, '.' ∉ suffix p
  tensor : (logical : Nat) → Shard × κ → ExpertTensor α

namespace PartsCheckpoint

/-- The parameter that a part is loaded into. -/
def paramName (K : PartsCheckpoint α κ) (c : Shard × κ) : Str := c.1.paramPrefix ++ K.suffix c.2

/-- A part of a logical expert under its name. -/
def weight (K : PartsCheckpoint α κ) (L : RoutedExperts α) (l : Nat) (c : Shard × κ) : Weight α :=
  (expertName l (L.ckptProjName c.1) (K.suffix c.2), .perExpert (K.tensor l c))

/-- The parts of all experts. -/
def weights (K : PartsCheckpoint α κ) (L : RoutedExperts α) : List (Weight α) :=
  (List.range L.numCkptExperts).flatMap fun l => K.calls.map (K.weight L l)

/-- The loader's call for a part of a physical expert. -/
def receive (K : PartsCheckpoint α κ) (L : RoutedExperts α) (loader : Loader α) (e : Nat)
    (c : Shard × κ) : Except PyError (Loaded α) :=
  match L.getattr (K.paramName c) with
  | some param =>
    loader (K.paramName c) param (K.tensor (L.physicalToLogical e) c) (L.qualName (K.paramName c))
      c.1 e
  | none => .error (.attributeError "no such parameter")

/-- The event of such a call. -/
def event (K : PartsCheckpoint α κ) (L : RoutedExperts α) (e : Nat) (c : Shard × κ)
    (r : Loaded α) : Event α :=
  .loaded (K.weight L (L.physicalToLogical e) c) (L.entry (L.ckptProjName c.1) e c.1)
    (K.paramName c) e r

end PartsCheckpoint

/-- A layer that numbers its experts as the checkpoint does, has a slot for each of its own, and
whose name has no part that is taken for an expert's or a fused projection's. -/
structure NumberedLayer (L : RoutedExperts α) : Prop where
  names : ExpertNames L
  standard : StandardNames L.ckptGateProjName L.ckptDownProjName L.ckptUpProjName
  unfused : ∀ w ∈ ["gate_up_proj".toList, "w13".toList], ¬ '.' :: (w ++ ['.']) <:+: L.layerName
  slots : SlotsDistinct L
  slot_lt : ∀ e slot, L.mapGlobalToLocal e = some slot → slot < L.moeConfig.numLocalExperts
  logical_lt : ∀ e < L.numPhysicalExperts, L.physicalToLogical e < L.numCkptExperts

/-! ## one part -/

namespace PartsCheckpoint

variable {K : PartsCheckpoint α κ} {L : RoutedExperts α} {loader : Loader α}

theorem suffix_clean (K : PartsCheckpoint α κ) (p : κ) : ¬ underExperts [] <:+: K.suffix p :=
  fun h => K.dotless p (h.subset (dot_mem_underExperts []))

theorem mem_weights {w : Weight α} :
    w ∈ K.weights L ↔ ∃ l < L.numCkptExperts, ∃ c ∈ K.calls, w = K.weight L l c := by
  simp only [weights, List.mem_flatMap, List.mem_range, List.mem_map, eq_comm]

/-- A part's name reaches the replicas of its expert. -/
theorem mem_reached_weight (h : ExpertNames L) {l : Nat} {c : Shard × κ} {m : MappingEntry} :
    m ∈ reached (L.qualName (K.weight L l c).1) (K.weight L l c).2.isFused false
        L.getExpertMapping ↔
      ∃ e < L.numPhysicalExperts, L.physicalToLogical e = l ∧
        m = L.entry (L.ckptProjName c.1) e c.1 := by
  show m ∈ reached (L.qualName (expertName l (L.ckptProjName c.1) (K.suffix c.2))) false false _ ↔ _
  rw [reached_eq_filter, filter_getExpertMapping h c.1 (K.suffix_clean c.2),
    RoutedExperts.replicaEntries]
  simp only [List.mem_map, List.mem_filter, List.mem_range, decide_eq_true_eq, and_assoc,
    eq_comm (a := m)]

/-- A part is no fused matrix. -/
theorem not_isPerExpertFusedW13 (h : NumberedLayer L) (l : Nat) (c : Shard × κ) :
    isPerExpertFusedW13 (L.qualName (K.weight L l c).1) c.1 = false := by
  have hdot := (h.names.proj c.1 _ (ckptProjName_mem L c.1)).dotless
  have hfused : ∀ w ∈ ["gate_up_proj".toList, "w13".toList],
      ¬ '.' :: (w ++ ['.']) <:+: L.qualName (K.weight L l c).1 := by
    intro w hw hinfix
    have heq := (enclosed_infix_qualName h.names h.unfused hw l hdot (K.dotless c.2)).1 hinfix
    exact ckptProjName_ne_fused h.standard c.1 (heq ▸ hw)
  rw [isPerExpertFusedW13, decide_eq_false_iff_not]
  rintro ⟨-, hgate | hw13⟩
  · exact hfused "gate_up_proj".toList List.mem_cons_self hgate
  · exact hfused "w13".toList (List.mem_cons_of_mem _ List.mem_cons_self) hw13

/-- At a replica's entry a part is loaded for the replica. -/
theorem entryEvents_weight (h : NumberedLayer L) {e : Nat} {c : Shard × κ} {r : Loaded α}
    (hcall : K.receive L loader e c = .ok r) :
    L.entryEvents loader (K.weight L (L.physicalToLogical e) c)
      (L.entry (L.ckptProjName c.1) e c.1) = .ok [K.event L e c r] := by
  unfold receive at hcall
  split at hcall
  · next param hparam =>
    have hresolve : L.resolve (L.qualName (K.weight L (L.physicalToLogical e) c).1)
        (L.entry (L.ckptProjName c.1) e c.1) =
          .ok (.found (K.paramName c) param (L.qualName (K.paramName c))) := by
      refine (resolve_entry h.names e c.1 (K.suffix_clean c.2)).trans ?_
      show L.resolveName _ (L.qualName (K.paramName c)) = _
      rw [RoutedExperts.resolveName, paramNameOf_qualName, hparam]
    have hshard : L.expertsShard (K.weight L (L.physicalToLogical e) c).2
        (L.qualName (K.weight L (L.physicalToLogical e) c).1) (L.qualName (K.paramName c))
        (L.entry (L.ckptProjName c.1) e c.1) =
          .ok ([K.tensor (L.physicalToLogical e) c], e) := by
      have hnot := K.not_isPerExpertFusedW13 h (L.physicalToLogical e) c
      exact if_neg (hnot ▸ Bool.false_ne_true)
    refine entryEvents_eq_ok.2 (.inr (.inr ⟨_, _, _, _, _, hresolve, hshard, ?_⟩))
    exact .cons ⟨r, hcall, rfl⟩ .nil
  · cases hcall

end PartsCheckpoint

/-! ## the run -/

section run

variable {K : PartsCheckpoint α κ} {L : RoutedExperts α} {loader : Loader α}
  {result : Nat → Shard × κ → Loaded α} {weights : List (Weight α)}

/-- A tensor that the run skips wherever it is tried. -/
def SkippedWeight (L : RoutedExperts α) (loader : Loader α) (w : Weight α) : Prop :=
  ∃ es, L.tensorEvents loader w = .ok es ∧ ∀ ev ∈ es, ∃ m, ev = .skipped w m

/-- **A run over the parts of all experts calls the loader for every part of every physical
expert**, and for nothing else. -/
theorem loadEvents_parts (h : NumberedLayer L)
    (hcall : ∀ e < L.numPhysicalExperts, ∀ c ∈ K.calls,
      K.receive L loader e c = .ok (result e c))
    (hall : ∀ w ∈ K.weights L, w ∈ weights)
    (honly : ∀ w ∈ weights, w ∈ K.weights L ∨ SkippedWeight L loader w) :
    ∃ events, L.loadEvents loader weights = .ok events ∧
      (∀ e < L.numPhysicalExperts, ∀ c ∈ K.calls, K.event L e c (result e c) ∈ events) ∧
      ∀ ev ∈ events, (∃ w m, ev = .skipped w m) ∨
        ∃ e < L.numPhysicalExperts, ∃ c ∈ K.calls, ev = K.event L e c (result e c) := by
  -- what an entry does with a part
  have hentry : ∀ l, ∀ c ∈ K.calls,
      ∀ m ∈ reached (L.qualName (K.weight L l c).1) (K.weight L l c).2.isFused false
        L.getExpertMapping, ∃ e < L.numPhysicalExperts,
          L.entryEvents loader (K.weight L l c) m = .ok [K.event L e c (result e c)] := by
    intro l c hc m hm
    obtain ⟨e, he, rfl, rfl⟩ := (PartsCheckpoint.mem_reached_weight h.names).1 hm
    exact ⟨e, he, PartsCheckpoint.entryEvents_weight h (hcall e he c hc)⟩
  obtain ⟨ess, hess⟩ := exists_mapM (L.tensorEvents loader) weights (by
    intro w hw
    cases honly w hw with
    | inl hpart =>
      obtain ⟨l, -, c, hc, rfl⟩ := PartsCheckpoint.mem_weights.1 hpart
      obtain ⟨fss, hfss⟩ := exists_mapM (L.entryEvents loader (K.weight L l c)) _ fun m hm => by
        obtain ⟨e, -, hes⟩ := hentry l c hc m hm
        exact ⟨_, hes⟩
      exact ⟨fss.flatten, bind_eq_ok.2 ⟨fss, hfss, rfl⟩⟩
    | inr hskip =>
      obtain ⟨es, hes, -⟩ := hskip
      exact ⟨es, hes⟩)
  have hrun : L.loadEvents loader weights = .ok ess.flatten := bind_eq_ok.2 ⟨ess, hess, rfl⟩
  refine ⟨ess.flatten, hrun, ?_, ?_⟩
  · intro e he c hc
    have hpart : K.weight L (L.physicalToLogical e) c ∈ K.weights L :=
      PartsCheckpoint.mem_weights.2 ⟨_, h.logical_lt e he, c, hc, rfl⟩
    refine (mem_loadEvents hrun).2 ⟨_, hall _ hpart, _,
      (PartsCheckpoint.mem_reached_weight h.names).2 ⟨e, he, rfl, rfl⟩, _,
      PartsCheckpoint.entryEvents_weight h (hcall e he c hc), List.mem_cons_self⟩
  · intro ev hev
    obtain ⟨w, hw, m, hm, es, hes, hev⟩ := (mem_loadEvents hrun).1 hev
    cases honly w hw with
    | inl hpart =>
      obtain ⟨l, -, c, hc, rfl⟩ := PartsCheckpoint.mem_weights.1 hpart
      obtain ⟨e, he, hes'⟩ := hentry l c hc m hm
      cases hes.symm.trans hes'
      exact .inr ⟨e, he, c, hc, List.mem_singleton.1 hev⟩
    | inr hskip =>
      obtain ⟨es', hes', hskips⟩ := hskip
      obtain ⟨fss, hfss, hflat⟩ := bind_eq_ok.1 hes'
      cases hflat
      obtain ⟨fs, hfs, hes'⟩ := mapM_of_mem hfss hm
      cases hes.symm.trans hes'
      obtain ⟨m', rfl⟩ := hskips ev (List.mem_flatten.2 ⟨es, hfs, hev⟩)
      exact .inl ⟨w, m', rfl⟩

/-- What the loader's calls come to: nothing for another rank's expert, and for a local one a patch
of its slot, each part in cells of its own. -/
structure LoadsParts (K : PartsCheckpoint α κ) (L : RoutedExperts α) (loader : Loader α)
    (used : Shard × κ → Prop) [DecidablePred used]
    (patch : (expertId slot : Nat) → Shard × κ → Patch Cell (Elem α)) : Prop where
  remote : ∀ e < L.numPhysicalExperts, L.mapGlobalToLocal e = none → ∀ c ∈ K.calls,
    K.receive L loader e c = .ok notLoaded
  loaded : ∀ e < L.numPhysicalExperts, ∀ slot, L.mapGlobalToLocal e = some slot → ∀ c ∈ K.calls,
    K.receive L loader e c = .ok ⟨decide (used c), patch e slot c⟩
  within : ∀ e slot c cell, cell.expert ≠ slot → patch e slot c cell = none
  disjoint : ∀ e slot c c', c ≠ c' → (patch e slot c).Disjoint (patch e slot c')

variable {used : Shard × κ → Prop} [DecidablePred used]
  {patch : (expertId slot : Nat) → Shard × κ → Patch Cell (Elem α)}

/-- The result of a call. -/
def callResult (L : RoutedExperts α) (used : Shard × κ → Prop) [DecidablePred used]
    (patch : (expertId slot : Nat) → Shard × κ → Patch Cell (Elem α)) (e : Nat) (c : Shard × κ) :
    Loaded α :=
  match L.mapGlobalToLocal e with
  | none => notLoaded
  | some slot => ⟨decide (used c), patch e slot c⟩

/-- A call that writes is for a local expert. -/
theorem callResult_patch_eq_some {e : Nat} {c : Shard × κ} {cell : Cell} {v : Elem α} :
    (callResult L used patch e c).patch cell = some v ↔
      ∃ slot, L.mapGlobalToLocal e = some slot ∧ patch e slot c cell = some v := by
  unfold callResult
  cases hlocal : L.mapGlobalToLocal e with
  | none => simp [notLoaded]
  | some slot => simp

theorem callResult_success {e : Nat} {c : Shard × κ} :
    (callResult L used patch e c).success = true ↔
      (L.mapGlobalToLocal e).isSome = true ∧ used c := by
  unfold callResult
  cases hlocal : L.mapGlobalToLocal e with
  | none => simp [notLoaded]
  | some slot => simp

/-- **A whole checkpoint, in whatever order and with tensors that are skipped in between, leaves
each part in the slot of every local replica**, and reports the parameters that it has filled. -/
theorem loadWeights_parts (h : NumberedLayer L) (hloads : LoadsParts K L loader used patch)
    (hall : ∀ w ∈ K.weights L, w ∈ weights)
    (honly : ∀ w ∈ weights, w ∈ K.weights L ∨ SkippedWeight L loader w) (st : Params α) :
    ∃ st' names, L.loadWeights loader weights st = .ok (st', names) ∧
      (∀ e < L.numPhysicalExperts, ∀ slot, L.mapGlobalToLocal e = some slot → ∀ c ∈ K.calls,
        ∀ cell v, patch e slot c cell = some v → st' cell = v) ∧
      (∀ cell, (∀ e < L.numPhysicalExperts, L.mapGlobalToLocal e ≠ some cell.expert) →
        st' cell = st cell) ∧
      ∀ name, name ∈ names ↔ (∃ e < L.numPhysicalExperts, (L.mapGlobalToLocal e).isSome = true) ∧
        ∃ c ∈ K.calls, used c ∧ name = K.paramName c := by
  have hcall : ∀ e < L.numPhysicalExperts, ∀ c ∈ K.calls,
      K.receive L loader e c = .ok (callResult L used patch e c) := by
    intro e he c hc
    unfold callResult
    cases hlocal : L.mapGlobalToLocal e with
    | none => exact hloads.remote e he hlocal c hc
    | some slot => exact hloads.loaded e he slot hlocal c hc
  obtain ⟨events, hrun, hcomplete, hsound⟩ := loadEvents_parts h hcall hall honly
  -- what an event writes into a cell
  have hwrites : ∀ ev ∈ events, ∀ cell v, ev.patch cell = some v →
      ∃ e < L.numPhysicalExperts, ∃ c ∈ K.calls, L.mapGlobalToLocal e = some cell.expert ∧
        patch e cell.expert c cell = some v := by
    intro ev hev cell v hv
    obtain ⟨w, m, rfl⟩ | ⟨e, he, c, hc, rfl⟩ := hsound ev hev
    · cases hv
    · obtain ⟨slot, hlocal, hv⟩ := callResult_patch_eq_some.1 hv
      obtain rfl : cell.expert = slot := by
        by_contra hne
        rw [hloads.within e slot c cell hne] at hv
        cases hv
      exact ⟨e, he, c, hc, hlocal, hv⟩
  refine ⟨_, _, bind_eq_ok.2 ⟨events, hrun, rfl⟩, ?_, ?_, ?_⟩
  · intro e he slot hlocal c hc cell v hv
    refine Patch.applyAll_of_agree ⟨_, List.mem_map_of_mem (hcomplete e he c hc), ?_⟩ ?_ st
    · exact callResult_patch_eq_some.2 ⟨slot, hlocal, hv⟩
    · intro p hp v' hv'
      obtain ⟨ev, hev, rfl⟩ := List.mem_map.1 hp
      obtain ⟨e', -, c', -, hlocal', hv'⟩ := hwrites ev hev cell v' hv'
      obtain rfl : slot = cell.expert := by
        by_contra hne
        rw [hloads.within e slot c cell fun heq => hne heq.symm] at hv
        cases hv
      obtain rfl := h.slots e e' _ hlocal hlocal'
      by_cases hcc : c = c'
      · subst hcc
        exact Option.some.inj (hv'.symm.trans hv)
      · cases hloads.disjoint e cell.expert c c' hcc cell with
        | inl hnone => exact absurd (hv.symm.trans hnone) (Option.some_ne_none v)
        | inr hnone => exact absurd (hv'.symm.trans hnone) (Option.some_ne_none v')
  · intro cell hcell
    refine Patch.applyAll_frame (fun p hp => ?_) st
    obtain ⟨ev, hev, rfl⟩ := List.mem_map.1 hp
    rw [Option.eq_none_iff_forall_ne_some]
    intro v hv
    obtain ⟨e, he, -, -, hlocal, -⟩ := hwrites ev hev cell v hv
    exact hcell e he hlocal
  · intro name
    rw [List.mem_filterMap]
    constructor
    · rintro ⟨ev, hev, hname⟩
      obtain ⟨w, m, rfl⟩ | ⟨e, he, c, hc, rfl⟩ := hsound ev hev
      · cases hname
      · obtain ⟨hsuccess, hname⟩ := Option.ite_none_right_eq_some.1 hname
        obtain ⟨hlocal, hused⟩ := callResult_success.1 hsuccess
        exact ⟨⟨e, he, hlocal⟩, c, hc, hused, (Option.some.inj hname).symm⟩
    · rintro ⟨⟨e, he, hlocal⟩, c, hc, hused, rfl⟩
      exact ⟨_, hcomplete e he c hc, if_pos (callResult_success.2 ⟨hlocal, hused⟩)⟩

end run

/-! ## AWQ -/

/-- The AWQ checkpoint of a layer. -/
def MoeWNA16Layer.awqCheckpoint (L : MoeWNA16Layer α) (E : Nat → L.Expert) :
    PartsCheckpoint α AwqPart where
  calls := expertCalls
  suffix := AwqPart.suffix
  dotless := by
    intro p
    cases p <;> decide
  tensor := fun l c => .matrix ((E l c.1).tensor c.2)

/-- Bare weights are skipped. -/
theorem SpuriousWeight.skipped {L : MoeWNA16Layer α} (hp : AwqParameters L.toRoutedExperts)
    (h : ExpertNames L.toRoutedExperts) {loader : Loader α} {w : Weight α}
    (hw : SpuriousWeight L.toRoutedExperts w) : SkippedWeight L.toRoutedExperts loader w :=
  tensorEvents_spurious hp h hw

/-- **An AWQ checkpoint is loaded whole.**  With its tensors in any order, and any bare weights
among them, the slot of each local expert, redundant ones included, holds the rank's slice of its
logical expert; other slots keep what they had, and the parameters are reported if the rank has an
expert. -/
theorem awqCheckpoint_loaded {B : RoutedExperts α} {C : MoeWNA16Config} {L : MoeWNA16Layer α}
    (hcreate : B.createWeights C = .ok L)
    (hmethod : C.linearQuantMethod = .awq ∨ C.linearQuantMethod = .awqMarlin)
    (hbits : C.weightBits = 4) (hzp : C.hasZp = true) {e : Nat} (hgroup : C.groupSize = 2 ^ e)
    (hgated : B.moeConfig.isActAndMul = true) (hname : KeywordFree B.layerName)
    (h : NumberedLayer L.toRoutedExperts) (ha : Aligned L) (rest : Loader α) (E : Nat → L.Expert)
    {weights : List (Weight α)}
    (hall : ∀ w ∈ (L.awqCheckpoint E).weights L.toRoutedExperts, w ∈ weights)
    (honly : ∀ w ∈ weights, w ∈ (L.awqCheckpoint E).weights L.toRoutedExperts ∨
      SpuriousWeight L.toRoutedExperts w) (st : Params α) :
    ∃ st' names, L.loadWeights (L.loader rest) weights st = .ok (st', names) ∧
      (∀ e < L.numPhysicalExperts, ∀ slot, L.mapGlobalToLocal e = some slot →
        HoldsExpert L (E (L.physicalToLogical e)) slot st') ∧
      (∀ cell, (∀ e < L.numPhysicalExperts, L.mapGlobalToLocal e ≠ some cell.expert) →
        st' cell = st cell) ∧
      ∀ name, name ∈ names ↔ (∃ e < L.numPhysicalExperts, (L.mapGlobalToLocal e).isSome = true) ∧
        ∃ s p, name = paramName s p := by
  have hawq := awqLayer_of_createWeights hcreate hmethod hbits hzp hgroup hgated hname
  have hp := awqParameters_of_createWeights hcreate hzp
  -- what is written does not depend on the slot
  have hslice : ∀ e (c : Shard × AwqPart), ∃ m, ∀ slot, L.mapGlobalToLocal e = some slot →
      L.receive (E (L.physicalToLogical e)) e c =
          .ok ⟨true, L.write (paramName c.1 c.2) (L.paramShape c.1 c.2) slot
            ((L.sliceRegion c.1 c.2).fill m)⟩ ∧
        m.rows = (L.sliceRegion c.1 c.2).rows ∧ m.cols = (L.sliceRegion c.1 c.2).cols ∧
        Slice L (E (L.physicalToLogical e)) c.1 c.2 m := by
    intro e c
    cases hlocal : L.mapGlobalToLocal e with
    | none => exact ⟨⟨0, 0, fun _ _ => .uint8 0⟩, fun _ hslot => by cases hslot⟩
    | some slot =>
      obtain ⟨m, hm⟩ := receive_eq hawq ha (E (L.physicalToLogical e)) hlocal
        (h.slot_lt e slot hlocal) c
      refine ⟨m, fun slot' hslot => ?_⟩
      cases hslot
      exact hm
  choose m hm using hslice
  have hloads : LoadsParts (L.awqCheckpoint E) L.toRoutedExperts (L.loader rest) (fun _ => True)
      fun e slot c => L.write (paramName c.1 c.2) (L.paramShape c.1 c.2) slot
        ((L.sliceRegion c.1 c.2).fill (m e c)) := by
    refine ⟨fun e _ hremote c _ => ?_, fun e _ slot hlocal c _ => ?_, ?_, ?_⟩
    · exact receive_of_remote hawq ha (E (L.physicalToLogical e)) hremote c
    · exact (hm e c slot hlocal).1
    · exact fun e slot c cell hcell => if_neg fun hin => hcell hin.2
    · exact fun e slot c c' hne => write_disjoint hne
  obtain ⟨st', names, hrun, hholds, hframe, hnames⟩ := loadWeights_parts h hloads hall
    (fun w hw => (honly w hw).imp_right (·.skipped hp h.names)) st
  refine ⟨st', names, hrun, fun e he slot hlocal => ?_, hframe, fun name => ?_⟩
  · exact holdsExpert_of_writes hawq ha (fun c => (hm e c slot hlocal).2.1)
      (fun c => (hm e c slot hlocal).2.2.1) (fun c => (hm e c slot hlocal).2.2.2)
      fun c cell v hv => hholds e he slot hlocal c (mem_expertCalls c) cell v hv
  · rw [hnames]
    refine and_congr_right fun _ => ⟨?_, ?_⟩
    · rintro ⟨c, -, -, rfl⟩
      exact ⟨c.1, c.2, rfl⟩
    · rintro ⟨s, p, rfl⟩
      exact ⟨(s, p), mem_expertCalls _, trivial, rfl⟩

/-- The layers of `smallExperts` have its names and slots. -/
theorem numberedLayer_smallExperts (parameters : List (Str × Param)) :
    NumberedLayer { smallExperts with parameters := parameters } where
  names := expertNames_of_unique rfl (.inl ⟨rfl, rfl, rfl⟩)
    (show experts <:+ smallExperts.layerName by decide)
    (show ¬ experts ++ ['.'] <:+: smallExperts.layerName by decide)
  standard := .inl ⟨rfl, rfl, rfl⟩
  unfused := by
    show ∀ w ∈ ["gate_up_proj".toList, "w13".toList],
      ¬ '.' :: (w ++ ['.']) <:+: smallExperts.layerName
    decide
  slots := slotsDistinct_smallLayer
  slot_lt := by
    intro e slot h
    obtain ⟨he, h⟩ := Option.ite_none_right_eq_some.1 h
    cases h
    show e - 2 < 2
    omega
  logical_lt := fun _ he => he

/-- The tensors of all four experts, the last first, behind a bare weight. -/
theorem awqCheckpoint_loaded_small :
    let K := smallLayer.awqCheckpoint fun _ => smallExpert
    ∃ st' names, smallLayer.loadWeights (smallLayer.loader noLoader)
        (bareWeight :: (K.weights smallLayer.toRoutedExperts).reverse) (fun _ => .uint8 0) =
          .ok (st', names) ∧
      HoldsExpert smallLayer smallExpert 0 st' ∧ HoldsExpert smallLayer smallExpert 1 st' ∧
      paramName .w2 .scales ∈ names := by
  intro K
  have hall : ∀ w ∈ K.weights smallLayer.toRoutedExperts,
      w ∈ bareWeight :: (K.weights smallLayer.toRoutedExperts).reverse :=
    fun w hw => List.mem_cons_of_mem _ (List.mem_reverse.2 hw)
  have honly : ∀ w ∈ bareWeight :: (K.weights smallLayer.toRoutedExperts).reverse,
      w ∈ K.weights smallLayer.toRoutedExperts ∨ SpuriousWeight smallLayer.toRoutedExperts w := by
    intro w hw
    cases hw with
    | head => exact .inr ⟨2, .w2, _, List.mem_cons_self, weightWord, List.mem_cons_self, rfl⟩
    | tail _ hw => exact .inl (List.mem_reverse.1 hw)
  obtain ⟨st', names, hrun, hholds, -, hnames⟩ := awqCheckpoint_loaded createWeights_smallExperts
    (.inl rfl) rfl rfl (show smallAwq.groupSize = 2 ^ 6 from rfl) rfl (by decide)
    (numberedLayer_smallExperts _) aligned_smallLayer noLoader (fun _ => smallExpert) hall honly
    fun _ => .uint8 0
  exact ⟨st', names, hrun, hholds 2 (by decide) 0 rfl, hholds 3 (by decide) 1 rfl,
    (hnames _).2 ⟨⟨2, by decide, rfl⟩, .w2, .scales, rfl⟩⟩

/-! ## GPTQ -/

/-- The end of the name of a part. -/
def GptqPart.suffix : GptqPart → Str
  | .part p => p.suffix
  | .gIdx => "g_idx".toList

/-- The GPTQ checkpoint of a layer. -/
def MoeWNA16Layer.gptqCheckpoint (L : MoeWNA16Layer α) (E : Nat → L.GptqExpert) :
    PartsCheckpoint α GptqPart where
  calls := gptqCalls
  suffix := GptqPart.suffix
  dotless := by
    intro p
    rcases p with (_ | _ | _) | _ <;> decide
  tensor := fun l c => .matrix ((E l c.1).tensor c.2)

/-- The layer has no use for the order of the inputs, and for zero points only if it has them. -/
def MoeWNA16Layer.UsesGptqPart (L : MoeWNA16Layer α) (c : Shard × GptqPart) : Prop :=
  c.2 ≠ .gIdx ∧ (c.2 = .part .qzeros → L.quantConfig.hasZp = true)

instance (L : MoeWNA16Layer α) : DecidablePred L.UsesGptqPart :=
  fun _ => inferInstanceAs (Decidable (_ ∧ _))

section gptq

variable {L : MoeWNA16Layer α} {placeholder : Param}

theorem paramName_gptqCheckpoint (E : Nat → L.GptqExpert) (c : Shard × GptqPart) :
    (L.gptqCheckpoint E).paramName c = gptqParamName c.1 c.2 := by
  obtain ⟨s, p⟩ := c
  cases p <;> rfl

theorem receive_gptqCheckpoint (E : Nat → L.GptqExpert) (rest : Loader α) (e : Nat)
    (c : Shard × GptqPart) :
    (L.gptqCheckpoint E).receive L.toRoutedExperts (L.loader rest) e c =
      L.receiveGptq (E (L.physicalToLogical e)) e c := by
  unfold PartsCheckpoint.receive MoeWNA16Layer.receiveGptq
  rw [paramName_gptqCheckpoint]
  rfl

/-- What a call for a local expert returns. -/
theorem GptqLayer.receiveGptq_local (h : GptqLayer L placeholder) (ha : GptqAligned L)
    (E : L.GptqExpert) {expertId slot : Nat} (hlocal : L.mapGlobalToLocal expertId = some slot)
    (hslot : slot < L.moeConfig.numLocalExperts) (c : Shard × GptqPart) :
    L.receiveGptq E expertId c = .ok ⟨decide (L.UsesGptqPart c), h.patch E slot c⟩ := by
  obtain ⟨s, p⟩ := c
  by_cases hused : L.UsesGptqPart (s, p)
  · obtain ⟨hidx, hzp⟩ := hused
    rw [decide_eq_true ⟨hidx, hzp⟩]
    cases p with
    | part p =>
      have hpart : p = .qzeros → L.quantConfig.hasZp = true := fun hp => hzp (congrArg _ hp)
      rw [h.receiveGptq_part ha E hlocal hslot s hpart, h.patch_part E slot s hpart]
    | gIdx => exact absurd rfl hidx
  · have hignored : p = .gIdx ∨ p = .part .qzeros ∧ L.quantConfig.hasZp = false := by
      rw [MoeWNA16Layer.UsesGptqPart, not_and_or, not_ne_iff, Classical.not_imp,
        Bool.not_eq_true] at hused
      exact hused
    have hpatch := h.receiveGptq_patch ha E hlocal hslot (s, p)
    rw [h.receiveGptq_ignored E expertId s hignored] at hpatch ⊢
    rw [decide_eq_false hused, ← Except.ok.inj hpatch]
    rfl

end gptq

/-- **A GPTQ checkpoint is loaded whole**, with its tensors in any order; the parameters that are
reported are those that the layer uses. -/
theorem gptqCheckpoint_loaded {B : RoutedExperts α} {C : MoeWNA16Config} {placeholder : Param}
    {L : MoeWNA16Layer α} (hcreate : B.createGptqWeights C placeholder = .ok L)
    (hmethod : C.linearQuantMethod = .gptq) (hbits : C.weightBits = 4 ∨ C.weightBits = 8)
    (hzp : C.hasZp = true → C.weightBits = 4) {e : Nat} (hgroup : C.groupSize = 2 ^ e)
    (hgated : B.moeConfig.isActAndMul = true) (hname : KeywordFree B.layerName)
    (h : NumberedLayer L.toRoutedExperts) (ha : GptqAligned L) (rest : Loader α)
    (E : Nat → L.GptqExpert) {weights : List (Weight α)}
    (hweights : ∀ w, w ∈ weights ↔ w ∈ (L.gptqCheckpoint E).weights L.toRoutedExperts)
    (st : Params α) :
    ∃ st' names, L.loadWeights (L.loader rest) weights st = .ok (st', names) ∧
      (∀ e < L.numPhysicalExperts, ∀ slot, L.mapGlobalToLocal e = some slot →
        HoldsGptqExpert L (E (L.physicalToLogical e)) slot st') ∧
      (∀ cell, (∀ e < L.numPhysicalExperts, L.mapGlobalToLocal e ≠ some cell.expert) →
        st' cell = st cell) ∧
      ∀ name, name ∈ names ↔ (∃ e < L.numPhysicalExperts, (L.mapGlobalToLocal e).isSome = true) ∧
        ∃ s p, L.UsesGptqPart (s, p) ∧ name = gptqParamName s p := by
  have hgptq := gptqLayer_of_createGptqWeights hcreate hmethod hbits hzp hgroup hgated hname
  have hloads : LoadsParts (L.gptqCheckpoint E) L.toRoutedExperts (L.loader rest) L.UsesGptqPart
      fun e slot c => hgptq.patch (E (L.physicalToLogical e)) slot c := by
    refine ⟨fun e _ hremote c _ => ?_, fun e _ slot hlocal c _ => ?_, ?_, ?_⟩
    · rw [receive_gptqCheckpoint]
      exact hgptq.receiveGptq_remote _ hremote c
    · rw [receive_gptqCheckpoint]
      exact hgptq.receiveGptq_local ha _ hlocal (h.slot_lt e slot hlocal) c
    · exact fun e slot c cell hcell => hgptq.patch_slot _ c hcell
    · exact fun e slot c c' hne => hgptq.patch_disjoint _ slot hne
  obtain ⟨st', names, hrun, hholds, hframe, hnames⟩ := loadWeights_parts h hloads
    (fun w hw => (hweights w).2 hw) (fun w hw => .inl ((hweights w).1 hw)) st
  refine ⟨st', names, hrun, fun e he slot hlocal => ?_, hframe, fun name => ?_⟩
  · exact hgptq.holds_of_patches ha fun c cell v hv =>
      hholds e he slot hlocal c (mem_gptqCalls c) cell v hv
  · simp only [hnames, paramName_gptqCheckpoint]
    refine and_congr_right fun _ => ⟨?_, ?_⟩
    · rintro ⟨c, -, hused, rfl⟩
      exact ⟨c.1, c.2, hused, rfl⟩
    · rintro ⟨s, p, hused, rfl⟩
      exact ⟨(s, p), mem_gptqCalls _, hused, rfl⟩

/-- The zero points are reported, the order of the inputs is not. -/
theorem gptqCheckpoint_loaded_ordered :
    let K := orderedLayer.gptqCheckpoint fun _ => orderedExpert
    ∃ st' names, orderedLayer.loadWeights (orderedLayer.loader noLoader)
        (K.weights orderedLayer.toRoutedExperts) (fun _ => .uint8 0) = .ok (st', names) ∧
      HoldsGptqExpert orderedLayer orderedExpert 0 st' ∧
      HoldsGptqExpert orderedLayer orderedExpert 1 st' ∧
      gptqParamName .w1 (.part .qzeros) ∈ names := by
  intro K
  obtain ⟨st', names, hrun, hholds, -, hnames⟩ := gptqCheckpoint_loaded
    createGptqWeights_orderedLayer rfl (.inl rfl) (fun _ => rfl)
    (show int4Gptq.groupSize = 2 ^ 5 from rfl) rfl (by decide) (numberedLayer_smallExperts _)
    gptqAligned_orderedLayer noLoader (fun _ => orderedExpert) (fun _ => Iff.rfl) fun _ => .uint8 0
  exact ⟨st', names, hrun, hholds 2 (by decide) 0 rfl, hholds 3 (by decide) 1 rfl,
    (hnames _).2 ⟨⟨2, by decide, rfl⟩, .w1, .part .qzeros, by decide, rfl⟩⟩

end FlashNext
