import FlashNext.Graphs.Manager
import Mathlib.Data.List.Nodup

/-!
# FlashNext.Graphs.Shapes

Which descriptors a configuration has.

Every pair of a capture size and a LoRA case contributes descriptors of three kinds
(`Contributes`).  The loop that collects them, with its rounding, its limits and its
test for duplicates, holds exactly those:

* `mem_descsByMode_iff` — a mode's list holds the contributed descriptors of that mode;
* `nodup_descsByMode` — no list holds one twice, for sizes and cases without duplicates.
-/

namespace FlashNext

section shapes

variable {σ : Type} {vllm : Vllm σ} {cfg : GraphConfig σ}

/-- The size `n` rounded up for the query length `q` keeps the three limits. -/
structure Admitted (vllm : Vllm σ) (cfg : GraphConfig σ) (n q : Int) : Prop where
  decode : vllm.roundUp n q ≤ maxDecodeTokens cfg
  capture : vllm.roundUp n q ≤ cfg.maxCudagraphCaptureSize
  reqs : (vllm.roundUp n q).fdiv q ≤ cfg.maxNumReqs

/-- The uniform decode descriptor for the size `n` rounded up to the query length `q`. -/
def roundedDesc (vllm : Vllm σ) (cfg : GraphConfig σ) (n l q : Int) : BatchExecutionDescriptor :=
  uniformDesc vllm cfg (vllm.roundUp n q) ((vllm.roundUp n q).fdiv q) q l

/-- The descriptors that a capture size `n` contributes for the LoRA case `l`. -/
inductive Contributes (vllm : Vllm σ) (cfg : GraphConfig σ) (n l : Int) :
    BatchExecutionDescriptor → Prop
  | varlen (hmode : captureVarlenDecode vllm cfg = true) (hn : n ≤ maxDecodeTokens cfg) :
      Contributes vllm cfg n l (varlenDesc vllm cfg n l)
  | uniform (hmode : captureUniformDecode vllm cfg = true) {q : Int}
      (hq : q ∈ decodeQueryLens vllm cfg) (hadm : Admitted vllm cfg n q) :
      Contributes vllm cfg n l (roundedDesc vllm cfg n l q)
  | mixed (hmode : vllm.truthy (vllm.mixedMode cfg.cudagraphMode) = true) :
      Contributes vllm cfg n l (mixedDesc vllm cfg n l)

theorem Contributes.numActiveLoras {n l : Int} {d : BatchExecutionDescriptor}
    (h : Contributes vllm cfg n l d) : d.numActiveLoras = l := by
  cases h <;> rfl

/-- Uniform and varlen decode graphs are never captured together. -/
theorem captureUniformDecode_eq_false (h : captureVarlenDecode vllm cfg = true) :
    captureUniformDecode vllm cfg = false := by
  simp [captureVarlenDecode, captureUniformDecode] at h ⊢
  simp [h]

/-! ## what a step adds -/

/-- The second lists hold what the first hold and the descriptors of `S`. -/
def Adds (S : BatchExecutionDescriptor → Prop) (descs descs' : DescsByMode) : Prop :=
  ∀ m d, d ∈ descs' m ↔ d ∈ descs m ∨ d.cgMode = m ∧ S d

variable {S S' : BatchExecutionDescriptor → Prop} {descs descs' descs'' : DescsByMode}

theorem Adds.of_forall_not (h : ∀ d, ¬ S d) : Adds S descs descs := by
  intro m d
  simp [h]

theorem Adds.trans (h : Adds S descs descs') (h' : Adds S' descs' descs'') :
    Adds (fun d => S d ∨ S' d) descs descs'' := by
  intro m d
  rw [h' m d, h m d]
  grind

theorem Adds.congr (h : Adds S descs descs') (hS : ∀ d, S d ↔ S' d) : Adds S' descs descs' := by
  intro m d
  rw [h m d, hS]

theorem mem_append {m : CUDAGraphMode} {d x : BatchExecutionDescriptor} :
    d ∈ descs.append x m ↔ d ∈ descs m ∨ d.cgMode = m ∧ d = x := by
  by_cases hm : m = x.cgMode
  · subst hm
    simp only [DescsByMode.append, Function.update_self, List.mem_append, List.mem_singleton]
    grind
  · rw [DescsByMode.append, Function.update_of_ne hm]
    grind

theorem adds_append (x : BatchExecutionDescriptor) : Adds (· = x) descs (descs.append x) :=
  fun _ _ => mem_append

/-- A descriptor that is there already adds nothing. -/
theorem adds_of_mem {x : BatchExecutionDescriptor} (h : x ∈ descs x.cgMode) :
    Adds (· = x) descs descs := by
  intro m d
  grind

theorem nodup_append {x : BatchExecutionDescriptor} (h : ∀ m, (descs m).Nodup)
    (hx : x ∉ descs x.cgMode) (m : CUDAGraphMode) : (descs.append x m).Nodup := by
  by_cases hm : m = x.cgMode
  · subst hm
    rw [DescsByMode.append, Function.update_self, List.nodup_append]
    grind
  · rw [DescsByMode.append, Function.update_of_ne hm]
    exact h m

/-! ## uniform decode -/

/-- A round over a query length divides by it, and adds its descriptor when that is
admitted and new. -/
theorem uniformStep_eq_ok {n l q : Int} (h : uniformStep vllm cfg n l descs q = .ok descs') :
    q ≠ 0 ∧ (¬ Admitted vllm cfg n q ∧ descs' = descs ∨
      Admitted vllm cfg n q ∧
        roundedDesc vllm cfg n l q ∈ descs (roundedDesc vllm cfg n l q).cgMode ∧
        descs' = descs ∨
      Admitted vllm cfg n q ∧
        roundedDesc vllm cfg n l q ∉ descs (roundedDesc vllm cfg n l q).cgMode ∧
        descs' = descs.append (roundedDesc vllm cfg n l q)) := by
  rw [uniformStep] at h
  obtain ⟨r, hr, h⟩ := bind_eq_ok.1 h
  obtain ⟨hq, rfl⟩ := floorDiv_eq_ok.1 hr
  refine ⟨hq, ?_⟩
  split at h
  · next hlimit =>
    cases h
    left
    refine ⟨fun hadm => ?_, rfl⟩
    have := hadm.decode
    have := hadm.capture
    have := hadm.reqs
    omega
  · next hlimit =>
    have hadm : Admitted vllm cfg n q := ⟨by omega, by omega, by omega⟩
    right
    dsimp only at h
    split at h
    · next hmem =>
      cases h
      exact .inl ⟨hadm, hmem, rfl⟩
    · next hnot =>
      cases h
      exact .inr ⟨hadm, hnot, rfl⟩

theorem uniformStep_adds {n l q : Int} (h : uniformStep vllm cfg n l descs q = .ok descs') :
    Adds (fun d => Admitted vllm cfg n q ∧ d = roundedDesc vllm cfg n l q) descs descs' := by
  obtain ⟨-, ⟨hadm, rfl⟩ | ⟨hadm, hmem, rfl⟩ | ⟨hadm, hnot, rfl⟩⟩ := uniformStep_eq_ok h
  · exact .of_forall_not fun d hd => hadm hd.1
  · exact (adds_of_mem hmem).congr (by simp [hadm])
  · exact (adds_append _).congr (by simp [hadm])

theorem uniformStep_nodup {n l q : Int} (h : uniformStep vllm cfg n l descs q = .ok descs')
    (hnodup : ∀ m, (descs m).Nodup) (m : CUDAGraphMode) : (descs' m).Nodup := by
  obtain ⟨-, ⟨-, rfl⟩ | ⟨-, -, rfl⟩ | ⟨-, hnot, rfl⟩⟩ := uniformStep_eq_ok h
  · exact hnodup m
  · exact hnodup m
  · exact nodup_append hnodup hnot m

/-! ## a size and a LoRA case -/

theorem decodeStep_adds {n l : Int} (h : decodeStep vllm cfg descs n l = .ok descs') :
    Adds (fun d => (captureVarlenDecode vllm cfg = true ∧ n ≤ maxDecodeTokens cfg ∧
        d = varlenDesc vllm cfg n l) ∨
      captureUniformDecode vllm cfg = true ∧ ∃ q ∈ decodeQueryLens vllm cfg,
        Admitted vllm cfg n q ∧ d = roundedDesc vllm cfg n l q) descs descs' := by
  rw [decodeStep] at h
  split at h
  · next hvar =>
    cases h
    refine (adds_append _).congr fun d => ?_
    simp [hvar, captureUniformDecode_eq_false hvar.1]
  · next hvar =>
    split at h
    · next huni =>
      have hloop : Adds (fun d => ∃ q ∈ decodeQueryLens vllm cfg,
          Admitted vllm cfg n q ∧ d = roundedDesc vllm cfg n l q) descs descs' := by
        refine foldlM_inv (P := fun qs descs' => Adds (fun d => ∃ q ∈ qs,
          Admitted vllm cfg n q ∧ d = roundedDesc vllm cfg n l q) descs descs') h ?_ ?_
        · exact .of_forall_not (by simp)
        · intro done q _ _ s s' hs hstep
          refine (hs.trans (uniformStep_adds hstep)).congr fun d => ?_
          simp only [List.mem_append, List.mem_singleton]
          grind
      refine hloop.congr fun d => ?_
      rw [not_and] at hvar
      grind
    · next huni =>
      cases h
      refine .of_forall_not fun d => ?_
      grind

theorem mixedStep_adds {n l : Int} :
    Adds (fun d => vllm.truthy (vllm.mixedMode cfg.cudagraphMode) = true ∧
      d = mixedDesc vllm cfg n l) descs (mixedStep vllm cfg descs n l) := by
  rw [mixedStep]
  split
  · next hmix => exact (adds_append _).congr (by simp [hmix])
  · next hmix => exact .of_forall_not (by simp [hmix])

/-- A round adds what its size and case contribute. -/
theorem sizeStep_adds {p : Int × Int} (h : sizeStep vllm cfg descs p = .ok descs') :
    Adds (Contributes vllm cfg p.1 p.2) descs descs' := by
  obtain ⟨descs₁, hdecode, h⟩ := bind_eq_ok.1 h
  cases h
  refine ((decodeStep_adds hdecode).trans mixedStep_adds).congr fun d => ?_
  constructor
  · rintro ((⟨hmode, hn, rfl⟩ | ⟨hmode, q, hq, hadm, rfl⟩) | ⟨hmode, rfl⟩)
    · exact .varlen hmode hn
    · exact .uniform hmode hq hadm
    · exact .mixed hmode
  · rintro (⟨hmode, hn⟩ | ⟨hmode, hq, hadm⟩ | hmode)
    · exact .inl (.inl ⟨hmode, hn, rfl⟩)
    · exact .inl (.inr ⟨hmode, _, hq, hadm, rfl⟩)
    · exact .inr ⟨hmode, rfl⟩

/-- The mixed descriptor is no decode descriptor. -/
theorem mixedDesc_ne_varlenDesc {n l n' l' : Int} :
    mixedDesc vllm cfg n l ≠ varlenDesc vllm cfg n' l' := by
  simp [mixedDesc, varlenDesc]

theorem mixedDesc_ne_roundedDesc {n l n' l' q : Int} :
    mixedDesc vllm cfg n l ≠ roundedDesc vllm cfg n' l' q := by
  simp [mixedDesc, roundedDesc, uniformDesc]

/-- The descriptors that the pairs contribute. -/
def ContributedBy (vllm : Vllm σ) (cfg : GraphConfig σ) (ps : List (Int × Int))
    (d : BatchExecutionDescriptor) : Prop :=
  ∃ p ∈ ps, Contributes vllm cfg p.1 p.2 d

/-- Another pair does not contribute this pair's varlen descriptor. -/
theorem not_contributedBy_varlenDesc {ps : List (Int × Int)} {p : Int × Int} (hp : p ∉ ps) :
    ¬ ContributedBy vllm cfg ps (varlenDesc vllm cfg p.1 p.2) := by
  rintro ⟨p', hp', hc⟩
  generalize hd : varlenDesc vllm cfg p.1 p.2 = d at hc
  cases hc with
  | varlen =>
    simp only [varlenDesc, BatchExecutionDescriptor.mk.injEq] at hd
    exact hp (Prod.ext hd.2.1 hd.2.2.2.2.2 ▸ hp')
  | uniform => simp [varlenDesc, roundedDesc, uniformDesc] at hd
  | mixed => exact mixedDesc_ne_varlenDesc hd.symm

/-- Another pair does not contribute this pair's mixed descriptor. -/
theorem not_contributedBy_mixedDesc {ps : List (Int × Int)} {p : Int × Int} (hp : p ∉ ps) :
    ¬ ContributedBy vllm cfg ps (mixedDesc vllm cfg p.1 p.2) := by
  rintro ⟨p', hp', hc⟩
  generalize hd : mixedDesc vllm cfg p.1 p.2 = d at hc
  cases hc with
  | varlen => exact mixedDesc_ne_varlenDesc hd
  | uniform => exact mixedDesc_ne_roundedDesc hd
  | mixed =>
    simp only [mixedDesc, BatchExecutionDescriptor.mk.injEq] at hd
    exact hp (Prod.ext hd.2.1 hd.2.2.2.2.2 ▸ hp')

theorem decodeStep_nodup {n l : Int} (h : decodeStep vllm cfg descs n l = .ok descs')
    (hnodup : ∀ m, (descs m).Nodup)
    (hnew : varlenDesc vllm cfg n l ∉ descs (varlenDesc vllm cfg n l).cgMode) (m : CUDAGraphMode) :
    (descs' m).Nodup := by
  rw [decodeStep] at h
  split at h
  · cases h
    exact nodup_append hnodup hnew m
  · split at h
    · refine foldlM_inv (P := fun _ descs => ∀ m, (descs m).Nodup) h hnodup ?_ m
      intro _ q _ _ s s' hs hstep
      exact uniformStep_nodup hstep hs
    · cases h
      exact hnodup m

/-- A round over a new pair adds nothing that is there already. -/
theorem sizeStep_nodup {ps : List (Int × Int)} {p : Int × Int}
    (h : sizeStep vllm cfg descs p = .ok descs') (hp : p ∉ ps)
    (hmem : ∀ m d, d ∈ descs m ↔ d.cgMode = m ∧ ContributedBy vllm cfg ps d)
    (hnodup : ∀ m, (descs m).Nodup) (m : CUDAGraphMode) : (descs' m).Nodup := by
  obtain ⟨descs₁, hdecode, h⟩ := bind_eq_ok.1 h
  cases h
  have hnodup₁ : ∀ m, (descs₁ m).Nodup := by
    refine decodeStep_nodup hdecode hnodup fun hold => ?_
    exact not_contributedBy_varlenDesc hp ((hmem _ _).1 hold).2
  rw [mixedStep]
  split
  · refine nodup_append hnodup₁ (fun hold => ?_) m
    rcases (decodeStep_adds hdecode _ _).1 hold with hold | ⟨-, ⟨-, -, heq⟩ | ⟨-, q, -, -, heq⟩⟩
    · exact not_contributedBy_mixedDesc hp ((hmem _ _).1 hold).2
    · exact mixedDesc_ne_varlenDesc heq
    · exact mixedDesc_ne_roundedDesc heq
  · exact hnodup₁ m

/-! ## the whole loop -/

/-- After a round the lists hold what its pair contributes as well. -/
theorem sizeStep_mem {ps : List (Int × Int)} {p : Int × Int}
    (h : sizeStep vllm cfg descs p = .ok descs')
    (hmem : ∀ m d, d ∈ descs m ↔ d.cgMode = m ∧ ContributedBy vllm cfg ps d)
    (m : CUDAGraphMode) (d : BatchExecutionDescriptor) :
    d ∈ descs' m ↔ d.cgMode = m ∧ ContributedBy vllm cfg (ps ++ [p]) d := by
  rw [sizeStep_adds h m d, hmem m d]
  simp only [ContributedBy, List.mem_append, List.mem_singleton]
  grind

/-- A mode's list holds the descriptors of that mode that the configuration
contributes. -/
theorem mem_descsByMode_iff (h : descsByMode vllm cfg = .ok descs) (m : CUDAGraphMode)
    (d : BatchExecutionDescriptor) :
    d ∈ descs m ↔ d.cgMode = m ∧ ContributedBy vllm cfg (sizeCases cfg) d := by
  refine foldlM_inv (P := fun ps descs => ∀ m d, d ∈ descs m ↔
    d.cgMode = m ∧ ContributedBy vllm cfg ps d) h ?_ ?_ m d
  · simp [ContributedBy]
  · intro _ p _ _ s s' hs hstep
    exact sizeStep_mem hstep hs

theorem mem_sizeCases_iff {p : Int × Int} :
    p ∈ sizeCases cfg ↔ p.1 ∈ cfg.cudagraphCaptureSizes ∧ p.2 ∈ cfg.loraCases := by
  rw [sizeCases, List.mem_product, List.mem_insertionSort]

theorem nodup_sizeCases (hsizes : cfg.cudagraphCaptureSizes.Nodup) (hcases : cfg.loraCases.Nodup) :
    (sizeCases cfg).Nodup :=
  List.Nodup.product ((List.perm_insertionSort _ _).nodup_iff.2 hsizes) hcases

/-- No list holds a descriptor twice. -/
theorem nodup_descsByMode (h : descsByMode vllm cfg = .ok descs)
    (hsizes : cfg.cudagraphCaptureSizes.Nodup) (hcases : cfg.loraCases.Nodup)
    (m : CUDAGraphMode) : (descs m).Nodup := by
  refine (foldlM_inv (P := fun ps descs => (∀ m d, d ∈ descs m ↔
    d.cgMode = m ∧ ContributedBy vllm cfg ps d) ∧ ∀ m, (descs m).Nodup) h ?_ ?_).2 m
  · simp [ContributedBy]
  · rintro done p rest hsplit s s' ⟨hmem, hnodup⟩ hstep
    have hp : p ∉ done := by
      have := nodup_sizeCases hsizes hcases
      rw [hsplit, List.nodup_middle, List.nodup_cons, List.mem_append, not_or] at this
      exact this.1.1
    exact ⟨sizeStep_mem hstep hmem, sizeStep_nodup hstep hp hmem hnodup⟩

end shapes

/-! ## the manager -/

section manager

variable {σ : Type} {vllm : Vllm σ} {cfg : GraphConfig σ}

/-- The configuration captures the descriptor. -/
def Captures (vllm : Vllm σ) (cfg : GraphConfig σ) (d : BatchExecutionDescriptor) : Prop :=
  vllm.truthy cfg.cudagraphMode = true ∧ ∃ n ∈ cfg.cudagraphCaptureSizes, ∃ l ∈ cfg.loraCases,
    Contributes vllm cfg n l d

theorem contributedBy_sizeCases {d : BatchExecutionDescriptor} :
    ContributedBy vllm cfg (sizeCases cfg) d ↔ ∃ n ∈ cfg.cudagraphCaptureSizes,
      ∃ l ∈ cfg.loraCases, Contributes vllm cfg n l d := by
  simp only [ContributedBy, mem_sizeCases_iff, Prod.exists, and_assoc, exists_and_left]

theorem mem_captureDescsOf {descs : DescsByMode} {m : CUDAGraphMode}
    {d : BatchExecutionDescriptor} : d ∈ captureDescsOf descs m ↔ d ∈ descs m :=
  List.mem_insertionSort _

/-- The candidates are tried from the smallest descriptor on. -/
theorem pairwise_reverse_captureDescsOf (descs : DescsByMode) (m : CUDAGraphMode) :
    (captureDescsOf descs m).reverse.Pairwise fun a b => a.numTokens ≤ b.numTokens := by
  rw [List.pairwise_reverse]
  have : Std.Total fun a b : BatchExecutionDescriptor => b.numTokens ≤ a.numTokens :=
    ⟨fun a b => Int.le_total b.numTokens a.numTokens⟩
  have : IsTrans _ fun a b : BatchExecutionDescriptor => b.numTokens ≤ a.numTokens :=
    ⟨fun _ _ _ h h' => h'.trans h⟩
  exact List.pairwise_insertionSort _ _

variable {mgr : CudaGraphManager}

/-- What `__init__` builds: descriptors and candidates from the loop, or none at all. -/
theorem init_eq_ok (h : CudaGraphManager.init vllm cfg = .ok mgr) :
    buildLoraDispatchMap cfg.loraCases = .ok (mgr.loraDispatchMap, mgr.maxLoraCase) ∧
      mgr.graphs = [] ∧ mgr.maxFullDescsToCapture = none ∧
      ((∃ descs, descsByMode vllm cfg = .ok descs ∧ vllm.truthy cfg.cudagraphMode = true ∧
          mgr.captureDescs = captureDescsOf descs ∧
          mgr.candidates = candidatesOf cfg.loraCases (captureDescsOf descs)) ∨
        (vllm.truthy cfg.cudagraphMode = false ∨ cfg.cudagraphCaptureSizes = []) ∧
          (mgr.captureDescs = fun _ => []) ∧ mgr.candidates = fun _ => none) := by
  obtain ⟨lora, hlora, h⟩ := bind_eq_ok.1 h
  obtain ⟨cands, hcands, h⟩ := bind_eq_ok.1 h
  cases h
  refine ⟨hlora, rfl, rfl, ?_⟩
  rw [CudaGraphManager.initCandidates] at hcands
  split at hcands
  · next hon =>
    obtain ⟨descs, hdescs, hcands⟩ := bind_eq_ok.1 hcands
    cases hcands
    exact .inl ⟨descs, hdescs, hon.1, rfl, rfl⟩
  · next hoff =>
    cases hcands
    right
    refine ⟨?_, rfl, rfl⟩
    grind

/-- The descriptors to capture. -/
theorem mem_captureDescs_iff (h : CudaGraphManager.init vllm cfg = .ok mgr) {m : CUDAGraphMode}
    {d : BatchExecutionDescriptor} :
    d ∈ mgr.captureDescs m ↔ d.cgMode = m ∧ Captures vllm cfg d := by
  obtain ⟨-, -, -, ⟨descs, hdescs, hon, hcap, -⟩ | ⟨hoff, hcap, -⟩⟩ := init_eq_ok h
  · rw [hcap, mem_captureDescsOf, mem_descsByMode_iff hdescs, contributedBy_sizeCases]
    simp [Captures, hon]
  · rw [hcap]
    rcases hoff with hoff | hoff <;> simp [Captures, hoff]

theorem nodup_captureDescs (h : CudaGraphManager.init vllm cfg = .ok mgr)
    (hsizes : cfg.cudagraphCaptureSizes.Nodup) (hcases : cfg.loraCases.Nodup)
    (m : CUDAGraphMode) : (mgr.captureDescs m).Nodup := by
  obtain ⟨-, -, -, ⟨descs, hdescs, -, hcap, -⟩ | ⟨-, hcap, -⟩⟩ := init_eq_ok h
  · rw [hcap]
    exact (List.perm_insertionSort _ _).nodup_iff.2 (nodup_descsByMode hdescs hsizes hcases m)
  · simp [hcap]

end manager

end FlashNext
