import FlashNext.Graphs.Outputs
import FlashNext.Graphs.Warmup

/-!
# FlashNext.Graphs.Replay

What the graphs of a model return when they are replayed.

The buffers are as long as the first output of the capture.  So a capture succeeds exactly when no
later descriptor is larger than the first (`capture_ok_iff`).  After it every graph writes to the
manager's buffers, and a replay returns what the model computes from the inputs it finds, whatever
was replayed before (`serve_eq_model`).
-/

namespace FlashNext

variable {σ ρ : Type}

/-! ## forwards during a capture -/

/-- What is documented of the model: its outputs are of the kind that the rank expects, with the
same names every time, and a row for every token. -/
structure ModelEnv.Documented (X : ModelEnv σ ρ) (isLastPpRank useAux : Bool) : Prop where
  kind : ∀ d s, (X.model d s).IsOf isLastPpRank useAux
  rows : ∀ d s, ∀ x ∈ (X.model d s).tensors, x.2.length = d.numTokens.toNat
  names : ∀ d s d' s', (X.model d s).names = (X.model d' s').names
  nodup : ∀ d s, (X.model d s).names.Nodup
  nonempty : ∀ d s, (X.model d s).tensors ≠ []

/-- The buffers depend on the names of the output only. -/
theorem Outputs.from_congr {output output' : ModelOutput ρ} {isLastPpRank useAux : Bool}
    (hkind : output.IsOf isLastPpRank useAux) (hkind' : output'.IsOf isLastPpRank useAux)
    (hnames : output.names = output'.names) (base : Nat) :
    Outputs.from base output = Outputs.from base output' := by
  cases output with
  | hiddenStates rows =>
    cases output' with
    | hiddenStates rows' => rfl
    | withAux rows' aux' => simp [ModelOutput.IsOf] at hkind hkind'; grind
    | intermediateTensors tensors' => simp [ModelOutput.IsOf] at hkind hkind'; grind
  | withAux rows aux =>
    cases output' with
    | hiddenStates rows' => simp [ModelOutput.IsOf] at hkind hkind'; grind
    | withAux rows' aux' =>
      have hlen := congrArg List.length hnames
      simp only [ModelOutput.names, ModelOutput.tensors, List.length_map, List.length_cons,
        List.length_zipIdx, Nat.add_right_cancel_iff] at hlen
      simp only [Outputs.from, hlen]
    | intermediateTensors tensors' => simp [ModelOutput.IsOf] at hkind hkind'; grind
  | intermediateTensors tensors =>
    cases output' with
    | hiddenStates rows' => simp [ModelOutput.IsOf] at hkind hkind'; grind
    | withAux rows' aux' => simp [ModelOutput.IsOf] at hkind hkind'; grind
    | intermediateTensors tensors' =>
      have hkeys : (tensors.map Prod.fst).map OutputName.intermediateTensors =
          (tensors'.map Prod.fst).map OutputName.intermediateTensors := by
        simpa [ModelOutput.names, ModelOutput.tensors, Function.comp_def] using hnames
      have hkeys' := (List.map_inj_right fun a b h => OutputName.intermediateTensors.inj h).mp hkeys
      have hlen := congrArg List.length hkeys'
      rw [List.length_map, List.length_map] at hlen
      simp only [Outputs.from, hkeys', hlen]

namespace ModelCudaGraphManager

variable {X : ModelEnv σ ρ} (args : CaptureArgs σ) {M M' : ModelCudaGraphManager ρ}
  {base len : Nat} {desc : BatchExecutionDescriptor}

/-- The buffers are allocated for whatever the model returns. -/
def Ready (X : ModelEnv σ ρ) (M : ModelCudaGraphManager ρ) (base len : Nat) : Prop :=
  ∀ d s, M.Allocated base len (X.model d s)

section forwards

variable (hdoc : X.Documented M.isLastPpRank M.useAuxHiddenStateOutputs)

include hdoc

/-- The first eager forward allocates the buffers, one row for every token. -/
theorem forwardEager_fresh (hfresh : M.outputs = {}) (hpos : 0 < desc.numTokens) (warmup : Bool) :
    ∃ M', M.forwardEager X args desc warmup = .ok M' ∧
      M' = { M with outputs := M'.outputs, memory := M'.memory } ∧
      M'.Ready X M.memory.allocated desc.numTokens.toNat := by
  obtain ⟨M', hrun, hframe, halloc⟩ := keepOutput_fresh (X := X) hfresh
    (hdoc.kind desc (args.inputs desc warmup)) (hdoc.nodup _ _) hpos.le (hdoc.rows _ _)
  refine ⟨M', hrun, hframe, fun d s => ?_⟩
  have hnames := hdoc.names desc (args.inputs desc warmup) d s
  have hlen : (X.model desc (args.inputs desc warmup)).tensors.length =
      (X.model d s).tensors.length := by
    simpa [ModelOutput.names] using congrArg List.length hnames
  refine ⟨halloc.outputs.trans ?_, hlen ▸ halloc.allocated, hlen ▸ halloc.length⟩
  exact Outputs.from_congr (hdoc.kind _ _) (hdoc.kind _ _) hnames _

/-- A forward of no more tokens than the buffers have rows only copies. -/
theorem forwardEager_ready (hready : M.Ready X base len) (hpos : 0 < desc.numTokens)
    (hle : desc.numTokens.toNat ≤ len) (warmup : Bool) :
    ∃ M', M.forwardEager X args desc warmup = .ok M' ∧
      M' = { M with memory := M'.memory } ∧ M'.Ready X base len ∧
      M'.memory.allocated = M.memory.allocated ∧
      ∀ addr, (M'.memory.buffers addr).length = (M.memory.buffers addr).length := by
  have halloc := hready desc (args.inputs desc warmup)
  obtain ⟨M', hrun, hcopied⟩ := assign_allocated halloc (hdoc.nodup _ _) hpos.le hle
    (hdoc.rows _ _)
  refine ⟨M', ?_, hcopied.frame, fun d s => ?_, hcopied.allocated, hcopied.length⟩
  · rw [forwardEager, keepOutput_allocated halloc (hdoc.kind _ _)]
    exact hrun
  · refine (hready d s).congr ?_ hcopied.allocated hcopied.length
    rw [hcopied.frame]

/-- A forward of more tokens than the buffers have rows fails. -/
theorem forwardEager_error (hready : M.Ready X base len) (hpos : 0 < desc.numTokens)
    (hlen : 0 < len) (hlt : len < desc.numTokens.toNat) (warmup : Bool) :
    M.forwardEager X args desc warmup = .error tooLong := by
  have halloc := hready desc (args.inputs desc warmup)
  have hstore := store_eq_error (halloc.room (hdoc.nodup _ _)) (hdoc.nonempty _ _) hpos.le hlen hlt
    (hdoc.rows _ _)
  rw [forwardEager, keepOutput_allocated halloc (hdoc.kind _ _), assign, hstore]
  rfl

/-- A recorded graph writes to the buffers, and recording it leaves them as they are. -/
theorem recordGraph_ready (hready : M.Ready X base len) (hpos : 0 < desc.numTokens)
    (hle : desc.numTokens.toNat ≤ len) :
    ∃ M', M.recordGraph X args desc = .ok M' ∧
      M' = { M with
        graphs := M.graphs ++ [desc]
        graphOutputs := Function.update M.graphOutputs desc M.outputs
        memory := M'.memory } ∧ M'.Ready X base len := by
  obtain ⟨M₁, hrun, hframe, hready₁, halloc, hlens⟩ :=
    forwardEager_ready args hdoc hready hpos hle false
  refine ⟨_, bind_eq_ok.2 ⟨M₁, hrun, rfl⟩, ?_, fun d s => ?_⟩
  · rw [hframe]
  · refine (hready₁ d s).congr rfl rfl fun addr => ?_
    dsimp only
    split
    · exact (hlens addr).symm
    · rfl

end forwards

/-! ## the capture loop -/

/-- The descriptors that get a graph of the manager's own. -/
def fullOf (descs : List BatchExecutionDescriptor) : List BatchExecutionDescriptor :=
  descs.filter (·.cgMode ≠ .PIECEWISE)

/-- The assertions of the capture loop that are about the rank and the runner hold. -/
structure Capturable (args : CaptureArgs σ) (M : ModelCudaGraphManager ρ) : Prop where
  rank : M.isFirstPpRank = true ∨ args.hasIntermediateTensors = true
  runner : M.useBreakableCg = true → M.breakableCgRunner = true

/-- After some rounds of the loop: the graphs of the full descriptors are recorded, and write to
the manager's buffers. -/
structure Captured (M M' : ModelCudaGraphManager ρ) (descs : List BatchExecutionDescriptor) :
    Prop where
  frame : M' = { M with
    graphs := M.graphs ++ fullOf descs
    outputs := M'.outputs
    graphOutputs := M'.graphOutputs
    memory := M'.memory }
  graphOutputs : (∀ d ∈ M.graphs, M.graphOutputs d = M'.outputs) →
    ∀ d ∈ M'.graphs, M'.graphOutputs d = M'.outputs

theorem fullOf_append (xs ys : List BatchExecutionDescriptor) :
    fullOf (xs ++ ys) = fullOf xs ++ fullOf ys :=
  List.filter_append ..

theorem Captured.trans {M₁ : ModelCudaGraphManager ρ} {xs ys : List BatchExecutionDescriptor}
    (h : M.Captured M₁ xs) (h' : M₁.Captured M' ys) (houtputs : M'.outputs = M₁.outputs) :
    M.Captured M' (xs ++ ys) := by
  refine ⟨?_, fun hM => h'.graphOutputs ?_⟩
  · rw [h'.frame, h.frame]
    simp only [fullOf_append, List.append_assoc]
  · rw [houtputs]
    exact h.graphOutputs (houtputs ▸ hM)

/-- A round leaves the flags of the manager alone. -/
theorem Captured.flags {descs : List BatchExecutionDescriptor} (h : M.Captured M' descs) :
    M'.isFirstPpRank = M.isFirstPpRank ∧ M'.isLastPpRank = M.isLastPpRank ∧
      M'.useBreakableCg = M.useBreakableCg ∧ M'.breakableCgRunner = M.breakableCgRunner ∧
      M'.useAuxHiddenStateOutputs = M.useAuxHiddenStateOutputs := by
  rw [h.frame]
  simp

theorem Captured.capturable {descs : List BatchExecutionDescriptor} (h : M.Captured M' descs)
    (hcap : Capturable args M) : Capturable args M' := by
  obtain ⟨hfirst, -, hbreakable, hrunner, -⟩ := h.flags
  exact ⟨hfirst ▸ hcap.rank, by rw [hbreakable, hrunner]; exact hcap.runner⟩

theorem Captured.documented {descs : List BatchExecutionDescriptor} (h : M.Captured M' descs)
    (hdoc : X.Documented M.isLastPpRank M.useAuxHiddenStateOutputs) :
    X.Documented M'.isLastPpRank M'.useAuxHiddenStateOutputs := by
  obtain ⟨-, hlast, -, -, huse⟩ := h.flags
  rw [hlast, huse]
  exact hdoc

theorem Captured.graphs {descs : List BatchExecutionDescriptor} (h : M.Captured M' descs) :
    M'.graphs = M.graphs ++ fullOf descs := by
  rw [h.frame]

/-- A new full descriptor is not among the graphs yet. -/
theorem notMem_of_nodup_fullOf {graphs descs : List BatchExecutionDescriptor}
    (h : (graphs ++ fullOf (desc :: descs)).Nodup) (hmode : desc.cgMode ≠ .PIECEWISE) :
    desc ∉ graphs := by
  intro hmem
  have hmem' : desc ∈ fullOf (desc :: descs) := by simp [fullOf, hmode]
  exact (List.nodup_append.mp h).2.2 desc hmem desc hmem' rfl

section loop

variable (hdoc : X.Documented M.isLastPpRank M.useAuxHiddenStateOutputs)
  (hcap : Capturable args M)

include hdoc hcap

/-- A round whose warmup has returned, with buffers that are long enough. -/
theorem captureDesc_of_warmup {M₁ : ModelCudaGraphManager ρ}
    (hwarmup : M.forwardEager X args desc true = .ok M₁)
    (hframe : M₁ = { M with outputs := M₁.outputs, memory := M₁.memory })
    (hready : M₁.Ready X base len) (hpos : 0 < desc.numTokens) (hle : desc.numTokens.toNat ≤ len)
    (hnew : desc.cgMode ≠ .PIECEWISE → desc ∉ M.graphs) :
    ∃ M', captureDesc X args M desc = .ok M' ∧ M.Captured M' [desc] ∧ M'.Ready X base len ∧
      M'.outputs = M₁.outputs := by
  have hcreate : M.createForwardFn args = .ok () := if_pos hcap.rank
  have hcreate₁ : M₁.createForwardFn args = .ok () := by
    rw [hframe]
    exact if_pos hcap.rank
  by_cases hmode : desc.cgMode = .PIECEWISE
  · have hpiece : M₁.forwardPiecewise = .ok () := by
      have hrunner := hcap.runner
      rw [hframe, forwardPiecewise, if_neg]
      grind
    refine ⟨M₁, ?_, ⟨?_, fun h d hd => ?_⟩, hready, rfl⟩
    · simp [captureDesc, hcreate, hwarmup, hmode, hcreate₁, hpiece, bind, Except.bind, pure,
        Except.pure]
    · rw [hframe]
      simp [fullOf, hmode]
    · rw [hframe] at hd ⊢
      exact h d hd
  · have hdoc₁ : X.Documented M₁.isLastPpRank M₁.useAuxHiddenStateOutputs := by
      rw [hframe]
      exact hdoc
    obtain ⟨M', hrecord, hframe', hready'⟩ := recordGraph_ready args hdoc₁ hready hpos hle
    have hnew₁ : desc ∉ M₁.graphs := by
      rw [hframe]
      exact hnew hmode
    refine ⟨M', ?_, ⟨?_, fun h d hd => ?_⟩, hready', ?_⟩
    · simp [captureDesc, hcreate, hwarmup, hmode, hcreate₁, hnew₁, hrecord, bind, Except.bind]
    · rw [hframe', hframe]
      simp [fullOf, hmode]
    · rw [hframe', hframe] at h hd ⊢
      simp only at h hd ⊢
      by_cases hd' : d = desc
      · rw [hd', Function.update_self]
      · rw [Function.update_of_ne hd']
        apply h d
        simpa [hd'] using hd
    · rw [hframe']

/-- A round for a descriptor that is no longer than the buffers. -/
theorem captureDesc_ready (hready : M.Ready X base len) (hpos : 0 < desc.numTokens)
    (hle : desc.numTokens.toNat ≤ len) (hnew : desc.cgMode ≠ .PIECEWISE → desc ∉ M.graphs) :
    ∃ M', captureDesc X args M desc = .ok M' ∧ M.Captured M' [desc] ∧ M'.Ready X base len ∧
      M'.outputs = M.outputs := by
  obtain ⟨M₁, hwarmup, hframe, hready₁, -⟩ := forwardEager_ready args hdoc hready hpos hle true
  have houtputs : M₁.outputs = M.outputs := by rw [hframe]
  rw [← houtputs] at hframe ⊢
  exact captureDesc_of_warmup args hdoc hcap hwarmup hframe hready₁ hpos hle hnew

/-- The loop over descriptors that are no longer than the buffers. -/
theorem captureDescs_ready {descs : List BatchExecutionDescriptor} (hready : M.Ready X base len)
    (hpos : ∀ d ∈ descs, 0 < d.numTokens) (hfits : ∀ d ∈ descs, d.numTokens.toNat ≤ len)
    (hnodup : (M.graphs ++ fullOf descs).Nodup) :
    ∃ M', descs.foldlM (captureDesc X args) M = .ok M' ∧ M.Captured M' descs ∧
      M'.Ready X base len ∧ M'.outputs = M.outputs := by
  induction descs generalizing M with
  | nil => exact ⟨M, rfl, ⟨by simp [fullOf], fun h d hd => h d hd⟩, hready, rfl⟩
  | cons desc descs ih =>
    obtain ⟨M₁, hstep, hcaptured, hready₁, houtputs₁⟩ := captureDesc_ready args hdoc hcap hready
      (hpos desc List.mem_cons_self) (hfits desc List.mem_cons_self)
      (notMem_of_nodup_fullOf hnodup)
    rw [← List.singleton_append, fullOf_append, ← List.append_assoc, ← hcaptured.graphs] at hnodup
    obtain ⟨M', hrun, hcaptured', hready', houtputs'⟩ := ih (hcaptured.documented hdoc)
      (hcaptured.capturable args hcap) hready₁ (fun d hd => hpos d (List.mem_cons_of_mem _ hd))
      (fun d hd => hfits d (List.mem_cons_of_mem _ hd)) hnodup
    refine ⟨M', ?_, hcaptured.trans hcaptured' houtputs', hready', houtputs'.trans houtputs₁⟩
    rw [List.foldlM_cons]
    exact bind_eq_ok.2 ⟨M₁, hstep, hrun⟩

/-- The loop stops at a descriptor that is longer than the buffers. -/
theorem captureDescs_error {descs : List BatchExecutionDescriptor} (hready : M.Ready X base len)
    (hlen : 0 < len) (hpos : ∀ d ∈ descs, 0 < d.numTokens)
    (hlong : ∃ d ∈ descs, len < d.numTokens.toNat) (hnodup : (M.graphs ++ fullOf descs).Nodup) :
    descs.foldlM (captureDesc X args) M = .error tooLong := by
  induction descs generalizing M with
  | nil =>
    obtain ⟨d, hd, -⟩ := hlong
    cases hd
  | cons desc descs ih =>
    have hpos₁ := hpos desc List.mem_cons_self
    rw [List.foldlM_cons]
    by_cases hle : desc.numTokens.toNat ≤ len
    · obtain ⟨M₁, hstep, hcaptured, hready₁, -⟩ := captureDesc_ready args hdoc hcap hready hpos₁ hle
        (notMem_of_nodup_fullOf hnodup)
      rw [← List.singleton_append, fullOf_append, ← List.append_assoc, ← hcaptured.graphs] at hnodup
      have hlong' : ∃ d ∈ descs, len < d.numTokens.toNat := by
        obtain ⟨d, hd, hlt⟩ := hlong
        rcases List.mem_cons.mp hd with rfl | hd
        · omega
        · exact ⟨d, hd, hlt⟩
      rw [hstep]
      exact ih (hcaptured.documented hdoc) (hcaptured.capturable args hcap) hready₁
        (fun d hd => hpos d (List.mem_cons_of_mem _ hd)) hlong' hnodup
    · have hcreate : M.createForwardFn args = .ok () := if_pos hcap.rank
      have hwarmup : M.forwardEager X args desc true = .error tooLong :=
        forwardEager_error args hdoc hready hpos₁ hlen (by omega) true
      have hstep : captureDesc X args M desc = .error tooLong := by
        simp [captureDesc, hcreate, hwarmup, bind, Except.bind]
      rw [hstep]
      rfl

/-- The first round allocates the buffers, with a row for every token of its descriptor. -/
theorem captureDesc_fresh (hfresh : M.outputs = {}) (hpos : 0 < desc.numTokens)
    (hnew : desc.cgMode ≠ .PIECEWISE → desc ∉ M.graphs) :
    ∃ M', captureDesc X args M desc = .ok M' ∧ M.Captured M' [desc] ∧
      M'.Ready X M.memory.allocated desc.numTokens.toNat := by
  obtain ⟨M₁, hwarmup, hframe, hready₁⟩ := forwardEager_fresh args hdoc hfresh hpos true
  obtain ⟨M', hstep, hcaptured, hready, -⟩ := captureDesc_of_warmup args hdoc hcap hwarmup hframe
    hready₁ hpos le_rfl hnew
  exact ⟨M', hstep, hcaptured, hready⟩

end loop

/-! ## the whole capture -/

end ModelCudaGraphManager

section covers

variable {τ : Type} {vllm : Vllm τ} {cfg : GraphConfig τ} {mgr : CudaGraphManager}

/-- If there are piecewise graphs, no full graph is larger than all of them. -/
def PiecewiseCovers (vllm : Vllm τ) (cfg : GraphConfig τ) : Prop :=
  (∃ p, Captures vllm cfg p ∧ p.cgMode = .PIECEWISE) →
    ∀ d, Captures vllm cfg d → d.cgMode = .FULL →
      ∃ p, Captures vllm cfg p ∧ p.cgMode = .PIECEWISE ∧ d.numTokens ≤ p.numTokens

/-- The first descriptor of a mode is its largest. -/
theorem le_head_captureDescs (h : CudaGraphManager.init vllm cfg = .ok mgr) {m : CUDAGraphMode}
    {first d : BatchExecutionDescriptor} {rest : List BatchExecutionDescriptor}
    (hdescs : mgr.captureDescs m = first :: rest) (hd : d ∈ mgr.captureDescs m) :
    d.numTokens ≤ first.numTokens := by
  have hsorted := pairwise_reverse_captureDescs h m
  rw [hdescs, List.pairwise_reverse, List.pairwise_cons] at hsorted
  rw [hdescs] at hd
  rcases List.mem_cons.mp hd with rfl | hd
  · exact le_rfl
  · exact hsorted.1 d hd

theorem toCapture_eq (h : CudaGraphManager.init vllm cfg = .ok mgr) :
    mgr.toCapture = mgr.captureDescs .PIECEWISE ++ mgr.captureDescs .FULL := by
  rw [CudaGraphManager.toCapture, (init_eq_ok h).2.2.1]

theorem fullOf_toCapture (h : CudaGraphManager.init vllm cfg = .ok mgr) :
    ModelCudaGraphManager.fullOf mgr.toCapture = mgr.captureDescs .FULL := by
  have hpiece : ModelCudaGraphManager.fullOf (mgr.captureDescs .PIECEWISE) = [] := by
    rw [ModelCudaGraphManager.fullOf, List.filter_eq_nil_iff]
    intro d hd
    simp [((mem_captureDescs_iff h).1 hd).1]
  have hfull : ModelCudaGraphManager.fullOf (mgr.captureDescs .FULL) = mgr.captureDescs .FULL := by
    rw [ModelCudaGraphManager.fullOf, List.filter_eq_self]
    intro d hd
    simp [((mem_captureDescs_iff h).1 hd).1]
  rw [toCapture_eq h, ModelCudaGraphManager.fullOf_append, hpiece, hfull, List.nil_append]

theorem mem_toCapture_iff (h : CudaGraphManager.init vllm cfg = .ok mgr)
    {d : BatchExecutionDescriptor} : d ∈ mgr.toCapture ↔
      Captures vllm cfg d ∧ (d.cgMode = .PIECEWISE ∨ d.cgMode = .FULL) := by
  rw [toCapture_eq h, List.mem_append, mem_captureDescs_iff h, mem_captureDescs_iff h]
  grind

/-- The first descriptor of a capture is the largest exactly when the piecewise graphs cover the
full ones. -/
theorem piecewiseCovers_iff (h : CudaGraphManager.init vllm cfg = .ok mgr)
    {first : BatchExecutionDescriptor} {rest : List BatchExecutionDescriptor}
    (hfirst : mgr.toCapture = first :: rest) :
    PiecewiseCovers vllm cfg ↔ ∀ d ∈ rest, d.numTokens ≤ first.numTokens := by
  have hmem : first ∈ mgr.toCapture := hfirst ▸ List.mem_cons_self
  rcases hpiece : mgr.captureDescs .PIECEWISE with _ | ⟨p, ps⟩
  · have hnone : ¬ ∃ p, Captures vllm cfg p ∧ p.cgMode = .PIECEWISE := by
      rintro ⟨p, hp, hmode⟩
      have := (mem_captureDescs_iff h).2 ⟨hmode, hp⟩
      rw [hpiece] at this
      cases this
    have hfull : mgr.captureDescs .FULL = first :: rest := by
      rw [← hfirst, toCapture_eq h, hpiece, List.nil_append]
    constructor
    · intro _ d hd
      exact le_head_captureDescs h hfull (hfull ▸ List.mem_cons_of_mem _ hd)
    · intro _ hex
      exact absurd hex hnone
  · obtain rfl : p = first := by
      rw [toCapture_eq h, hpiece] at hfirst
      exact (List.cons.inj hfirst).1
    have hp := (mem_captureDescs_iff h).1 (show p ∈ mgr.captureDescs .PIECEWISE by
      rw [hpiece]; exact List.mem_cons_self)
    constructor
    · intro hcovers d hd
      have hd' : d ∈ mgr.toCapture := hfirst ▸ List.mem_cons_of_mem _ hd
      obtain ⟨hcap, hmode | hmode⟩ := (mem_toCapture_iff h).1 hd'
      · exact le_head_captureDescs h hpiece ((mem_captureDescs_iff h).2 ⟨hmode, hcap⟩)
      · obtain ⟨q, hq, hqmode, hle⟩ := hcovers ⟨p, hp.2, hp.1⟩ d hcap hmode
        exact hle.trans (le_head_captureDescs h hpiece ((mem_captureDescs_iff h).2 ⟨hqmode, hq⟩))
    · intro hle _ d hcap hmode
      refine ⟨p, hp.2, hp.1, ?_⟩
      have hd : d ∈ p :: rest := hfirst ▸ (mem_toCapture_iff h).2 ⟨hcap, .inr hmode⟩
      rcases List.mem_cons.mp hd with rfl | hd
      · exact le_rfl
      · exact hle d hd

end covers

namespace ModelCudaGraphManager

variable {X : ModelEnv σ ρ} (args : CaptureArgs σ) {M M' : ModelCudaGraphManager ρ}

/-- The state in which the capture loop starts. -/
def start (args : CaptureArgs σ) (M : ModelCudaGraphManager ρ) : ModelCudaGraphManager ρ :=
  { M with
    useAuxHiddenStateOutputs := args.useAuxHiddenStateOutputs
    breakableCgRunner := M.breakableCgRunner || M.useBreakableCg }

/-- The warmups, captures and inputs that the code asserts are possible. -/
structure CanCapture (X : ModelEnv σ ρ) (args : CaptureArgs σ) (M : ModelCudaGraphManager ρ) :
    Prop where
  piecewise : X.hasPiecewiseCudagraphs M.cudagraphMode = true →
    M.useBreakableCg = true ∨ X.hasCompiledSubmodule = true
  rank : M.isFirstPpRank = true ∨ args.hasIntermediateTensors = true

theorem CanCapture.capturable (h : CanCapture X args M) : Capturable args (M.start args) :=
  ⟨h.rank, fun hbreakable => by
    have hbreakable' : M.useBreakableCg = true := hbreakable
    simp [start, hbreakable']⟩

/-- A capture is its loop. -/
theorem capture_eq (h : CanCapture X args M) : M.capture X args =
    (M.toCapture.foldlM (captureDesc X args) (M.start args)).map
      fun M => { M with graphsCaptured := true } := by
  have hpiece : ¬ (X.hasPiecewiseCudagraphs M.cudagraphMode = true ∧
      (!(M.useBreakableCg || X.hasCompiledSubmodule)) = true) := by
    rintro ⟨hmode, hnone⟩
    have := h.piecewise hmode
    grind
  unfold capture
  dsimp only
  rw [if_neg hpiece]
  change (List.foldlM (captureDesc X args) (M.start args) M.toCapture >>= _) = _
  rcases List.foldlM (captureDesc X args) (M.start args) M.toCapture with e | M' <;> rfl

/-- Every graph of the manager writes to its buffers, which are long enough. -/
structure Replayable (X : ModelEnv σ ρ) (M : ModelCudaGraphManager ρ) : Prop where
  documented : X.Documented M.isLastPpRank M.useAuxHiddenStateOutputs
  full : ∀ d ∈ M.graphs, d.cgMode = .FULL ∧ 0 < d.numTokens
  outputs : ∀ d ∈ M.graphs, M.graphOutputs d = M.outputs
  ready : ∀ d ∈ M.graphs, ∃ base len, M.Ready X base len ∧ d.numTokens.toNat ≤ len

section capture

variable {τ : Type} {vllm : Vllm τ} {cfg : GraphConfig τ}
  (hinit : CudaGraphManager.init vllm cfg = .ok M.toCudaGraphManager)
  (hfresh : M.outputs = {})
  (hdoc : X.Documented M.isLastPpRank args.useAuxHiddenStateOutputs)
  (hcan : CanCapture X args M)
  (hsizes : cfg.cudagraphCaptureSizes.Nodup) (hcases : cfg.loraCases.Nodup)
  (hpos : ∀ d, Captures vllm cfg d → 0 < d.numTokens)

include hinit hfresh hdoc hcan hsizes hcases hpos

/-- The first round of a capture, and what it leaves to the others. -/
theorem capture_first {first : BatchExecutionDescriptor} {rest : List BatchExecutionDescriptor}
    (hfirst : M.toCapture = first :: rest) :
    ∃ M₁, captureDesc X args (M.start args) first = .ok M₁ ∧ (M.start args).Captured M₁ [first] ∧
      M₁.Ready X M.memory.allocated first.numTokens.toNat ∧
      (M₁.graphs ++ fullOf rest).Nodup ∧ ∀ d ∈ first :: rest, 0 < d.numTokens := by
  have hgraphs : M.graphs = [] := (init_eq_ok hinit).2.1
  have hpos' : ∀ d ∈ first :: rest, 0 < d.numTokens := by
    intro d hd
    rw [← hfirst] at hd
    exact hpos d ((mem_toCapture_iff hinit).1 hd).1
  have hnodup : ((M.start args).graphs ++ fullOf (first :: rest)).Nodup := by
    change (M.graphs ++ _).Nodup
    rw [hgraphs, List.nil_append, ← hfirst, fullOf_toCapture hinit]
    exact nodup_captureDescs hinit hsizes hcases .FULL
  obtain ⟨M₁, hstep, hcaptured, hready⟩ := captureDesc_fresh args (M := M.start args) hdoc
    hcan.capturable hfresh (hpos' first List.mem_cons_self) (notMem_of_nodup_fullOf hnodup)
  rw [← List.singleton_append, fullOf_append, ← List.append_assoc, ← hcaptured.graphs] at hnodup
  exact ⟨M₁, hstep, hcaptured, hready, hnodup, hpos'⟩

/-- Where the piecewise graphs cover the full ones, a capture records all full graphs. -/
theorem capture_covers (hcovers : PiecewiseCovers vllm cfg) :
    ∃ M', M.capture X args = .ok M' ∧ M'.Replayable X ∧ M'.toCudaGraphManager =
      { M.toCudaGraphManager with graphs := M.captureDescs .FULL, graphsCaptured := true } := by
  have hgraphs : M.graphs = [] := (init_eq_ok hinit).2.1
  have hfull : ∀ d ∈ M.captureDescs .FULL, d.cgMode = .FULL ∧ 0 < d.numTokens := fun d hd =>
    have hd' := (mem_captureDescs_iff hinit).1 hd
    ⟨hd'.1, hpos d hd'.2⟩
  rw [capture_eq args hcan]
  rcases hdescs : M.toCapture with _ | ⟨first, rest⟩
  · have hnone : M.captureDescs .FULL = [] := by
      rw [← fullOf_toCapture hinit, hdescs]
      rfl
    refine ⟨_, rfl, ⟨hdoc, ?_, ?_, ?_⟩, ?_⟩
    · simp [start, hgraphs]
    · simp [start, hgraphs]
    · simp [start, hgraphs]
    · simp [start, hgraphs, hnone]
  · obtain ⟨M₁, hstep, hcaptured, hready, hnodup, hpos'⟩ :=
      capture_first args hinit hfresh hdoc hcan hsizes hcases hpos hdescs
    have hfits : ∀ d ∈ rest, d.numTokens.toNat ≤ first.numTokens.toNat := fun d hd =>
      Int.toNat_le_toNat ((piecewiseCovers_iff hinit hdescs).1 hcovers d hd)
    obtain ⟨M₂, hrun, hcaptured', hready', houtputs⟩ := captureDescs_ready args
      (hcaptured.documented hdoc) (hcaptured.capturable args hcan.capturable) hready
      (fun d hd => hpos' d (List.mem_cons_of_mem _ hd)) hfits hnodup
    have hall := hcaptured.trans hcaptured' houtputs
    rw [List.singleton_append, ← hdescs] at hall
    have hM₂graphs : M₂.graphs = M.captureDescs .FULL := by
      rw [hall.graphs, fullOf_toCapture hinit]
      simp [start, hgraphs]
    refine ⟨{ M₂ with graphsCaptured := true }, ?_, ⟨?_, ?_, ?_, ?_⟩, ?_⟩
    · rw [List.foldlM_cons, hstep]
      change Except.map _ (List.foldlM _ M₁ rest) = _
      rw [hrun]
      rfl
    · exact hall.documented hdoc
    · exact fun d hd => hfull d (hM₂graphs ▸ hd)
    · refine hall.graphOutputs ?_
      simp [start, hgraphs]
    · intro d hd
      refine ⟨M.memory.allocated, first.numTokens.toNat, fun d s => ?_, ?_⟩
      · exact (hready' d s).congr rfl rfl fun _ => rfl
      · have hmem : d ∈ first :: rest := by
          rw [← hdescs, mem_toCapture_iff hinit]
          have hd' := (mem_captureDescs_iff hinit).1 (hM₂graphs ▸ hd)
          exact ⟨hd'.2, .inr hd'.1⟩
        rcases List.mem_cons.mp hmem with rfl | hmem
        · exact le_rfl
        · exact hfits d hmem
    · rw [← hM₂graphs, hall.frame]
      rfl

/-- Where they do not, a full graph needs buffers longer than the first descriptor's. -/
theorem capture_error (hcovers : ¬ PiecewiseCovers vllm cfg) :
    M.capture X args = .error tooLong := by
  rw [capture_eq args hcan]
  rcases hdescs : M.toCapture with _ | ⟨first, rest⟩
  · refine absurd ?_ hcovers
    rintro ⟨p, hp, hmode⟩
    have hmem := (mem_toCapture_iff hinit).2 ⟨hp, .inl hmode⟩
    rw [hdescs] at hmem
    cases hmem
  · obtain ⟨M₁, hstep, hcaptured, hready, hnodup, hpos'⟩ :=
      capture_first args hinit hfresh hdoc hcan hsizes hcases hpos hdescs
    rw [piecewiseCovers_iff hinit hdescs] at hcovers
    have hfirst := hpos' first List.mem_cons_self
    have hlong : ∃ d ∈ rest, first.numTokens.toNat < d.numTokens.toNat := by
      by_contra hnone
      refine hcovers fun d hd => ?_
      by_contra hlt
      exact hnone ⟨d, hd, by omega⟩
    have hrun := captureDescs_error args (hcaptured.documented hdoc)
      (hcaptured.capturable args hcan.capturable) hready (by omega)
      (fun d hd => hpos' d (List.mem_cons_of_mem _ hd)) hlong hnodup
    rw [List.foldlM_cons, hstep]
    change Except.map _ (List.foldlM _ M₁ rest) = _
    rw [hrun]
    rfl

end capture

/-! ## replays -/

variable {base len : Nat} {output : ModelOutput ρ} {n : Int}

/-- The slices of the buffers, put together again, are the output. -/
theorem readOutput_eq (halloc : M.Allocated base len output)
    (hkind : output.IsOf M.isLastPpRank M.useAuxHiddenStateOutputs)
    (hread : ∀ i (hi : i < output.tensors.length),
      slice (M.memory.buffers (base + i)) n = output.tensors[i].2) :
    M.readOutput n = .ok output := by
  have houtputs := halloc.outputs
  cases output with
  | hiddenStates rows =>
    have hrows : slice (M.memory.buffers base) n = rows := hread 0 Nat.zero_lt_one
    simp [readOutput, hkind.1, hkind.2, houtputs, Outputs.from, hrows]
  | withAux rows aux =>
    have hrows : slice (M.memory.buffers base) n = rows := hread 0 (Nat.zero_lt_succ _)
    have haux : (List.range' (base + 1) aux.length).map (fun addr =>
        slice (M.memory.buffers addr) n) = aux := by
      apply List.ext_getElem (by simp)
      intro i hi hi'
      have := hread (i + 1) (by simpa [ModelOutput.tensors] using hi')
      rw [List.getElem_map, List.getElem_range', Nat.one_mul, Nat.add_assoc, Nat.add_comm 1 i, this]
      simp [ModelOutput.tensors]
    simp [readOutput, hkind.1, hkind.2, houtputs, Outputs.from, hrows, haux]
  | intermediateTensors tensors =>
    have hlast : M.isLastPpRank = false := hkind
    have htensors : ((tensors.map Prod.fst).zip (List.range' base tensors.length)).map (fun x =>
        (x.1, slice (M.memory.buffers x.2) n)) = tensors := by
      apply List.ext_getElem (by simp)
      intro i hi hi'
      have := hread i (by simpa [ModelOutput.tensors] using hi')
      simp only [List.getElem_map, List.getElem_zip, List.getElem_range', Nat.one_mul, this]
      simp [ModelOutput.tensors]
    simp [readOutput, hlast, houtputs, Outputs.from, htensors]

/-- A replay returns what the model computes from the inputs it finds. -/
theorem runFullgraph_eq (h : M.Replayable X) {desc : BatchExecutionDescriptor}
    (hdesc : desc ∈ M.graphs) (inputs : σ) :
    ∃ M', M.runFullgraph X inputs desc = .ok (X.model desc inputs, M') ∧
      M' = { M with memory := M'.memory } ∧ M'.Replayable X := by
  obtain ⟨hfull, hpos⟩ := h.full desc hdesc
  obtain ⟨base, len, hready, hle⟩ := h.ready desc hdesc
  have hdoc := h.documented
  have halloc := hready desc inputs
  obtain ⟨M', hrun, hcopied⟩ := assign_allocated halloc (hdoc.nodup _ _) hpos.le hle
    (hdoc.rows _ _)
  have hreplay : M.replay X inputs desc = .ok M' := by
    rw [replay, h.outputs desc hdesc]
    exact hrun
  have hread : M'.readOutput desc.numTokens = .ok (X.model desc inputs) := by
    apply readOutput_eq (halloc.copied hcopied) _ hcopied.read
    rw [hcopied.frame]
    exact hdoc.kind _ _
  have hbase : M.toCudaGraphManager.runFullgraph desc = .ok () := if_pos ⟨hfull, hdesc⟩
  refine ⟨M', ?_, hcopied.frame, ?_⟩
  · simp only [runFullgraph, hbase, hreplay, hread, bind, Except.bind, pure, Except.pure]
  · refine ⟨?_, ?_, ?_, ?_⟩
    · rw [hcopied.frame]
      exact hdoc
    · rw [hcopied.frame]
      exact h.full
    · rw [hcopied.frame]
      exact h.outputs
    · intro d hd
      have hd' : d ∈ M.graphs := by
        rw [hcopied.frame] at hd
        exact hd
      obtain ⟨base, len, hready, hle⟩ := h.ready d hd'
      refine ⟨base, len, fun d s => (hready d s).congr ?_ hcopied.allocated hcopied.length, hle⟩
      rw [hcopied.frame]

/-- Batches are served, one after another, from the inputs that each of them brings. -/
theorem serve_eq (h : M.Replayable X)
    (hdispatch : ∀ b, (M.dispatch b).cgMode = .FULL → M.dispatch b ∈ M.graphs)
    (batches : List (GraphBatch × σ)) :
    ∃ M', M.serve X batches = .ok (batches.map fun x =>
      if (M.dispatch x.1).cgMode = .FULL then some (X.model (M.dispatch x.1) x.2)
      else none, M') := by
  induction batches generalizing M with
  | nil => exact ⟨M, rfl⟩
  | cons x batches ih =>
    by_cases hfull : (M.dispatch x.1).cgMode = .FULL
    · obtain ⟨M₁, hrun, hframe, hreplayable⟩ := runFullgraph_eq h (hdispatch x.1 hfull) x.2
      have hbase : M₁.toCudaGraphManager = M.toCudaGraphManager := by rw [hframe]
      obtain ⟨M', hserve⟩ := ih hreplayable (by rw [hbase]; exact hdispatch)
      refine ⟨M', ?_⟩
      simp only [serve, hfull, if_true, hrun, hserve, hbase, bind, Except.bind, pure, Except.pure,
        List.map_cons]
    · obtain ⟨M', hserve⟩ := ih h hdispatch
      refine ⟨M', ?_⟩
      simp only [serve, hfull, if_false, hserve, bind, Except.bind, pure, Except.pure,
        List.map_cons]

end ModelCudaGraphManager

/-! ## the documented modes -/

section documented

variable {cfg : GraphConfig (List Int)}

theorem documented_roundUp_pos {x y : Int} (hx : 0 < x) (hy : 0 < y) :
    0 < documentedVllm.roundUp x y := by
  have hquot : 1 ≤ (x + y - 1).fdiv y := by
    rw [Int.fdiv_eq_ediv_of_nonneg _ hy.le]
    exact Int.le_ediv_of_mul_le hy (by omega)
  exact Int.mul_pos (by omega) hy

/-- Capture sizes and query lengths of at least one token give such descriptors. -/
theorem captures_pos (hsizes : ∀ n ∈ cfg.cudagraphCaptureSizes, 0 < n)
    (hlens : ∀ q ∈ decodeQueryLens documentedVllm cfg, 0 < q) {d : BatchExecutionDescriptor}
    (h : Captures documentedVllm cfg d) : 0 < d.numTokens := by
  obtain ⟨-, n, hn, l, -, hc⟩ := h
  rcases hc.numTokens with heq | ⟨-, q, hq, -, heq⟩
  · exact heq ▸ hsizes n hn
  · exact heq ▸ documented_roundUp_pos (hsizes n hn) (hlens q hq)

/-- Where `max_cudagraph_capture_size` is not above all capture sizes, the piecewise graphs cover
the full ones. -/
theorem piecewiseCovers_of_max_le
    (hmax : ∃ n ∈ cfg.cudagraphCaptureSizes, cfg.maxCudagraphCaptureSize ≤ n) :
    PiecewiseCovers documentedVllm cfg := by
  rintro ⟨p, ⟨htruthy, n, hn, l, hl, hp⟩, hmode⟩ d ⟨-, n', hn', l', -, hd⟩ -
  -- only the mixed mode is piecewise
  have hmixed : documentedVllm.mixedMode cfg.cudagraphMode = .PIECEWISE := by
    cases hp with
    | varlen hv =>
      cases hcfg : cfg.cudagraphMode <;>
        simp_all [varlenDesc, documentedVllm, captureVarlenDecode]
    | uniform hu =>
      cases hcfg : cfg.cudagraphMode <;>
        simp_all [roundedDesc, uniformDesc, documentedVllm, captureUniformDecode]
    | mixed => exact hmode
  have hcovered : ∀ k ∈ cfg.cudagraphCaptureSizes, d.numTokens ≤ k →
      ∃ p, Captures documentedVllm cfg p ∧ p.cgMode = .PIECEWISE ∧ d.numTokens ≤ p.numTokens := by
    intro k hk hle
    refine ⟨mixedDesc documentedVllm cfg k l, ⟨htruthy, k, hk, l, hl, .mixed ?_⟩, hmixed, hle⟩
    rw [hmixed]
    rfl
  rcases hd.numTokens with heq | ⟨-, q, -, hadm, heq⟩
  · exact hcovered n' hn' heq.le
  · obtain ⟨k, hk, hle⟩ := hmax
    exact hcovered k hk (heq.le.trans (hadm.capture.trans hle))

/-- With four tokens as the only capture size, the full graph of six tokens is larger than the
piecewise one. -/
theorem not_piecewiseCovers_four :
    ¬ PiecewiseCovers documentedVllm { dynamicGraphs with cudagraphCaptureSizes := [4] } := by
  set cfg := { dynamicGraphs with cudagraphCaptureSizes := [4] }
  intro hcovers
  have hmixed : Captures documentedVllm cfg (mixedDesc documentedVllm cfg 4 0) :=
    ⟨rfl, 4, by decide, 0, by decide, .mixed rfl⟩
  have hfull : Captures documentedVllm cfg (roundedDesc documentedVllm cfg 4 0 3) :=
    ⟨rfl, 4, by decide, 0, by decide, .uniform rfl (by decide) ⟨by decide, by decide, by decide⟩⟩
  obtain ⟨p, ⟨-, n, hn, l, -, hp⟩, hmode, hle⟩ := hcovers ⟨_, hmixed, rfl⟩ _ hfull rfl
  obtain rfl : n = 4 := List.mem_singleton.1 hn
  cases hp with
  | varlen hvar => cases hvar
  | uniform => cases hmode
  | mixed =>
    have hgap : ¬ documentedVllm.roundUp 4 3 ≤ 4 := by decide
    exact hgap hle

/-- A model that returns its tokens, with one auxiliary output. -/
def echoModel : ModelEnv (List Nat) Nat where
  typeName := "Echo"
  hasCompiledSubmodule := true
  hasPiecewiseCudagraphs mode := mode = .FULL_AND_PIECEWISE || mode = .PIECEWISE
  modeName _ := "FULL_AND_PIECEWISE"
  model desc tokens :=
    let rows := (List.range desc.numTokens.toNat).map (tokens.getD · 0)
    .withAux rows [rows.map (· + 1)]
  uninit addr row := addr + row

theorem echoModel_documented : echoModel.Documented true true where
  kind _ _ := ⟨rfl, rfl⟩
  rows d s x hx := by
    simp only [echoModel, ModelOutput.tensors, List.zipIdx_singleton, List.map_cons, List.map_nil,
      List.mem_cons, List.not_mem_nil, or_false] at hx
    rcases hx with rfl | rfl <;> simp
  names _ _ _ _ := rfl
  nodup d s := by simp [echoModel, ModelOutput.names, ModelOutput.tensors]
  nonempty _ _ := List.cons_ne_nil _ _

/-- A manager on the only rank of a pipeline, before its capture. -/
def freshManager (mgr : CudaGraphManager) : ModelCudaGraphManager Nat where
  toCudaGraphManager := mgr
  cudagraphMode := .FULL_AND_PIECEWISE
  isFirstPpRank := true
  isLastPpRank := true
  memory := ⟨fun _ => [], 0⟩

/-- A capture of dummy inputs. -/
def echoArgs : CaptureArgs (List Nat) where
  hasIntermediateTensors := false
  useAuxHiddenStateOutputs := true
  inputs _ _ := []

theorem freshManager_canCapture (mgr : CudaGraphManager) :
    (freshManager mgr).CanCapture echoModel echoArgs :=
  ⟨fun _ => .inr rfl, .inl rfl⟩

end documented

/-! ## captures and replays -/

namespace ModelCudaGraphManager

variable {X : ModelEnv σ ρ} (args : CaptureArgs σ) {M : ModelCudaGraphManager ρ}

section results

variable {τ : Type} {vllm : Vllm τ} {cfg : GraphConfig τ}

/-- **When a capture succeeds**: a capture of all graphs of a configuration raises nothing exactly
when no full graph is larger than all piecewise graphs, which are captured first. -/
theorem capture_ok_iff (hinit : CudaGraphManager.init vllm cfg = .ok M.toCudaGraphManager)
    (hfresh : M.outputs = {}) (hdoc : X.Documented M.isLastPpRank args.useAuxHiddenStateOutputs)
    (hcan : CanCapture X args M) (hsizes : cfg.cudagraphCaptureSizes.Nodup)
    (hcases : cfg.loraCases.Nodup) (hpos : ∀ d, Captures vllm cfg d → 0 < d.numTokens) :
    (∃ M', M.capture X args = .ok M') ↔ PiecewiseCovers vllm cfg := by
  constructor
  · rintro ⟨M', hcapture⟩
    by_contra hcovers
    rw [capture_error args hinit hfresh hdoc hcan hsizes hcases hpos hcovers] at hcapture
    cases hcapture
  · intro hcovers
    obtain ⟨M', hcapture, -⟩ :=
      capture_covers args hinit hfresh hdoc hcan hsizes hcases hpos hcovers
    exact ⟨M', hcapture⟩

/-- The capture raises where the piecewise graphs do not cover the full ones, and succeeds with
`smallGraphs`, where they do. -/
theorem capture_ok_iff_dynamicGraphs :
    let cfg := { dynamicGraphs with cudagraphCaptureSizes := [4] }
    ∃ M small : ModelCudaGraphManager Nat,
      CudaGraphManager.init documentedVllm cfg = .ok M.toCudaGraphManager ∧
        (¬ ∃ M', M.capture echoModel echoArgs = .ok M') ∧
        CudaGraphManager.init documentedVllm smallGraphs = .ok small.toCudaGraphManager ∧
        ∃ M', small.capture echoModel echoArgs = .ok M' := by
  intro cfg
  obtain ⟨mgr, h⟩ := exists_init documentedVllm cfg (by decide)
  obtain ⟨small, hsmall⟩ := exists_init documentedVllm smallGraphs (by decide)
  refine ⟨freshManager mgr, freshManager small, h, ?_, hsmall, ?_⟩
  · rw [capture_ok_iff echoArgs h rfl echoModel_documented (freshManager_canCapture mgr)
      (by decide) (by decide) fun _ => captures_pos (by decide) (by decide)]
    exact not_piecewiseCovers_four
  · rw [capture_ok_iff echoArgs hsmall rfl echoModel_documented (freshManager_canCapture small)
      (by decide) (by decide) fun _ => captures_pos (by decide) (by decide)]
    exact piecewiseCovers_of_max_le ⟨8, by decide, by decide⟩

/-- **Replays return what the model computes**: the capture succeeds, and then, in any sequence of
batches, each batch that is dispatched to a full graph gets the outputs of the model on the inputs
it brings, for all tokens of the graph, which are no fewer than its own; whatever graphs were
replayed before, no row of theirs is returned, and nothing is raised. -/
theorem serve_eq_model (hinit : CudaGraphManager.init vllm cfg = .ok M.toCudaGraphManager)
    (hfresh : M.outputs = {}) (hdoc : X.Documented M.isLastPpRank args.useAuxHiddenStateOutputs)
    (hcan : CanCapture X args M) (hsizes : cfg.cudagraphCaptureSizes.Nodup)
    (hcases : cfg.loraCases.Nodup) (hpos : ∀ d, Captures vllm cfg d → 0 < d.numTokens)
    (hcovers : PiecewiseCovers vllm cfg) :
    ∃ M', M.capture X args = .ok M' ∧
      (∀ b, (M'.dispatch b).cgMode = .FULL → b.numTokens ≤ (M'.dispatch b).numTokens) ∧
      ∀ batches : List (GraphBatch × σ), ∃ M'', M'.serve X batches = .ok (batches.map fun x =>
        if (M'.dispatch x.1).cgMode = .FULL then some (X.model (M'.dispatch x.1) x.2)
        else none, M'') := by
  obtain ⟨M', hcapture, hreplayable, hbase⟩ :=
    capture_covers args hinit hfresh hdoc hcan hsizes hcases hpos hcovers
  have hdispatch : ∀ b, (M'.dispatch b).cgMode = .FULL →
      M'.dispatch b ∈ M'.graphs ∧ b.numTokens ≤ (M'.dispatch b).numTokens := by
    intro b hfull
    generalize hd : M'.dispatch b = d at hfull ⊢
    rw [hbase] at hd ⊢
    rcases dispatch_cases hinit _ b hd with rfl | ⟨-, hfits, hnear⟩
    · cases hfull
    · exact ⟨(mem_captureDescs_iff hinit).2 ⟨hfull, hnear.captures⟩, hfits.tokens⟩
  exact ⟨M', hcapture, fun b hfull => (hdispatch b hfull).2,
    serve_eq hreplayable fun b hfull => (hdispatch b hfull).1⟩

theorem serve_eq_model_smallGraphs :
    ∃ M : ModelCudaGraphManager Nat,
      CudaGraphManager.init documentedVllm smallGraphs = .ok M.toCudaGraphManager ∧
        ∃ M', M.capture echoModel echoArgs = .ok M' ∧
          (∀ b, (M'.dispatch b).cgMode = .FULL → b.numTokens ≤ (M'.dispatch b).numTokens) ∧
          ∀ batches : List (GraphBatch × List Nat), ∃ M'', M'.serve echoModel batches =
            .ok (batches.map fun x => if (M'.dispatch x.1).cgMode = .FULL then
              some (echoModel.model (M'.dispatch x.1) x.2) else none, M'') := by
  obtain ⟨mgr, h⟩ := exists_init documentedVllm smallGraphs (by decide)
  exact ⟨freshManager mgr, h, serve_eq_model echoArgs h rfl echoModel_documented
    (freshManager_canCapture mgr) (by decide) (by decide)
    (fun _ => captures_pos (by decide) (by decide))
    (piecewiseCovers_of_max_le ⟨8, by decide, by decide⟩)⟩

end results

end ModelCudaGraphManager

end FlashNext
