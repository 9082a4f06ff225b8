import FlashNext.Graphs.Dispatch

/-!
# FlashNext.Graphs.Warmup

The warmup of the sparse attention kernel before graphs are captured.

`qsaTritonWarmupRunner` forces an eager attention run at every size of the capture
ladder.  The manager captures at the ladder's sizes too, except for uniform decode
graphs, whose sizes it rounds up to multiples of a query length.  The warmup covers the
capture exactly when the rounded sizes that keep the manager's limits are on the ladder
again (`warmupCovers_iff`).
-/

namespace FlashNext

/-- The arguments of `_dummy_run`. -/
structure DummyRun where
  numTokens : Int
  cudagraphRuntimeMode : CUDAGraphMode
  forceAttention : Bool
  skipEplb : Bool
  isProfile : Bool
deriving DecidableEq, Repr

/-- What the warmup reads of a `GPUModelRunner`. -/
structure WarmupRunner where
  /-- `vllm.models.qwen4_exp.amd.qsa` is in `sys.modules`. -/
  qsaModuleLoaded : Bool
  /-- For each module of the model, whether it is a `Qwen4ExpQSAAttention`. -/
  isQsaAttention : List Bool
  cudagraphCaptureSizes : List Int

/-- `qwen4_exp_amd_qsa_triton_warmup_runner`: the runs it forces, in order. -/
def qsaTritonWarmupRunner (runner : WarmupRunner) : List DummyRun :=
  if !runner.qsaModuleLoaded then []
  else if !runner.isQsaAttention.any id then []
  else
    let sizes := if runner.cudagraphCaptureSizes = [] then [1] else runner.cudagraphCaptureSizes
    sizes.map fun numTokens =>
      { numTokens := numTokens, cudagraphRuntimeMode := .NONE, forceAttention := true,
        skipEplb := true, isProfile := true }

/-- An eager run of the attention kernel at `n` tokens. -/
def DummyRun.WarmsUp (run : DummyRun) (n : Int) : Prop :=
  run.numTokens = n ∧ run.cudagraphRuntimeMode = .NONE ∧ run.forceAttention = true

/-- Every size that the manager captures has been run before. -/
def WarmupCovers (runs : List DummyRun) (mgr : CudaGraphManager) : Prop :=
  ∀ m, ∀ d ∈ mgr.captureDescs m, ∃ run ∈ runs, run.WarmsUp d.numTokens

/-- On a model with sparse attention layers the runs are at the sizes of the ladder. -/
theorem exists_warmsUp_iff {runner : WarmupRunner} (hloaded : runner.qsaModuleLoaded = true)
    (hqsa : true ∈ runner.isQsaAttention) (hsizes : runner.cudagraphCaptureSizes ≠ []) {n : Int} :
    (∃ run ∈ qsaTritonWarmupRunner runner, run.WarmsUp n) ↔ n ∈ runner.cudagraphCaptureSizes := by
  have hany : runner.isQsaAttention.any id = true := List.any_eq_true.mpr ⟨true, hqsa, rfl⟩
  simp [qsaTritonWarmupRunner, hloaded, hany, hsizes, DummyRun.WarmsUp]

section covers

variable {σ : Type} {vllm : Vllm σ} {cfg : GraphConfig σ} {mgr : CudaGraphManager}

theorem loraCases_ne_nil (cfg : GraphConfig σ) : cfg.loraCases ≠ [] := by
  unfold GraphConfig.loraCases
  split <;> simp_all

/-- A contributed descriptor has the size it comes from, or that size rounded up. -/
theorem Contributes.numTokens {n l : Int} {d : BatchExecutionDescriptor}
    (h : Contributes vllm cfg n l d) :
    d.numTokens = n ∨ captureUniformDecode vllm cfg = true ∧ ∃ q ∈ decodeQueryLens vllm cfg,
      Admitted vllm cfg n q ∧ d.numTokens = vllm.roundUp n q := by
  cases h with
  | varlen hmode hn => exact .inl rfl
  | uniform hmode hq hadm => exact .inr ⟨hmode, _, hq, hadm, rfl⟩
  | mixed hmode => exact .inl rfl

/-- The warmup covers the capture exactly when no uniform decode graphs are captured, or
every rounded size that keeps the limits is on the ladder. -/
theorem warmupCovers_iff (h : CudaGraphManager.init vllm cfg = .ok mgr) {runner : WarmupRunner}
    (hloaded : runner.qsaModuleLoaded = true) (hqsa : true ∈ runner.isQsaAttention)
    (hladder : runner.cudagraphCaptureSizes = cfg.cudagraphCaptureSizes)
    (hsizes : cfg.cudagraphCaptureSizes ≠ []) :
    WarmupCovers (qsaTritonWarmupRunner runner) mgr ↔
      (vllm.truthy cfg.cudagraphMode = true → captureUniformDecode vllm cfg = true →
        ∀ n ∈ cfg.cudagraphCaptureSizes, ∀ q ∈ decodeQueryLens vllm cfg, Admitted vllm cfg n q →
          vllm.roundUp n q ∈ cfg.cudagraphCaptureSizes) := by
  have hwarm : ∀ n, (∃ run ∈ qsaTritonWarmupRunner runner, run.WarmsUp n) ↔
      n ∈ cfg.cudagraphCaptureSizes := by
    intro n
    rw [exists_warmsUp_iff hloaded hqsa (hladder ▸ hsizes), hladder]
  simp only [WarmupCovers, hwarm, mem_captureDescs_iff h]
  constructor
  · intro hcovers htruthy hmode n hn q hq hadm
    obtain ⟨l, hl⟩ := List.exists_mem_of_ne_nil _ (loraCases_ne_nil cfg)
    exact hcovers _ _ ⟨rfl, htruthy, n, hn, l, hl, .uniform hmode hq hadm⟩
  · rintro hladder m d ⟨-, htruthy, n, hn, l, -, hc⟩
    rcases hc.numTokens with heq | ⟨hmode, q, hq, hadm, heq⟩
    · rwa [heq]
    · rw [heq]
      exact hladder htruthy hmode n hn q hq hadm

/-- Two speculative tokens: decode batches have three tokens a request. -/
def threeTokenDecode : GraphConfig (List Int) where
  cudagraphMode := .FULL_AND_PIECEWISE
  decodeQueryLen := 3
  loraCaptureCases := none
  varlenDecode := false
  maxNumReqs := 4
  cudagraphCaptureSizes := [1, 2, 4, 8]
  maxCudagraphCaptureSize := 8
  numSpeculativeTokens := 2
  speculativeConfig := none
  useBreakableCg := false

/-- A runner of a model with one sparse attention layer. -/
def sparseRunner (sizes : List Int) : WarmupRunner where
  qsaModuleLoaded := true
  isQsaAttention := [false, true]
  cudagraphCaptureSizes := sizes

/-- Multiples of three tokens are their own rounded sizes. -/
theorem warmupCovers_multiples :
    let cfg := { threeTokenDecode with
      cudagraphCaptureSizes := [3, 6, 12], maxCudagraphCaptureSize := 12 }
    ∃ mgr, CudaGraphManager.init documentedVllm cfg = .ok mgr ∧
      (∃ d ∈ mgr.captureDescs .FULL, d.numTokens = 12) ∧
      WarmupCovers (qsaTritonWarmupRunner (sparseRunner [3, 6, 12])) mgr := by
  intro cfg
  obtain ⟨mgr, h⟩ := exists_init documentedVllm cfg (by decide)
  have hmem : roundedDesc documentedVllm cfg 12 0 3 ∈ mgr.captureDescs .FULL :=
    (mem_captureDescs_iff h).2 ⟨rfl, rfl, 12, by decide, 0, by decide,
      .uniform rfl (by decide) ⟨by decide, by decide, by decide⟩⟩
  refine ⟨mgr, h, ⟨_, hmem, by decide⟩, (warmupCovers_iff h rfl (by decide) rfl (by decide)).2 ?_⟩
  intro _ _ n hn q hq _
  have hrounded : ∀ n ∈ cfg.cudagraphCaptureSizes, ∀ q ∈ decodeQueryLens documentedVllm cfg,
      documentedVllm.roundUp n q ∈ cfg.cudagraphCaptureSizes := by decide
  exact hrounded n hn q hq

/-- The graph for one decode request is captured at three tokens, where nothing has
run. -/
theorem three_tokens_not_warm :
    ∃ mgr, CudaGraphManager.init documentedVllm threeTokenDecode = .ok mgr ∧
      (∃ d ∈ mgr.captureDescs .FULL, d.numTokens = 3) ∧
      (∀ run ∈ qsaTritonWarmupRunner (sparseRunner [1, 2, 4, 8]), run.numTokens ≠ 3) ∧
      ¬ WarmupCovers (qsaTritonWarmupRunner (sparseRunner [1, 2, 4, 8])) mgr := by
  obtain ⟨mgr, h⟩ := exists_init documentedVllm threeTokenDecode (by decide)
  have hmem : roundedDesc documentedVllm threeTokenDecode 1 0 3 ∈ mgr.captureDescs .FULL :=
    (mem_captureDescs_iff h).2 ⟨rfl, rfl, 1, by decide, 0, by decide,
      .uniform rfl (by decide) ⟨by decide, by decide, by decide⟩⟩
  have hrun : ∀ run ∈ qsaTritonWarmupRunner (sparseRunner [1, 2, 4, 8]), run.numTokens ≠ 3 := by
    decide
  refine ⟨mgr, h, ⟨_, hmem, by decide⟩, hrun, fun hcovers => ?_⟩
  obtain ⟨run, hmem', hwarm⟩ := hcovers _ _ hmem
  exact hrun run hmem' hwarm.1

end covers

end FlashNext
