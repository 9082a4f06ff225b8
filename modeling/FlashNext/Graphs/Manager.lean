import FlashNext.Ladder
import FlashNext.PyError
import Mathlib.Data.List.ProdSigma
import Mathlib.Logic.Function.Basic

/-!
# FlashNext.Graphs.Manager

`CudaGraphManager`: which batch shapes get a graph, and which graph a batch runs.

`CudaGraphManager.init` builds the descriptors to capture and, ahead of any batch, the
candidates for every token count; `capture` records the graphs; `dispatch` reads the
candidates and takes the first that is compatible with the batch.

The methods of `CUDAGraphMode`, `round_up` and `build_dynamic_sd_schedule_lookup` come
from outside and are the parameter `Vllm`.  Devices, memory pools, the offloader and
logging are left out.
-/

namespace FlashNext

/-- `CUDAGraphMode` -/
inductive CUDAGraphMode where
  | NONE
  | PIECEWISE
  | FULL
  | FULL_DECODE_ONLY
  | FULL_AND_PIECEWISE
deriving DecidableEq, Repr

/-- `BatchExecutionDescriptor`.  `numReqs = none` means that requests are not padded. -/
structure BatchExecutionDescriptor where
  cgMode : CUDAGraphMode
  numTokens : Int
  numReqs : Option Int
  uniformTokenCount : Option Int := none
  /-- Bounds the query length of each request; keeps a prefill batch out of a varlen
  decode graph. -/
  maxQueryLen : Option Int := none
  numActiveLoras : Int := 0
deriving DecidableEq, Repr

/-- The arguments of `dispatch`. -/
structure GraphBatch where
  numReqs : Int
  numTokens : Int
  uniformTokenCount : Option Int
  numActiveLoras : Int
  maxQueryLen : Option Int := none

/-- The check of `max_query_len`: a batch that does not track it must not match a
descriptor that bounds it. -/
def boundsQueryLen : Option Int → Option Int → Bool
  | none, _ => true
  | some _, none => false
  | some bound, some maxQueryLen => maxQueryLen ≤ bound

/-- The check of `num_reqs`. -/
def holdsReqs : Option Int → Int → Bool
  | none, _ => true
  | some bound, numReqs => numReqs ≤ bound

/-- `_is_compatible` -/
def isCompatible (desc : BatchExecutionDescriptor) (b : GraphBatch) : Bool :=
  (desc.uniformTokenCount = none || desc.uniformTokenCount = b.uniformTokenCount) &&
  boundsQueryLen desc.maxQueryLen b.maxQueryLen &&
  holdsReqs desc.numReqs b.numReqs &&
  b.numTokens ≤ desc.numTokens &&
  desc.numActiveLoras = b.numActiveLoras

/-- What comes from outside: the methods of a mode, `round_up` and the dense lookup of a
dynamic speculative schedule `σ`. -/
structure Vllm (σ : Type) where
  /-- `bool(mode)` -/
  truthy : CUDAGraphMode → Bool
  decodeMode : CUDAGraphMode → CUDAGraphMode
  mixedMode : CUDAGraphMode → CUDAGraphMode
  separateRoutine : CUDAGraphMode → Bool
  roundUp : Int → Int → Int
  buildDynamicSdScheduleLookup : σ → Int → Int → List Int

/-- The methods as they are documented, with a schedule given by its dense lookup. -/
def documentedVllm : Vllm (List Int) where
  truthy mode := mode ≠ .NONE
  decodeMode
    | .FULL_DECODE_ONLY | .FULL_AND_PIECEWISE => .FULL
    | mode => mode
  mixedMode
    | .FULL_DECODE_ONLY => .NONE
    | .FULL_AND_PIECEWISE => .PIECEWISE
    | mode => mode
  separateRoutine mode := mode = .FULL_DECODE_ONLY || mode = .FULL_AND_PIECEWISE
  roundUp x y := (x + y - 1).fdiv y * y
  buildDynamicSdScheduleLookup schedule _ _ := schedule

/-- The part of `speculative_config` that the manager reads. -/
structure SpeculativeConfig (σ : Type) where
  usesDynamicSpeculativeDecoding : Bool
  numSpeculativeTokensPerBatchSize : σ

/-- The arguments of the manager and what it reads of `vllm_config`. -/
structure GraphConfig (σ : Type) where
  cudagraphMode : CUDAGraphMode
  decodeQueryLen : Int
  loraCaptureCases : Option (List Int)
  varlenDecode : Bool
  maxNumReqs : Int
  cudagraphCaptureSizes : List Int
  maxCudagraphCaptureSize : Int
  numSpeculativeTokens : Int
  speculativeConfig : Option (SpeculativeConfig σ)
  /-- `is_breakable_cudagraph_enabled()` and the mode has piecewise graphs. -/
  useBreakableCg : Bool

/-! ## LoRA cases -/

/-- `lora_capture_cases or [0]` -/
def GraphConfig.loraCases {σ : Type} (cfg : GraphConfig σ) : List Int :=
  match cfg.loraCaptureCases with
  | none | some [] => [0]
  | some cases => cases

/-- One round of the loop in `_build_lora_dispatch_map`, over the cases from `case_idx`
on and the map so far. -/
def loraDispatchStep (st : List Int × List (Int × Int)) (n : Int) :
    Except PyError (List Int × List (Int × Int)) :=
  match st.1.dropWhile (· < n) with
  | [] => .error .indexError
  | c :: cs => .ok (c :: cs, st.2 ++ [(n, c)])

/-- `_build_lora_dispatch_map` -/
def buildLoraDispatchMap (loraCases : List Int) : Except PyError (List (Int × Int) × Int) :=
  let capturedWithLora := (loraCases.filter (0 < ·)).insertionSort (· ≤ ·)
  match capturedWithLora.getLast? with
  | none => .ok ([], 0)
  | some last => do
    let st ← (Int.range 1 (last + 1)).foldlM loraDispatchStep (capturedWithLora, [])
    return (st.2, last)

/-! ## descriptors -/

section descriptors

variable {σ : Type} (vllm : Vllm σ) (cfg : GraphConfig σ)

/-- The query lengths that get uniform decode graphs. -/
def decodeQueryLens : List Int :=
  match cfg.speculativeConfig with
  | some spec =>
    if spec.usesDynamicSpeculativeDecoding then
      let numNewSampledTokensPerStep := cfg.decodeQueryLen - cfg.numSpeculativeTokens
      let denseSchedule := vllm.buildDynamicSdScheduleLookup spec.numSpeculativeTokensPerBatchSize
        cfg.maxNumReqs cfg.numSpeculativeTokens
      ((denseSchedule.tail.map (· + numNewSampledTokensPerStep)).dedup).insertionSort (· ≤ ·)
    else [cfg.decodeQueryLen]
  | none => [cfg.decodeQueryLen]

/-- `max_decode_tokens` -/
def maxDecodeTokens : Int := cfg.maxNumReqs * cfg.decodeQueryLen

/-- `capture_varlen_decode` -/
def captureVarlenDecode : Bool :=
  vllm.separateRoutine cfg.cudagraphMode && vllm.truthy (vllm.decodeMode cfg.cudagraphMode) &&
    cfg.varlenDecode

/-- The condition of the branch that captures uniform decode graphs. -/
def captureUniformDecode : Bool :=
  vllm.separateRoutine cfg.cudagraphMode && vllm.truthy (vllm.decodeMode cfg.cudagraphMode) &&
    !cfg.varlenDecode

/-- The descriptor of a varlen decode graph: at worst one token a request. -/
def varlenDesc (numTokens numActiveLoras : Int) : BatchExecutionDescriptor where
  cgMode := vllm.decodeMode cfg.cudagraphMode
  numTokens := numTokens
  numReqs := some (min numTokens cfg.maxNumReqs)
  maxQueryLen := some cfg.decodeQueryLen
  numActiveLoras := numActiveLoras

/-- The descriptor of a uniform decode graph. -/
def uniformDesc (numTokens numReqs queryLen numActiveLoras : Int) : BatchExecutionDescriptor where
  cgMode := vllm.decodeMode cfg.cudagraphMode
  numTokens := numTokens
  numReqs := some numReqs
  uniformTokenCount := some queryLen
  numActiveLoras := numActiveLoras

/-- The descriptor of a graph for any batch. -/
def mixedDesc (numTokens numActiveLoras : Int) : BatchExecutionDescriptor where
  cgMode := vllm.mixedMode cfg.cudagraphMode
  numTokens := numTokens
  numReqs :=
    if vllm.mixedMode cfg.cudagraphMode = .FULL then some (min numTokens cfg.maxNumReqs) else none
  numActiveLoras := numActiveLoras

/-- The descriptors of each mode, `descs_by_mode`. -/
abbrev DescsByMode := CUDAGraphMode → List BatchExecutionDescriptor

/-- `descs_by_mode[desc.cg_mode].append(desc)` -/
def DescsByMode.append (descs : DescsByMode) (desc : BatchExecutionDescriptor) : DescsByMode :=
  Function.update descs desc.cgMode (descs desc.cgMode ++ [desc])

/-- The loop body over `decode_query_lens`. -/
def uniformStep (numTokens numActiveLoras : Int) (descs : DescsByMode) (queryLen : Int) :
    Except PyError DescsByMode := do
  let roundedNumTokens := vllm.roundUp numTokens queryLen
  let roundedNumReqs ← floorDiv roundedNumTokens queryLen
  if roundedNumTokens > maxDecodeTokens cfg ∨ roundedNumTokens > cfg.maxCudagraphCaptureSize ∨
      roundedNumReqs > cfg.maxNumReqs then
    return descs
  let desc := uniformDesc vllm cfg roundedNumTokens roundedNumReqs queryLen numActiveLoras
  -- avoid duplicate graphs
  if desc ∈ descs desc.cgMode then return descs
  return descs.append desc

/-- The decode part of the loop body over `product(capture_sizes, lora_capture_cases)`. -/
def decodeStep (descs : DescsByMode) (numTokens numActiveLoras : Int) :
    Except PyError DescsByMode :=
  if captureVarlenDecode vllm cfg ∧ numTokens ≤ maxDecodeTokens cfg then
    .ok (descs.append (varlenDesc vllm cfg numTokens numActiveLoras))
  else if captureUniformDecode vllm cfg then
    (decodeQueryLens vllm cfg).foldlM (uniformStep vllm cfg numTokens numActiveLoras) descs
  else .ok descs

/-- The mixed part of the loop body. -/
def mixedStep (descs : DescsByMode) (numTokens numActiveLoras : Int) : DescsByMode :=
  if vllm.truthy (vllm.mixedMode cfg.cudagraphMode) then
    descs.append (mixedDesc vllm cfg numTokens numActiveLoras)
  else descs

/-- The loop body over `product(capture_sizes, lora_capture_cases)`. -/
def sizeStep (descs : DescsByMode) (p : Int × Int) : Except PyError DescsByMode := do
  let descs ← decodeStep vllm cfg descs p.1 p.2
  return mixedStep vllm cfg descs p.1 p.2

/-- `product(capture_sizes, lora_capture_cases)` -/
def sizeCases : List (Int × Int) :=
  cfg.cudagraphCaptureSizes.insertionSort (· ≤ ·) ×ˢ cfg.loraCases

/-- `descs_by_mode` after the loop. -/
def descsByMode : Except PyError DescsByMode :=
  (sizeCases cfg).foldlM (sizeStep vllm cfg) fun _ => []

end descriptors

/-! ## candidates -/

/-- The candidates of each token count and LoRA case. -/
abbrev Candidates := Int × Int → Option (List BatchExecutionDescriptor)

/-- Spread the descriptors of one LoRA case over the token counts they serve. -/
def addLoraCandidates (modeDescs : List BatchExecutionDescriptor) (cands : Candidates)
    (numActiveLoras : Int) : Candidates :=
  let loraDescs := modeDescs.filter (·.numActiveLoras = numActiveLoras)
  fillRanges (fun i => (i, numActiveLoras)) 0
    (groupBy BatchExecutionDescriptor.numTokens loraDescs) cands

/-- `_capture_descs`: the descriptors of each mode, the largest first. -/
def captureDescsOf (descs : DescsByMode) : DescsByMode := fun mode =>
  (descs mode).insertionSort fun a b => b.numTokens ≤ a.numTokens

/-- `_candidates` -/
def candidatesOf (loraCases : List Int) (captureDescs : DescsByMode) : Candidates :=
  [CUDAGraphMode.FULL, .PIECEWISE].foldl (fun cands mode =>
    loraCases.foldl (addLoraCandidates (captureDescs mode).reverse) cands) fun _ => none

/-- The state of a manager.  `graphs` are the keys of the recorded graphs. -/
structure CudaGraphManager where
  loraDispatchMap : List (Int × Int)
  maxLoraCase : Int
  useBreakableCg : Bool
  captureDescs : DescsByMode
  candidates : Candidates
  /-- Set while memory is profiled. -/
  maxFullDescsToCapture : Option Nat := none
  graphs : List BatchExecutionDescriptor := []
  graphsCaptured : Bool := false

namespace CudaGraphManager

section init

variable {σ : Type} (vllm : Vllm σ) (cfg : GraphConfig σ)

/-- `_init_candidates` -/
def initCandidates : Except PyError (DescsByMode × Candidates) :=
  if vllm.truthy cfg.cudagraphMode ∧ cfg.cudagraphCaptureSizes ≠ [] then do
    let descs ← descsByMode vllm cfg
    return (captureDescsOf descs, candidatesOf cfg.loraCases (captureDescsOf descs))
  else .ok (fun _ => [], fun _ => none)

/-- `__init__` -/
def init : Except PyError CudaGraphManager := do
  let lora ← buildLoraDispatchMap cfg.loraCases
  let cands ← initCandidates vllm cfg
  return {
    loraDispatchMap := lora.1
    maxLoraCase := lora.2
    useBreakableCg := cfg.useBreakableCg
    captureDescs := cands.1
    candidates := cands.2 }

end init

/-! ## capture -/

/-- A forward of the model with the inputs prepared for a descriptor, in a warmup pass
or not, under a runtime mode. -/
abbrev Forward := BatchExecutionDescriptor → Bool → CUDAGraphMode → Except PyError Unit

/-- What a capture has recorded: the graphs of the manager, and the descriptors whose
piecewise graphs the wrappers of the model hold. -/
structure Recorded where
  graphs : List BatchExecutionDescriptor
  piecewise : List BatchExecutionDescriptor := []

/-- The body of the capture loop. -/
def captureStep (forward : Forward) (breakable : Bool) (rec : Recorded)
    (desc : BatchExecutionDescriptor) : Except PyError Recorded := do
  forward desc true .NONE
  if desc.cgMode = .PIECEWISE then
    forward desc (!breakable) .PIECEWISE
    return { rec with piecewise := rec.piecewise ++ [desc] }
  else if desc ∈ rec.graphs then
    .error .assertionError
  else
    forward desc false .NONE
    return { rec with graphs := rec.graphs ++ [desc] }

/-- The descriptors a capture goes through: piecewise first, then full. -/
def toCapture (mgr : CudaGraphManager) : List BatchExecutionDescriptor :=
  mgr.captureDescs .PIECEWISE ++
    match mgr.maxFullDescsToCapture with
    | none => mgr.captureDescs .FULL
    | some n => (mgr.captureDescs .FULL).take n

/-- `capture`: the manager afterwards and what was recorded. -/
def capture (forward : Forward) (mgr : CudaGraphManager) :
    Except PyError (CudaGraphManager × Recorded) := do
  let rec ← mgr.toCapture.foldlM (captureStep forward mgr.useBreakableCg) ⟨mgr.graphs, []⟩
  return ({ mgr with graphs := rec.graphs, graphsCaptured := true }, rec)

/-! ## dispatch -/

/-- `_resolve_effective_loras` -/
def resolveEffectiveLoras (mgr : CudaGraphManager) (numActiveLoras : Int) : Int :=
  if numActiveLoras ≤ 0 ∨ mgr.loraDispatchMap = [] then numActiveLoras
  else (mgr.loraDispatchMap.lookup numActiveLoras).getD mgr.maxLoraCase

/-- The batch as `_is_compatible` sees it. -/
def effective (mgr : CudaGraphManager) (b : GraphBatch) : GraphBatch :=
  { b with numActiveLoras := mgr.resolveEffectiveLoras b.numActiveLoras }

/-- No graph: the batch runs with its own sizes. -/
def noGraph (b : GraphBatch) : BatchExecutionDescriptor where
  cgMode := .NONE
  numTokens := b.numTokens
  numReqs := some b.numReqs
  numActiveLoras := b.numActiveLoras

/-- `dispatch` -/
def dispatch (mgr : CudaGraphManager) (b : GraphBatch) : BatchExecutionDescriptor :=
  let eff := mgr.effective b
  if mgr.graphsCaptured ∧ 0 < b.numTokens then
    match mgr.candidates (b.numTokens, eff.numActiveLoras) with
    | some descs => (descs.find? (isCompatible · eff)).getD (noGraph eff)
    | none => noGraph eff
  else noGraph eff

/-- `run_fullgraph`, up to the replay. -/
def runFullgraph (mgr : CudaGraphManager) (desc : BatchExecutionDescriptor) :
    Except PyError Unit :=
  if desc.cgMode = .FULL ∧ desc ∈ mgr.graphs then .ok () else .error .assertionError

end CudaGraphManager

end FlashNext
