import FlashNext.Exits
import FlashNext.Graphs.Warmup
import FlashNext.Str
import Mathlib.Algebra.Order.BigOperators.Group.List

/-!
# FlashNext.Graphs.Profile

`profile_cudagraph_memory`: capture once against a throwaway graph pool and a minimal KV
cache, to learn how much memory the graphs will need.

On the way it changes what others hold: the platform's graph pool, the pools of the
graph wrappers, two counters, the runner and its speculator.  Two nested `finally`
blocks give it back.  The calls that come from outside are programs on the whole
`World`, which they may change before they return or raise; only what frees memory is
confined to its `rest`.
-/

namespace FlashNext

/-! ## what is changed -/

/-- What the profiling sees of a `CudaGraphManager`. -/
structure ProfiledManager (π : Type) extends CudaGraphManager where
  pool : Option π
  breakableCgRunner : Option Nat := none
  captureMemSamples : Option (List Int) := none

/-- `needs_capture`; `_capture_descs` has a key for each mode with descriptors. -/
def CudaGraphManager.needsCapture (mgr : CudaGraphManager) : Bool :=
  [CUDAGraphMode.NONE, .PIECEWISE, .FULL, .FULL_DECODE_ONLY, .FULL_AND_PIECEWISE].any
    fun mode => mgr.captureDescs mode ≠ []

/-- The state of the process, with graph pools `π`, KV cache configs `κ` and other objects `τ`.  A
graph wrapper is its `id`. -/
structure World (π κ τ ρ : Type) where
  /-- `platform_cls._global_graph_pool` -/
  globalGraphPool : Option π
  numCudagraphCaptured : Nat
  numGpuRunnerCaptureTriggers : Nat
  /-- `CUDAGraphWrapper._all_instances` -/
  cudaGraphWrappers : List Nat
  /-- `BreakableCUDAGraphWrapper._all_instances` -/
  breakableWrappers : List Nat
  graphPool : Nat → π
  /-- `vars(speculator)`, with whether the value is a `CudaGraphManager`. -/
  speculator : Option (List (Str × Bool))
  cudagraphMode : CUDAGraphMode
  maxNumReqs : Int
  maxCudagraphCaptureSize : Int
  warmupRunner : WarmupRunner
  numGpuBlocksOverride : Option Int
  numGpuBlocks : Option Int
  -- an attribute that may be missing is an `Option`
  kvCaches : Option (List τ)
  attnGroups : Option (List τ)
  kvCacheConfig : Option κ
  cudagraphManager : Option (ProfiledManager π)
  mambaCtx : Option (Option τ)
  mambaGroupIds : Option (List Int)
  mambaSpec : Option (Option τ)
  supportsMmInputs : Bool
  /-- Recorded graphs, the device's allocator, layers, encoder graphs and LoRAs. -/
  rest : ρ
  wrappers_nodup : (cudaGraphWrappers ++ breakableWrappers).Nodup

/-- Reading or assigning an attribute. -/
inductive AttrAccess where
  | get
  | set

/-- The calls that come from outside. -/
structure ProfilingEnv (π κ τ ρ γ : Type) where
  gcCollect : ρ → ρ
  emptyCache : ρ → ρ
  synchronize : ρ → ρ
  /-- `CUDAGraphWrapper.clear_all_graphs` -/
  clearAllGraphs : ρ → ρ
  /-- `BreakableCUDAGraphWrapper.clear_all_graphs` -/
  clearAllBreakableGraphs : ρ → ρ
  /-- `encoder_runner.clear` -/
  clearEncoderRunner : ρ → ρ
  clearLayerKvCaches : ρ → ρ
  maybeRemoveAllLoras : ρ → ρ
  graphPoolHandle : EStateM PyError (World π κ τ ρ) π
  /-- `get_kv_cache_groups` of `get_kv_cache_spec` -/
  getKvCacheGroups : EStateM PyError (World π κ τ ρ) γ
  getKvCacheConfigFromGroups : γ → EStateM PyError (World π κ τ ρ) κ
  numBlocks : κ → Int
  initializeKvCache : κ → EStateM PyError (World π κ τ ρ) Unit
  dummyRun : DummyRun → EStateM PyError (World π κ τ ρ) Unit
  /-- `BreakableCUDAGraphWrapper(model, vllm_config)`: the pool it binds. -/
  breakableWrapper : World π κ τ ρ → Except PyError π
  /-- An access to a wrapper's `graph_pool` that raises. -/
  graphPoolError : AttrAccess → Nat → World π κ τ ρ → Option PyError
  /-- `capture_model`: the memory measured, and what is appended to `_capture_mem_samples`. -/
  captureModel : EStateM PyError (World π κ τ ρ) (Int × List Int)

variable {π κ τ ρ γ : Type}

namespace World

/-- All live wrappers, in the order of the swap. -/
def wrappers (w : World π κ τ ρ) : List Nat := w.cudaGraphWrappers ++ w.breakableWrappers

/-- The attributes of the speculator, if there is one. -/
def speculatorAttrs (w : World π κ τ ρ) : List (Str × Bool) := w.speculator.getD []

/-- The `id` of a new object. -/
def freshWrapper (w : World π κ τ ρ) : Nat := w.wrappers.sum + 1

theorem freshWrapper_notMem (w : World π κ τ ρ) : w.freshWrapper ∉ w.wrappers := by
  intro hmem
  have hle := (List.singleton_sublist.2 hmem).sum_le_sum fun _ _ => Nat.zero_le _
  rw [List.sum_singleton, freshWrapper] at hle
  omega

/-- A new `BreakableCUDAGraphWrapper` with the pool it binds. -/
def addBreakable (w : World π κ τ ρ) (pool : π) : World π κ τ ρ :=
  { w with
    breakableWrappers := w.breakableWrappers ++ [w.freshWrapper]
    graphPool := Function.update w.graphPool w.freshWrapper pool
    cudagraphManager := w.cudagraphManager.map fun mgr =>
      { mgr with breakableCgRunner := some w.freshWrapper }
    wrappers_nodup := by
      rw [← List.append_assoc]
      exact List.nodup_append.2 ⟨w.wrappers_nodup, List.nodup_singleton _, fun i hi j hj =>
        (List.mem_singleton.1 hj) ▸ ne_of_mem_of_not_mem hi w.freshWrapper_notMem⟩ }

/-- `min(max_num_reqs, max_cudagraph_capture_size) or 1` -/
def minBlocks (w : World π κ τ ρ) : Int :=
  let blocks := min w.maxNumReqs w.maxCudagraphCaptureSize
  if blocks = 0 then 1 else blocks

/-- `setattr(speculator, name, None)` -/
def setSpeculatorNone (w : World π κ τ ρ) (name : Str) : World π κ τ ρ :=
  { w with speculator := w.speculator.map fun attrs =>
      if attrs.any (·.1 = name) then attrs.map fun a => if a.1 = name then (name, false) else a
      else attrs ++ [(name, false)] }

end World

/-- `_FULL_GRAPH_PROFILING_SAMPLES` -/
def fullGraphProfilingSamples : Nat := 2

/-- `_MIN_PER_GRAPH_BYTES` -/
def minPerGraphBytes : Int := 2 ^ 20

/-- `_extrapolate_full_graph_memory` -/
def extrapolateFullGraphMemory (memSamples : List Int) (totalGraphs : Int) : Int :=
  match memSamples with
  | [] => 0
  | firstCapture :: later =>
    let perGraph := match later with
      | [] => 0
      | second :: _ => max second minPerGraphBytes
    firstCapture + (totalGraphs - 1) * perGraph

/-! ## the capture block -/

/-- The state in the inner block: the world and the local variables that the cleanup reads. -/
structure Profiling (π κ τ ρ : Type) extends World π κ τ ρ where
  allWrappers : List Nat
  /-- `original_pools`, by the `id` of a wrapper. -/
  originalPools : Nat → Option π
  specManagerNames : List Str

/-- The local variables before the inner block. -/
def World.profiling (w : World π κ τ ρ) : Profiling π κ τ ρ := ⟨w, [], fun _ => none, []⟩

/-- A call does not see the local variables. -/
def onWorld {α : Type} (call : EStateM PyError (World π κ τ ρ) α) :
    EStateM PyError (Profiling π κ τ ρ) α := fun s =>
  match call s.toWorld with
  | .ok a w => .ok a { s with toWorld := w }
  | .error e w => .error e { s with toWorld := w }

namespace ProfilingEnv

variable (X : ProfilingEnv π κ τ ρ γ)

/-- `init_breakable_cg_runner` -/
def initBreakableCgRunner (manager : ProfiledManager π) : EStateM PyError (World π κ τ ρ) Unit :=
  fun w =>
    if manager.breakableCgRunner.isSome then .ok () w
    else match X.breakableWrapper w with
      | .ok pool => .ok () (w.addBreakable pool)
      | .error e => .error e w

/-- The inner block up to the swap: the manager's own pool, and the breakable runner. -/
def beginCaptures (manager : ProfiledManager π) (throwawayPool : π) :
    EStateM PyError (Profiling π κ τ ρ) Unit := onWorld do
  modify fun w => { w with
    cudagraphManager := w.cudagraphManager.map fun mgr => { mgr with pool := some throwawayPool } }
  if manager.useBreakableCg then X.initBreakableCgRunner manager

/-- One round of the swap. -/
def swapPool (throwawayPool : π) (wrapper : Nat) : EStateM PyError (Profiling π κ τ ρ) Unit :=
  fun s =>
    match X.graphPoolError .get wrapper s.toWorld with
    | some e => .error e s
    | none =>
      let s := { s with
        originalPools :=
          Function.update s.originalPools wrapper (some (s.toWorld.graphPool wrapper)) }
      match X.graphPoolError .set wrapper s.toWorld with
      | some e => .error e s
      | none => .ok () { s with graphPool := Function.update s.graphPool wrapper throwawayPool }

/-- The swap of the pools of all wrappers. -/
def swapPools (throwawayPool : π) : EStateM PyError (Profiling π κ τ ρ) Unit := do
  modify fun s => { s with allWrappers := s.toWorld.wrappers }
  let s ← get
  s.allWrappers.forM (X.swapPool throwawayPool)

/-- The inner block after the swap. -/
def captureSwapped (manager : ProfiledManager π) : EStateM PyError (Profiling π κ τ ρ) Int := do
  modify fun s => { s with
    specManagerNames := (s.toWorld.speculatorAttrs.filter (·.2)).map Prod.fst
    cudagraphManager := s.cudagraphManager.map fun mgr =>
      { mgr with
        maxFullDescsToCapture := some fullGraphProfilingSamples
        captureMemSamples := some [] } }
  let (measured, memSamples) ← onWorld X.captureModel
  let numFullGraphs := (manager.captureDescs .FULL).length
  let fullEstimate := extrapolateFullGraphMemory memSamples numFullGraphs
  return max (measured - memSamples.sum + fullEstimate) 0

/-- The inner block. -/
def captureBlock (manager : ProfiledManager π) (throwawayPool : π) :
    EStateM PyError (Profiling π κ τ ρ) Int :=
  if manager.needsCapture then do
    X.beginCaptures manager throwawayPool
    X.swapPools throwawayPool
    X.captureSwapped manager
  else return 0

/-! ## the cleanup -/

/-- `_teardown_profiling_state` -/
def teardownProfilingState (w : World π κ τ ρ) : World π κ τ ρ :=
  let rest := X.synchronize w.rest
  let rest := if w.supportsMmInputs then X.clearEncoderRunner rest else rest
  let rest := X.maybeRemoveAllLoras (X.clearLayerKvCaches rest)
  { w with
    mambaCtx := w.mambaCtx.map fun _ => none
    mambaGroupIds := w.mambaGroupIds.map fun _ => []
    mambaSpec := w.mambaSpec.map fun _ => none
    kvCaches := w.kvCaches.map fun _ => []
    attnGroups := w.attnGroups.map fun _ => []
    kvCacheConfig := none
    cudagraphManager := none
    numGpuBlocks := none
    rest := X.emptyCache (X.gcCollect rest) }

/-- One round of the loop that gives the wrappers their pools back. -/
def restorePool (originalPools : Nat → Option π) (w : World π κ τ ρ) (wrapper : Nat) :
    World π κ τ ρ :=
  match originalPools wrapper with
  | some pool => { w with graphPool := Function.update w.graphPool wrapper pool }
  | none => w

/-- The inner `finally`, with the counters as saved from `w₀`. -/
def endCaptures (w₀ : World π κ τ ρ) (s : Profiling π κ τ ρ) : World π κ τ ρ :=
  let w := { s.toWorld with
    numCudagraphCaptured := w₀.numCudagraphCaptured
    numGpuRunnerCaptureTriggers := w₀.numGpuRunnerCaptureTriggers
    rest := X.clearAllBreakableGraphs (X.clearAllGraphs s.rest) }
  let w := s.allWrappers.foldl (restorePool s.originalPools) w
  let w := s.specManagerNames.foldl World.setSpeculatorNone w
  X.teardownProfilingState w

/-! ## `profile_cudagraph_memory` -/

/-- `_init_minimal_kv_cache_for_profiling` -/
def initMinimalKvCacheForProfiling : EStateM PyError (World π κ τ ρ) Unit := do
  let kvCacheGroups ← X.getKvCacheGroups
  let w ← get
  let savedOverride := w.numGpuBlocksOverride
  modify ({ · with numGpuBlocksOverride := some w.minBlocks })
  let minimalConfig ← tryFinally id (X.getKvCacheConfigFromGroups kvCacheGroups)
    ({ · with numGpuBlocksOverride := savedOverride })
  X.initializeKvCache minimalConfig
  modify ({ · with numGpuBlocks := some (X.numBlocks minimalConfig) })

/-- The forced runs of `qwen4_exp_amd_qsa_triton_warmup_runner`. -/
def qsaWarmup : EStateM PyError (World π κ τ ρ) Unit := do
  let w ← get
  (qsaTritonWarmupRunner w.warmupRunner).forM X.dummyRun

/-- The outer block from the graph manager on. -/
def profileManager (throwawayPool : π) : EStateM PyError (World π κ τ ρ) Int := do
  let w ← get
  match w.cudagraphManager with
  | none => throw .assertionError
  | some manager =>
    tryFinally World.profiling (X.captureBlock manager throwawayPool) (X.endCaptures w)

/-- Everything before the outer block: the throwaway pool becomes the platform's. -/
def enterProfiling : EStateM PyError (World π κ τ ρ) π := do
  modify fun w => { w with rest := X.emptyCache (X.gcCollect w.rest) }
  let throwawayPool ← X.graphPoolHandle
  modify ({ · with globalGraphPool := some throwawayPool })
  return throwawayPool

/-- `profile_cudagraph_memory` -/
def profileCudagraphMemory : EStateM PyError (World π κ τ ρ) Int := do
  let w ← get
  if w.cudagraphMode = .NONE then
    return 0
  else
    let savedGlobalPool := w.globalGraphPool
    let throwawayPool ← X.enterProfiling
    let outerBlock := do
      X.initMinimalKvCacheForProfiling
      X.qsaWarmup
      X.profileManager throwawayPool
    tryFinally id outerBlock ({ · with globalGraphPool := savedGlobalPool })

end ProfilingEnv

end FlashNext
