import FlashNext.Graphs.Reach
import FlashNext.Str

/-!
# FlashNext.Graphs.ModelManager

`ModelCudaGraphManager`: graphs of the forward of a model, and the buffers they leave its outputs
in.

The first eager forward of a capture allocates a buffer for every output, as long as the output
itself; every later forward, and every replay of a graph, copies its outputs to the front of the
same buffers.  `runFullgraph` replays a graph and slices the buffers.

Device memory is a function from addresses to rows.  A recorded graph is what its replay depends
on: the descriptor and the addresses that the buffers had at its capture.
-/

namespace FlashNext

/-- What the capture and the replay of a model's graphs raise. -/
inductive ModelGraphError where
  | keyError (key : Str)
  | typeError
  | raised (e : PyError)
deriving DecidableEq, Repr

/-! ## device memory -/

/-- Buffers by address; the addresses from `allocated` on are free. -/
structure Memory (ρ : Type) where
  buffers : Nat → List ρ
  allocated : Nat

namespace Memory

variable {ρ : Type}

/-- `torch.empty_like(rows)`: the address, and the memory afterwards. -/
def emptyLike (uninit : Nat → Nat → ρ) (mem : Memory ρ) (rows : List ρ) : Nat × Memory ρ :=
  (mem.allocated,
    { buffers := Function.update mem.buffers mem.allocated
        ((List.range rows.length).map (uninit mem.allocated))
      allocated := mem.allocated + 1 })

/-- `[torch.empty_like(x) for x in tensors]` -/
def emptyLikes (uninit : Nat → Nat → ρ) : Memory ρ → List (List ρ) → List Nat × Memory ρ
  | mem, [] => ([], mem)
  | mem, rows :: tensors =>
    let new := mem.emptyLike uninit rows
    let rest := emptyLikes uninit new.2 tensors
    (new.1 :: rest.1, rest.2)

end Memory

/-- The end of the slice `[:n]` of `len` rows. -/
def sliceEnd (len : Nat) (n : Int) : Nat :=
  if n < 0 then (len + n).toNat else min n.toNat len

section slices

variable {ρ : Type}

/-- `buf[:n]` -/
def slice (buf : List ρ) (n : Int) : List ρ := buf.take (sliceEnd buf.length n)

/-- `buf[:n] = rows`; a single row is broadcast. -/
def setSlice (buf : List ρ) (n : Int) (rows : List ρ) : Except ModelGraphError (List ρ) :=
  let stop := sliceEnd buf.length n
  if rows.length = stop then .ok (rows ++ buf.drop stop)
  else match rows with
    | [row] => .ok (List.replicate stop row ++ buf.drop stop)
    | _ => .error (.raised (.runtimeError
      "The expanded size of the tensor must match the existing size"))

/-- `buf[:n] = rows` for the buffer at an address. -/
def Memory.store (mem : Memory ρ) (addr : Nat) (n : Int) (rows : List ρ) :
    Except ModelGraphError (Memory ρ) := do
  let buf ← setSlice (mem.buffers addr) n rows
  return { mem with buffers := Function.update mem.buffers addr buf }

end slices

/-! ## outputs -/

/-- What a forward of the model returns. -/
inductive ModelOutput (ρ : Type) where
  | hiddenStates (rows : List ρ)
  | withAux (rows : List ρ) (auxHiddenStates : List (List ρ))
  | intermediateTensors (tensors : List (Str × List ρ))
deriving DecidableEq, Repr

/-- The names under which a manager keeps outputs. -/
inductive OutputName where
  | hiddenStates
  | auxHiddenStates (i : Nat)
  | intermediateTensors (key : Str)
deriving DecidableEq, Repr

/-- The assignments that keep an output, in order. -/
def ModelOutput.tensors {ρ : Type} : ModelOutput ρ → List (OutputName × List ρ)
  | .hiddenStates rows => [(.hiddenStates, rows)]
  | .withAux rows aux =>
    (.hiddenStates, rows) :: aux.zipIdx.map fun x => (.auxHiddenStates x.2, x.1)
  | .intermediateTensors tensors => tensors.map fun x => (.intermediateTensors x.1, x.2)

/-- The buffers of a manager, by address. -/
structure Outputs where
  hiddenStates : Option Nat := none
  auxHiddenStates : List Nat := []
  intermediateTensors : Option (List (Str × Nat)) := none
deriving DecidableEq, Repr

namespace Outputs

/-- The buffer that an assignment names. -/
def find (o : Outputs) : OutputName → Except ModelGraphError Nat
  | .hiddenStates =>
    match o.hiddenStates with
    | none => .error .typeError
    | some addr => .ok addr
  | .auxHiddenStates i =>
    match o.auxHiddenStates[i]? with
    | none => .error (.raised .indexError)
    | some addr => .ok addr
  | .intermediateTensors key =>
    match o.intermediateTensors with
    | none => .error .typeError
    | some tensors =>
      match tensors.lookup key with
      | none => .error (.keyError key)
      | some addr => .ok addr

variable {ρ : Type}

/-- One assignment `self.<name>[:num_tokens] = rows`. -/
def storeOne (o : Outputs) (n : Int) (mem : Memory ρ) (x : OutputName × List ρ) :
    Except ModelGraphError (Memory ρ) := do
  let addr ← o.find x.1
  mem.store addr n x.2

/-- The assignments of an output. -/
def store (o : Outputs) (n : Int) (tensors : List (OutputName × List ρ)) (mem : Memory ρ) :
    Except ModelGraphError (Memory ρ) :=
  tensors.foldlM (o.storeOne n) mem

end Outputs

/-! ## the manager -/

/-- What comes from outside: the model, whose output is a function of a descriptor and of the
contents `σ` of the input buffers and caches, and the rows of uninitialised memory. -/
structure ModelEnv (σ ρ : Type) where
  /-- `type(model).__name__` -/
  typeName : String
  hasCompiledSubmodule : Bool
  hasPiecewiseCudagraphs : CUDAGraphMode → Bool
  modeName : CUDAGraphMode → String
  model : BatchExecutionDescriptor → σ → ModelOutput ρ
  uninit : Nat → Nat → ρ

/-- The state of a `ModelCudaGraphManager`, with the memory that its buffers lie in. -/
structure ModelCudaGraphManager (ρ : Type) extends CudaGraphManager where
  cudagraphMode : CUDAGraphMode
  isFirstPpRank : Bool
  isLastPpRank : Bool
  breakableCgRunner : Bool := false
  useAuxHiddenStateOutputs : Bool := false
  outputs : Outputs := {}
  /-- The addresses that the graph of a descriptor writes to. -/
  graphOutputs : BatchExecutionDescriptor → Outputs := fun _ => {}
  memory : Memory ρ

/-- The arguments of `capture` that matter here. -/
structure CaptureArgs (σ : Type) where
  hasIntermediateTensors : Bool
  useAuxHiddenStateOutputs : Bool
  /-- `prepare_inputs_to_capture` for a descriptor, in a warmup pass or not. -/
  inputs : BatchExecutionDescriptor → Bool → σ

namespace ModelCudaGraphManager

variable {σ ρ : Type} (X : ModelEnv σ ρ)

/-- `if self.hidden_states is None: …` -/
def allocHiddenStates (rows : List ρ) (M : ModelCudaGraphManager ρ) : ModelCudaGraphManager ρ :=
  match M.outputs.hiddenStates with
  | some _ => M
  | none =>
    let new := M.memory.emptyLike X.uninit rows
    { M with
      outputs := { M.outputs with hiddenStates := some new.1 }
      memory := new.2 }

/-- `if self.use_aux_hidden_state_outputs and not self.aux_hidden_states: …` -/
def allocAuxHiddenStates (aux : List (List ρ)) (M : ModelCudaGraphManager ρ) :
    ModelCudaGraphManager ρ :=
  if M.useAuxHiddenStateOutputs ∧ M.outputs.auxHiddenStates = [] then
    let new := M.memory.emptyLikes X.uninit aux
    { M with
      outputs := { M.outputs with auxHiddenStates := new.1 }
      memory := new.2 }
  else M

/-- `if self.intermediate_tensors is None: …` -/
def allocIntermediateTensors (tensors : List (Str × List ρ)) (M : ModelCudaGraphManager ρ) :
    ModelCudaGraphManager ρ :=
  match M.outputs.intermediateTensors with
  | some _ => M
  | none =>
    let new := M.memory.emptyLikes X.uninit (tensors.map Prod.snd)
    { M with
      outputs := { M.outputs with
        intermediateTensors := some ((tensors.map Prod.fst).zip new.1) }
      memory := new.2 }

/-- Some assignments of an output to the buffers. -/
def assign (n : Int) (tensors : List (OutputName × List ρ)) (M : ModelCudaGraphManager ρ) :
    Except ModelGraphError (ModelCudaGraphManager ρ) := do
  let memory ← M.outputs.store n tensors M.memory
  return { M with memory := memory }

/-- The end of `forward_fn`: keep the output of an eager forward of `n` tokens. -/
def keepOutput (n : Int) (output : ModelOutput ρ) (M : ModelCudaGraphManager ρ) :
    Except ModelGraphError (ModelCudaGraphManager ρ) :=
  if M.isLastPpRank then
    match M.useAuxHiddenStateOutputs, output with
    | true, .withAux rows aux => do
      let M ← (M.allocHiddenStates X rows).assign n [(.hiddenStates, rows)]
      (M.allocAuxHiddenStates X aux).assign n
        (aux.zipIdx.map fun x => (.auxHiddenStates x.2, x.1))
    | false, .hiddenStates rows =>
      (M.allocHiddenStates X rows).assign n [(.hiddenStates, rows)]
    | _, _ => .error .typeError
  else
    match output with
    | .intermediateTensors tensors =>
      (M.allocIntermediateTensors X tensors).assign n
        (tensors.map fun x => (.intermediateTensors x.1, x.2))
    | _ => .error (.raised .assertionError)

/-- `create_forward_fn`, up to its assertion. -/
def createForwardFn (args : CaptureArgs σ) (M : ModelCudaGraphManager ρ) :
    Except ModelGraphError Unit :=
  if M.isFirstPpRank ∨ args.hasIntermediateTensors then .ok ()
  else .error (.raised .assertionError)

/-- `forward_fn(CUDAGraphMode.NONE)`, outside of a graph. -/
def forwardEager (args : CaptureArgs σ) (desc : BatchExecutionDescriptor) (warmup : Bool)
    (M : ModelCudaGraphManager ρ) : Except ModelGraphError (ModelCudaGraphManager ρ) :=
  M.keepOutput X desc.numTokens (X.model desc (args.inputs desc warmup))

/-- `forward_fn(CUDAGraphMode.PIECEWISE)`, which leaves the outputs to the pieces. -/
def forwardPiecewise (M : ModelCudaGraphManager ρ) : Except ModelGraphError Unit :=
  if M.useBreakableCg ∧ !M.breakableCgRunner then .error (.raised .assertionError) else .ok ()

/-- `forward_fn(CUDAGraphMode.NONE)` inside of `torch.cuda.graph`: what it would copy is recorded,
and the buffers keep their rows. -/
def recordGraph (args : CaptureArgs σ) (desc : BatchExecutionDescriptor)
    (M : ModelCudaGraphManager ρ) : Except ModelGraphError (ModelCudaGraphManager ρ) := do
  let M' ← M.forwardEager X args desc false
  return { M' with
    memory := { M'.memory with
      buffers := fun addr =>
        if addr < M.memory.allocated then M.memory.buffers addr else M'.memory.buffers addr }
    graphs := M'.graphs ++ [desc]
    graphOutputs := Function.update M'.graphOutputs desc M'.outputs }

/-- The body of the capture loop. -/
def captureDesc (args : CaptureArgs σ) (M : ModelCudaGraphManager ρ)
    (desc : BatchExecutionDescriptor) : Except ModelGraphError (ModelCudaGraphManager ρ) := do
  M.createForwardFn args
  let M ← M.forwardEager X args desc true
  if desc.cgMode = .PIECEWISE then
    -- a breakable graph gets inputs of its own, which may fail the same assertion only
    if M.useBreakableCg then M.createForwardFn args
    M.forwardPiecewise
    return M
  else
    M.createForwardFn args
    if desc ∈ M.graphs then .error (.raised .assertionError)
    else M.recordGraph X args desc

/-- `capture` -/
def capture (args : CaptureArgs σ) (M : ModelCudaGraphManager ρ) :
    Except ModelGraphError (ModelCudaGraphManager ρ) := do
  let M := { M with
    useAuxHiddenStateOutputs := args.useAuxHiddenStateOutputs
    breakableCgRunner := M.breakableCgRunner || M.useBreakableCg }
  if X.hasPiecewiseCudagraphs M.cudagraphMode ∧ !(M.useBreakableCg || X.hasCompiledSubmodule) then
    let typeName := X.typeName
    let modeName := X.modeName M.cudagraphMode
    .error (.raised (.runtimeError (
      s!"{typeName}: piecewise CUDA graphs (cudagraph_mode={modeName}) unavailable, " ++
      "model is not torch-compiled and breakable CUDA graph is off. " ++
      "Set VLLM_USE_BREAKABLE_CUDAGRAPH=1 or cudagraph_mode=NONE/FULL.")))
  else
    let M ← M.toCapture.foldlM (captureDesc X args) M
    return { M with graphsCaptured := true }

/-! ## replay -/

/-- `self.graphs[desc].replay()`: the model on what the inputs hold now, and the recorded
copies. -/
def replay (inputs : σ) (desc : BatchExecutionDescriptor) (M : ModelCudaGraphManager ρ) :
    Except ModelGraphError (ModelCudaGraphManager ρ) := do
  let memory ← (M.graphOutputs desc).store desc.numTokens (X.model desc inputs).tensors M.memory
  return { M with memory := memory }

/-- The slices of the buffers that `run_fullgraph` returns. -/
def readOutput (n : Int) (M : ModelCudaGraphManager ρ) :
    Except ModelGraphError (ModelOutput ρ) :=
  if !M.isLastPpRank then
    match M.outputs.intermediateTensors with
    | none => .error (.raised .assertionError)
    | some tensors =>
      .ok (.intermediateTensors (tensors.map fun x => (x.1, slice (M.memory.buffers x.2) n)))
  else
    match M.outputs.hiddenStates with
    | none => .error (.raised .assertionError)
    | some addr =>
      let hiddenStates := slice (M.memory.buffers addr) n
      if !M.useAuxHiddenStateOutputs then .ok (.hiddenStates hiddenStates)
      else .ok (.withAux hiddenStates
        (M.outputs.auxHiddenStates.map fun addr => slice (M.memory.buffers addr) n))

/-- `run_fullgraph` -/
def runFullgraph (inputs : σ) (desc : BatchExecutionDescriptor) (M : ModelCudaGraphManager ρ) :
    Except ModelGraphError (ModelOutput ρ × ModelCudaGraphManager ρ) :=
  match M.toCudaGraphManager.runFullgraph desc with
  | .error e => .error (.raised e)
  | .ok () => do
    let M ← M.replay X inputs desc
    let output ← M.readOutput desc.numTokens
    return (output, M)

/-- Batches that come one after another with their inputs: a batch that is dispatched to a full
graph gets what the graph returns, and the others are not the manager's. -/
def serve : List (GraphBatch × σ) → ModelCudaGraphManager ρ →
    Except ModelGraphError (List (Option (ModelOutput ρ)) × ModelCudaGraphManager ρ)
  | [], M => .ok ([], M)
  | (b, inputs) :: batches, M =>
    if (M.dispatch b).cgMode = .FULL then do
      let (output, M) ← M.runFullgraph X inputs (M.dispatch b)
      let (outputs, M) ← serve batches M
      return (some output :: outputs, M)
    else do
      let (outputs, M) ← serve batches M
      return (none :: outputs, M)

end ModelCudaGraphManager

end FlashNext
