import FlashNext.Moe.Awq
import FlashNext.Patch
import FlashNext.Str

/-!
# FlashNext.Moe.Layer

The expert layer and the parameters `MoeWNA16Method.create_weights` gives it.

A parameter is a stack of tensors of one shape, one for each local expert; its
contents are cells, and what a loader writes is a `Patch` of cells.  The group size
is halved until it divides both sizes of the layer (`reduceGroupSize`), and the
checkpoint's groups are repeated by the factor it shrank by.
-/

namespace FlashNext

variable {α : Type}

/-- The three projections of an expert: gate, down and up. -/
inductive Shard where
  | w1
  | w2
  | w3
deriving DecidableEq, Repr

inductive LinearQuantMethod where
  | gptq
  | awq
  | awqMarlin
deriving DecidableEq, Repr

structure MoeWNA16Config where
  linearQuantMethod : LinearQuantMethod
  weightBits : Nat
  groupSize : Nat
  hasZp : Bool
  groupSize_pos : 0 < groupSize

def MoeWNA16Config.bit8PackFactor (C : MoeWNA16Config) : Nat := 8 / C.weightBits

/-- The parallel configuration of a layer, with the rank of this process. -/
structure FusedMoEConfig where
  numExperts : Nat
  numLogicalExperts : Nat
  numLocalExperts : Nat
  tpSize : Nat
  tpRank : Nat
  isActAndMul : Bool
  tpRank_lt : tpRank < tpSize

/-- `w13_num_shards`: gate and up, or up alone. -/
def FusedMoEConfig.w13NumShards (M : FusedMoEConfig) : Nat := if M.isActAndMul then 2 else 1

inductive ParamDtype where
  | uint8
  | params
deriving DecidableEq, Repr

/-- A registered parameter: its shape and dtype. -/
structure Param where
  numExperts : Nat
  rows : Nat
  cols : Nat
  dtype : ParamDtype
deriving DecidableEq, Repr

/-- A position in the parameters of a layer. -/
structure Cell where
  param : Str
  expert : Nat
  row : Nat
  col : Nat
deriving DecidableEq, Repr

/-- The contents of the parameters. -/
abbrev Params (α : Type) := Cell → Elem α

/-- What `copy_` makes of an element. -/
def Dtypes.convert (D : Dtypes α) : ParamDtype → Elem α → Elem α
  | .uint8, x => .uint8 (D.toUint8 x)
  | .params, x => .float (D.toParams x)

@[simp] theorem Dtypes.convert_uint8 (D : Dtypes α) (b : BitVec 8) :
    D.convert .uint8 (.uint8 b) = .uint8 b :=
  congrArg Elem.uint8 (D.toUint8_uint8 b)

/-- What the loaders read of a `RoutedExperts` layer.  `mapGlobalToLocal` is
`_map_global_expert_id_to_local_expert_id`, with `none` for -1, and `physicalToLogical` is
`EplbState.build_initial_global_physical_to_logical_map`. -/
structure RoutedExperts (α : Type) where
  layerName : Str
  ckptGateProjName : Str
  ckptDownProjName : Str
  ckptUpProjName : Str
  loraBaseLayerPrefix : Str
  isFusedCheckpointTransposed : Bool
  moeConfig : FusedMoEConfig
  numFusedSharedExperts : Nat
  mapGlobalToLocal : Nat → Option Nat
  physicalToLogical : Nat → Nat
  hiddenSize : Nat
  intermediateSizePerPartition : Nat
  parameters : List (Str × Param)
  dtypes : Dtypes α

/-- `getattr(layer, name, None)`, among the parameters. -/
def RoutedExperts.getattr (L : RoutedExperts α) (name : Str) : Option Param :=
  L.parameters.lookup name

/-- A layer with the attributes `create_weights` sets. -/
structure MoeWNA16Layer (α : Type) extends RoutedExperts α where
  quantConfig : MoeWNA16Config
  groupSize : Nat
  groupSizeDivFactor : Nat

/-! ## create_weights -/

/-- The loop that makes both sizes divisible by the group size. -/
def reduceGroupSize (intermediateSizePerPartition hiddenSize groupSize groupSizeDivFactor : Nat) :
    Except PyError (Nat × Nat) :=
  if intermediateSizePerPartition % groupSize ≠ 0 ∨ hiddenSize % groupSize ≠ 0 then
    if 32 ≤ groupSize / 2 then
      reduceGroupSize intermediateSizePerPartition hiddenSize (groupSize / 2)
        (groupSizeDivFactor * 2)
    else .error .assertionError
  else .ok (groupSize, groupSizeDivFactor)
termination_by groupSize
decreasing_by omega

/-- The parameters `create_weights` registers, which are all that a new layer has. -/
def RoutedExperts.weightParameters (L : RoutedExperts α) (C : MoeWNA16Config) (groupSize : Nat) :
    List (Str × Param) :=
  let hiddenSize := L.hiddenSize
  let intermediateSizePerPartition := L.intermediateSizePerPartition
  let numExperts := L.moeConfig.numLocalExperts
  let w13Rows := L.moeConfig.w13NumShards * intermediateSizePerPartition
  [("w13_qweight".toList, ⟨numExperts, w13Rows, hiddenSize / C.bit8PackFactor, .uint8⟩),
    ("w2_qweight".toList,
      ⟨numExperts, hiddenSize, intermediateSizePerPartition / C.bit8PackFactor, .uint8⟩),
    ("w13_scales".toList, ⟨numExperts, w13Rows, hiddenSize / groupSize, .params⟩),
    ("w2_scales".toList,
      ⟨numExperts, hiddenSize, intermediateSizePerPartition / groupSize, .params⟩)] ++
  if C.hasZp then
    [("w13_qzeros".toList,
        ⟨numExperts, w13Rows / C.bit8PackFactor, hiddenSize / groupSize, .uint8⟩),
      ("w2_qzeros".toList,
        ⟨numExperts, hiddenSize / C.bit8PackFactor, intermediateSizePerPartition / groupSize,
          .uint8⟩)]
  else []

/-- `MoeWNA16Method.create_weights`. -/
def RoutedExperts.createWeights (L : RoutedExperts α) (C : MoeWNA16Config) :
    Except PyError (MoeWNA16Layer α) := do
  let (groupSize, groupSizeDivFactor) ←
    reduceGroupSize L.intermediateSizePerPartition L.hiddenSize C.groupSize 1
  return {
    L with
    quantConfig := C
    groupSize := groupSize
    groupSizeDivFactor := groupSizeDivFactor
    parameters := L.weightParameters C groupSize }

/-- What an accepted layer looks like. -/
theorem createWeights_eq_ok {L₀ : RoutedExperts α} {C : MoeWNA16Config} {L : MoeWNA16Layer α}
    (h : L₀.createWeights C = .ok L) :
    reduceGroupSize L₀.intermediateSizePerPartition L₀.hiddenSize C.groupSize 1 =
        .ok (L.groupSize, L.groupSizeDivFactor) ∧
      L.quantConfig = C ∧
      L.toRoutedExperts = { L₀ with parameters := L₀.weightParameters C L.groupSize } := by
  obtain ⟨⟨g, f⟩, hr, h⟩ := bind_eq_ok.1 h
  cases h
  exact ⟨hr, rfl, rfl⟩

/-- Floats that are whole numbers, for runs on concrete inputs. -/
def wholeFloats : Dtypes Nat where
  itemsize := 2
  bytes := fun x i => BitVec.ofNat 8 (x / 256 ^ i)
  toUint8
    | .int32 w => w.setWidth 8
    | .uint8 b => b
    | .float x => BitVec.ofNat 8 x
  toParams
    | .int32 w => w.toNat
    | .uint8 b => b.toNat
    | .float x => x
  toUint8_uint8 := fun _ => rfl

/-- Rank 1 of two, with the last two of four experts, for runs on concrete inputs. -/
def smallExperts : RoutedExperts Nat where
  layerName := "model.layers.0.mlp.experts".toList
  ckptGateProjName := "gate_proj".toList
  ckptDownProjName := "down_proj".toList
  ckptUpProjName := "up_proj".toList
  loraBaseLayerPrefix := []
  isFusedCheckpointTransposed := false
  moeConfig := ⟨4, 4, 2, 2, 1, true, by decide⟩
  numFusedSharedExperts := 0
  mapGlobalToLocal := fun e => if 2 ≤ e ∧ e < 4 then some (e - 2) else none
  physicalToLogical := id
  hiddenSize := 64
  intermediateSizePerPartition := 32
  parameters := []
  dtypes := wholeFloats

/-- AWQ in groups of 64, which do not divide 32. -/
def smallAwq : MoeWNA16Config := ⟨.awq, 4, 64, true, by decide⟩

/-- The layer that `create_weights` makes of `smallExperts`. -/
def smallLayer : MoeWNA16Layer Nat where
  toRoutedExperts := { smallExperts with parameters := smallExperts.weightParameters smallAwq 32 }
  quantConfig := smallAwq
  groupSize := 32
  groupSizeDivFactor := 2

theorem createWeights_smallExperts : smallExperts.createWeights smallAwq = .ok smallLayer := by
  have hreduce : reduceGroupSize smallExperts.intermediateSizePerPartition
      smallExperts.hiddenSize smallAwq.groupSize 1 = .ok (32, 2) := by
    rw [reduceGroupSize, if_pos (by decide), if_pos (by decide), reduceGroupSize,
      if_neg (by decide)]
    rfl
  rw [RoutedExperts.createWeights, hreduce]
  rfl

/-- The group size that is left divides both sizes. -/
theorem reduceGroupSize_dvd {i h g f g' f' : Nat} (hr : reduceGroupSize i h g f = .ok (g', f')) :
    g' ∣ i ∧ g' ∣ h := by
  fun_induction reduceGroupSize i h g f with
  | case1 g f _ _ ih => exact ih hr
  | case2 => cases hr
  | case3 g f hdvd =>
    cases hr
    rw [not_or, not_not, not_not] at hdvd
    exact ⟨Nat.dvd_of_mod_eq_zero hdvd.1, Nat.dvd_of_mod_eq_zero hdvd.2⟩

theorem reduceGroupSize_pos {i h g f g' f' : Nat} (hr : reduceGroupSize i h g f = .ok (g', f'))
    (hg : 0 < g) : 0 < g' := by
  fun_induction reduceGroupSize i h g f with
  | case1 g f _ hle ih => exact ih hr (Nat.lt_of_lt_of_le (by decide) hle)
  | case2 => cases hr
  | case3 g f =>
    cases hr
    exact hg

theorem reduceGroupSize_factor_pos {i h g f g' f' : Nat}
    (hr : reduceGroupSize i h g f = .ok (g', f')) (hf : 0 < f) : 0 < f' := by
  fun_induction reduceGroupSize i h g f with
  | case1 g f _ _ ih => exact ih hr (Nat.mul_pos hf (by decide))
  | case2 => cases hr
  | case3 g f =>
    cases hr
    exact hf

/-- A power of two loses nothing when it is halved: the factor makes up for it. -/
theorem reduceGroupSize_mul {i h e f g' f' : Nat}
    (hr : reduceGroupSize i h (2 ^ e) f = .ok (g', f')) : g' * f' = 2 ^ e * f := by
  induction e generalizing f with
  | zero =>
    rw [reduceGroupSize] at hr
    split at hr
    · rw [if_neg (by decide)] at hr
      cases hr
    · cases hr
      rfl
  | succ e ih =>
    rw [reduceGroupSize] at hr
    split at hr
    · rw [guard_eq_ok, Nat.pow_succ, Nat.mul_div_cancel _ (by decide)] at hr
      rw [ih hr.2, Nat.pow_succ]
      ring
    · cases hr
      rfl

end FlashNext
