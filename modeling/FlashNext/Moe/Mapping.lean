import FlashNext.Moe.Checkpoint

/-!
# FlashNext.Moe.Mapping

The expert mapping of `routed_experts.py`.

`build_expert_params_mapping` lists how the names of a checkpoint are rewritten into
parameter names: the fused entries first, then the entries of each physical expert,
which look for the logical expert's number.
-/

namespace FlashNext

variable {α : Type}

/-- `"experts"` -/
def experts : Str := ['e', 'x', 'p', 'e', 'r', 't', 's']

/-- An entry of the mapping: where `weightName` occurs in a qualified name, `paramName`
replaces it. -/
structure MappingEntry where
  paramName : Str
  weightName : Str
  expertId : Nat
  shardId : Shard
deriving DecidableEq, Repr

/-- The name of the fused gate and up projections. -/
def gateUpName (ckptGateProjName ckptUpProjName : Str) : Option Str :=
  if ckptGateProjName = "gate_proj".toList ∧ ckptUpProjName = "up_proj".toList then
    some "gate_up_proj".toList
  else if ckptGateProjName = "w1".toList ∧ ckptUpProjName = "w3".toList then some "w13".toList
  else none

/-- An entry for one projection of a logical expert. -/
def perExpertEntry (paramName : Str) (logical : Nat) (projName loraBaseLayerPrefix : Str)
    (expertId : Nat) (shardId : Shard) : MappingEntry where
  paramName := paramName
  weightName :=
    experts ++ '.' :: (Str.ofNat logical ++ '.' :: (projName ++ '.' :: loraBaseLayerPrefix))
  expertId := expertId
  shardId := shardId

/-- `build_expert_params_mapping` -/
def buildExpertParamsMapping (physicalToLogical : Nat → Nat)
    (ckptGateProjName ckptDownProjName ckptUpProjName : Str)
    (numExperts numRedundantExperts : Nat)
    (routedExpertsPrefix loraBaseLayerPrefix loraBaseLayerPrefixOnParamName : Str)
    (includeFused : Bool) : List MappingEntry :=
  let numPhysicalExperts := numExperts + numRedundantExperts
  let routedExpertsPrefix :=
    if routedExpertsPrefix ≠ [] then routedExpertsPrefix ++ ['.'] else routedExpertsPrefix
  let w13 := experts ++
    '.' :: (loraBaseLayerPrefixOnParamName ++ routedExpertsPrefix ++ "w13_".toList)
  let w2 := experts ++
    '.' :: (loraBaseLayerPrefixOnParamName ++ routedExpertsPrefix ++ "w2_".toList)
  let fusedMapping :=
    if includeFused then
      match gateUpName ckptGateProjName ckptUpProjName with
      | none => [] -- only a warning
      | some gateUp =>
        [⟨w13 ++ "weight".toList, experts ++ '.' :: gateUp, 0, .w1⟩,
          ⟨w13 ++ "weight".toList, experts ++ '.' :: gateUp, 1, .w3⟩,
          ⟨w2 ++ "weight".toList, experts ++ '.' :: ckptDownProjName, 0, .w2⟩] ++
        (List.range numPhysicalExperts).flatMap fun expertId =>
          [Shard.w1, .w3].map
            (perExpertEntry w13 (physicalToLogical expertId) gateUp loraBaseLayerPrefix expertId)
    else []
  let perExpertMapping :=
    (List.range numPhysicalExperts).flatMap fun expertId =>
      [(Shard.w1, ckptGateProjName), (.w2, ckptDownProjName), (.w3, ckptUpProjName)].map
        fun (shardId, weightName) =>
          perExpertEntry (if weightName ∈ [ckptGateProjName, ckptUpProjName] then w13 else w2)
            (physicalToLogical expertId) weightName loraBaseLayerPrefix expertId shardId
  fusedMapping ++ perExpertMapping

/-- The experts that the mapping numbers, replicas included. -/
def RoutedExperts.numPhysicalExperts (L : RoutedExperts α) : Nat :=
  L.moeConfig.numLogicalExperts + L.numFusedSharedExperts +
    (L.moeConfig.numExperts - L.moeConfig.numLogicalExperts)

/-- `get_expert_mapping(include_fused=True)` -/
def RoutedExperts.getExpertMapping (L : RoutedExperts α) : List MappingEntry :=
  buildExpertParamsMapping L.physicalToLogical L.ckptGateProjName L.ckptDownProjName
    L.ckptUpProjName (L.moeConfig.numLogicalExperts + L.numFusedSharedExperts)
    (L.moeConfig.numExperts - L.moeConfig.numLogicalExperts) [] L.loraBaseLayerPrefix [] true

/-- The name of a projection in the checkpoint. -/
def RoutedExperts.ckptProjName (L : RoutedExperts α) : Shard → Str
  | .w1 => L.ckptGateProjName
  | .w2 => L.ckptDownProjName
  | .w3 => L.ckptUpProjName

/-- The name that gate and up have when they are fused. -/
def RoutedExperts.gateUpName (L : RoutedExperts α) : Option Str :=
  FlashNext.gateUpName L.ckptGateProjName L.ckptUpProjName

/-- The names under which a tensor of a shard can come, the shard's own and the fused one. -/
def RoutedExperts.projNames (L : RoutedExperts α) (s : Shard) : List Str :=
  match s with
  | .w2 => [L.ckptProjName .w2]
  | .w1 | .w3 => L.gateUpName.toList ++ [L.ckptProjName s]

/-! ## the entries -/

/-- The entry of a physical expert for one name of a projection. -/
def RoutedExperts.entry (L : RoutedExperts α) (projName : Str) (expertId : Nat) (s : Shard) :
    MappingEntry :=
  perExpertEntry (experts ++ '.' :: s.paramPrefix) (L.physicalToLogical expertId) projName
    L.loraBaseLayerPrefix expertId s

/-- The entries for the tensors that hold all experts. -/
def RoutedExperts.allExpertsEntries (L : RoutedExperts α) : List MappingEntry :=
  match L.gateUpName with
  | none => []
  | some g =>
    [⟨experts ++ '.' :: (Shard.w1.paramPrefix ++ "weight".toList), experts ++ '.' :: g, 0, .w1⟩,
      ⟨experts ++ '.' :: (Shard.w3.paramPrefix ++ "weight".toList), experts ++ '.' :: g, 1, .w3⟩,
      ⟨experts ++ '.' :: (Shard.w2.paramPrefix ++ "weight".toList),
        experts ++ '.' :: L.ckptDownProjName, 0, .w2⟩]

/-- The mapping of a layer, when the down projection has a name of its own. -/
theorem getExpertMapping_eq {L : RoutedExperts α}
    (hdown : L.ckptDownProjName ∉ [L.ckptGateProjName, L.ckptUpProjName]) :
    L.getExpertMapping = L.allExpertsEntries ++
      ((List.range L.numPhysicalExperts).flatMap fun e =>
        L.gateUpName.toList.flatMap fun g => [Shard.w1, .w3].map (L.entry g e)) ++
      (List.range L.numPhysicalExperts).flatMap fun e =>
        [Shard.w1, .w2, .w3].map fun s => L.entry (L.ckptProjName s) e s := by
  have hgate : L.ckptGateProjName ∈ [L.ckptGateProjName, L.ckptUpProjName] := List.mem_cons_self
  have hup : L.ckptUpProjName ∈ [L.ckptGateProjName, L.ckptUpProjName] :=
    List.mem_cons_of_mem _ List.mem_cons_self
  unfold RoutedExperts.getExpertMapping buildExpertParamsMapping RoutedExperts.allExpertsEntries
  simp only [if_true, ne_eq, not_true_eq_false, if_false, List.nil_append, List.map_cons,
    List.map_nil, if_pos hgate, if_pos hup, if_neg hdown, List.append_assoc]
  rw [RoutedExperts.gateUpName]
  cases FlashNext.gateUpName L.ckptGateProjName L.ckptUpProjName with
  | none =>
    have hnil : (List.range L.numPhysicalExperts).flatMap
        (fun _ : Nat => ([] : List MappingEntry)) = [] :=
      List.flatMap_eq_nil_iff.2 fun _ _ => rfl
    simp only [List.nil_append, Option.toList_none, List.flatMap_nil, hnil]
    rfl
  | some g =>
    simp only [List.append_assoc, Option.toList_some, List.flatMap_cons, List.flatMap_nil,
      List.append_nil]
    rfl

/-- An entry for one expert. -/
def RoutedExperts.PerExpert (L : RoutedExperts α) (m : MappingEntry) : Prop :=
  m.expertId < L.numPhysicalExperts ∧
    ∃ proj ∈ L.projNames m.shardId, m = L.entry proj m.expertId m.shardId

end FlashNext
