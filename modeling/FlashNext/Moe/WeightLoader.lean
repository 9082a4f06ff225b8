import FlashNext.Moe.Layer

/-!
# FlashNext.Moe.WeightLoader

`RoutedExperts.weight_loader` and the loader that wraps it in `moe_wna16.py`.

A call names the parameter, the checkpoint tensor, the qualified name, the shard
and the global expert id.  What it writes does not depend on what the parameters
hold, so its result is a patch, with the success flag it returns.

* `weightLoader_footprint`, `moeWeightLoader_footprint` — a call writes only its own
  parameter, in the slot of its expert, and gate and up keep to their own rows.
-/

namespace FlashNext

variable {α ρ : Type}

/-- What a call returns and writes. -/
structure Loaded (α : Type) where
  success : Bool
  patch : Patch Cell (Elem α)

/-- `return False`, with nothing written. -/
def notLoaded : Loaded α := ⟨false, Patch.empty⟩

/-- What is written into one expert's tensor. -/
abbrev Values (ρ : Type) := Nat → Nat → Option ρ

/-- `SHARD_ID_TO_SHARDED_DIM` -/
def Shard.shardedDim : Shard → Dim
  | .w1 => .zero
  | .w2 => .one
  | .w3 => .zero

/-! ## one expert's tensor -/

/-- One round of the loop in `_narrow_expert_data_for_padding`. -/
def narrowPadding (loadedWeight : Mat ρ) (expertData : Region) (dim : Dim) : Region :=
  if loadedWeight.size dim < expertData.size dim then
    expertData.slice dim 0 (loadedWeight.size dim)
  else expertData

/-- `_narrow_expert_data_for_padding` -/
def narrowExpertDataForPadding (expertData : Region) (loadedWeight : Mat ρ) (hiddenDim : Dim)
    (shardDim : Option Dim) : Region :=
  (hiddenDim :: shardDim.toList).foldl (narrowPadding loadedWeight) expertData

/-- The rows of `w13` that one of its projections has. -/
def FusedMoEConfig.shardSize (M : FusedMoEConfig) (size : Nat) : Nat :=
  if M.isActAndMul then size / 2 else size

/-- The logical weight of `w13` that a shard is loaded into. -/
def FusedMoEConfig.narrowToShard (M : FusedMoEConfig) (expertData : Region) (shardDim : Dim)
    (shardId : Shard) : Except PyError Region :=
  let shardSize := M.shardSize (expertData.size shardDim)
  match shardId with
  | .w1 => expertData.narrow shardDim 0 shardSize
  | .w3 => expertData.narrow shardDim shardSize shardSize
  | .w2 => .error .assertionError

/-- `_load_w13` -/
def FusedMoEConfig.loadW13 (M : FusedMoEConfig) (expertData : Region) (shardDim : Dim)
    (shardId : Shard) (loadedWeight : Mat ρ) : Except PyError (Values ρ) := do
  let loadedPerRank := loadedWeight.size shardDim / M.tpSize
  let startOffset := loadedPerRank * M.tpRank
  if loadedWeight.size shardDim ≤ startOffset then
    return fun _ _ => none
  let narrowSize := min loadedPerRank (loadedWeight.size shardDim - startOffset)
  let loadedWeight ← loadedWeight.narrow shardDim startOffset narrowSize
  let expertData ← M.narrowToShard expertData shardDim shardId
  (narrowExpertDataForPadding expertData loadedWeight shardDim.other (some shardDim)).copy
    loadedWeight

/-- `_load_w2` -/
def FusedMoEConfig.loadW2 (M : FusedMoEConfig) (expertData : Region) (shardDim : Dim)
    (loadedWeight : Mat ρ) : Except PyError (Values ρ) := do
  let loadedPerRank := loadedWeight.size shardDim / M.tpSize
  let startOffset := loadedPerRank * M.tpRank
  if loadedWeight.size shardDim ≤ startOffset then
    return fun _ _ => none
  let narrowSize := min loadedPerRank (loadedWeight.size shardDim - startOffset)
  let loadedWeight ← loadedWeight.narrow shardDim startOffset narrowSize
  (narrowExpertDataForPadding expertData loadedWeight shardDim.other (some shardDim)).copy
    loadedWeight

/-- `_load_g_idx` -/
def FusedMoEConfig.loadGIdx (M : FusedMoEConfig) (expertData : Region) (shardDim : Dim)
    (shardId : Shard) (loadedWeight : Mat ρ) : Except PyError (Values ρ) :=
  match shardId with
  | .w2 => M.loadW2 expertData shardDim loadedWeight
  | .w1 | .w3 => expertData.copy loadedWeight

/-- `_load_model_weight_or_group_weight_scale` -/
def FusedMoEConfig.loadModelWeightOrGroupWeightScale (M : FusedMoEConfig) (expertData : Region)
    (shardDim : Dim) (shardId : Shard) (loadedWeight : Mat ρ) : Except PyError (Values ρ) :=
  match shardId with
  | .w2 => M.loadW2 expertData shardDim loadedWeight
  | .w1 | .w3 => M.loadW13 expertData shardDim shardId loadedWeight

/-- The branches of `weight_loader`; `none` where no branch takes the name. -/
def FusedMoEConfig.loadExpert (M : FusedMoEConfig) (expertData : Region) (shardId : Shard)
    (loadedWeight : Mat ρ) (weightName : Str) : Except PyError (Option (Values ρ)) :=
  let shardDim := shardId.shardedDim
  if "bias".toList <:+: weightName then
    match shardId with
    | .w2 => some <$> (narrowExpertDataForPadding expertData loadedWeight .zero none).copy
        loadedWeight
    | .w1 | .w3 => some <$> M.loadW13 expertData .zero shardId loadedWeight
  else if "input_scale".toList <:+: weightName then some <$> expertData.copy loadedWeight
  else if "g_idx".toList <:+: weightName then
    some <$> M.loadGIdx expertData .zero shardId loadedWeight
  else if "scale".toList <:+: weightName ∨ "zero".toList <:+: weightName ∨
      "offset".toList <:+: weightName then
    some <$> M.loadModelWeightOrGroupWeightScale expertData shardDim shardId loadedWeight
  else if "weight_shape".toList <:+: weightName then some <$> expertData.copy loadedWeight
  else if "weight".toList <:+: weightName then
    some <$> M.loadModelWeightOrGroupWeightScale expertData shardDim shardId loadedWeight
  else .ok none

/-! ## the loaders -/

/-- The values written into an expert's slot of a parameter. -/
def RoutedExperts.write (L : RoutedExperts α) (paramName : Str) (param : Param) (expert : Nat)
    (values : Values (Elem α)) : Patch Cell (Elem α) := fun cell =>
  if cell.param = paramName ∧ cell.expert = expert then
    (values cell.row cell.col).map (L.dtypes.convert param.dtype)
  else none

/-- `RoutedExperts.weight_loader`. -/
def RoutedExperts.weightLoader (L : RoutedExperts α) (paramName : Str) (param : Param)
    (loadedWeight : Mat (Elem α)) (weightName : Str) (shardId : Shard) (expertId : Nat) :
    Except PyError (Loaded α) :=
  match L.mapGlobalToLocal expertId with
  | none => .ok notLoaded
  | some expert =>
    if expert < param.numExperts then do
      let values ← L.moeConfig.loadExpert (Region.whole param.rows param.cols) shardId
        loadedWeight weightName
      return match values with
        | none => notLoaded
        | some values => ⟨true, L.write paramName param expert values⟩
    else .error .indexError

/-- The conversion to the standard format. -/
def MoeWNA16Layer.convert (L : MoeWNA16Layer α) (loadedWeight : Tensor α) (weightName : Str) :
    Except PyError (Mat (Elem α)) :=
  let D := L.dtypes
  let weightBits := L.quantConfig.weightBits
  match L.quantConfig.linearQuantMethod with
  | .awq | .awqMarlin =>
    if weightBits = 4 then
      if "weight".toList <:+: weightName then
        Mat.map .uint8 <$> convertAwqTensor D loadedWeight .qweight
      else if "zeros".toList <:+: weightName then
        Mat.map .uint8 <$> convertAwqTensor D loadedWeight .qzeros
      else .ok loadedWeight.T.elems
    else .error .assertionError
  | .gptq =>
    if weightBits = 4 ∨ weightBits = 8 then
      if "weight".toList <:+: weightName then .ok ((loadedWeight.T.viewUint8 D).map .uint8)
      else if "zeros".toList <:+: weightName then
        let bytes := loadedWeight.viewUint8 D
        if weightBits = 4 then .ok ((convertGptqInt4Qzeros bytes).T.map .uint8)
        else .ok (bytes.T.map fun (b : BitVec 8) => .uint8 (b + 1))
      else .ok loadedWeight.T.elems
    else .error .assertionError

/-- The repetition that fits the zeros and scales to the new group size. -/
def MoeWNA16Layer.repeatGroups (L : MoeWNA16Layer α) (loadedWeight : Mat ρ) (weightName : Str) :
    Mat ρ :=
  if 1 < L.groupSizeDivFactor ∧ "qzeros".toList <:+: weightName ∨ "scales".toList <:+: weightName
  then loadedWeight.repeatInterleave L.groupSizeDivFactor
  else loadedWeight

/-- A factor of one repeats nothing, so it does not matter whether the zeros are repeated. -/
theorem MoeWNA16Layer.repeatGroups_of_qzeros (L : MoeWNA16Layer α)
    (hfactor : 0 < L.groupSizeDivFactor) (m : Mat ρ) {name : Str} (hz : "qzeros".toList <:+: name) :
    L.repeatGroups m name = m.repeatInterleave L.groupSizeDivFactor := by
  unfold MoeWNA16Layer.repeatGroups
  split
  · rfl
  · have hone : L.groupSizeDivFactor = 1 := by
      simp only [hz, and_true, not_or] at *
      omega
    rw [hone]
    simp only [Mat.repeatInterleave, Nat.mul_one, Nat.div_one]

/-- The part of an expert's `w13_qzeros` that a shard is assigned to. -/
def MoeWNA16Layer.w13QzerosRegion (L : MoeWNA16Layer α) (param : Param) (shardId : Shard) :
    Region :=
  let half := min (L.intermediateSizePerPartition / 2) param.rows
  match shardId with
  | .w1 => (Region.whole param.rows param.cols).slice .zero 0 half
  | .w2 | .w3 => (Region.whole param.rows param.cols).slice .zero half (param.rows - half)

/-- `param.data[local_expert_id, ...] = tensor` -/
def MoeWNA16Layer.assign (L : MoeWNA16Layer α) (paramName : Str) (param : Param) (expert : Nat)
    (region : Region) (tensor : Mat (Elem α)) : Except PyError (Loaded α) :=
  if expert < param.numExperts then do
    let values ← region.copy tensor
    return ⟨true, L.write paramName param expert values⟩
  else .error .indexError

/-- The branches of `moe_wna16_weight_loader` that store the converted tensor. -/
def MoeWNA16Layer.storeConverted (L : MoeWNA16Layer α) (paramName : Str) (param : Param)
    (weightName : Str) (shardId : Shard) (expertId : Nat) (loadedWeight : Mat (Elem α)) :
    Except PyError (Loaded α) :=
  let M := L.moeConfig
  if "w13_qzeros".toList <:+: weightName then do
    let tensor ← loadedWeight.part .zero M.tpSize M.tpRank
    match L.mapGlobalToLocal expertId with
    | none => .ok notLoaded -- such a call has returned before the conversion
    | some localExpertId =>
      L.assign paramName param localExpertId (L.w13QzerosRegion param shardId) tensor
  else if "w2_qzeros".toList <:+: weightName then do
    let tensor ← loadedWeight.part .one M.tpSize M.tpRank
    match L.mapGlobalToLocal expertId with
    | none => .ok notLoaded
    | some localExpertId =>
      L.assign paramName param localExpertId (Region.whole param.rows param.cols) tensor
  else L.weightLoader paramName param loadedWeight weightName shardId expertId

/-- `moe_wna16_weight_loader` -/
def MoeWNA16Layer.moeWeightLoader (L : MoeWNA16Layer α) (paramName : Str) (param : Param)
    (loadedWeight : Tensor α) (weightName : Str) (shardId : Shard) (expertId : Nat) :
    Except PyError (Loaded α) :=
  if "g_idx".toList <:+: weightName then .ok notLoaded
  else if L.quantConfig.hasZp = false ∧ "qzeros".toList <:+: weightName then .ok notLoaded
  else if L.mapGlobalToLocal expertId = none ∧
      ("w13_qzeros".toList <:+: weightName ∨ "w2_qzeros".toList <:+: weightName) then
    .ok notLoaded
  else do
    let loadedWeight ← L.convert loadedWeight weightName
    L.storeConverted paramName param weightName shardId expertId
      (L.repeatGroups loadedWeight weightName)

/-! ## where a call writes -/

/-- Nothing is written outside the region. -/
def Values.Within (values : Values ρ) (r : Region) : Prop :=
  ∀ i j, ¬ r.Mem i j → values i j = none

theorem Values.Within.mono {values : Values ρ} {r s : Region} (h : values.Within r)
    (hrs : r.Sub s) : values.Within s :=
  fun i j hm => h i j fun hr => hm (hrs i j hr)

theorem Region.copy_within {r : Region} {m : Mat ρ} {values : Values ρ}
    (h : r.copy m = .ok values) : values.Within r := by
  rw [Region.copy_eq_ok] at h
  rw [h.2]
  exact fun i j hm => Region.fill_eq_none hm

theorem narrowPadding_sub (m : Mat ρ) (r : Region) (dim : Dim) : (narrowPadding m r dim).Sub r := by
  rw [narrowPadding]
  split
  · exact Region.slice_sub (by omega)
  · exact Region.Sub.refl r

theorem narrowExpertDataForPadding_sub (r : Region) (m : Mat ρ) (hiddenDim : Dim)
    (shardDim : Option Dim) : (narrowExpertDataForPadding r m hiddenDim shardDim).Sub r := by
  rw [narrowExpertDataForPadding]
  generalize hiddenDim :: shardDim.toList = dims
  induction dims generalizing r with
  | nil => exact Region.Sub.refl r
  | cons dim dims ih => exact (ih (narrowPadding m r dim)).trans (narrowPadding_sub m r dim)

/-- The part of `w13` that gate or up is loaded into. -/
def FusedMoEConfig.w13Region (M : FusedMoEConfig) (expertData : Region) (shardId : Shard) :
    Region :=
  let shardSize := M.shardSize expertData.rows
  match shardId with
  | .w1 => expertData.slice .zero 0 shardSize
  | .w2 => expertData
  | .w3 => expertData.slice .zero shardSize shardSize

theorem narrowToShard_eq_ok {M : FusedMoEConfig} {r s : Region} {shardId : Shard}
    (h : M.narrowToShard r .zero shardId = .ok s) : s = M.w13Region r shardId := by
  cases shardId with
  | w1 => exact (Except.ok.inj (guard_eq_ok.1 h).2).symm
  | w2 => cases h
  | w3 => exact (Except.ok.inj (guard_eq_ok.1 h).2).symm

theorem loadW13_within {M : FusedMoEConfig} {r : Region} {shardId : Shard} {m : Mat ρ}
    {values : Values ρ} (h : M.loadW13 r .zero shardId m = .ok values) :
    values.Within (M.w13Region r shardId) := by
  unfold FusedMoEConfig.loadW13 at h
  dsimp only at h
  split at h
  · cases h
    exact fun _ _ _ => rfl
  · simp only [bind_eq_ok] at h
    obtain ⟨n, -, s, hs, hcopy⟩ := h
    rw [← narrowToShard_eq_ok hs]
    exact (Region.copy_within hcopy).mono (narrowExpertDataForPadding_sub s n _ _)

theorem loadW2_within {M : FusedMoEConfig} {r : Region} {dim : Dim} {m : Mat ρ}
    {values : Values ρ} (h : M.loadW2 r dim m = .ok values) : values.Within r := by
  unfold FusedMoEConfig.loadW2 at h
  dsimp only at h
  split at h
  · cases h
    exact fun _ _ _ => rfl
  · simp only [bind_eq_ok] at h
    obtain ⟨n, -, hcopy⟩ := h
    exact (Region.copy_within hcopy).mono (narrowExpertDataForPadding_sub r n _ _)

theorem loadModelWeightOrGroupWeightScale_within {M : FusedMoEConfig} {r : Region}
    {shardId : Shard} {m : Mat ρ} {values : Values ρ}
    (h : M.loadModelWeightOrGroupWeightScale r shardId.shardedDim shardId m = .ok values) :
    values.Within (M.w13Region r shardId) := by
  cases shardId with
  | w1 => exact loadW13_within h
  | w2 => exact loadW2_within h
  | w3 => exact loadW13_within h

/-- Names of single values are assigned to the whole expert, whatever the shard. -/
def SingleValueName (weightName : Str) : Prop :=
  "input_scale".toList <:+: weightName ∨ "weight_shape".toList <:+: weightName ∨
    "g_idx".toList <:+: weightName

theorem loadExpert_within {M : FusedMoEConfig} {r : Region} {shardId : Shard} {m : Mat ρ}
    {weightName : Str} {values : Values ρ} (hname : ¬ SingleValueName weightName)
    (h : M.loadExpert r shardId m weightName = .ok (some values)) :
    values.Within (M.w13Region r shardId) := by
  rw [SingleValueName, not_or, not_or] at hname
  obtain ⟨hscale, hshape, hidx⟩ := hname
  unfold FusedMoEConfig.loadExpert at h
  dsimp only at h
  rw [if_neg hscale, if_neg hidx, if_neg hshape] at h
  have hgroup : some <$> M.loadModelWeightOrGroupWeightScale r shardId.shardedDim shardId m =
      .ok (some values) → values.Within (M.w13Region r shardId) := by
    intro h
    obtain ⟨v, hv, ⟨⟩⟩ := map_eq_ok.1 h
    exact loadModelWeightOrGroupWeightScale_within hv
  by_cases hbias : "bias".toList <:+: weightName
  · rw [if_pos hbias] at h
    cases shardId with
    | w1 | w3 =>
      obtain ⟨v, hv, ⟨⟩⟩ := map_eq_ok.1 h
      exact loadW13_within hv
    | w2 =>
      obtain ⟨v, hv, ⟨⟩⟩ := map_eq_ok.1 h
      exact (Region.copy_within hv).mono (narrowExpertDataForPadding_sub r m _ _)
  · rw [if_neg hbias] at h
    split at h
    · exact hgroup h
    · split at h
      · exact hgroup h
      · cases h

/-- A call writes nothing but the given rectangle of its parameter, in its expert's slot. -/
def Loaded.Within (r : Loaded α) (paramName : Str) (expert : Option Nat) (region : Region) : Prop :=
  ∀ cell, r.patch cell ≠ none →
    cell.param = paramName ∧ expert = some cell.expert ∧ region.Mem cell.row cell.col

theorem notLoaded_within (paramName : Str) (expert : Option Nat) (region : Region) :
    (notLoaded : Loaded α).Within paramName expert region :=
  fun _ h => absurd rfl h

theorem write_within {L : RoutedExperts α} {paramName : Str} {param : Param} {expert : Nat}
    {values : Values (Elem α)} {region : Region} (h : values.Within region) {success : Bool} :
    (Loaded.mk success (L.write paramName param expert values)).Within paramName (some expert)
      region := by
  intro cell hcell
  show cell.param = paramName ∧ some expert = some cell.expert ∧ _
  dsimp only [RoutedExperts.write] at hcell
  split at hcell
  · refine ⟨by simp [*], by simp [*], ?_⟩
    by_contra hm
    rw [h _ _ hm] at hcell
    exact hcell rfl
  · exact absurd rfl hcell

/-- **The generic loader keeps to the slot of the expert and the rows of the shard.** -/
theorem weightLoader_footprint {L : RoutedExperts α} {paramName : Str} {param : Param}
    {m : Mat (Elem α)} {weightName : Str} {shardId : Shard} {expertId : Nat} {r : Loaded α}
    (hname : ¬ SingleValueName weightName)
    (h : L.weightLoader paramName param m weightName shardId expertId = .ok r) :
    r.Within paramName (L.mapGlobalToLocal expertId)
      (L.moeConfig.w13Region (Region.whole param.rows param.cols) shardId) := by
  unfold RoutedExperts.weightLoader at h
  cases hlocal : L.mapGlobalToLocal expertId with
  | none =>
    rw [hlocal] at h
    cases h
    exact notLoaded_within _ _ _
  | some expert =>
    rw [hlocal] at h
    obtain ⟨-, h⟩ := guard_eq_ok.1 h
    obtain ⟨values, hvalues, h⟩ := bind_eq_ok.1 h
    cases values with
    | none =>
      cases h
      exact notLoaded_within _ _ _
    | some values =>
      cases h
      exact write_within (loadExpert_within hname hvalues)

/-- The part of a parameter that a shard is loaded into under a name. -/
def MoeWNA16Layer.shardRegion (L : MoeWNA16Layer α) (param : Param) (shardId : Shard)
    (weightName : Str) : Region :=
  if "w13_qzeros".toList <:+: weightName then L.w13QzerosRegion param shardId
  else if "w2_qzeros".toList <:+: weightName then Region.whole param.rows param.cols
  else L.moeConfig.w13Region (Region.whole param.rows param.cols) shardId

theorem storeConverted_within {L : MoeWNA16Layer α} {paramName : Str} {param : Param}
    {m : Mat (Elem α)} {weightName : Str} {shardId : Shard} {expertId : Nat} {r : Loaded α}
    (hname : ¬ SingleValueName weightName)
    (h : L.storeConverted paramName param weightName shardId expertId m = .ok r) :
    r.Within paramName (L.mapGlobalToLocal expertId) (L.shardRegion param shardId weightName) := by
  have hassign : ∀ {expert : Nat} {region : Region} {part : Mat (Elem α)},
      L.assign paramName param expert region part = .ok r →
      r.Within paramName (some expert) region := by
    intro expert region part h
    obtain ⟨-, h⟩ := guard_eq_ok.1 h
    obtain ⟨values, hvalues, h⟩ := bind_eq_ok.1 h
    cases h
    exact write_within (Region.copy_within hvalues)
  unfold MoeWNA16Layer.storeConverted at h
  unfold MoeWNA16Layer.shardRegion
  by_cases hw13 : "w13_qzeros".toList <:+: weightName
  · rw [if_pos hw13] at h ⊢
    obtain ⟨part, -, h⟩ := bind_eq_ok.1 h
    split at h
    · cases h
      exact notLoaded_within _ _ _
    · next hlocal => exact hlocal ▸ hassign h
  · rw [if_neg hw13] at h ⊢
    by_cases hw2 : "w2_qzeros".toList <:+: weightName
    · rw [if_pos hw2] at h ⊢
      obtain ⟨part, -, h⟩ := bind_eq_ok.1 h
      split at h
      · cases h
        exact notLoaded_within _ _ _
      · next hlocal => exact hlocal ▸ hassign h
    · rw [if_neg hw2] at h ⊢
      exact weightLoader_footprint hname h

/-- **The wrapping loader keeps to the slot of the expert and the rows of the shard.** -/
theorem moeWeightLoader_footprint {L : MoeWNA16Layer α} {paramName : Str} {param : Param}
    {t : Tensor α} {weightName : Str} {shardId : Shard} {expertId : Nat} {r : Loaded α}
    (hscale : ¬ "input_scale".toList <:+: weightName)
    (hshape : ¬ "weight_shape".toList <:+: weightName)
    (h : L.moeWeightLoader paramName param t weightName shardId expertId = .ok r) :
    r.Within paramName (L.mapGlobalToLocal expertId) (L.shardRegion param shardId weightName) := by
  unfold MoeWNA16Layer.moeWeightLoader at h
  by_cases hidx : "g_idx".toList <:+: weightName
  · rw [if_pos hidx] at h
    cases h
    exact notLoaded_within _ _ _
  · rw [if_neg hidx] at h
    split at h
    · cases h
      exact notLoaded_within _ _ _
    · split at h
      · cases h
        exact notLoaded_within _ _ _
      · obtain ⟨m, -, h⟩ := bind_eq_ok.1 h
        refine storeConverted_within ?_ h
        rw [SingleValueName, not_or, not_or]
        exact ⟨hscale, hshape, hidx⟩

/-- Gate and up are loaded into different rows. -/
theorem shardRegion_disjoint (L : MoeWNA16Layer α) (param : Param) {weightName : Str}
    (hw2 : ¬ "w2_qzeros".toList <:+: weightName) {i j : Nat}
    (h : (L.shardRegion param .w1 weightName).Mem i j) :
    ¬ (L.shardRegion param .w3 weightName).Mem i j := by
  unfold MoeWNA16Layer.shardRegion at *
  by_cases hw13 : "w13_qzeros".toList <:+: weightName
  · rw [if_pos hw13] at *
    simp only [MoeWNA16Layer.w13QzerosRegion, Region.slice, Region.Mem] at *
    omega
  · rw [if_neg hw13, if_neg hw2] at *
    simp only [FusedMoEConfig.w13Region, Region.slice, Region.Mem] at *
    omega

end FlashNext
