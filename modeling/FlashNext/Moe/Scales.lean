import FlashNext.Moe.Tiles

/-!
# FlashNext.Moe.Scales

The scale strategies of `weight_loader`.

A scale belongs to a whole matrix, to an output, to a group of inputs of an output, or to a block
of outputs and inputs; the strategy is an attribute of the parameter.  Blocks that the ranks would
cut through are refined: the checkpoint's scales are repeated until the ranks are cut between the
smaller blocks.

* `loadExpertWith_group` — the loader of quantized weights is the case of groups;
* `loadScale_eq` — each strategy fills the shard's part of the parameter;
* `scaledExpert_loaded` — each rank reads, for a weight of its slice, the scale that the
  checkpoint has for it.
-/

namespace FlashNext

variable {α ρ : Type}

/-! ## the strategies -/

inductive FusedMoeWeightScaleSupported where
  | tensor
  | channel
  | group
  | block
deriving DecidableEq, Repr

/-- What `weight_loader` reads of a scale parameter and of its layer's quant method. -/
structure ScaleAttrs where
  quantMethod : Option FusedMoeWeightScaleSupported
  weightScaleRefine : Option (Nat × Nat)
  loadFullW2 : Bool

/-- `repeat_interleave(scale_refine[0], dim=-2).repeat_interleave(scale_refine[1], dim=-1)`, if the
scales are refined. -/
def refineScale (refine : Option (Nat × Nat)) (loadedWeight : Mat ρ) : Mat ρ :=
  match refine with
  | some (n, k) => (loadedWeight.T.repeatInterleave n).T.repeatInterleave k
  | none => loadedWeight

/-- `param_data[expert_id][idx] = scalar` -/
def assignRow (expertData : Region) (idx : Nat) (scalar : Mat ρ) : Except PyError (Values ρ) :=
  if idx < expertData.rows then .ok ((expertData.slice .zero idx 1).fill scalar)
  else .error .indexError

/-- `_load_per_tensor_weight_scale`, where `_to_scalar` accepts a single entry. -/
def loadPerTensorWeightScale (expertData : Region) (shardId : Shard) (loadedWeight : Mat ρ) :
    Except PyError (Values ρ) :=
  if loadedWeight.rows * loadedWeight.cols = 1 then
    match shardId with
    | .w1 => assignRow expertData 0 loadedWeight
    | .w3 => assignRow expertData 1 loadedWeight
    | .w2 => .ok (expertData.fill loadedWeight)
  else .error (.runtimeError "shape '[]' is invalid for input")

namespace FusedMoEConfig

variable (M : FusedMoEConfig)

/-- `_load_w2` with `load_full`. -/
def loadW2Full (expertData : Region) (shardDim : Dim) (loadedWeight : Mat ρ) :
    Except PyError (Values ρ) :=
  (narrowExpertDataForPadding expertData loadedWeight shardDim.other (some shardDim)).copy
    loadedWeight

/-- `_load_per_channel_weight_scale` -/
def loadPerChannelWeightScale (expertData : Region) (shardDim : Dim) (shardId : Shard)
    (loadedWeight : Mat ρ) : Except PyError (Values ρ) :=
  match shardId with
  | .w2 =>
    (narrowExpertDataForPadding expertData loadedWeight shardDim.other (some shardDim)).copy
      loadedWeight
  | .w1 | .w3 => M.loadW13 expertData shardDim shardId loadedWeight

/-- `_load_model_weight_or_group_weight_scale` with `load_full_w2`. -/
def loadGroupWeightScale (expertData : Region) (shardDim : Dim) (shardId : Shard)
    (loadedWeight : Mat ρ) (loadFullW2 : Bool) : Except PyError (Values ρ) :=
  if shardId = .w2 ∧ loadFullW2 = true then loadW2Full expertData shardDim loadedWeight
  else M.loadModelWeightOrGroupWeightScale expertData shardDim shardId loadedWeight

/-- The scale branch of `weight_loader`. -/
def loadScale (A : ScaleAttrs) (expertData : Region) (shardId : Shard) (loadedWeight : Mat ρ) :
    Except PyError (Values ρ) :=
  let shardDim := shardId.shardedDim
  match A.quantMethod with
  | some .channel => M.loadPerChannelWeightScale expertData shardDim shardId loadedWeight
  | some .group => M.loadGroupWeightScale expertData shardDim shardId loadedWeight A.loadFullW2
  | some .block =>
    M.loadGroupWeightScale expertData shardDim shardId
      (refineScale A.weightScaleRefine loadedWeight) A.loadFullW2
  | some .tensor => loadPerTensorWeightScale expertData shardId loadedWeight
  | none => .error (.valueError
      "quant method must be one of ['tensor', 'channel', 'group', 'block']")

/-- The name goes to the scale branch. -/
def IsScaleName (weightName : Str) : Prop :=
  ¬ "bias".toList <:+: weightName ∧ ¬ "input_scale".toList <:+: weightName ∧
    ¬ "g_idx".toList <:+: weightName ∧
    ("scale".toList <:+: weightName ∨ "zero".toList <:+: weightName ∨
      "offset".toList <:+: weightName)

instance (weightName : Str) : Decidable (IsScaleName weightName) :=
  inferInstanceAs (Decidable (_ ∧ _ ∧ _ ∧ _))

/-- The branches of `weight_loader`, the scale branch by the attributes of the parameter. -/
def loadExpertWith (A : ScaleAttrs) (expertData : Region) (shardId : Shard)
    (loadedWeight : Mat ρ) (weightName : Str) : Except PyError (Option (Values ρ)) :=
  if IsScaleName weightName then some <$> M.loadScale A expertData shardId loadedWeight
  else M.loadExpert expertData shardId loadedWeight weightName

/-- The loader of quantized weights is the case of groups, which w2 shares among the ranks. -/
theorem loadExpertWith_group (refine : Option (Nat × Nat)) (expertData : Region) (shardId : Shard)
    (loadedWeight : Mat ρ) (weightName : Str) :
    M.loadExpertWith ⟨some .group, refine, false⟩ expertData shardId loadedWeight weightName =
      M.loadExpert expertData shardId loadedWeight weightName := by
  unfold loadExpertWith
  split
  · next hname =>
    obtain ⟨hbias, hinput, hidx, hscale⟩ := hname
    unfold loadExpert
    rw [if_neg hbias, if_neg hinput, if_neg hidx, if_pos hscale]
    simp [loadScale, loadGroupWeightScale]
  · rfl

end FusedMoEConfig

/-- `RoutedExperts.weight_loader` for a parameter with these attributes. -/
def RoutedExperts.weightLoaderWith (L : RoutedExperts α) (A : ScaleAttrs) (paramName : Str)
    (param : Param) (loadedWeight : Mat (Elem α)) (weightName : Str) (shardId : Shard)
    (expertId : Nat) : Except PyError (Loaded α) :=
  match L.mapGlobalToLocal expertId with
  | none => .ok notLoaded
  | some expert =>
    if expert < param.numExperts then do
      let values ← L.moeConfig.loadExpertWith A (Region.whole param.rows param.cols) shardId
        loadedWeight weightName
      return match values with
        | none => notLoaded
        | some values => ⟨true, L.write paramName param expert values⟩
    else .error .indexError

/-! ## checkpoints -/

/-- How many weights share a scale: all of a matrix, those of an output, groups of inputs, or
blocks, of which the layer's are the checkpoint's divided by `refine`. -/
inductive ScaleScheme where
  | tensor
  | channel
  | group (size : Nat)
  | block (tile : Tile) (refine : Option (Nat × Nat))

namespace ScaleScheme

def attrs : ScaleScheme → ScaleAttrs
  | tensor => ⟨some .tensor, none, false⟩
  | channel => ⟨some .channel, none, false⟩
  | group _ => ⟨some .group, none, false⟩
  | block _ refine => ⟨some .block, refine, false⟩

/-- The outputs and inputs of a whole matrix with `outputs` and `inputs` that share one of the
checkpoint's scales. -/
def ckptShared (outputs inputs : Nat) : ScaleScheme → Nat × Nat
  | tensor => (outputs, inputs)
  | channel => (1, inputs)
  | group size => (1, size)
  | block tile refine =>
    (tile.outputs * (refine.getD (1, 1)).1, tile.inputs * (refine.getD (1, 1)).2)

/-- The outputs and inputs of a slice with `outputs` and `inputs` that share one of the layer's
scales. -/
def layerShared (outputs inputs : Nat) : ScaleScheme → Nat × Nat
  | tensor => (outputs, inputs)
  | channel => (1, inputs)
  | group size => (1, size)
  | block tile _ => (tile.outputs, tile.inputs)

/-- The sizes consist of whole groups and blocks, and the ranks are cut between those of the
layer. -/
def Fits (L : RoutedExperts α) : ScaleScheme → Prop
  | tensor => True
  | channel => True
  | group size => size ∣ L.hiddenSize ∧ size ∣ L.intermediateSizePerPartition
  | block tile refine =>
    (∀ dim, tile.size dim ∣ L.intermediateSizePerPartition) ∧
      ∀ size ∈ [tile.outputs * (refine.getD (1, 1)).1, tile.inputs * (refine.getD (1, 1)).2],
        size ∣ L.hiddenSize ∧ size ∣ L.intermediateSize

end ScaleScheme

/-- A matrix of a checkpoint with its scales. -/
structure ScaledMatrix (α : Type) (outputs inputs : Nat) (scheme : ScaleScheme) where
  weight : Mat (Elem α)
  scale : Mat (Elem α)
  weight_rows : weight.rows = outputs
  weight_cols : weight.cols = inputs
  scale_rows : scale.rows = outputs / (scheme.ckptShared outputs inputs).1
  scale_cols : scale.cols = inputs / (scheme.ckptShared outputs inputs).2

/-- The scale of a weight. -/
def ScaledMatrix.scaleOf {outputs inputs : Nat} {scheme : ScaleScheme}
    (M : ScaledMatrix α outputs inputs scheme) (n k : Nat) : Elem α :=
  M.scale.get (n / (scheme.ckptShared outputs inputs).1) (k / (scheme.ckptShared outputs inputs).2)

/-- The matrices of an expert. -/
abbrev RoutedExperts.ScaledExpert (L : RoutedExperts α) (scheme : ScaleScheme) :=
  (s : Shard) → ScaledMatrix α (s.outputs L.hiddenSize L.intermediateSize)
    (s.inputs L.hiddenSize L.intermediateSize) scheme

/-- A gated layer, under a name that the loaders take no hint from. -/
structure ScaledLayer (L : RoutedExperts α) (scheme : ScaleScheme) : Prop where
  gated : L.moeConfig.isActAndMul = true
  clean : ∀ k ∈ hintWords ++ ["zero".toList, "offset".toList], ¬ k <:+: L.layerName
  hidden_pos : 0 < L.hiddenSize
  intermediate_pos : 0 < L.intermediateSizePerPartition
  fits : scheme.Fits L

/-! ## the tiles of the layer -/

namespace ScaledLayer

variable {L : RoutedExperts α} {scheme : ScaleScheme}

theorem outputs_pos (h : ScaledLayer L scheme) (s : Shard) :
    0 < s.outputs L.hiddenSize L.intermediateSizePerPartition := by
  cases s with
  | w1 | w3 => exact h.intermediate_pos
  | w2 => exact h.hidden_pos

theorem inputs_pos (h : ScaledLayer L scheme) (s : Shard) :
    0 < s.inputs L.hiddenSize L.intermediateSizePerPartition := by
  cases s with
  | w1 | w3 => exact h.hidden_pos
  | w2 => exact h.intermediate_pos

theorem shared_pos (h : ScaledLayer L scheme) (s : Shard) :
    let shared := scheme.layerShared (s.outputs L.hiddenSize L.intermediateSizePerPartition)
      (s.inputs L.hiddenSize L.intermediateSizePerPartition)
    0 < shared.1 ∧ 0 < shared.2 := by
  cases scheme with
  | tensor => exact ⟨h.outputs_pos s, h.inputs_pos s⟩
  | channel => exact ⟨Nat.one_pos, h.inputs_pos s⟩
  | group size => exact ⟨Nat.one_pos, Nat.pos_of_dvd_of_pos h.fits.1 h.hidden_pos⟩
  | block tile refine => exact ⟨tile.outputs_pos, tile.inputs_pos⟩

/-- What shares a scale of the layer. -/
def tile (h : ScaledLayer L scheme) (s : Shard) : Tile :=
  let shared := scheme.layerShared (s.outputs L.hiddenSize L.intermediateSizePerPartition)
    (s.inputs L.hiddenSize L.intermediateSizePerPartition)
  ⟨shared.1, shared.2, (h.shared_pos s).1, (h.shared_pos s).2⟩

/-- The slices are cut between what shares a scale. -/
theorem cuts (h : ScaledLayer L scheme) (s : Shard) : (h.tile s).Cuts L s := by
  cases scheme with
  | tensor => cases s <;> exact ⟨Nat.dvd_refl _, Nat.dvd_refl _⟩
  | channel =>
    cases s with
    | w1 | w3 => exact ⟨one_dvd _, Nat.dvd_refl _⟩
    | w2 => exact ⟨Nat.dvd_refl _, one_dvd _⟩
  | group size =>
    cases s with
    | w1 | w3 => exact ⟨one_dvd _, h.fits.1⟩
    | w2 => exact ⟨h.fits.2, one_dvd _⟩
  | block tile refine =>
    have hhidden : ∀ dim, tile.size dim ∣ L.hiddenSize := by
      intro dim
      cases dim with
      | zero => exact (Nat.dvd_mul_right _ _).trans (h.fits.2 _ List.mem_cons_self).1
      | one =>
        exact (Nat.dvd_mul_right _ _).trans
          (h.fits.2 _ (List.mem_cons_of_mem _ List.mem_cons_self)).1
    cases s <;> exact ⟨h.fits.1 _, hhidden _⟩

end ScaledLayer

/-! ## loading scales -/

/-- Every rank has all scales of the shard. -/
def ScaleScheme.replicated : ScaleScheme → Shard → Bool
  | tensor, _ => true
  | channel, .w2 => true
  | channel, .w1 | channel, .w3 | group _, _ | block _ _, _ => false

/-- Repeated entries are those of the larger tiles. -/
theorem refineScale_get (refine : Option (Nat × Nat)) (m : Mat ρ) (i j : Nat) :
    (refineScale refine m).get i j =
      m.get (i / (refine.getD (1, 1)).1) (j / (refine.getD (1, 1)).2) := by
  cases refine with
  | none => simp [refineScale]
  | some factor => rfl

theorem refineScale_shape (refine : Option (Nat × Nat)) (m : Mat ρ) :
    (refineScale refine m).rows = m.rows * (refine.getD (1, 1)).1 ∧
      (refineScale refine m).cols = m.cols * (refine.getD (1, 1)).2 := by
  cases refine with
  | none => simp [refineScale]
  | some factor => exact ⟨rfl, rfl⟩

/-- Tiles of which `factor` make a larger one. -/
theorem div_mul_refined {size d factor : Nat} (hd : 0 < d) (hdvd : d * factor ∣ size) :
    size / (d * factor) * factor = size / d := by
  obtain ⟨c, rfl⟩ := hdvd
  rcases Nat.eq_zero_or_pos factor with rfl | hfactor
  · simp
  · rw [Nat.mul_div_cancel_left _ (Nat.mul_pos hd hfactor), Nat.mul_assoc,
      Nat.mul_div_cancel_left _ hd, Nat.mul_comm]

/-- What a shard's scales fill its part of the parameter with. -/
structure FillsScales (L : RoutedExperts α) (T : Tile) (s : Shard) {scheme : ScaleScheme}
    (M : ScaledMatrix α (s.outputs L.hiddenSize L.intermediateSize)
      (s.inputs L.hiddenSize L.intermediateSize) scheme) (tiles : Mat (Elem α)) : Prop where
  load : L.moeConfig.loadScale scheme.attrs (L.tileWhole T s) s M.scale =
    .ok ((L.tileRect T s).fill tiles)
  rows : tiles.rows = (L.tileRect T s).rows
  cols : tiles.cols = (L.tileRect T s).cols
  get : ∀ n < s.outputs L.hiddenSize L.intermediateSizePerPartition,
    ∀ k < s.inputs L.hiddenSize L.intermediateSizePerPartition,
    tiles.get (n / T.outputs) (k / T.inputs) =
      M.scaleOf (s.globalOutput L.intermediateSizePerPartition L.moeConfig.tpRank n)
        (s.globalInput L.intermediateSizePerPartition L.moeConfig.tpRank k)

namespace ScaledLayer

variable {L : RoutedExperts α} {scheme : ScaleScheme} {s : Shard}

/-- Scales that the ranks share belong to whole numbers of the layer's tiles. -/
theorem ckptShared_of_sharded (h : ScaledLayer L scheme) (hs : scheme.replicated s = false) :
    let outputs := s.outputs L.hiddenSize L.intermediateSize
    let inputs := s.inputs L.hiddenSize L.intermediateSize
    let factor := scheme.attrs.weightScaleRefine.getD (1, 1)
    scheme.ckptShared outputs inputs =
        ((h.tile s).outputs * factor.1, (h.tile s).inputs * factor.2) ∧
      (h.tile s).outputs * factor.1 ∣ outputs ∧ (h.tile s).inputs * factor.2 ∣ inputs := by
  have hfull : L.intermediateSizePerPartition ∣ L.intermediateSize := Nat.dvd_mul_right _ _
  cases scheme with
  | tensor => cases hs
  | channel =>
    cases s with
    | w1 | w3 =>
      simp [ScaleScheme.ckptShared, ScaleScheme.attrs, tile, ScaleScheme.layerShared, Shard.inputs]
    | w2 => cases hs
  | group size =>
    have hdvd : size ∣ s.inputs L.hiddenSize L.intermediateSize := by
      cases s with
      | w1 | w3 => exact h.fits.1
      | w2 => exact h.fits.2.trans hfull
    simp [ScaleScheme.ckptShared, ScaleScheme.attrs, tile, ScaleScheme.layerShared, hdvd]
  | block blocks refine =>
    have hfits : ∀ size ∈ [blocks.outputs * (refine.getD (1, 1)).1,
        blocks.inputs * (refine.getD (1, 1)).2],
        size ∣ s.outputs L.hiddenSize L.intermediateSize ∧
          size ∣ s.inputs L.hiddenSize L.intermediateSize := by
      intro size hsize
      obtain ⟨hhidden, hintermediate⟩ := h.fits.2 size hsize
      cases s with
      | w1 | w3 => exact ⟨hintermediate, hhidden⟩
      | w2 => exact ⟨hhidden, hintermediate⟩
    exact ⟨rfl, (hfits _ List.mem_cons_self).1,
      (hfits _ (List.mem_cons_of_mem _ List.mem_cons_self)).2⟩

theorem loadScale_of_sharded (hs : scheme.replicated s = false) (r : Region) (m : Mat ρ) :
    L.moeConfig.loadScale scheme.attrs r s m =
      L.moeConfig.loadModelWeightOrGroupWeightScale r s.shardedDim s
        (refineScale scheme.attrs.weightScaleRefine m) := by
  cases scheme with
  | tensor => cases hs
  | channel =>
    cases s with
    | w1 | w3 => rfl
    | w2 => cases hs
  | group size => cases s <;> rfl
  | block blocks refine => cases s <;> rfl

/-- Scales that the ranks share are narrowed like a weight. -/
theorem fillsScales_of_sharded (h : ScaledLayer L scheme) (hs : scheme.replicated s = false)
    (M : ScaledMatrix α (s.outputs L.hiddenSize L.intermediateSize)
      (s.inputs L.hiddenSize L.intermediateSize) scheme) :
    FillsScales L (h.tile s) s M
      (L.rankTiles (h.tile s) s (refineScale scheme.attrs.weightScaleRefine M.scale)) := by
  obtain ⟨hshared, houtputs, hinputs⟩ := h.ckptShared_of_sharded hs
  obtain ⟨hrows, hcols⟩ := refineScale_shape scheme.attrs.weightScaleRefine M.scale
  rw [M.scale_rows, hshared, div_mul_refined (h.tile s).outputs_pos houtputs] at hrows
  rw [M.scale_cols, hshared, div_mul_refined (h.tile s).inputs_pos hinputs] at hcols
  have htiled : Tiled L (h.tile s) s (refineScale scheme.attrs.weightScaleRefine M.scale) :=
    ⟨hrows, hcols⟩
  refine ⟨?_, (rankTiles_shape htiled).1, (rankTiles_shape htiled).2, fun n _ k _ => ?_⟩
  · rw [loadScale_of_sharded hs, load_tiled h.gated (h.cuts s) htiled]
  · rw [rankTiles_get (h.cuts s), refineScale_get, Nat.div_div_eq_div_mul,
      Nat.div_div_eq_div_mul, ScaledMatrix.scaleOf, hshared]

/-- The whole shard shares the scale of a tensor. -/
theorem tileRect_tensor (h : ScaledLayer L .tensor) (s : Shard) :
    L.tileWhole (h.tile s) s = Region.whole (if s = .w2 then 1 else 2) 1 ∧
      L.tileRect (h.tile s) s = ⟨s.firstRow 1, 0, 1, 1⟩ := by
  cases s <;>
    simp [RoutedExperts.tileWhole, RoutedExperts.tileRect, tile, ScaleScheme.layerShared,
      Shard.outputs, Shard.inputs, Shard.firstRow, Nat.div_self h.hidden_pos,
      Nat.div_self h.intermediate_pos]

/-- The scale of a tensor is assigned to the shard's row. -/
theorem loadPerTensorWeightScale_eq {m : Mat ρ} (hr : m.rows = 1) (hc : m.cols = 1) (s : Shard) :
    loadPerTensorWeightScale (Region.whole (if s = .w2 then 1 else 2) 1) s m =
      .ok (Region.fill ⟨s.firstRow 1, 0, 1, 1⟩ m) := by
  unfold loadPerTensorWeightScale
  rw [if_pos (by rw [hr, hc])]
  cases s <;> rfl

theorem full_pos (h : ScaledLayer L scheme) (s : Shard) :
    0 < s.outputs L.hiddenSize L.intermediateSize ∧
      0 < s.inputs L.hiddenSize L.intermediateSize := by
  have hfull : 0 < L.intermediateSize :=
    Nat.mul_pos h.intermediate_pos (Nat.zero_lt_of_lt L.moeConfig.tpRank_lt)
  cases s with
  | w1 | w3 => exact ⟨hfull, h.hidden_pos⟩
  | w2 => exact ⟨h.hidden_pos, hfull⟩

/-- The scale of a tensor is on every rank. -/
theorem fillsScales_tensor (h : ScaledLayer L .tensor)
    (M : ScaledMatrix α (s.outputs L.hiddenSize L.intermediateSize)
      (s.inputs L.hiddenSize L.intermediateSize) .tensor) :
    FillsScales L (h.tile s) s M M.scale := by
  obtain ⟨hwhole, hrect⟩ := h.tileRect_tensor s
  have hr : M.scale.rows = 1 := M.scale_rows.trans (Nat.div_self (h.full_pos s).1)
  have hc : M.scale.cols = 1 := M.scale_cols.trans (Nat.div_self (h.full_pos s).2)
  refine ⟨?_, ?_, ?_, fun n hn k hk => ?_⟩
  · rw [hwhole, hrect]
    exact loadPerTensorWeightScale_eq hr hc s
  · rw [hr, hrect]
  · rw [hc, hrect]
  · show M.scale.get (n / _) (k / _) = M.scale.get (_ / _) (_ / _)
    simp only [tile, ScaleScheme.layerShared, ScaleScheme.ckptShared]
    rw [Nat.div_eq_of_lt hn, Nat.div_eq_of_lt hk, Nat.div_eq_of_lt (rankOutput_lt hn),
      Nat.div_eq_of_lt (rankInput_lt hk)]

/-- The scales of w2's outputs are on every rank. -/
theorem fillsScales_channel (h : ScaledLayer L .channel)
    (M : ScaledMatrix α L.hiddenSize L.intermediateSize .channel) :
    FillsScales L (h.tile .w2) .w2 M M.scale := by
  have hwhole : L.tileWhole (h.tile .w2) .w2 = Region.whole L.hiddenSize 1 ∧
      L.tileRect (h.tile .w2) .w2 = Region.whole L.hiddenSize 1 := by
    simp [RoutedExperts.tileWhole, RoutedExperts.tileRect, tile, ScaleScheme.layerShared,
      Shard.outputs, Shard.inputs, Shard.firstRow, Region.whole, Nat.div_self h.intermediate_pos]
  have hr : M.scale.rows = L.hiddenSize := M.scale_rows.trans (Nat.div_one _)
  have hc : M.scale.cols = 1 := M.scale_cols.trans (Nat.div_self (h.full_pos .w2).2)
  refine ⟨?_, ?_, ?_, fun n hn k hk => ?_⟩
  · rw [hwhole.1, hwhole.2]
    show Region.copy (narrowExpertDataForPadding _ _ _ _) _ = _
    rw [narrowExpertDataForPadding_of_le]
    · exact Region.copy_of_same_shape hr hc
    · intro dim
      cases dim with
      | zero => exact hr.ge
      | one => exact hc.ge
  · rw [hr, hwhole.2]
    rfl
  · rw [hc, hwhole.2]
    rfl
  · show M.scale.get (n / _) (k / _) = M.scale.get (_ / _) (_ / _)
    simp only [tile, ScaleScheme.layerShared, ScaleScheme.ckptShared]
    rw [Nat.div_eq_of_lt hk, Nat.div_eq_of_lt (rankInput_lt hk)]
    rfl

/-- **Whatever the strategy, a rank has the scales of its slice.** -/
theorem exists_fillsScales (h : ScaledLayer L scheme) (s : Shard)
    (M : ScaledMatrix α (s.outputs L.hiddenSize L.intermediateSize)
      (s.inputs L.hiddenSize L.intermediateSize) scheme) :
    ∃ tiles, FillsScales L (h.tile s) s M tiles := by
  cases hs : scheme.replicated s with
  | false => exact ⟨_, h.fillsScales_of_sharded hs M⟩
  | true =>
    cases scheme with
    | tensor => exact ⟨_, h.fillsScales_tensor M⟩
    | channel =>
      cases s with
      | w1 | w3 => cases hs
      | w2 => exact ⟨_, h.fillsScales_channel M⟩
    | group size => cases hs
    | block blocks refine => cases hs

end ScaledLayer

/-! ## an expert -/

/-- The tensors of a matrix. -/
inductive ScaledPart where
  | weight
  | scale
deriving DecidableEq, Repr

/-- The names of scale parameters. -/
def scaleWords : List Str := ["weight_scale".toList, "weight_scale_inv".toList]

/-- The parameter that a tensor is loaded into. -/
def scaledParamName (word : Str) (s : Shard) : ScaledPart → Str
  | .weight => s.weightName
  | .scale => s.paramPrefix ++ word

def ScaledMatrix.tensor {outputs inputs : Nat} {scheme : ScaleScheme}
    (M : ScaledMatrix α outputs inputs scheme) : ScaledPart → Mat (Elem α)
  | .weight => M.weight
  | .scale => M.scale

/-- The entry of a weight, or its scale. -/
def ScaledMatrix.entry {outputs inputs : Nat} {scheme : ScaleScheme}
    (M : ScaledMatrix α outputs inputs scheme) (p : ScaledPart) (n k : Nat) : Elem α :=
  match p with
  | .weight => M.weight.get n k
  | .scale => M.scaleOf n k

section expert

variable (L : RoutedExperts α) (scheme : ScaleScheme) (word : Str)
  (dtypes : ScaledPart → ParamDtype)

/-- The outputs and inputs that share an entry of a parameter. -/
def RoutedExperts.shared (s : Shard) : ScaledPart → Nat × Nat
  | .weight => (1, 1)
  | .scale => scheme.layerShared (s.outputs L.hiddenSize L.intermediateSizePerPartition)
      (s.inputs L.hiddenSize L.intermediateSizePerPartition)

/-- The parameter's shape and dtype. -/
def RoutedExperts.scaledParam (s : Shard) (p : ScaledPart) : Param :=
  let perRank := L.intermediateSizePerPartition
  let shared := L.shared scheme s p
  match s with
  | .w1 | .w3 => ⟨L.moeConfig.numLocalExperts, 2 * (perRank / shared.1), L.hiddenSize / shared.2,
      dtypes p⟩
  | .w2 => ⟨L.moeConfig.numLocalExperts, L.hiddenSize / shared.1, perRank / shared.2, dtypes p⟩

/-- The loader's call for one tensor of an expert. -/
def RoutedExperts.receiveScaled (E : L.ScaledExpert scheme) (expertId : Nat)
    (call : Shard × ScaledPart) : Except PyError (Loaded α) :=
  let name := scaledParamName word call.1 call.2
  L.weightLoaderWith scheme.attrs name (L.scaledParam scheme dtypes call.1 call.2)
    ((E call.1).tensor call.2) (L.qualName name) call.1 expertId

/-- The calls one after another. -/
def RoutedExperts.receiveScaledAll (E : L.ScaledExpert scheme) (expertId : Nat) :
    List (Shard × ScaledPart) → Params α → Except PyError (Params α) :=
  Patch.runAll fun call => Loaded.patch <$> L.receiveScaled scheme word dtypes E expertId call

/-- The tensors of an expert. -/
def scaledCalls : List (Shard × ScaledPart) :=
  [Shard.w1, .w2, .w3].flatMap fun s => [ScaledPart.weight, .scale].map fun p => (s, p)

/-- For an output `n` and an input `k` of the rank's slice, the slot has the checkpoint's weight,
and, in the place that they share with others, its scale. -/
structure HoldsScaledExpert (E : L.ScaledExpert scheme) (slot : Nat) (st : Params α) : Prop where
  weight : ∀ s : Shard, ∀ n < s.outputs L.hiddenSize L.intermediateSizePerPartition,
    ∀ k < s.inputs L.hiddenSize L.intermediateSizePerPartition,
    let row := s.firstRow L.intermediateSizePerPartition + n
    st ⟨s.weightName, slot, row, k⟩ = L.dtypes.convert (dtypes .weight) ((E s).weight.get
      (s.globalOutput L.intermediateSizePerPartition L.moeConfig.tpRank n)
      (s.globalInput L.intermediateSizePerPartition L.moeConfig.tpRank k))
  scale : ∀ s : Shard, ∀ n < s.outputs L.hiddenSize L.intermediateSizePerPartition,
    ∀ k < s.inputs L.hiddenSize L.intermediateSizePerPartition,
    let row := s.firstRow L.intermediateSizePerPartition + n
    let shared := L.shared scheme s .scale
    st ⟨s.paramPrefix ++ word, slot, row / shared.1, k / shared.2⟩ =
      L.dtypes.convert (dtypes .scale) ((E s).scaleOf
        (s.globalOutput L.intermediateSizePerPartition L.moeConfig.tpRank n)
        (s.globalInput L.intermediateSizePerPartition L.moeConfig.tpRank k))

end expert

namespace ScaledLayer

variable {L : RoutedExperts α} {scheme : ScaleScheme} {word : Str}
  {dtypes : ScaledPart → ParamDtype}

theorem clean_hintWords (h : ScaledLayer L scheme) : ∀ k ∈ hintWords, ¬ k <:+: L.layerName :=
  fun k hk => h.clean k (List.mem_append_left _ hk)

/-- Weights do not go to the scale branch. -/
theorem not_isScaleName_weight (h : ScaledLayer L scheme) (s : Shard) :
    ¬ FusedMoEConfig.IsScaleName (L.qualName s.weightName) := by
  rintro ⟨-, -, -, hscale⟩
  have hnot : ∀ w ∈ ["scale".toList, "zero".toList, "offset".toList],
      ¬ w <:+: L.qualName s.weightName := by
    intro w hw
    have hword : '.' ∉ w ∧ ¬ w <:+: s.weightName ∧
        w ∈ hintWords ++ ["zero".toList, "offset".toList] := by
      revert w
      cases s <;> decide
    rw [RoutedExperts.qualName, Str.infix_append_cons hword.1, not_or]
    exact ⟨h.clean w hword.2.2, hword.2.1⟩
  rcases hscale with hscale | hzero | hoffset
  · exact hnot _ (by simp) hscale
  · exact hnot _ (by simp) hzero
  · exact hnot _ (by simp) hoffset

/-- Scales do. -/
theorem isScaleName_scale (h : ScaledLayer L scheme) (hword : word ∈ scaleWords) (s : Shard) :
    FusedMoEConfig.IsScaleName (L.qualName (s.paramPrefix ++ word)) := by
  have hscale : "scale".toList <:+: s.paramPrefix ++ word := by
    revert word
    cases s <;> decide
  have hnot : ∀ w ∈ ["bias".toList, "input_scale".toList, "g_idx".toList],
      ¬ w <:+: L.qualName (s.paramPrefix ++ word) := by
    intro w hw
    have hhint : '.' ∉ w ∧ ¬ w <:+: s.paramPrefix ++ word ∧ ∃ k ∈ hintWords, k <:+: w := by
      clear hscale
      revert w word
      cases s <;> decide
    obtain ⟨hdot, hname, k, hk, hkw⟩ := hhint
    rw [RoutedExperts.qualName, Str.infix_append_cons hdot, not_or]
    exact ⟨fun hlayer => h.clean_hintWords k hk (hkw.trans hlayer), hname⟩
  exact ⟨hnot _ (by simp), hnot _ (by simp), hnot _ (by simp),
    .inl ((Str.infix_append_cons (by decide)).2 (.inr hscale))⟩

/-- What shares an entry of a parameter. -/
def partTile (h : ScaledLayer L scheme) (s : Shard) : ScaledPart → Tile
  | .weight => ⟨1, 1, Nat.one_pos, Nat.one_pos⟩
  | .scale => h.tile s

theorem partTile_cuts (h : ScaledLayer L scheme) (s : Shard) (p : ScaledPart) :
    (h.partTile s p).Cuts L s := by
  cases p with
  | weight => cases s <;> exact ⟨one_dvd _, one_dvd _⟩
  | scale => exact h.cuts s

theorem whole_scaledParam (h : ScaledLayer L scheme) (s : Shard) (p : ScaledPart) :
    Region.whole (L.scaledParam scheme dtypes s p).rows (L.scaledParam scheme dtypes s p).cols =
      L.tileWhole (h.partTile s p) s := by
  cases p <;> cases s <;> rfl

variable (dtypes) in
/-- **A call for a local expert fills the shard's part with the entries of the rank's slice.** -/
theorem receiveScaled_eq (h : ScaledLayer L scheme) (hword : word ∈ scaleWords)
    (E : L.ScaledExpert scheme) {expertId slot : Nat}
    (hlocal : L.mapGlobalToLocal expertId = some slot)
    (hslot : slot < L.moeConfig.numLocalExperts) (call : Shard × ScaledPart) :
    let T := h.partTile call.1 call.2
    ∃ tiles : Mat (Elem α), Loaded.patch <$> L.receiveScaled scheme word dtypes E expertId call =
        .ok (L.write (scaledParamName word call.1 call.2)
          (L.scaledParam scheme dtypes call.1 call.2) slot ((L.tileRect T call.1).fill tiles)) ∧
      tiles.rows = (L.tileRect T call.1).rows ∧ tiles.cols = (L.tileRect T call.1).cols ∧
      ∀ n < call.1.outputs L.hiddenSize L.intermediateSizePerPartition,
        ∀ k < call.1.inputs L.hiddenSize L.intermediateSizePerPartition,
        tiles.get (n / T.outputs) (k / T.inputs) = (E call.1).entry call.2
          (call.1.globalOutput L.intermediateSizePerPartition L.moeConfig.tpRank n)
          (call.1.globalInput L.intermediateSizePerPartition L.moeConfig.tpRank k) := by
  obtain ⟨s, p⟩ := call
  have hnum : slot < (L.scaledParam scheme dtypes s p).numExperts := by cases s <;> exact hslot
  have hstore : ∀ tiles : Mat (Elem α),
      L.moeConfig.loadExpertWith scheme.attrs (L.tileWhole (h.partTile s p) s) s ((E s).tensor p)
        (L.qualName (scaledParamName word s p)) =
          .ok (some ((L.tileRect (h.partTile s p) s).fill tiles)) →
      Loaded.patch <$> L.receiveScaled scheme word dtypes E expertId (s, p) =
        .ok (L.write (scaledParamName word s p) (L.scaledParam scheme dtypes s p) slot
          ((L.tileRect (h.partTile s p) s).fill tiles)) := by
    intro tiles hload
    unfold RoutedExperts.receiveScaled RoutedExperts.weightLoaderWith
    rw [hlocal]
    dsimp only
    rw [if_pos hnum, h.whole_scaledParam, hload]
    rfl
  cases p with
  | weight =>
    have htiled : Tiled L (h.partTile s .weight) s (E s).weight :=
      ⟨(E s).weight_rows.trans (Nat.div_one _).symm, (E s).weight_cols.trans (Nat.div_one _).symm⟩
    obtain ⟨hr, hc⟩ := rankTiles_shape htiled
    refine ⟨_, hstore _ ?_, hr, hc, fun n _ k _ => ?_⟩
    · refine (if_neg (h.not_isScaleName_weight s)).trans ?_
      refine (loadExpert_weightName h.clean_hintWords s _ _).trans ?_
      exact congrArg (some <$> ·) (load_tiled h.gated (h.partTile_cuts s .weight) htiled)
    · rw [rankTiles_get (h.partTile_cuts s .weight)]
      simp only [partTile, Nat.div_one]
      rfl
  | scale =>
    obtain ⟨tiles, hload, hr, hc, hget⟩ := h.exists_fillsScales s (E s)
    refine ⟨tiles, hstore _ ?_, hr, hc, hget⟩
    refine (if_pos (h.isScaleName_scale hword s)).trans ?_
    exact congrArg (some <$> ·) hload

/-- Tensors of one parameter are of one kind. -/
theorem scaledParamName_inj (hword : word ∈ scaleWords) {s s' : Shard} {p p' : ScaledPart}
    (hname : scaledParamName word s p = scaledParamName word s' p') :
    p = p' ∧ (s = .w2 ↔ s' = .w2) := by
  revert word
  cases s <;> cases s' <;> cases p <;> cases p' <;> decide

/-- Different calls fill different cells. -/
theorem fill_disjoint (h : ScaledLayer L scheme) (hword : word ∈ scaleWords) (slot : Nat)
    {c c' : Shard × ScaledPart} (hc : c ≠ c') (tiles tiles' : Mat (Elem α)) :
    Patch.Disjoint
      (L.write (scaledParamName word c.1 c.2) (L.scaledParam scheme dtypes c.1 c.2) slot
        ((L.tileRect (h.partTile c.1 c.2) c.1).fill tiles))
      (L.write (scaledParamName word c'.1 c'.2) (L.scaledParam scheme dtypes c'.1 c'.2) slot
        ((L.tileRect (h.partTile c'.1 c'.2) c'.1).fill tiles')) := by
  obtain ⟨s, p⟩ := c
  obtain ⟨s', p'⟩ := c'
  dsimp only
  apply write_tiles_disjoint
  intro hname
  obtain ⟨rfl, hw2⟩ := scaledParamName_inj hword hname
  refine ⟨?_, fun hs => hc (by rw [hs]), hw2⟩
  -- gate and up have the same sizes
  cases s <;> cases s' <;> simp only [reduceCtorEq, false_iff, not_true_eq_false, iff_false] at hw2
  all_goals rfl

end ScaledLayer

theorem mem_scaledCalls (call : Shard × ScaledPart) : call ∈ scaledCalls := by
  obtain ⟨s, p⟩ := call
  cases s <;> cases p <;> decide

/-- **Whatever the scale strategy, loading is faithful on every rank**: in any order, the loader
accepts the tensors of an expert, and the slot of a local expert has, for each weight of the rank's
slice, the weight and the scale that the checkpoint has for it. -/
theorem scaledExpert_loaded {L : RoutedExperts α} {scheme : ScaleScheme}
    (h : ScaledLayer L scheme) {word : Str} (hword : word ∈ scaleWords)
    (dtypes : ScaledPart → ParamDtype) (E : L.ScaledExpert scheme) (expertId : Nat)
    (hslots : ∀ slot, L.mapGlobalToLocal expertId = some slot →
      slot < L.moeConfig.numLocalExperts)
    {calls : List (Shard × ScaledPart)} (hcalls : calls.Perm scaledCalls) (st : Params α) :
    ∃ st', L.receiveScaledAll scheme word dtypes E expertId calls st = .ok st' ∧
      match L.mapGlobalToLocal expertId with
      | none => st' = st
      | some slot => HoldsScaledExpert L scheme word dtypes E slot st' ∧
        ∀ cell, cell.expert ≠ slot → st' cell = st cell := by
  have hnodup : calls.Nodup := hcalls.nodup_iff.2 (by decide)
  cases hlocal : L.mapGlobalToLocal expertId with
  | none =>
    have hcall : ∀ call ∈ calls, Loaded.patch <$>
        L.receiveScaled scheme word dtypes E expertId call = .ok Patch.empty := by
      intro call _
      unfold RoutedExperts.receiveScaled RoutedExperts.weightLoaderWith
      rw [hlocal]
      rfl
    obtain ⟨st', hrun, -, hframe⟩ := Patch.runAll_holds hcall hnodup
      (fun _ _ _ _ _ _ => .inl rfl) st
    exact ⟨st', hrun, funext fun cell => hframe cell fun _ _ => rfl⟩
  | some slot =>
    choose tiles hcall hrows hcols hget using
      h.receiveScaled_eq dtypes hword E hlocal (hslots slot hlocal)
    obtain ⟨st', hrun, hst, hframe⟩ := Patch.runAll_holds (fun call _ => hcall call) hnodup
      (fun _ _ _ _ hne => h.fill_disjoint hword slot hne _ _) st
    have hread : ∀ s p, ∀ n < s.outputs L.hiddenSize L.intermediateSizePerPartition,
        ∀ k < s.inputs L.hiddenSize L.intermediateSizePerPartition,
        st' ⟨scaledParamName word s p, slot,
            (s.firstRow L.intermediateSizePerPartition + n) / (h.partTile s p).outputs,
            k / (h.partTile s p).inputs⟩ =
          L.dtypes.convert (L.scaledParam scheme dtypes s p).dtype ((E s).entry p
            (s.globalOutput L.intermediateSizePerPartition L.moeConfig.tpRank n)
            (s.globalInput L.intermediateSizePerPartition L.moeConfig.tpRank k)) := by
      intro s p n hn k hk
      refine hst (s, p) (hcalls.mem_iff.2 (mem_scaledCalls _)) _ _ ?_
      rw [← hget (s, p) n hn k hk]
      exact write_tileRect (h.partTile_cuts s p) (hrows (s, p)) (hcols (s, p)) _ _ _ hn hk
    have hdtype : ∀ s p, (L.scaledParam scheme dtypes s p).dtype = dtypes p := by
      intro s p
      cases s <;> rfl
    refine ⟨st', hrun, ⟨fun s n hn k hk => ?_, fun s n hn k hk => ?_⟩, fun cell hcell => ?_⟩
    · have hcell := hread s .weight n hn k hk
      rw [hdtype] at hcell
      simp only [ScaledLayer.partTile, Nat.div_one] at hcell
      exact hcell
    · have hcell := hread s .scale n hn k hk
      rw [hdtype] at hcell
      exact hcell
    · exact hframe cell fun call _ => if_neg fun hin => hcell hin.2

/-- Blocks of 32 outputs and 16 inputs, four of which share one of the checkpoint's scales. -/
def refinedBlocks : ScaleScheme :=
  .block ⟨32, 16, Nat.two_pow_pos 5, Nat.two_pow_pos 4⟩ (some (2, 2))

/-- An expert of `smallExperts` with such scales. -/
def blockExpert : smallExperts.ScaledExpert refinedBlocks := fun s =>
  { weight := ⟨64, 64, fun n k => .float (64 * n + k)⟩
    scale := ⟨1, 2, fun _ k => .float k⟩
    weight_rows := by cases s <;> rfl
    weight_cols := by cases s <;> rfl
    scale_rows := by cases s <;> rfl
    scale_cols := by cases s <;> rfl }

/-- The block of 64 outputs is cut between two ranks; each has the scales of its half. -/
theorem scaledExpert_loaded_blocks :
    let word := "weight_scale_inv".toList
    (∃ st', smallExperts.receiveScaledAll refinedBlocks word (fun _ => .params) blockExpert 3
        scaledCalls.reverse (fun _ => .float 0) = .ok st' ∧
      HoldsScaledExpert smallExperts refinedBlocks word (fun _ => .params) blockExpert 1 st') ∧
    smallExperts.receiveScaledAll refinedBlocks word (fun _ => .params) blockExpert 0 scaledCalls
      (fun _ => .float 0) = .ok fun _ => .float 0 := by
  have h : ScaledLayer smallExperts refinedBlocks := by
    refine ⟨rfl, by decide, by decide, by decide, ?_, by decide⟩
    intro dim
    cases dim <;> decide
  have hslots : ∀ e slot, smallExperts.mapGlobalToLocal e = some slot →
      slot < smallExperts.moeConfig.numLocalExperts := by
    intro e slot hslot
    obtain ⟨he, hslot⟩ := Option.ite_none_right_eq_some.1 hslot
    cases hslot
    show e - 2 < 2
    omega
  have hword : "weight_scale_inv".toList ∈ scaleWords := List.mem_cons_of_mem _ List.mem_cons_self
  obtain ⟨st, hrun, hholds, -⟩ := scaledExpert_loaded h hword (fun _ => .params) blockExpert 3
    (hslots 3) (List.reverse_perm scaledCalls) fun _ => .float 0
  obtain ⟨st', hrun', hsame⟩ := scaledExpert_loaded h hword (fun _ => .params) blockExpert 0
    (hslots 0) (List.Perm.refl scaledCalls) fun _ => .float 0
  exact ⟨⟨st, hrun, hholds⟩, hrun'.trans (congrArg Except.ok hsame)⟩

end FlashNext
