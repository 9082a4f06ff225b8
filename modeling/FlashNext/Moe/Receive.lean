import FlashNext.Moe.Checkpoint

/-!
# FlashNext.Moe.Receive

What one call of the loader does with a tensor of an AWQ expert.

On a layer that `create_weights` accepted for AWQ (`AwqLayer`) and whose slice is
cut between whole groups (`Aligned`), every call for a local expert succeeds and
writes the converted slice of its tensor into the shard's rectangle
(`receive_eq`).
-/

namespace FlashNext

variable {α ρ : Type}

/-- The layer's group size divides its sizes and makes up the checkpoint's group size with
`group_size_div_factor`. -/
structure ReducedGroups (L : MoeWNA16Layer α) : Prop where
  groupSize_dvd_intermediate : L.groupSize ∣ L.intermediateSizePerPartition
  groupSize_dvd_hidden : L.groupSize ∣ L.hiddenSize
  groupSize_mul : L.groupSize * L.groupSizeDivFactor = L.quantConfig.groupSize

/-- `create_weights` reduces a power of two so. -/
theorem reducedGroups_of_createWeights {B : RoutedExperts α} {C : MoeWNA16Config}
    {L : MoeWNA16Layer α} (h : B.createWeights C = .ok L) {e : Nat}
    (hgroup : C.groupSize = 2 ^ e) : ReducedGroups L := by
  obtain ⟨hr, hC, hL⟩ := createWeights_eq_ok h
  have hdvd := reduceGroupSize_dvd hr
  rw [hgroup] at hr
  have hmul := reduceGroupSize_mul hr
  constructor
  all_goals simp only [hC, hL]
  · exact hdvd.1
  · exact hdvd.2
  · rw [hmul, hgroup, Nat.mul_one]

namespace ReducedGroups

variable {L : MoeWNA16Layer α}

theorem groupSizeDivFactor_pos (h : ReducedGroups L) : 0 < L.groupSizeDivFactor := by
  have := L.quantConfig.groupSize_pos
  rw [← h.groupSize_mul] at this
  exact Nat.pos_of_mul_pos_left this

theorem groupSize_pos (h : ReducedGroups L) : 0 < L.groupSize := by
  have := L.quantConfig.groupSize_pos
  rw [← h.groupSize_mul] at this
  exact Nat.pos_of_mul_pos_right this

/-- A column of the repeated groups belongs to the checkpoint's group. -/
theorem div_group (h : ReducedGroups L) (k : Nat) :
    k / L.groupSize / L.groupSizeDivFactor = k / L.quantConfig.groupSize := by
  rw [Nat.div_div_eq_div_mul, h.groupSize_mul]

/-- The repeated groups of a matrix are as many as the layer has. -/
theorem groups_mul (h : ReducedGroups L) {inputs : Nat}
    (hdvd : L.quantConfig.groupSize ∣ inputs) :
    inputs / L.quantConfig.groupSize * L.groupSizeDivFactor = inputs / L.groupSize := by
  obtain ⟨groups, rfl⟩ := hdvd
  rw [Nat.mul_div_cancel_left _ L.quantConfig.groupSize_pos, ← h.groupSize_mul, Nat.mul_assoc,
    Nat.mul_div_cancel_left _ h.groupSize_pos, Nat.mul_comm]

end ReducedGroups

/-- A gated layer that `create_weights` made for int4 AWQ with zero points, under a name without
keywords. -/
structure AwqLayer (L : MoeWNA16Layer α) : Prop extends ReducedGroups L where
  method : L.quantConfig.linearQuantMethod = .awq ∨ L.quantConfig.linearQuantMethod = .awqMarlin
  bits : L.quantConfig.weightBits = 4
  zeroPoint : L.quantConfig.hasZp = true
  gated : L.moeConfig.isActAndMul = true
  registered : L.parameters = L.weightParameters L.quantConfig L.groupSize
  named : KeywordFree L.layerName

/-- `create_weights` makes such layers. -/
theorem awqLayer_of_createWeights {B : RoutedExperts α} {C : MoeWNA16Config}
    {L : MoeWNA16Layer α} (h : B.createWeights C = .ok L)
    (hmethod : C.linearQuantMethod = .awq ∨ C.linearQuantMethod = .awqMarlin)
    (hbits : C.weightBits = 4) (hzp : C.hasZp = true) {e : Nat} (hgroup : C.groupSize = 2 ^ e)
    (hgated : B.moeConfig.isActAndMul = true) (hname : KeywordFree B.layerName) : AwqLayer L := by
  have hreduced := reducedGroups_of_createWeights h hgroup
  obtain ⟨-, hC, hL⟩ := createWeights_eq_ok h
  refine ⟨hreduced, ?_, ?_, ?_, ?_, ?_, ?_⟩
  all_goals simp only [hC, hL]
  · exact hmethod
  · exact hbits
  · exact hzp
  · exact hgated
  · rfl
  · exact hname

/-- The shape of the parameter that a tensor is loaded into. -/
def MoeWNA16Layer.paramShape (L : MoeWNA16Layer α) (s : Shard) (p : AwqPart) : Param :=
  let rows := match s with
    | .w2 => L.hiddenSize
    | .w1 | .w3 => 2 * L.intermediateSizePerPartition
  let inputs := s.inputs L.hiddenSize L.intermediateSizePerPartition
  match p with
  | .qweight => ⟨L.moeConfig.numLocalExperts, rows, inputs / 2, .uint8⟩
  | .qzeros => ⟨L.moeConfig.numLocalExperts, rows / 2, inputs / L.groupSize, .uint8⟩
  | .scales => ⟨L.moeConfig.numLocalExperts, rows, inputs / L.groupSize, .params⟩

theorem AwqLayer.getattr_paramName {L : MoeWNA16Layer α} (h : AwqLayer L) (s : Shard)
    (p : AwqPart) : L.getattr (paramName s p) = some (L.paramShape s p) := by
  have hfactor : L.quantConfig.bit8PackFactor = 2 := by
    rw [MoeWNA16Config.bit8PackFactor, h.bits]
  have hshards : L.moeConfig.w13NumShards = 2 := by
    rw [FusedMoEConfig.w13NumShards, h.gated, if_pos rfl]
  rw [RoutedExperts.getattr, h.registered, RoutedExperts.weightParameters, h.zeroPoint, hfactor,
    hshards, if_pos rfl]
  cases s <;> cases p <;> rfl

/-! ## slices -/

/-- A tensor that is as large as its target leaves no padding. -/
theorem narrowExpertDataForPadding_of_le {r : Region} {m : Mat ρ}
    (h : ∀ dim, r.size dim ≤ m.size dim) (hiddenDim : Dim) (shardDim : Option Dim) :
    narrowExpertDataForPadding r m hiddenDim shardDim = r := by
  rw [narrowExpertDataForPadding]
  generalize hiddenDim :: shardDim.toList = dims
  induction dims with
  | nil => rfl
  | cons dim dims ih => rw [List.foldl_cons, narrowPadding, if_neg (Nat.not_lt.2 (h dim)), ih]

/-- The slice of a tensor that is divided evenly among the ranks. -/
theorem slice_bounds (M : FusedMoEConfig) {perRank size : Nat} (h : size = perRank * M.tpSize) :
    size / M.tpSize = perRank ∧ perRank * M.tpRank + perRank ≤ size ∧
      (size ≤ perRank * M.tpRank → perRank = 0) := by
  have htp : 0 < M.tpSize := Nat.zero_lt_of_lt M.tpRank_lt
  have hle : perRank * (M.tpRank + 1) ≤ perRank * M.tpSize :=
    Nat.mul_le_mul_left perRank M.tpRank_lt
  rw [Nat.mul_succ, ← h] at hle
  exact ⟨h ▸ Nat.mul_div_cancel perRank htp, hle, fun hz => by omega⟩

/-- A load into `w13` of a tensor that is divided evenly among the ranks. -/
theorem loadW13_of_even {M : FusedMoEConfig} (hM : M.isActAndMul = true) {perRank cols : Nat}
    {m : Mat ρ} (hr : m.rows = perRank * M.tpSize) (hc : m.cols = cols) {s : Shard}
    (hs : s ≠ .w2) :
    M.loadW13 (Region.whole (2 * perRank) cols) .zero s m =
      .ok (Region.fill ⟨s.firstRow perRank, 0, perRank, cols⟩
        (m.slice .zero (perRank * M.tpRank) perRank)) := by
  obtain ⟨hdiv, hle, hzero⟩ := slice_bounds M hr
  have hshard : M.narrowToShard (Region.whole (2 * perRank) cols) .zero s =
      .ok ⟨s.firstRow perRank, 0, perRank, cols⟩ := by
    have hhalf : M.shardSize ((Region.whole (2 * perRank) cols).size .zero) = perRank := by
      rw [FusedMoEConfig.shardSize, hM, if_pos rfl]
      exact Nat.mul_div_cancel_left perRank (by decide)
    cases s with
    | w1 =>
      show Region.narrow _ _ 0 (M.shardSize _) = _
      rw [hhalf, Region.narrow_of_le (by simp only [Region.whole, Region.size]; omega)]
      rfl
    | w2 => exact absurd rfl hs
    | w3 =>
      show Region.narrow _ _ (M.shardSize _) (M.shardSize _) = _
      rw [hhalf, Region.narrow_of_le (by simp only [Region.whole, Region.size]; omega)]
      simp only [Region.slice, Region.whole, Nat.zero_add, Shard.firstRow]
  unfold FusedMoEConfig.loadW13
  simp only [show m.size .zero = m.rows from rfl, hdiv]
  split
  · -- a rank without rows has nothing to write
    have hz := hzero ‹_›
    congr 1
    funext i j
    symm
    apply Region.fill_eq_none
    simp only [Region.Mem]
    omega
  · rw [Nat.min_eq_left (by omega), Mat.narrow_of_le hle]
    show (M.narrowToShard _ _ _ >>= _) = _
    rw [hshard]
    show Region.copy (narrowExpertDataForPadding _ _ _ _) _ = _
    rw [narrowExpertDataForPadding_of_le]
    · exact Region.copy_of_same_shape rfl hc
    · intro dim
      cases dim with
      | zero => exact Nat.le_refl _
      | one => exact hc.ge

/-- A load into `w2` of a tensor that is divided evenly among the ranks. -/
theorem loadW2_of_even {M : FusedMoEConfig} {perRank rows : Nat} {m : Mat ρ}
    (hc : m.cols = perRank * M.tpSize) (hr : m.rows = rows) :
    M.loadW2 (Region.whole rows perRank) .one m =
      .ok (Region.fill ⟨0, 0, rows, perRank⟩
        (m.slice .one (perRank * M.tpRank) perRank)) := by
  obtain ⟨hdiv, hle, hzero⟩ := slice_bounds M hc
  unfold FusedMoEConfig.loadW2
  simp only [show m.size .one = m.cols from rfl, hdiv]
  split
  · have hz := hzero ‹_›
    congr 1
    funext i j
    symm
    apply Region.fill_eq_none
    simp only [Region.Mem]
    omega
  · rw [Nat.min_eq_left (by omega), Mat.narrow_of_le hle]
    show Region.copy (narrowExpertDataForPadding _ _ _ _) _ = _
    rw [narrowExpertDataForPadding_of_le]
    · exact Region.copy_of_same_shape hr rfl
    · intro dim
      cases dim with
      | zero => exact hr.ge
      | one => exact Nat.le_refl _

/-! ## one call -/

/-- A tensor of an expert as it is loaded: converted, its groups repeated. -/
def MoeWNA16Layer.converted (L : MoeWNA16Layer α) (t : Tensor α) :
    AwqPart → Except PyError (Mat (Elem α))
  | .qweight => Mat.map .uint8 <$> convertAwqTensor L.dtypes t .qweight
  | .qzeros => (fun m => (m.map .uint8).repeatInterleave L.groupSizeDivFactor) <$>
      convertAwqTensor L.dtypes t .qzeros
  | .scales => .ok (t.T.elems.repeatInterleave L.groupSizeDivFactor)

/-- The part of an expert's zeros that a shard is assigned to. -/
def MoeWNA16Layer.qzerosRegion (L : MoeWNA16Layer α) (param : Param) : Shard → Region
  | .w1 => L.w13QzerosRegion param .w1
  | .w2 => Region.whole param.rows param.cols
  | .w3 => L.w13QzerosRegion param .w3

namespace KeywordFree

variable {L : MoeWNA16Layer α}

/-- Weights have no groups to repeat. -/
theorem repeatGroups_qweight (h : KeywordFree L.layerName) (s : Shard) (m : Mat ρ) :
    L.repeatGroups m (L.layerName ++ '.' :: paramName s .qweight) = m := by
  have hqzeros := h.infix_iff (w := "qzeros".toList) (by decide) (by decide) (paramName s .qweight)
  have hscales := h.infix_iff (w := "scales".toList) (by decide) (by decide) (paramName s .qweight)
  rw [qzeros_infix_paramName] at hqzeros
  rw [scales_infix_paramName] at hscales
  unfold MoeWNA16Layer.repeatGroups
  rw [if_neg (by simp only [hqzeros, hscales, reduceCtorEq, and_false, or_false,
    not_false_eq_true])]

/-- The groups of scales are repeated. -/
theorem repeatGroups_scales (h : KeywordFree L.layerName) (s : Shard) (m : Mat ρ) :
    L.repeatGroups m (L.layerName ++ '.' :: paramName s .scales) =
      m.repeatInterleave L.groupSizeDivFactor := by
  have hscales := h.infix_iff (w := "scales".toList) (by decide) (by decide) (paramName s .scales)
  rw [scales_infix_paramName] at hscales
  unfold MoeWNA16Layer.repeatGroups
  rw [if_pos (.inr (hscales.2 rfl))]

/-- Weights and scales take the same branch of the generic loader. -/
theorem loadExpert (h : KeywordFree L.layerName) (s : Shard) {p : AwqPart}
    (hp : p ≠ .qzeros) (r : Region) (m : Mat ρ) :
    L.moeConfig.loadExpert r s m (L.layerName ++ '.' :: paramName s p) =
      some <$> L.moeConfig.loadModelWeightOrGroupWeightScale r s.shardedDim s m := by
  have habsent : ∀ w ∈ ["g_idx".toList, "bias".toList, "input_scale".toList, "weight_shape".toList],
      ¬ w <:+: L.layerName ++ '.' :: paramName s p := by
    intro w hw
    have hkey : ∀ w ∈ ["g_idx".toList, "bias".toList, "input_scale".toList,
        "weight_shape".toList], (∃ v ∈ loaderKeywords, v <:+: w) ∧ '.' ∉ w := by decide
    rw [h.infix_iff (hkey w hw).1 (hkey w hw).2]
    exact not_infix_paramName s p hw
  unfold FusedMoEConfig.loadExpert
  dsimp only
  rw [if_neg (habsent _ (by decide)), if_neg (habsent _ (by decide)),
    if_neg (habsent _ (by decide))]
  by_cases hgroup : "scale".toList <:+: L.layerName ++ '.' :: paramName s p ∨
      "zero".toList <:+: L.layerName ++ '.' :: paramName s p ∨
      "offset".toList <:+: L.layerName ++ '.' :: paramName s p
  · rw [if_pos hgroup]
  · rw [if_neg hgroup, if_neg (habsent _ (by decide)), if_pos]
    cases p with
    | qweight =>
      rw [h.infix_iff (by decide) (by decide), weight_infix_paramName]
    | qzeros => exact absurd rfl hp
    | scales =>
      have hscale : "scale".toList <:+: paramName s .scales := by cases s <;> decide
      exact absurd (.inl ((Str.infix_append_cons (by decide)).2 (.inr hscale))) hgroup

/-- Weights and scales go through the generic loader. -/
theorem storeConverted (h : KeywordFree L.layerName) {expertId slot : Nat}
    (hlocal : L.mapGlobalToLocal expertId = some slot) (s : Shard) {p : AwqPart}
    (hp : p ≠ .qzeros) (param : Param) (hslot : slot < param.numExperts) (m : Mat (Elem α)) :
    L.storeConverted (paramName s p) param (L.layerName ++ '.' :: paramName s p) s expertId m =
      (fun values => ⟨true, L.write (paramName s p) param slot values⟩) <$>
        L.moeConfig.loadModelWeightOrGroupWeightScale (Region.whole param.rows param.cols)
          s.shardedDim s m := by
  have hw13 := h.infix_iff (w := "w13_qzeros".toList) (by decide) (by decide) (paramName s p)
  have hw2 := h.infix_iff (w := "w2_qzeros".toList) (by decide) (by decide) (paramName s p)
  rw [w13Qzeros_infix_paramName] at hw13
  rw [w2Qzeros_infix_paramName] at hw2
  unfold MoeWNA16Layer.storeConverted
  rw [if_neg (fun hw => hp (hw13.1 hw).1), if_neg (fun hw => hp (hw2.1 hw).1)]
  unfold RoutedExperts.weightLoader
  rw [hlocal]
  dsimp only
  rw [if_pos hslot, h.loadExpert s hp]
  cases L.moeConfig.loadModelWeightOrGroupWeightScale (Region.whole param.rows param.cols)
    s.shardedDim s m with
  | error e => rfl
  | ok values => rfl

/-- Zeros are cut out of the converted tensor and assigned. -/
theorem storeConverted_qzeros (h : KeywordFree L.layerName) {expertId slot : Nat}
    (hlocal : L.mapGlobalToLocal expertId = some slot) (s : Shard) (param : Param)
    (m : Mat (Elem α)) :
    L.storeConverted (paramName s .qzeros) param (L.layerName ++ '.' :: paramName s .qzeros) s
        expertId m =
      (m.part s.shardedDim L.moeConfig.tpSize L.moeConfig.tpRank >>=
        L.assign (paramName s .qzeros) param slot (L.qzerosRegion param s)) := by
  have hw13 := h.infix_iff (w := "w13_qzeros".toList) (by decide) (by decide)
    (paramName s .qzeros)
  have hw2 := h.infix_iff (w := "w2_qzeros".toList) (by decide) (by decide)
    (paramName s .qzeros)
  rw [w13Qzeros_infix_paramName] at hw13
  rw [w2Qzeros_infix_paramName] at hw2
  unfold MoeWNA16Layer.storeConverted
  simp only [hlocal]
  cases s with
  | w1 | w3 => rw [if_pos (hw13.2 ⟨rfl, by decide⟩)]; rfl
  | w2 =>
    rw [if_neg (fun hw => (hw13.1 hw).2 rfl), if_pos (hw2.2 ⟨rfl, rfl⟩)]
    rfl

end KeywordFree

namespace AwqLayer

variable {L : MoeWNA16Layer α}

theorem convert_of_weight (h : AwqLayer L) (t : Tensor α) {name : Str}
    (hw : "weight".toList <:+: name) :
    L.convert t name = Mat.map .uint8 <$> convertAwqTensor L.dtypes t .qweight := by
  unfold MoeWNA16Layer.convert
  dsimp only
  cases h.method with
  | inl hm | inr hm => rw [hm, if_pos h.bits, if_pos hw]

theorem convert_of_zeros (h : AwqLayer L) (t : Tensor α) {name : Str}
    (hw : ¬ "weight".toList <:+: name) (hz : "zeros".toList <:+: name) :
    L.convert t name = Mat.map .uint8 <$> convertAwqTensor L.dtypes t .qzeros := by
  unfold MoeWNA16Layer.convert
  dsimp only
  cases h.method with
  | inl hm | inr hm => rw [hm, if_pos h.bits, if_neg hw, if_pos hz]

theorem convert_of_other (h : AwqLayer L) (t : Tensor α) {name : Str}
    (hw : ¬ "weight".toList <:+: name) (hz : ¬ "zeros".toList <:+: name) :
    L.convert t name = .ok t.T.elems := by
  unfold MoeWNA16Layer.convert
  dsimp only
  cases h.method with
  | inl hm | inr hm => rw [hm, if_pos h.bits, if_neg hw, if_neg hz]

/-- The conversion and the repetition under the name of a parameter. -/
theorem convert_bind (h : AwqLayer L) (t : Tensor α) (s : Shard) (p : AwqPart) {β : Type}
    (f : Mat (Elem α) → Except PyError β) :
    (do
      let m ← L.convert t (L.layerName ++ '.' :: paramName s p)
      f (L.repeatGroups m (L.layerName ++ '.' :: paramName s p))) = L.converted t p >>= f := by
  have hweight := h.named.infix_iff (w := "weight".toList) (by decide) (by decide) (paramName s p)
  have hzeros := h.named.infix_iff (w := "zeros".toList) (by decide) (by decide) (paramName s p)
  have hqzeros := h.named.infix_iff (w := "qzeros".toList) (by decide) (by decide) (paramName s p)
  rw [weight_infix_paramName] at hweight
  rw [zeros_infix_paramName] at hzeros
  rw [qzeros_infix_paramName] at hqzeros
  cases p with
  | qweight =>
    rw [h.convert_of_weight t (hweight.2 rfl)]
    simp only [h.named.repeatGroups_qweight]
    rfl
  | qzeros =>
    rw [h.convert_of_zeros t (by simp only [hweight, reduceCtorEq, not_false_eq_true])
      (hzeros.2 rfl)]
    simp only [L.repeatGroups_of_qzeros h.groupSizeDivFactor_pos _ (hqzeros.2 rfl)]
    cases hc : convertAwqTensor L.dtypes t .qzeros with
    | error e => simp only [MoeWNA16Layer.converted, hc]; rfl
    | ok m => simp only [MoeWNA16Layer.converted, hc]; rfl
  | scales =>
    rw [h.convert_of_other t (by simp only [hweight, reduceCtorEq, not_false_eq_true])
      (by simp only [hzeros, reduceCtorEq, not_false_eq_true])]
    show f (L.repeatGroups _ _) = _
    rw [h.named.repeatGroups_scales]
    rfl

/-- A call returns at once for the zeros of another rank's expert, and converts and stores any
other tensor. -/
theorem receive_eq_ite (h : AwqLayer L) (E : L.Expert) (expertId : Nat) (s : Shard)
    (p : AwqPart) :
    L.receive E expertId (s, p) =
      if L.mapGlobalToLocal expertId = none ∧
        ("w13_qzeros".toList <:+: L.layerName ++ '.' :: paramName s p ∨
          "w2_qzeros".toList <:+: L.layerName ++ '.' :: paramName s p) then .ok notLoaded
      else L.converted ((E s).tensor p) p >>=
        L.storeConverted (paramName s p) (L.paramShape s p) (L.layerName ++ '.' :: paramName s p)
          s expertId := by
  have hidx : ¬ "g_idx".toList <:+: L.layerName ++ '.' :: paramName s p := by
    rw [h.named.infix_iff (by decide) (by decide)]
    exact not_infix_paramName s p (by decide)
  have hzp : ¬ (L.quantConfig.hasZp = false ∧
      "qzeros".toList <:+: L.layerName ++ '.' :: paramName s p) := by
    simp only [h.zeroPoint, Bool.true_eq_false, false_and, not_false_eq_true]
  rw [← h.convert_bind _ s p]
  unfold MoeWNA16Layer.receive MoeWNA16Layer.moeWeightLoader
  dsimp only
  rw [h.getattr_paramName]
  dsimp only
  rw [if_neg hidx, if_neg hzp]

theorem receive_of_local (h : AwqLayer L) (E : L.Expert) {expertId slot : Nat}
    (hlocal : L.mapGlobalToLocal expertId = some slot) (s : Shard) (p : AwqPart) :
    L.receive E expertId (s, p) = L.converted ((E s).tensor p) p >>=
      L.storeConverted (paramName s p) (L.paramShape s p) (L.layerName ++ '.' :: paramName s p) s
        expertId := by
  rw [h.receive_eq_ite, if_neg]
  rintro ⟨hremote, -⟩
  rw [hlocal] at hremote
  cases hremote

/-- Zeros are cut out of the converted tensor and assigned. -/
theorem storeConverted_qzeros (h : AwqLayer L) {expertId slot : Nat}
    (hlocal : L.mapGlobalToLocal expertId = some slot) (s : Shard) (param : Param)
    (m : Mat (Elem α)) :
    L.storeConverted (paramName s .qzeros) param (L.layerName ++ '.' :: paramName s .qzeros) s
        expertId m =
      (m.part s.shardedDim L.moeConfig.tpSize L.moeConfig.tpRank >>=
        L.assign (paramName s .qzeros) param slot (L.qzerosRegion param s)) :=
  h.named.storeConverted_qzeros hlocal s param m

/-- Weights and scales go through the generic loader. -/
theorem storeConverted_of_ne_qzeros (h : AwqLayer L) {expertId slot : Nat}
    (hlocal : L.mapGlobalToLocal expertId = some slot) (s : Shard) {p : AwqPart}
    (hp : p ≠ .qzeros) (param : Param) (hslot : slot < param.numExperts) (m : Mat (Elem α)) :
    L.storeConverted (paramName s p) param (L.layerName ++ '.' :: paramName s p) s expertId m =
      (fun values => ⟨true, L.write (paramName s p) param slot values⟩) <$>
        L.moeConfig.loadModelWeightOrGroupWeightScale (Region.whole param.rows param.cols)
          s.shardedDim s m :=
  h.named.storeConverted hlocal s hp param hslot m

end AwqLayer

end FlashNext
