import FlashNext.Moe.Checkpoint
import FlashNext.Moe.TensorParallel

/-!
# FlashNext.Moe.ZeroPoints

The two branches of `moe_wna16_weight_loader` that store zero points themselves.

They split the converted tensor by the ranks and assign a rank's part to rows of the
parameter; the loader they bypass narrows both.  For a zero-point tensor of the layer
the parts are the same (`part_eq_ok_rankSlice`), so all depends on the rows assigned to:

* `qzeros_agree_iff` — both store the same, and gate and up tile `w13_qzeros`, exactly
  when the weights have 4 bits (or the layer is empty).
-/

namespace FlashNext

variable {α : Type}

/-! ## the loader that is bypassed -/

/-- What `RoutedExperts.weight_loader` does with zero points. -/
def RoutedExperts.groupPath (L : RoutedExperts α) (name : Str) (param : Param)
    (loadedWeight : Mat (Elem α)) (shardId : Shard) (expertId : Nat) :
    Except PyError (Loaded α) :=
  match L.mapGlobalToLocal expertId with
  | none => .ok notLoaded
  | some expert =>
    if expert < param.numExperts then do
      let values ← L.moeConfig.loadModelWeightOrGroupWeightScale
        (Region.whole param.rows param.cols) shardId.shardedDim shardId loadedWeight
      return ⟨true, L.write name param expert values⟩
    else .error .indexError

theorem weightLoader_eq_groupPath (L : RoutedExperts α) (name : Str) (param : Param)
    (m : Mat (Elem α)) {weightName : Str} (s : Shard) (expertId : Nat)
    (hbias : ¬ "bias".toList <:+: weightName) (hscale : ¬ "input_scale".toList <:+: weightName)
    (hgIdx : ¬ "g_idx".toList <:+: weightName) (hzero : "zero".toList <:+: weightName) :
    L.weightLoader name param m weightName s expertId = L.groupPath name param m s expertId := by
  have hload : L.moeConfig.loadExpert (Region.whole param.rows param.cols) s m weightName =
      some <$> L.moeConfig.loadModelWeightOrGroupWeightScale (Region.whole param.rows param.cols)
        s.shardedDim s m := by
    unfold FusedMoEConfig.loadExpert
    rw [if_neg hbias, if_neg hscale, if_neg hgIdx, if_pos (.inr (.inl hzero))]
  rw [RoutedExperts.weightLoader, RoutedExperts.groupPath]
  cases L.mapGlobalToLocal expertId with
  | none => rfl
  | some expert =>
    dsimp only
    rw [hload]
    cases L.moeConfig.loadModelWeightOrGroupWeightScale (Region.whole param.rows param.cols)
      s.shardedDim s m <;> rfl

/-! ## a zero-point tensor of the layer -/

variable {L : MoeWNA16Layer α}

/-- A tensor has the shape of a shard's zero points: `bit8_pack_factor` outputs in a byte, a
column for each group of inputs, and as many parts as there are ranks. -/
structure IsQzeros (L : MoeWNA16Layer α) (s : Shard) (m : Mat (Elem α)) : Prop where
  packed : L.quantConfig.bit8PackFactor * m.rows = s.outputs L.hiddenSize L.intermediateSize
  grouped : m.cols * L.groupSize = s.inputs L.hiddenSize L.intermediateSize
  shared : L.moeConfig.tpSize ∣ m.size s.shardedDim

/-- The parameter that `create_weights` registers for a shard's zero points. -/
def MoeWNA16Layer.qzerosParam (L : MoeWNA16Layer α) (s : Shard) : Param :=
  let C := L.quantConfig
  let numExperts := L.moeConfig.numLocalExperts
  match s with
  | .w2 =>
    ⟨numExperts, L.hiddenSize / C.bit8PackFactor, L.intermediateSizePerPartition / L.groupSize,
      .uint8⟩
  | .w1 | .w3 =>
    ⟨numExperts,
      L.moeConfig.w13NumShards * L.intermediateSizePerPartition / C.bit8PackFactor,
      L.hiddenSize / L.groupSize, .uint8⟩

theorem getattr_qzeros {B : RoutedExperts α} {C : MoeWNA16Config}
    (hcreate : B.createWeights C = .ok L) (hzp : C.hasZp = true) (s : Shard) :
    L.getattr (paramName s .qzeros) = some (L.qzerosParam s) := by
  obtain ⟨-, rfl, hL⟩ := createWeights_eq_ok hcreate
  have hregistered : L.parameters = L.weightParameters L.quantConfig L.groupSize := by
    rw [hL]
    rfl
  rw [RoutedExperts.getattr, hregistered, RoutedExperts.weightParameters, hzp, if_pos rfl]
  cases s <;> rfl

/-- A rank's part of a zero-point tensor has the parameter's columns, and a byte for every
`bit8_pack_factor` outputs of its slice. -/
theorem IsQzeros.rankSlice_shape {s : Shard} {m : Mat (Elem α)} (h : IsQzeros L s m)
    (hgroup : 0 < L.groupSize) :
    (L.moeConfig.rankSlice s.shardedDim m).cols = (L.qzerosParam s).cols ∧
      L.quantConfig.bit8PackFactor * (L.moeConfig.rankSlice s.shardedDim m).rows =
        s.outputs L.hiddenSize L.intermediateSizePerPartition := by
  have htp : 0 < L.moeConfig.tpSize := Nat.zero_lt_of_lt L.moeConfig.tpRank_lt
  have hcols : m.cols = s.inputs L.hiddenSize L.intermediateSize / L.groupSize :=
    (Nat.div_eq_of_eq_mul_left hgroup h.grouped.symm).symm
  have hsharded := Nat.div_mul_cancel h.shared
  have hpacked := h.packed
  have hgrouped := h.grouped
  cases s with
  | w1 =>
    refine ⟨hcols, Nat.eq_of_mul_eq_mul_right htp ?_⟩
    rw [Nat.mul_assoc]
    exact (congrArg _ hsharded).trans hpacked
  | w2 =>
    refine ⟨?_, hpacked⟩
    refine (Nat.div_eq_of_eq_mul_left hgroup (Nat.eq_of_mul_eq_mul_right htp ?_)).symm
    rw [Nat.mul_right_comm]
    exact hgrouped.symm.trans (congrArg (· * _) hsharded.symm)
  | w3 =>
    refine ⟨hcols, Nat.eq_of_mul_eq_mul_right htp ?_⟩
    rw [Nat.mul_assoc]
    exact (congrArg _ hsharded).trans hpacked

/-! ## what the two do with it -/

/-- The part of the parameter that the branches assign to. -/
def MoeWNA16Layer.assignedRegion (L : MoeWNA16Layer α) (s : Shard) : Region :=
  let param := L.qzerosParam s
  match s with
  | .w2 => Region.whole param.rows param.cols
  | .w1 | .w3 => L.w13QzerosRegion param s

/-- A weight name that the branch of a shard takes. -/
structure TakenAs (s : Shard) (weightName : Str) : Prop where
  own : paramName s .qzeros <:+: weightName
  first : s = .w2 → ¬ "w13_qzeros".toList <:+: weightName

section calls

variable {s : Shard} {m : Mat (Elem α)} {r : Region} {expertId expert : Nat} {loaded : Loaded α}

theorem groupPath_eq_ok (hlocal : L.mapGlobalToLocal expertId = some expert)
    (hexpert : expert < L.moeConfig.numLocalExperts) :
    L.groupPath (paramName s .qzeros) (L.qzerosParam s) m s expertId = .ok loaded ↔
      ∃ values, L.moeConfig.loadModelWeightOrGroupWeightScale
          (Region.whole (L.qzerosParam s).rows (L.qzerosParam s).cols) s.shardedDim s m =
            .ok values ∧
        ⟨true, L.write (paramName s .qzeros) (L.qzerosParam s) expert values⟩ = loaded := by
  have hnum : expert < (L.qzerosParam s).numExperts := by
    cases s <;> exact hexpert
  rw [RoutedExperts.groupPath, hlocal]
  dsimp only
  rw [if_pos hnum, bind_pure_comp, map_eq_ok]

theorem assign_eq_ok (hexpert : expert < L.moeConfig.numLocalExperts) :
    L.assign (paramName s .qzeros) (L.qzerosParam s) expert r m = .ok loaded ↔
      ∃ values, r.copy m = .ok values ∧
        ⟨true, L.write (paramName s .qzeros) (L.qzerosParam s) expert values⟩ = loaded := by
  have hnum : expert < (L.qzerosParam s).numExperts := by
    cases s <;> exact hexpert
  rw [MoeWNA16Layer.assign, if_pos hnum, bind_pure_comp, map_eq_ok]

theorem part_eq_ok_rankSlice (hshared : L.moeConfig.tpSize ∣ m.size s.shardedDim)
    {n : Mat (Elem α)} :
    m.part s.shardedDim L.moeConfig.tpSize L.moeConfig.tpRank = .ok n ↔
      0 < m.size s.shardedDim.other ∧ n = L.moeConfig.rankSlice s.shardedDim m := by
  rw [Mat.part_eq_ok, FusedMoEConfig.rankSlice, Nat.mul_comm L.moeConfig.tpRank]
  exact and_congr_right fun _ =>
    ⟨fun h => h.2.2, fun h => ⟨L.moeConfig.tpRank_lt, hshared, h⟩⟩

theorem storeConverted_eq_ok (hshared : L.moeConfig.tpSize ∣ m.size s.shardedDim)
    {weightName : Str} (hname : TakenAs s weightName)
    (hlocal : L.mapGlobalToLocal expertId = some expert)
    (hexpert : expert < L.moeConfig.numLocalExperts) :
    L.storeConverted (paramName s .qzeros) (L.qzerosParam s) weightName s expertId m = .ok loaded ↔
      0 < m.size s.shardedDim.other ∧ ∃ values,
        (L.assignedRegion s).copy (L.moeConfig.rankSlice s.shardedDim m) = .ok values ∧
        ⟨true, L.write (paramName s .qzeros) (L.qzerosParam s) expert values⟩ = loaded := by
  have hstore : L.storeConverted (paramName s .qzeros) (L.qzerosParam s) weightName s expertId m =
      m.part s.shardedDim L.moeConfig.tpSize L.moeConfig.tpRank >>=
        L.assign (paramName s .qzeros) (L.qzerosParam s) expert (L.assignedRegion s) := by
    unfold MoeWNA16Layer.storeConverted
    cases s with
    | w1 =>
      have hown : "w13_qzeros".toList <:+: weightName := hname.own
      rw [if_pos hown, hlocal]
      rfl
    | w2 =>
      have hown : "w2_qzeros".toList <:+: weightName := hname.own
      rw [if_neg (hname.first rfl), if_pos hown, hlocal]
      rfl
    | w3 =>
      have hown : "w13_qzeros".toList <:+: weightName := hname.own
      rw [if_pos hown, hlocal]
      rfl
  rw [hstore, bind_eq_ok]
  constructor
  · rintro ⟨n, hn, hassign⟩
    obtain ⟨hpos, rfl⟩ := (part_eq_ok_rankSlice hshared).1 hn
    exact ⟨hpos, (assign_eq_ok hexpert).1 hassign⟩
  · rintro ⟨hpos, hcopy⟩
    exact ⟨_, (part_eq_ok_rankSlice hshared).2 ⟨hpos, rfl⟩, (assign_eq_ok hexpert).2 hcopy⟩

/-- One of the projections stacked in `w13`. -/
theorem shardSize_mul (M : FusedMoEConfig) (n : Nat) : M.shardSize (M.w13NumShards * n) = n := by
  rw [FusedMoEConfig.shardSize, FusedMoEConfig.w13NumShards]
  by_cases hgated : M.isActAndMul = true
  · rw [if_pos hgated, if_pos hgated, Nat.mul_div_cancel_left _ (by decide)]
  · rw [if_neg hgated, if_neg hgated, Nat.one_mul]

/-- With two outputs in a byte, half of the outputs is the rows of one projection. -/
theorem shardSize_qzeros
    (hbits : L.quantConfig.bit8PackFactor = 2 ∧ 2 ∣ L.intermediateSizePerPartition ∨
      L.intermediateSizePerPartition = 0) :
    (L.qzerosParam .w1).rows = L.moeConfig.w13NumShards * (L.intermediateSizePerPartition / 2) ∧
      L.moeConfig.shardSize (L.qzerosParam .w1).rows = L.intermediateSizePerPartition / 2 := by
  have hrows : (L.qzerosParam .w1).rows =
      L.moeConfig.w13NumShards * (L.intermediateSizePerPartition / 2) := by
    show L.moeConfig.w13NumShards * L.intermediateSizePerPartition /
      L.quantConfig.bit8PackFactor = _
    obtain ⟨hfactor, hdvd⟩ | hzero := hbits
    · rw [hfactor, Nat.mul_div_assoc _ hdvd]
    · rw [hzero, Nat.mul_zero, Nat.zero_div]
  exact ⟨hrows, hrows ▸ shardSize_mul L.moeConfig _⟩

/-- The rows the branches assign to are those the bypassed loader fills. -/
theorem assignedRegion_eq_target (s : Shard)
    (hgated : s = .w3 → L.moeConfig.isActAndMul = true)
    (hbits : s ≠ .w2 → L.quantConfig.bit8PackFactor = 2 ∧ 2 ∣ L.intermediateSizePerPartition ∨
      L.intermediateSizePerPartition = 0) :
    L.assignedRegion s = L.moeConfig.target
      (Region.whole (L.qzerosParam s).rows (L.qzerosParam s).cols) s.shardedDim s := by
  by_cases hw2 : s = .w2
  · rw [hw2]
    rfl
  obtain ⟨hrows, hshard⟩ := shardSize_qzeros (hbits hw2)
  have hnum : 0 < L.moeConfig.w13NumShards := by
    rw [FusedMoEConfig.w13NumShards]
    split <;> decide
  have hmin : min (L.intermediateSizePerPartition / 2) (L.qzerosParam .w1).rows =
      L.moeConfig.shardSize (L.qzerosParam .w1).rows := by
    rw [hshard, hrows]
    exact Nat.min_eq_left (Nat.le_mul_of_pos_left _ hnum)
  cases s with
  | w1 =>
    show Region.slice _ .zero 0 (min _ _) = Region.slice _ .zero 0 (L.moeConfig.shardSize _)
    rw [hmin]
    rfl
  | w2 => exact absurd rfl hw2
  | w3 =>
    have hrest : (L.qzerosParam .w1).rows - L.moeConfig.shardSize (L.qzerosParam .w1).rows =
        L.moeConfig.shardSize (L.qzerosParam .w1).rows := by
      rw [hshard, hrows, FusedMoEConfig.w13NumShards, hgated rfl, if_pos rfl]
      omega
    show Region.slice _ .zero (min (L.intermediateSizePerPartition / 2) (L.qzerosParam .w1).rows)
      ((L.qzerosParam .w1).rows -
        min (L.intermediateSizePerPartition / 2) (L.qzerosParam .w1).rows) = _
    rw [hmin, hrest]
    rfl

/-- A rank's part of a zero-point tensor has the shape of what the bypassed loader fills. -/
theorem IsQzeros.target_shape (h : IsQzeros L s m) (hgroup : 0 < L.groupSize)
    (hfactor : 0 < L.quantConfig.bit8PackFactor)
    (hgated : s = .w3 → L.moeConfig.isActAndMul = true) :
    let param := Region.whole (L.qzerosParam s).rows (L.qzerosParam s).cols
    let target := L.moeConfig.target param s.shardedDim s
    let part := L.moeConfig.rankSlice s.shardedDim m
    (part.rows = target.rows ∧ part.cols = target.cols) ∧
      (s = .w3 → L.moeConfig.shardSize (param.size s.shardedDim) +
        L.moeConfig.shardSize (param.size s.shardedDim) ≤ param.size s.shardedDim) := by
  obtain ⟨hcols, hrows⟩ := h.rankSlice_shape hgroup
  have hw13 : s ≠ .w2 → (L.qzerosParam .w1).rows =
      L.moeConfig.w13NumShards * (L.moeConfig.rankSlice s.shardedDim m).rows := by
    intro hs
    have hrows' : L.quantConfig.bit8PackFactor * (L.moeConfig.rankSlice s.shardedDim m).rows =
        L.intermediateSizePerPartition := by
      cases s <;> trivial
    show L.moeConfig.w13NumShards * L.intermediateSizePerPartition /
      L.quantConfig.bit8PackFactor = _
    rw [← hrows', Nat.mul_left_comm, Nat.mul_div_cancel_left _ hfactor]
  have hshard : s ≠ .w2 → L.moeConfig.shardSize (L.qzerosParam .w1).rows =
      (L.moeConfig.rankSlice s.shardedDim m).rows :=
    fun hs => by rw [hw13 hs, shardSize_mul]
  cases s with
  | w1 => exact ⟨⟨(hshard nofun).symm, hcols⟩, nofun⟩
  | w2 => exact ⟨⟨(Nat.div_eq_of_eq_mul_right hfactor hrows.symm).symm, hcols⟩, nofun⟩
  | w3 =>
    refine ⟨⟨(hshard nofun).symm, hcols⟩, fun _ => ?_⟩
    show L.moeConfig.shardSize (L.qzerosParam .w1).rows +
      L.moeConfig.shardSize (L.qzerosParam .w1).rows ≤ (L.qzerosParam .w1).rows
    rw [hshard nofun, hw13 nofun, FusedMoEConfig.w13NumShards, hgated rfl, if_pos rfl]
    omega

/-- The bypassed loader accepts every zero-point tensor. -/
theorem groupPath_of_isQzeros (h : IsQzeros L s m) (hgroup : 0 < L.groupSize)
    (hfactor : 0 < L.quantConfig.bit8PackFactor)
    (hgated : s = .w3 → L.moeConfig.isActAndMul = true)
    (hlocal : L.mapGlobalToLocal expertId = some expert)
    (hexpert : expert < L.moeConfig.numLocalExperts) :
    let param := Region.whole (L.qzerosParam s).rows (L.qzerosParam s).cols
    L.groupPath (paramName s .qzeros) (L.qzerosParam s) m s expertId =
      .ok ⟨true, L.write (paramName s .qzeros) (L.qzerosParam s) expert
        ((L.moeConfig.target param s.shardedDim s).fill
          (L.moeConfig.rankSlice s.shardedDim m))⟩ := by
  obtain ⟨⟨hrows, hcols⟩, hw3⟩ := h.target_shape hgroup hfactor hgated
  exact (groupPath_eq_ok hlocal hexpert).2
    ⟨_, load_of_same_shape L.moeConfig _ s.shardedDim s hw3 hrows hcols, rfl⟩

/-- The branches accept it too where they assign to the same rows and it is not empty. -/
theorem storeConverted_of_isQzeros (h : IsQzeros L s m) (hgroup : 0 < L.groupSize)
    (hfactor : 0 < L.quantConfig.bit8PackFactor)
    (hgated : s = .w3 → L.moeConfig.isActAndMul = true)
    (hlocal : L.mapGlobalToLocal expertId = some expert)
    (hexpert : expert < L.moeConfig.numLocalExperts) {weightName : Str}
    (hname : TakenAs s weightName) (hhidden : 0 < L.hiddenSize)
    (hbits : s ≠ .w2 → L.quantConfig.bit8PackFactor = 2 ∧ 2 ∣ L.intermediateSizePerPartition ∨
      L.intermediateSizePerPartition = 0) :
    let param := Region.whole (L.qzerosParam s).rows (L.qzerosParam s).cols
    L.storeConverted (paramName s .qzeros) (L.qzerosParam s) weightName s expertId m =
      .ok ⟨true, L.write (paramName s .qzeros) (L.qzerosParam s) expert
        ((L.moeConfig.target param s.shardedDim s).fill
          (L.moeConfig.rankSlice s.shardedDim m))⟩ := by
  obtain ⟨⟨hrows, hcols⟩, -⟩ := h.target_shape hgroup hfactor hgated
  refine (storeConverted_eq_ok h.shared hname hlocal hexpert).2 ⟨?_, _, ?_, rfl⟩
  · have hgrouped := h.grouped
    have hpacked := h.packed
    cases s with
    | w1 => exact Nat.pos_of_mul_pos_right (hhidden.trans_eq hgrouped.symm)
    | w2 => exact Nat.pos_of_mul_pos_left (hhidden.trans_eq hpacked.symm)
    | w3 => exact Nat.pos_of_mul_pos_right (hhidden.trans_eq hgrouped.symm)
  · rw [assignedRegion_eq_target s hgated hbits]
    exact Region.copy_of_same_shape hrows hcols

end calls

/-! ## agreement -/

/-- The branches and the loader they bypass do the same with a tensor. -/
def QzerosAgree (L : MoeWNA16Layer α) (s : Shard) (m : Mat (Elem α)) (expertId : Nat) : Prop :=
  ∀ param, L.getattr (paramName s .qzeros) = some param → ∀ weightName, TakenAs s weightName →
    ∀ loaded, L.storeConverted (paramName s .qzeros) param weightName s expertId m = .ok loaded ↔
      L.groupPath (paramName s .qzeros) param m s expertId = .ok loaded

/-- The branches accept gate and up, and each cell of the expert's block is written by one of
them. -/
def QzerosTile (L : MoeWNA16Layer α) (gate up : Mat (Elem α)) (expertId expert : Nat) : Prop :=
  ∀ param, L.getattr (paramName .w1 .qzeros) = some param →
    ∀ weightName, TakenAs .w1 weightName → ∃ w1 w3,
      L.storeConverted (paramName .w1 .qzeros) param weightName .w1 expertId gate = .ok w1 ∧
      L.storeConverted (paramName .w3 .qzeros) param weightName .w3 expertId up = .ok w3 ∧
      ∀ row < param.rows, ∀ col < param.cols,
        let cell : Cell := ⟨paramName .w1 .qzeros, expert, row, col⟩
        (w1.patch cell).isSome ≠ (w3.patch cell).isSome

/-- An expert's zero points are stored as the bypassed loader would store them; a layer without
gates has no third shard. -/
structure ZeroPointsAgree (L : MoeWNA16Layer α) (gate up down : Mat (Elem α))
    (expertId expert : Nat) : Prop where
  w1 : QzerosAgree L .w1 gate expertId
  w2 : QzerosAgree L .w2 down expertId
  w3 : L.moeConfig.isActAndMul = true → QzerosAgree L .w3 up expertId
  tile : L.moeConfig.isActAndMul = true → QzerosTile L gate up expertId expert

theorem write_isSome (L : RoutedExperts α) (name : Str) (param : Param) (expert : Nat)
    (values : Values (Elem α)) (row col : Nat) :
    (L.write name param expert values ⟨name, expert, row, col⟩).isSome =
      (values row col).isSome := by
  rw [RoutedExperts.write, if_pos ⟨rfl, rfl⟩, Option.isSome_map]

theorem paramName_w3 (p : AwqPart) : paramName .w3 p = paramName .w1 p := rfl

section layer

variable {B : RoutedExperts α} {C : MoeWNA16Config} {expertId expert : Nat}

theorem groupSize_pos_of_createWeights (hcreate : B.createWeights C = .ok L) : 0 < L.groupSize :=
  reduceGroupSize_pos (createWeights_eq_ok hcreate).1 C.groupSize_pos

theorem factor_of_createWeights (hcreate : B.createWeights C = .ok L)
    (hbits : C.weightBits = 4 ∨ C.weightBits = 8) :
    C.weightBits = 4 ∧ L.quantConfig.bit8PackFactor = 2 ∨
      C.weightBits = 8 ∧ L.quantConfig.bit8PackFactor = 1 := by
  rw [(createWeights_eq_ok hcreate).2.1, MoeWNA16Config.bit8PackFactor]
  exact hbits.imp (fun h => ⟨h, by rw [h]⟩) fun h => ⟨h, by rw [h]⟩

theorem qzerosAgree_of_regions (hcreate : B.createWeights C = .ok L) (hzp : C.hasZp = true)
    (hfactor : 0 < L.quantConfig.bit8PackFactor)
    (hlocal : L.mapGlobalToLocal expertId = some expert)
    (hexpert : expert < L.moeConfig.numLocalExperts) {s : Shard} {m : Mat (Elem α)}
    (h : IsQzeros L s m) (hgated : s = .w3 → L.moeConfig.isActAndMul = true)
    (hhidden : 0 < L.hiddenSize)
    (hbits : L.quantConfig.bit8PackFactor = 2 ∧ 2 ∣ L.intermediateSizePerPartition ∨
      L.intermediateSizePerPartition = 0) : QzerosAgree L s m expertId := by
  have hgroup := groupSize_pos_of_createWeights hcreate
  intro param hparam weightName hname loaded
  cases (getattr_qzeros hcreate hzp s).symm.trans hparam
  rw [storeConverted_of_isQzeros h hgroup hfactor hgated hlocal hexpert hname hhidden
    fun _ => hbits,
    groupPath_of_isQzeros h hgroup hfactor hgated hlocal hexpert]

theorem qzerosTile_of_regions (hcreate : B.createWeights C = .ok L) (hzp : C.hasZp = true)
    (hfactor : 0 < L.quantConfig.bit8PackFactor)
    (hlocal : L.mapGlobalToLocal expertId = some expert)
    (hexpert : expert < L.moeConfig.numLocalExperts) {gate up : Mat (Elem α)}
    (hgate : IsQzeros L .w1 gate) (hup : IsQzeros L .w3 up)
    (hgated : L.moeConfig.isActAndMul = true) (hhidden : 0 < L.hiddenSize)
    (hbits : L.quantConfig.bit8PackFactor = 2 ∧ 2 ∣ L.intermediateSizePerPartition ∨
      L.intermediateSizePerPartition = 0) : QzerosTile L gate up expertId expert := by
  have hgroup := groupSize_pos_of_createWeights hcreate
  intro param hparam weightName hname
  cases (getattr_qzeros hcreate hzp .w1).symm.trans hparam
  refine ⟨_, _, storeConverted_of_isQzeros hgate hgroup hfactor nofun hlocal hexpert hname hhidden
    fun _ => hbits, storeConverted_of_isQzeros hup hgroup hfactor (fun _ => hgated) hlocal hexpert
    ⟨hname.own, nofun⟩ hhidden fun _ => hbits, ?_⟩
  obtain ⟨hrows, hshard⟩ := shardSize_qzeros hbits
  rw [FusedMoEConfig.w13NumShards, hgated, if_pos rfl] at hrows
  intro row hrow col hcol cell
  -- gate fills the first half of the rows, up the second
  have hw1 : (Region.slice (Region.whole (L.qzerosParam .w1).rows (L.qzerosParam .w1).cols) .zero 0
      (L.moeConfig.shardSize (L.qzerosParam .w1).rows)).Mem row col ↔
      row < L.intermediateSizePerPartition / 2 := by
    simp only [Region.Mem, Region.slice, Region.whole, hshard]
    omega
  have hw3 : (Region.slice (Region.whole (L.qzerosParam .w1).rows (L.qzerosParam .w1).cols) .zero
      (L.moeConfig.shardSize (L.qzerosParam .w1).rows)
      (L.moeConfig.shardSize (L.qzerosParam .w1).rows)).Mem row col ↔
      ¬ row < L.intermediateSizePerPartition / 2 := by
    simp only [Region.Mem, Region.slice, Region.whole, hshard]
    omega
  simp only [cell, paramName_w3, write_isSome, Region.fill_isSome, ne_eq, decide_eq_decide]
  exact fun hsame => iff_not_self (hw1.symm.trans (hsame.trans hw3))

/-- What the branch stores if it agrees with the bypassed loader. -/
theorem QzerosAgree.storeConverted (hcreate : B.createWeights C = .ok L) (hzp : C.hasZp = true)
    (hfactor : 0 < L.quantConfig.bit8PackFactor)
    (hlocal : L.mapGlobalToLocal expertId = some expert)
    (hexpert : expert < L.moeConfig.numLocalExperts) {gate : Mat (Elem α)}
    (hgate : IsQzeros L .w1 gate) (h : QzerosAgree L .w1 gate expertId) :
    let param := Region.whole (L.qzerosParam .w1).rows (L.qzerosParam .w1).cols
    let part := L.moeConfig.rankSlice .zero gate
    0 < gate.cols ∧ ∃ values, (L.assignedRegion .w1).copy part = .ok values ∧
      ∀ row col, (values row col).isSome =
        ((L.moeConfig.target param .zero .w1).fill part row col).isSome := by
  have hgroup := groupSize_pos_of_createWeights hcreate
  have hname : TakenAs .w1 (paramName .w1 .qzeros) := ⟨List.infix_rfl, nofun⟩
  have hstore := (h _ (getattr_qzeros hcreate hzp .w1) _ hname _).2
    (groupPath_of_isQzeros hgate hgroup hfactor nofun hlocal hexpert)
  obtain ⟨hpos, values, hcopy, hloaded⟩ :=
    (storeConverted_eq_ok hgate.shared hname hlocal hexpert).1 hstore
  refine ⟨hpos, values, hcopy, fun row col => ?_⟩
  rw [Loaded.mk.injEq] at hloaded
  have hcell := congrArg Option.isSome
    (congrFun hloaded.2 ⟨paramName .w1 .qzeros, expert, row, col⟩)
  rwa [write_isSome, write_isSome] at hcell

/-- A branch that expects two outputs in a byte only agrees on nothing where there is one. -/
theorem QzerosAgree.eq_zero (hcreate : B.createWeights C = .ok L) (hzp : C.hasZp = true)
    (hfactor : L.quantConfig.bit8PackFactor = 1)
    (hlocal : L.mapGlobalToLocal expertId = some expert)
    (hexpert : expert < L.moeConfig.numLocalExperts) {gate : Mat (Elem α)}
    (hgate : IsQzeros L .w1 gate) (h : QzerosAgree L .w1 gate expertId) :
    L.intermediateSizePerPartition = 0 := by
  have hgroup := groupSize_pos_of_createWeights hcreate
  have hpos : 0 < L.quantConfig.bit8PackFactor := by omega
  obtain ⟨hcols, values, hcopy, hcells⟩ := h.storeConverted hcreate hzp hpos hlocal hexpert hgate
  have hrows := (hgate.rankSlice_shape hgroup).2
  rw [hfactor, Nat.one_mul] at hrows
  rw [Region.copy_eq_ok] at hcopy
  have hhalf : (L.assignedRegion .w1).rows ≤ L.intermediateSizePerPartition / 2 :=
    Nat.min_le_left _ _
  by_contra hne
  -- the tensor has more rows than are assigned to, unless it has one, which is then dropped
  have hone : L.intermediateSizePerPartition = 1 := by
    have hfits := hcopy.1.1
    change (L.moeConfig.rankSlice .zero gate).rows = L.intermediateSizePerPartition at hrows
    omega
  obtain ⟨⟨htrows, htcols⟩, -⟩ := hgate.target_shape hgroup hpos nofun
  have hcell := hcells 0 0
  rw [hcopy.2, Region.fill_isSome, Region.fill_isSome, decide_eq_decide] at hcell
  have hmem : (L.assignedRegion .w1).Mem 0 0 := by
    refine hcell.2 ⟨Nat.le_refl 0, ?_, Nat.le_refl 0, ?_⟩
    · exact Nat.add_pos_right _ (htrows ▸ hrows ▸ hone ▸ Nat.one_pos)
    · exact Nat.add_pos_right _ (htcols ▸ hcols)
  have hrow : (L.assignedRegion .w1).row = 0 := rfl
  have hlt := hmem.2.1
  omega

/-- **The branches store zero points as the loader they bypass exactly when a byte holds two.** -/
theorem zeroPointsAgree_iff (hcreate : B.createWeights C = .ok L) (hzp : C.hasZp = true)
    (hbits : C.weightBits = 4 ∨ C.weightBits = 8)
    (hlocal : L.mapGlobalToLocal expertId = some expert)
    (hexpert : expert < L.moeConfig.numLocalExperts) {gate up down : Mat (Elem α)}
    (hgate : IsQzeros L .w1 gate) (hup : IsQzeros L .w3 up) (hdown : IsQzeros L .w2 down) :
    ZeroPointsAgree L gate up down expertId expert ↔
      0 < L.hiddenSize ∧ (C.weightBits = 4 ∨ L.intermediateSizePerPartition = 0) := by
  have hgroup := groupSize_pos_of_createWeights hcreate
  have hfactor := factor_of_createWeights hcreate hbits
  have hpos : 0 < L.quantConfig.bit8PackFactor := by omega
  constructor
  · intro h
    constructor
    · have hcols := (h.w1.storeConverted hcreate hzp hpos hlocal hexpert hgate).1
      exact (Nat.mul_pos hcols hgroup).trans_eq hgate.grouped
    · obtain ⟨hfour, -⟩ | ⟨-, hone⟩ := hfactor
      · exact .inl hfour
      · exact .inr (h.w1.eq_zero hcreate hzp hone hlocal hexpert hgate)
  · rintro ⟨hhidden, hbits⟩
    have hregions : L.quantConfig.bit8PackFactor = 2 ∧ 2 ∣ L.intermediateSizePerPartition ∨
        L.intermediateSizePerPartition = 0 := by
      refine hbits.imp_left fun hfour => ?_
      have htwo : L.quantConfig.bit8PackFactor = 2 := by omega
      have hrows := (hgate.rankSlice_shape hgroup).2
      rw [htwo] at hrows
      exact ⟨htwo, _, hrows.symm⟩
    have hagree := fun s m (hm : IsQzeros L s m) hgated => qzerosAgree_of_regions hcreate hzp hpos
      hlocal hexpert hm hgated hhidden hregions
    exact {
      w1 := hagree .w1 gate hgate nofun
      w2 := hagree .w2 down hdown nofun
      w3 := fun hgated => hagree .w3 up hup fun _ => hgated
      tile := fun hgated => qzerosTile_of_regions hcreate hzp hpos hlocal hexpert hgate hup hgated
        hhidden hregions }

end layer

/-- Zero points of one byte in `rows` rows and two groups. -/
def twoGroups (rows : Nat) : Mat (Elem Nat) := ⟨rows, 2, fun i j => .uint8 (BitVec.ofNat 8 (i + j))⟩

/-- The zero points of the small AWQ layer are stored as the bypassed loader would. -/
theorem zeroPointsAgree_smallLayer :
    ZeroPointsAgree smallLayer (twoGroups 32) (twoGroups 32) (twoGroups 32) 3 1 :=
  (zeroPointsAgree_iff createWeights_smallExperts rfl (.inl rfl) rfl (by decide)
    ⟨rfl, rfl, by decide⟩ ⟨rfl, rfl, by decide⟩ ⟨rfl, rfl, by decide⟩).2 ⟨by decide, .inl rfl⟩

/-- GPTQ with 8 bits, in groups of 32. -/
def smallGptq : MoeWNA16Config := ⟨.gptq, 8, 32, true, by decide⟩

/-- The layer that `create_weights` makes of `smallExperts` for 8 bits. -/
def byteLayer : MoeWNA16Layer Nat where
  toRoutedExperts := { smallExperts with parameters := smallExperts.weightParameters smallGptq 32 }
  quantConfig := smallGptq
  groupSize := 32
  groupSizeDivFactor := 1

theorem createWeights_byteLayer : smallExperts.createWeights smallGptq = .ok byteLayer := by
  have hreduce : reduceGroupSize smallExperts.intermediateSizePerPartition
      smallExperts.hiddenSize smallGptq.groupSize 1 = .ok (32, 1) := by
    rw [reduceGroupSize, if_neg (by decide)]
    rfl
  rw [RoutedExperts.createWeights, hreduce]
  rfl

/-- With 8 bits the branch refuses a gate tensor that the bypassed loader stores. -/
theorem byte_zero_points_refused :
    let name := paramName .w1 .qzeros
    (∃ loaded, byteLayer.groupPath name (byteLayer.qzerosParam .w1) (twoGroups 64) .w1 3 =
      .ok loaded) ∧
    (∀ loaded, byteLayer.storeConverted name (byteLayer.qzerosParam .w1) name .w1 3 (twoGroups 64) ≠
      .ok loaded) ∧
    ¬ ZeroPointsAgree byteLayer (twoGroups 64) (twoGroups 64) (twoGroups 64) 3 1 := by
  have hgate : IsQzeros byteLayer .w1 (twoGroups 64) := ⟨rfl, rfl, by decide⟩
  refine ⟨⟨_, groupPath_of_isQzeros hgate (by decide) (by decide) nofun rfl (by decide)⟩, ?_, ?_⟩
  · intro loaded hloaded
    obtain ⟨-, values, hcopy, -⟩ := (storeConverted_eq_ok hgate.shared ⟨List.infix_rfl, nofun⟩ rfl
      (by decide)).1 hloaded
    exact absurd (Region.copy_eq_ok.1 hcopy).1.1 (by decide)
  · intro h
    exact absurd (h.w1.eq_zero createWeights_byteLayer rfl rfl rfl (by decide) hgate) (by decide)

end FlashNext
