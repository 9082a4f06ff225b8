import FlashNext.Moe.ZeroPoints

/-!
# FlashNext.Moe.GptqZeros

The zero points of an int4 GPTQ checkpoint.

A word holds eight of them along the outputs, each one less than the zero point of
the standard format.  The conversion adds one to both nibbles of a byte and puts them
together again by a sum; a low nibble of 15 becomes 16, which is carried into the
nibble of the next output.

* `zeroPoint_gptqZeros` — what the conversion makes of each zero point;
* `gptqZeros_converted` — the loader stores the conversion, and all zero points are
  converted apart exactly when no even output has a 15.
-/

namespace FlashNext

variable {α : Type}

/-! ## the stored zero points -/

/-- The stored zero point of output `n` in group `g`. -/
def gptqEntry (D : Dtypes α) (t : Tensor α) (n g : Nat) : BitVec 4 :=
  nibble ((t.viewUint8 D).get g (n / 2)) (n % 2)

/-! ## the converted zero points -/

/-- The zero point of output `n` in a tensor that holds two outputs in a byte. -/
def zeroPoint (m : Mat (BitVec 8)) (n j : Nat) : BitVec 4 := nibble (m.get (n / 2) j) (n % 2)

/-- What `moe_wna16_weight_loader` makes of an int4 GPTQ zero-point tensor. -/
def MoeWNA16Layer.gptqZeros (L : MoeWNA16Layer α) (t : Tensor α) (weightName : Str) :
    Mat (BitVec 8) :=
  L.repeatGroups (convertGptqInt4Qzeros (t.viewUint8 L.dtypes)).T weightName

/-- Each zero point is the stored one of its output and group plus one; a group is repeated to
fit the layer's group size. -/
def MoeWNA16Layer.ConvertedApart (L : MoeWNA16Layer α) (t : Tensor α) (weightName : Str) : Prop :=
  let zeros := L.gptqZeros t weightName
  ∀ n < 2 * zeros.rows, ∀ j < zeros.cols,
    zeroPoint zeros n j = gptqEntry L.dtypes t n (j / L.groupSizeDivFactor) + 1

/-- All outputs but `n₀` have the same zero points in `t'` as in `t`. -/
def MoeWNA16Layer.OthersUnchanged (L : MoeWNA16Layer α) (t t' : Tensor α) (weightName : Str)
    (n₀ : Nat) : Prop :=
  let zeros := L.gptqZeros t weightName
  ∀ n < 2 * zeros.rows, n ≠ n₀ → ∀ j < zeros.cols,
    zeroPoint (L.gptqZeros t' weightName) n j = zeroPoint zeros n j

/-- Both nibbles grow by one, and the high one by another if the low one overflows. -/
theorem nibble_increment (b : BitVec 8) {i : Nat} (hi : i < 2) :
    nibble ((((b >>> 0) &&& 0xF) + 1) + (((b >>> 4) &&& 0xF) + 1) * 16) i =
      nibble b i + 1 + if i = 1 ∧ nibble b 0 = 15 then 1 else 0 := by
  have hbytes : ∀ b : BitVec 8, ∀ i < 2,
      nibble ((((b >>> 0) &&& 0xF) + 1) + (((b >>> 4) &&& 0xF) + 1) * 16) i =
        nibble b i + 1 + if i = 1 ∧ nibble b 0 = 15 then 1 else 0 := by decide +kernel
  exact hbytes b i hi

section layer

variable {L : MoeWNA16Layer α} (hfactor : 0 < L.groupSizeDivFactor) {weightName : Str}
  (hqzeros : "qzeros".toList <:+: weightName) (t : Tensor α)
include hfactor hqzeros

theorem gptqZeros_shape :
    (L.gptqZeros t weightName).rows = (t.viewUint8 L.dtypes).cols ∧
      (L.gptqZeros t weightName).cols = (t.viewUint8 L.dtypes).rows * L.groupSizeDivFactor := by
  rw [MoeWNA16Layer.gptqZeros, L.repeatGroups_of_qzeros hfactor _ hqzeros]
  exact ⟨rfl, rfl⟩

/-- A converted zero point is the stored one plus one, plus the carry of the output before it. -/
theorem zeroPoint_gptqZeros (n j : Nat) :
    zeroPoint (L.gptqZeros t weightName) n j =
      gptqEntry L.dtypes t n (j / L.groupSizeDivFactor) + 1 +
        if n % 2 = 1 ∧ gptqEntry L.dtypes t (n - 1) (j / L.groupSizeDivFactor) = 15 then 1
        else 0 := by
  rw [zeroPoint, MoeWNA16Layer.gptqZeros, L.repeatGroups_of_qzeros hfactor _ hqzeros]
  refine (nibble_increment _ (Nat.mod_lt n (by decide))).trans ?_
  have hbefore : n % 2 = 1 → (n - 1) / 2 = n / 2 ∧ (n - 1) % 2 = 0 := by omega
  unfold gptqEntry
  by_cases hodd : n % 2 = 1
  · rw [(hbefore hodd).1, (hbefore hodd).2]
  · simp only [hodd, false_and]

/-- Every zero point is converted apart exactly when no even output has a 15. -/
theorem convertedApart_iff :
    L.ConvertedApart t weightName ↔
      ∀ n < 2 * (t.viewUint8 L.dtypes).cols, ∀ g < (t.viewUint8 L.dtypes).rows,
        n % 2 = 0 → gptqEntry L.dtypes t n g ≠ 15 := by
  obtain ⟨hrows, hcols⟩ := gptqZeros_shape hfactor hqzeros t
  rw [MoeWNA16Layer.ConvertedApart, hrows, hcols]
  constructor
  · intro h n hn g hg heven h15
    -- the next output of the same byte takes the carry
    have hcol : g * L.groupSizeDivFactor / L.groupSizeDivFactor = g := Nat.mul_div_cancel g hfactor
    have hnext := h (n + 1) (by omega) (g * L.groupSizeDivFactor)
      (Nat.mul_lt_mul_of_pos_right hg hfactor)
    rw [zeroPoint_gptqZeros hfactor hqzeros, hcol, Nat.add_sub_cancel,
      if_pos ⟨by omega, h15⟩] at hnext
    revert hnext
    generalize gptqEntry L.dtypes t (n + 1) g = x
    revert x
    decide
  · intro h n hn j hj
    have hg : j / L.groupSizeDivFactor < (t.viewUint8 L.dtypes).rows :=
      Nat.div_lt_of_lt_mul (by rwa [Nat.mul_comm])
    rw [zeroPoint_gptqZeros hfactor hqzeros, if_neg, add_zero]
    rintro ⟨hodd, h15⟩
    exact h (n - 1) (by omega) _ hg (by omega) h15

/-- A changed zero point changes no other output exactly when it is that of an odd output, or the
change neither makes nor removes a 15. -/
theorem othersUnchanged_iff {t' : Tensor α} {n₀ g₀ : Nat}
    (hn₀ : n₀ < 2 * (t.viewUint8 L.dtypes).cols)
    (hg₀ : g₀ < (t.viewUint8 L.dtypes).rows)
    (hsame : ∀ n g, n ≠ n₀ ∨ g ≠ g₀ → gptqEntry L.dtypes t' n g = gptqEntry L.dtypes t n g) :
    L.OthersUnchanged t t' weightName n₀ ↔
      n₀ % 2 = 1 ∨
        (gptqEntry L.dtypes t n₀ g₀ = 15 ↔ gptqEntry L.dtypes t' n₀ g₀ = 15) := by
  obtain ⟨hrows, hcols⟩ := gptqZeros_shape hfactor hqzeros t
  rw [MoeWNA16Layer.OthersUnchanged, hrows, hcols]
  constructor
  · intro h
    by_cases hodd : n₀ % 2 = 1
    · exact Or.inl hodd
    · right
      have hcol : g₀ * L.groupSizeDivFactor / L.groupSizeDivFactor = g₀ :=
        Nat.mul_div_cancel g₀ hfactor
      have hnext := h (n₀ + 1) (by omega) (by omega) (g₀ * L.groupSizeDivFactor)
        (Nat.mul_lt_mul_of_pos_right hg₀ hfactor)
      rw [zeroPoint_gptqZeros hfactor hqzeros, zeroPoint_gptqZeros hfactor hqzeros, hcol,
        Nat.add_sub_cancel, hsame (n₀ + 1) g₀ (Or.inl (by omega)), add_right_inj] at hnext
      have hcarry : (n₀ + 1) % 2 = 1 := by omega
      simp only [hcarry, true_and] at hnext
      split at hnext <;> split at hnext <;> simp_all
  · intro h n hn hne j hj
    rw [zeroPoint_gptqZeros hfactor hqzeros, zeroPoint_gptqZeros hfactor hqzeros,
      hsame n _ (Or.inl hne), add_right_inj]
    by_cases hcell : n - 1 = n₀ ∧ j / L.groupSizeDivFactor = g₀
    · obtain ⟨hbefore, hgroup⟩ := hcell
      rw [hbefore, hgroup]
      rcases h with hodd | hiff
      · rw [if_neg (by omega), if_neg (by omega)]
      · simp only [hiff]
    · rw [hsame (n - 1) _ (by omega)]

end layer

/-! ## through the loader -/

theorem qzeros_infix_of_takenAs {s : Shard} {weightName : Str} (h : TakenAs s weightName) :
    "qzeros".toList <:+: weightName := by
  refine List.IsInfix.trans ?_ h.own
  cases s <;> decide

/-- The loader stores the converted tensor. -/
theorem moeWeightLoader_gptq {L : MoeWNA16Layer α}
    (hmethod : L.quantConfig.linearQuantMethod = .gptq) (hbits : L.quantConfig.weightBits = 4)
    (hzp : L.quantConfig.hasZp = true) {weightName : Str} (hzeros : "zeros".toList <:+: weightName)
    (hweight : ¬ "weight".toList <:+: weightName) (hgIdx : ¬ "g_idx".toList <:+: weightName)
    {expertId expert : Nat} (hlocal : L.mapGlobalToLocal expertId = some expert) (paramName : Str)
    (param : Param) (t : Tensor α) (s : Shard) :
    L.moeWeightLoader paramName param t weightName s expertId =
      L.storeConverted paramName param weightName s expertId
        ((L.gptqZeros t weightName).map .uint8) := by
  have hconvert : L.convert t weightName =
      .ok ((convertGptqInt4Qzeros (t.viewUint8 L.dtypes)).T.map .uint8) := by
    unfold MoeWNA16Layer.convert
    dsimp only
    rw [hmethod]
    dsimp only
    rw [if_pos (Or.inl hbits), if_neg hweight, if_pos hzeros, if_pos hbits]
  have hrepeat : L.repeatGroups ((convertGptqInt4Qzeros (t.viewUint8 L.dtypes)).T.map
      (Elem.uint8 (α := α))) weightName = (L.gptqZeros t weightName).map .uint8 := by
    unfold MoeWNA16Layer.gptqZeros MoeWNA16Layer.repeatGroups
    split <;> rfl
  unfold MoeWNA16Layer.moeWeightLoader
  rw [if_neg hgIdx, if_neg (by simp [hzp]), if_neg (by simp [hlocal]), hconvert]
  dsimp only [Bind.bind, Except.bind]
  rw [hrepeat]

/-- The converted tensor is stored as it is. -/
def MoeWNA16Layer.StoresGptqZeros (L : MoeWNA16Layer α) (t : Tensor α) (weightName : Str)
    (s : Shard) (expertId expert : Nat) : Prop :=
  let zeros := (L.gptqZeros t weightName).map .uint8
  let param := L.qzerosParam s
  let target := L.moeConfig.target (Region.whole param.rows param.cols) s.shardedDim s
  L.moeWeightLoader (paramName s .qzeros) param t weightName s expertId =
    .ok ⟨true, L.write (paramName s .qzeros) param expert
      (target.fill (L.moeConfig.rankSlice s.shardedDim zeros))⟩

section created

variable {B : RoutedExperts α} {C : MoeWNA16Config} {L : MoeWNA16Layer α}
  (hcreate : B.createWeights C = .ok L) (hmethod : C.linearQuantMethod = .gptq)
  (hbits : C.weightBits = 4) (hzp : C.hasZp = true) {s : Shard} {weightName : Str}
  (hname : TakenAs s weightName) (hweight : ¬ "weight".toList <:+: weightName)
  (hgIdx : ¬ "g_idx".toList <:+: weightName) {expertId expert : Nat}
  (hlocal : L.mapGlobalToLocal expertId = some expert)
include hcreate hmethod hbits hzp hname hweight hgIdx hlocal

theorem storesGptqZeros (hexpert : expert < L.moeConfig.numLocalExperts) (t : Tensor α)
    (h : IsQzeros L s ((L.gptqZeros t weightName).map .uint8))
    (hgated : s = .w3 → L.moeConfig.isActAndMul = true) (hhidden : 0 < L.hiddenSize) :
    L.StoresGptqZeros t weightName s expertId expert := by
  have hconfig := (createWeights_eq_ok hcreate).2.1
  have hgroup := groupSize_pos_of_createWeights hcreate
  have htwo : L.quantConfig.bit8PackFactor = 2 := by
    have := factor_of_createWeights hcreate (.inl hbits)
    omega
  have hrows := (h.rankSlice_shape hgroup).2
  rw [htwo] at hrows
  have hzeros : "zeros".toList <:+: weightName :=
    List.IsInfix.trans (by decide) (qzeros_infix_of_takenAs hname)
  rw [MoeWNA16Layer.StoresGptqZeros, moeWeightLoader_gptq (by rw [hconfig, hmethod])
    (by rw [hconfig, hbits]) (by rw [hconfig, hzp]) hzeros hweight hgIdx hlocal]
  refine storeConverted_of_isQzeros h hgroup (by omega) hgated hlocal hexpert hname hhidden ?_
  intro hw2
  have heven : 2 ∣ L.intermediateSizePerPartition := by
    cases s with
    | w1 => exact Dvd.intro _ hrows
    | w2 => exact absurd rfl hw2
    | w3 => exact Dvd.intro _ hrows
  exact .inl ⟨htwo, heven⟩

/-- **The loader stores the conversion, which takes every zero point apart exactly when no even
output has a 15.** -/
theorem gptqZeros_converted (t : Tensor α) :
    (∀ name param, L.moeWeightLoader name param t weightName s expertId =
      L.storeConverted name param weightName s expertId ((L.gptqZeros t weightName).map .uint8)) ∧
    (expert < L.moeConfig.numLocalExperts → IsQzeros L s ((L.gptqZeros t weightName).map .uint8) →
      (s = .w3 → L.moeConfig.isActAndMul = true) → 0 < L.hiddenSize →
      L.StoresGptqZeros t weightName s expertId expert) ∧
    (L.gptqZeros t weightName).rows = (t.viewUint8 L.dtypes).cols ∧
    (L.gptqZeros t weightName).cols = (t.viewUint8 L.dtypes).rows * L.groupSizeDivFactor ∧
    (L.ConvertedApart t weightName ↔
      ∀ n < 2 * (t.viewUint8 L.dtypes).cols, ∀ g < (t.viewUint8 L.dtypes).rows,
        n % 2 = 0 → gptqEntry L.dtypes t n g ≠ 15) ∧
    ∀ t' : Tensor α, ∀ n₀ < 2 * (t.viewUint8 L.dtypes).cols, ∀ g₀ < (t.viewUint8 L.dtypes).rows,
      (∀ n g, n ≠ n₀ ∨ g ≠ g₀ → gptqEntry L.dtypes t' n g = gptqEntry L.dtypes t n g) →
      (L.OthersUnchanged t t' weightName n₀ ↔
        n₀ % 2 = 1 ∨
          (gptqEntry L.dtypes t n₀ g₀ = 15 ↔ gptqEntry L.dtypes t' n₀ g₀ = 15)) := by
  have hfactor : 0 < L.groupSizeDivFactor :=
    reduceGroupSize_factor_pos (createWeights_eq_ok hcreate).1 Nat.one_pos
  have hconfig := (createWeights_eq_ok hcreate).2.1
  have hqzeros := qzeros_infix_of_takenAs hname
  obtain ⟨hrows, hcols⟩ := gptqZeros_shape hfactor hqzeros t
  refine ⟨?_, ?_, hrows, hcols, convertedApart_iff hfactor hqzeros t, ?_⟩
  · intro name param
    exact moeWeightLoader_gptq (by rw [hconfig, hmethod]) (by rw [hconfig, hbits])
      (by rw [hconfig, hzp]) (List.IsInfix.trans (by decide) hqzeros) hweight hgIdx hlocal name
      param t s
  · intro hexpert h hgated hhidden
    exact storesGptqZeros hcreate hmethod hbits hzp hname hweight hgIdx hlocal hexpert t h hgated
      hhidden
  · intro t' n₀ hn₀ g₀ hg₀ hsame
    exact othersUnchanged_iff hfactor hqzeros t hn₀ hg₀ hsame

end created

/-- GPTQ with 4 bits, in groups of 32. -/
def int4Gptq : MoeWNA16Config := { smallGptq with weightBits := 4 }

/-- The layer that `create_weights` makes of `smallExperts` for GPTQ with 4 bits. -/
def gptqLayer : MoeWNA16Layer Nat where
  toRoutedExperts := { smallExperts with parameters := smallExperts.weightParameters int4Gptq 32 }
  quantConfig := int4Gptq
  groupSize := 32
  groupSizeDivFactor := 1

theorem createWeights_gptqLayer : smallExperts.createWeights int4Gptq = .ok gptqLayer := by
  have hreduce : reduceGroupSize smallExperts.intermediateSizePerPartition
      smallExperts.hiddenSize int4Gptq.groupSize 1 = .ok (32, 1) := by
    rw [reduceGroupSize, if_neg (by decide)]
    rfl
  rw [RoutedExperts.createWeights, hreduce]
  rfl

/-- The zero points of the gate, 64 outputs in two groups, all but a word of them zero. -/
def gateWords (word : BitVec 32) : Tensor Nat :=
  .int32 ⟨2, 8, fun g n => if g = 0 ∧ n = 0 then word else 0⟩

/-- With a 14 in the first output all zero points are stored as they should be. -/
theorem gptqZeros_converted_fourteen :
    let name := paramName .w1 .qzeros
    gptqLayer.StoresGptqZeros (gateWords 14) name .w1 3 1 ∧
      gptqLayer.ConvertedApart (gateWords 14) name := by
  have hname : TakenAs .w1 (paramName .w1 .qzeros) := ⟨List.infix_rfl, nofun⟩
  have hlocal : gptqLayer.mapGlobalToLocal 3 = some 1 := rfl
  obtain ⟨-, hstores, -, -, hapart, -⟩ := gptqZeros_converted createWeights_gptqLayer rfl rfl rfl
    hname (by decide) (by decide) hlocal (gateWords 14)
  refine ⟨hstores (by decide) ⟨rfl, rfl, by decide⟩ nofun (by decide), hapart.2 ?_⟩
  decide +kernel

/-- A 15 in the first output is stored as a 0, and makes a 2 of the 0 beside it, which a 14 leaves
a 1. -/
theorem fifteen_carries :
    let name := paramName .w1 .qzeros
    let zeros := fun word => gptqLayer.gptqZeros (gateWords word) name
    gptqLayer.StoresGptqZeros (gateWords 15) name .w1 3 1 ∧
    gptqEntry gptqLayer.dtypes (gateWords 15) 1 0 = 0 ∧
    gptqEntry gptqLayer.dtypes (gateWords 14) 1 0 = 0 ∧
    zeroPoint (zeros 15) 1 0 = 2 ∧ zeroPoint (zeros 14) 1 0 = 1 ∧
    ¬ gptqLayer.ConvertedApart (gateWords 15) name ∧
    ¬ gptqLayer.OthersUnchanged (gateWords 14) (gateWords 15) name 0 := by
  have hname : TakenAs .w1 (paramName .w1 .qzeros) := ⟨List.infix_rfl, nofun⟩
  have hlocal : gptqLayer.mapGlobalToLocal 3 = some 1 := rfl
  have hstores := storesGptqZeros createWeights_gptqLayer rfl rfl rfl hname (by decide) (by decide)
    hlocal (by decide) (gateWords 15) ⟨rfl, rfl, by decide⟩ nofun (by decide)
  refine ⟨hstores, by decide +kernel, by decide +kernel, by decide +kernel, by decide +kernel,
    ?_, ?_⟩
  · intro h
    exact absurd (h 1 (by decide +kernel) 0 (by decide +kernel)) (by decide +kernel)
  · intro h
    exact absurd (h 1 (by decide +kernel) (by decide) 0 (by decide +kernel)) (by decide +kernel)

end FlashNext
