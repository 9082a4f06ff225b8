import FlashNext.Moe.Tiles
import FlashNext.Moe.GptqZeros

/-!
# FlashNext.Moe.Gptq

A GPTQ expert arrives whole.

A GPTQ checkpoint packs the weights of neighbouring inputs into a word, the lowest first, which is
how the layer packs them into bytes, and comes with tensors that the layer does not use: the order
of the inputs, and zero points of symmetric weights.

* `packedEntry_wordByte` — a byte of a word holds a part of its entries;
* `receiveGptq_part`, `receiveGptq_ignored` — what one call of the loader writes;
* `gptqExpert_loaded` — after the calls, in any order, the rank holds its slice of the expert.
-/

namespace FlashNext

variable {α : Type}

/-! ## packed entries -/

/-- Entry `i` of a word or a byte that holds entries of `bits` bits, the first in the lowest. -/
def packedEntry {w : Nat} (bits : Nat) (x : BitVec w) (i : Nat) : BitVec bits :=
  x.extractLsb' (bits * i) bits

/-- An entry of a byte of a word is an entry of the word. -/
theorem packedEntry_wordByte {bits per : Nat} (h : bits * per = 8) (w : BitVec 32) {i : Nat}
    (hi : i < per) (j : Nat) :
    packedEntry bits (wordByte w j) i = packedEntry bits w (per * j + i) := by
  ext t ht
  have hlt : bits * i + t < 8 := by
    have hnext := Nat.mul_le_mul_left bits (Nat.succ_le_of_lt hi)
    rw [Nat.mul_succ, h] at hnext
    omega
  have hplace : 8 * j + (bits * i + t) = bits * (per * j + i) + t := by
    rw [← h]
    ring
  simp only [packedEntry, wordByte, BitVec.getElem_extractLsb', BitVec.getLsbD_extractLsb', hlt,
    hplace, decide_true, Bool.true_and]

/-! ## checkpoints -/

/-- A matrix in the layout of a GPTQ checkpoint: words of neighbouring inputs, words of zero points
of neighbouring outputs, and the order in which the inputs were quantized. -/
structure GptqMatrix (α : Type) (bits inputs outputs groupSize : Nat) where
  qweight : Mat (BitVec 32)
  qzeros : Mat (BitVec 32)
  scales : Mat α
  gIdx : Mat (BitVec 32)
  qweight_rows : 32 / bits * qweight.rows = inputs
  qweight_cols : qweight.cols = outputs
  qzeros_rows : qzeros.rows = inputs / groupSize
  qzeros_cols : 32 / bits * qzeros.cols = outputs
  scales_rows : scales.rows = inputs / groupSize
  scales_cols : scales.cols = outputs

namespace GptqMatrix

variable {bits inputs outputs groupSize : Nat}

/-- The logical weight of input `k` and output `n`. -/
def q (M : GptqMatrix α bits inputs outputs groupSize) (k n : Nat) : BitVec bits :=
  packedEntry bits (M.qweight.get (k / (32 / bits)) n) (k % (32 / bits))

/-- The stored zero point of group `g` and output `n`, one less than the logical one. -/
def storedZero (M : GptqMatrix α bits inputs outputs groupSize) (g n : Nat) : BitVec bits :=
  packedEntry bits (M.qzeros.get g (n / (32 / bits))) (n % (32 / bits))

/-- The scale of group `g` and output `n`. -/
def scale (M : GptqMatrix α bits inputs outputs groupSize) (g n : Nat) : α := M.scales.get g n

/-- No even output has the largest zero point, whose successor is carried into the next output's. -/
def NoCarry (M : GptqMatrix α bits inputs outputs groupSize) : Prop :=
  ∀ n < outputs, ∀ g < inputs / groupSize, n % 2 = 0 → M.storedZero g n ≠ BitVec.allOnes bits

end GptqMatrix

/-- The tensors of a GPTQ matrix: those of an AWQ one and the order of the inputs. -/
inductive GptqPart where
  | part (p : AwqPart)
  | gIdx
deriving DecidableEq, Repr

/-- The parameter that a tensor of a shard is named for. -/
def gptqParamName (s : Shard) : GptqPart → Str
  | .part p => paramName s p
  | .gIdx => s.paramPrefix ++ "g_idx".toList

def GptqMatrix.tensor {bits inputs outputs groupSize : Nat}
    (M : GptqMatrix α bits inputs outputs groupSize) : GptqPart → Tensor α
  | .part .qweight => .int32 M.qweight
  | .part .qzeros => .int32 M.qzeros
  | .part .scales => .float M.scales
  | .gIdx => .int32 M.gIdx

/-! ## the layer -/

/-- `invalid_param_keys`: what is registered because the checkpoint has it. -/
def MoeWNA16Config.invalidParamKeys (C : MoeWNA16Config) : List Str :=
  ["w13_g_idx".toList, "w2_g_idx".toList] ++
    if C.hasZp then [] else ["w13_qzeros".toList, "w2_qzeros".toList]

/-- `create_weights` with what it registers for GPTQ; the loader never looks at `placeholder`, the
empty parameter under the invalid keys. -/
def RoutedExperts.createGptqWeights (B : RoutedExperts α) (C : MoeWNA16Config)
    (placeholder : Param) : Except PyError (MoeWNA16Layer α) := do
  let L ← B.createWeights C
  return { L with
    parameters := L.parameters ++ C.invalidParamKeys.map fun key => (key, placeholder) }

/-- An expert of a layer's GPTQ checkpoint. -/
abbrev MoeWNA16Layer.GptqExpert (L : MoeWNA16Layer α) :=
  (s : Shard) → GptqMatrix α L.quantConfig.weightBits
    (s.inputs L.hiddenSize L.intermediateSize)
    (s.outputs L.hiddenSize L.intermediateSize) L.quantConfig.groupSize

/-- The loader's call for one tensor of an expert. -/
def MoeWNA16Layer.receiveGptq (L : MoeWNA16Layer α) (E : L.GptqExpert) (expertId : Nat)
    (call : Shard × GptqPart) : Except PyError (Loaded α) :=
  let name := gptqParamName call.1 call.2
  match L.getattr name with
  | some param =>
    L.moeWeightLoader name param ((E call.1).tensor call.2) (L.layerName ++ '.' :: name) call.1
      expertId
  | none => .error (.attributeError "no such parameter")

/-- The calls one after another. -/
def MoeWNA16Layer.receiveGptqAll (L : MoeWNA16Layer α) (E : L.GptqExpert) (expertId : Nat) :
    List (Shard × GptqPart) → Params α → Except PyError (Params α) :=
  Patch.runAll fun call => Loaded.patch <$> L.receiveGptq E expertId call

/-- The tensors of an expert. -/
def gptqCalls : List (Shard × GptqPart) :=
  [Shard.w1, .w2, .w3].flatMap fun s =>
    [.part .qweight, .part .qzeros, .part .scales, .gIdx].map fun p => (s, p)

/-- The slot holds the layer's slice of the expert: for an output `n` and an input `k` of the
slice, the weight and the scale that the layer reads are the checkpoint's, and the zero point is the
stored one plus one. -/
structure HoldsGptqExpert (L : MoeWNA16Layer α) (E : L.GptqExpert) (slot : Nat) (st : Params α) :
    Prop where
  weight : ∀ s : Shard, ∀ n < s.outputs L.hiddenSize L.intermediateSizePerPartition,
    ∀ k < s.inputs L.hiddenSize L.intermediateSizePerPartition,
    let row := s.firstRow L.intermediateSizePerPartition + n
    ∃ b, st ⟨paramName s .qweight, slot, row, k / L.quantConfig.bit8PackFactor⟩ = .uint8 b ∧
      packedEntry L.quantConfig.weightBits b (k % L.quantConfig.bit8PackFactor) =
        (E s).q (s.globalInput L.intermediateSizePerPartition L.moeConfig.tpRank k)
          (s.globalOutput L.intermediateSizePerPartition L.moeConfig.tpRank n)
  zero : L.quantConfig.hasZp = true → ∀ s : Shard, (E s).NoCarry →
    ∀ n < s.outputs L.hiddenSize L.intermediateSizePerPartition,
    ∀ k < s.inputs L.hiddenSize L.intermediateSizePerPartition,
    let row := s.firstRow L.intermediateSizePerPartition + n
    ∃ b, st ⟨paramName s .qzeros, slot, row / L.quantConfig.bit8PackFactor, k / L.groupSize⟩ =
        .uint8 b ∧
      packedEntry L.quantConfig.weightBits b (row % L.quantConfig.bit8PackFactor) =
        (E s).storedZero
          (s.globalInput L.intermediateSizePerPartition L.moeConfig.tpRank k /
            L.quantConfig.groupSize)
          (s.globalOutput L.intermediateSizePerPartition L.moeConfig.tpRank n) + 1
  scale : ∀ s : Shard, ∀ n < s.outputs L.hiddenSize L.intermediateSizePerPartition,
    ∀ k < s.inputs L.hiddenSize L.intermediateSizePerPartition,
    let row := s.firstRow L.intermediateSizePerPartition + n
    st ⟨paramName s .scales, slot, row, k / L.groupSize⟩ =
      .float (L.dtypes.toParams (.float ((E s).scale
        (s.globalInput L.intermediateSizePerPartition L.moeConfig.tpRank k /
          L.quantConfig.groupSize)
        (s.globalOutput L.intermediateSizePerPartition L.moeConfig.tpRank n))))

/-- A gated layer that `create_weights` made for GPTQ, with zero points if they have 4 bits, under
a name without keywords. -/
structure GptqLayer (L : MoeWNA16Layer α) (placeholder : Param) : Prop extends
    ReducedGroups L where
  method : L.quantConfig.linearQuantMethod = .gptq
  bits : L.quantConfig.weightBits = 4 ∨ L.quantConfig.weightBits = 8
  zeroPoint : L.quantConfig.hasZp = true → L.quantConfig.weightBits = 4
  gated : L.moeConfig.isActAndMul = true
  registered : L.parameters = L.weightParameters L.quantConfig L.groupSize ++
    L.quantConfig.invalidParamKeys.map fun key => (key, placeholder)
  named : KeywordFree L.layerName

/-- `create_weights` makes such layers. -/
theorem gptqLayer_of_createGptqWeights {B : RoutedExperts α} {C : MoeWNA16Config}
    {placeholder : Param} {L : MoeWNA16Layer α} (h : B.createGptqWeights C placeholder = .ok L)
    (hmethod : C.linearQuantMethod = .gptq) (hbits : C.weightBits = 4 ∨ C.weightBits = 8)
    (hzp : C.hasZp = true → C.weightBits = 4) {e : Nat} (hgroup : C.groupSize = 2 ^ e)
    (hgated : B.moeConfig.isActAndMul = true) (hname : KeywordFree B.layerName) :
    GptqLayer L placeholder := by
  obtain ⟨L₀, hcreate, hL⟩ := bind_eq_ok.1 h
  cases hL
  have hreduced := reducedGroups_of_createWeights hcreate hgroup
  obtain ⟨-, hC, hL⟩ := createWeights_eq_ok hcreate
  refine ⟨⟨hreduced.groupSize_dvd_intermediate, hreduced.groupSize_dvd_hidden,
    hreduced.groupSize_mul⟩, ?_, ?_, ?_, ?_, ?_, ?_⟩
  all_goals simp only [hC, hL]
  · exact hmethod
  · exact hbits
  · exact hzp
  · exact hgated
  · rfl
  · exact hname

/-- The slice of a rank is cut between whole groups and whole bytes. -/
structure GptqAligned (L : MoeWNA16Layer α) : Prop where
  hidden_pos : 0 < L.hiddenSize
  bytes_dvd : L.quantConfig.bit8PackFactor ∣ L.intermediateSizePerPartition
  dvd_hidden : L.quantConfig.groupSize ∣ L.hiddenSize
  dvd_intermediate : L.quantConfig.groupSize ∣ L.intermediateSize

/-- The parameter that a tensor is loaded into. -/
def MoeWNA16Layer.gptqParam (L : MoeWNA16Layer α) (s : Shard) (p : AwqPart) : Param :=
  let rows := match s with
    | .w2 => L.hiddenSize
    | .w1 | .w3 => 2 * L.intermediateSizePerPartition
  let inputs := s.inputs L.hiddenSize L.intermediateSizePerPartition
  let bit8PackFactor := L.quantConfig.bit8PackFactor
  match p with
  | .qweight => ⟨L.moeConfig.numLocalExperts, rows, inputs / bit8PackFactor, .uint8⟩
  | .qzeros =>
    ⟨L.moeConfig.numLocalExperts, rows / bit8PackFactor, inputs / L.groupSize, .uint8⟩
  | .scales => ⟨L.moeConfig.numLocalExperts, rows, inputs / L.groupSize, .params⟩

/-- A tensor as it is loaded: converted, its groups repeated. -/
def MoeWNA16Layer.gptqConverted (L : MoeWNA16Layer α) (t : Tensor α) : AwqPart → Mat (Elem α)
  | .qweight => (t.T.viewUint8 L.dtypes).map .uint8
  | .qzeros => ((convertGptqInt4Qzeros (t.viewUint8 L.dtypes)).T.map .uint8).repeatInterleave
      L.groupSizeDivFactor
  | .scales => t.T.elems.repeatInterleave L.groupSizeDivFactor

namespace GptqLayer

variable {L : MoeWNA16Layer α} {placeholder : Param}

theorem factor_mul (h : GptqLayer L placeholder) :
    L.quantConfig.weightBits * L.quantConfig.bit8PackFactor = 8 ∧
      32 / L.quantConfig.weightBits = 4 * L.quantConfig.bit8PackFactor := by
  rw [MoeWNA16Config.bit8PackFactor]
  rcases h.bits with hbits | hbits
  · rw [hbits]
    exact ⟨rfl, rfl⟩
  · rw [hbits]
    exact ⟨rfl, rfl⟩

theorem factor_pos (h : GptqLayer L placeholder) : 0 < L.quantConfig.bit8PackFactor := by
  have := h.factor_mul.1
  exact Nat.pos_of_ne_zero fun hzero => by simp [hzero] at this

theorem factor_of_hasZp (h : GptqLayer L placeholder) (hzp : L.quantConfig.hasZp = true) :
    L.quantConfig.bit8PackFactor = 2 := by
  rw [MoeWNA16Config.bit8PackFactor, h.zeroPoint hzp]

/-- The outputs and inputs that an entry of a parameter serves. -/
def tile (h : GptqLayer L placeholder) : AwqPart → Tile
  | .qweight => ⟨1, L.quantConfig.bit8PackFactor, Nat.one_pos, h.factor_pos⟩
  | .qzeros => ⟨L.quantConfig.bit8PackFactor, L.groupSize, h.factor_pos, h.groupSize_pos⟩
  | .scales => ⟨1, L.groupSize, Nat.one_pos, h.groupSize_pos⟩

/-! ## shapes -/

theorem getattr_part (h : GptqLayer L placeholder) (s : Shard) {p : AwqPart}
    (hp : p = .qzeros → L.quantConfig.hasZp = true) :
    L.getattr (paramName s p) = some (L.gptqParam s p) := by
  have hshards : L.moeConfig.w13NumShards = 2 := by
    rw [FusedMoEConfig.w13NumShards, h.gated, if_pos rfl]
  rw [RoutedExperts.getattr, h.registered, RoutedExperts.weightParameters, hshards]
  cases hzp : L.quantConfig.hasZp with
  | true => cases s <;> cases p <;> rfl
  | false =>
    cases p with
    | qweight | scales => cases s <;> rfl
    | qzeros => exact absurd (hzp ▸ hp rfl) (by decide)

/-- What the layer does not use finds the placeholder. -/
theorem getattr_ignored (h : GptqLayer L placeholder) (s : Shard) {p : GptqPart}
    (hp : p = .gIdx ∨ p = .part .qzeros ∧ L.quantConfig.hasZp = false) :
    L.getattr (gptqParamName s p) = some placeholder := by
  rw [RoutedExperts.getattr, h.registered, RoutedExperts.weightParameters,
    MoeWNA16Config.invalidParamKeys]
  rcases hp with rfl | ⟨rfl, hzp⟩
  · cases hzp : L.quantConfig.hasZp <;> cases s <;> rfl
  · rw [hzp]
    cases s <;> rfl

/-- Words of four bytes. -/
theorem words_div (h : GptqLayer L placeholder) {words size : Nat}
    (hwords : 32 / L.quantConfig.weightBits * words = size) :
    size = L.quantConfig.bit8PackFactor * (4 * words) ∧
      4 * words = size / L.quantConfig.bit8PackFactor := by
  have hsize : size = L.quantConfig.bit8PackFactor * (4 * words) := by
    rw [← hwords, h.factor_mul.2, Nat.mul_comm 4, Nat.mul_assoc]
  refine ⟨hsize, ?_⟩
  rw [hsize, Nat.mul_div_cancel_left _ h.factor_pos]

/-- Words of inputs make the hidden size a multiple of the packing. -/
theorem factor_dvd_hidden (h : GptqLayer L placeholder) (E : L.GptqExpert) :
    L.quantConfig.bit8PackFactor ∣ L.hiddenSize :=
  Dvd.intro _ (h.words_div (E .w1).qweight_rows).1.symm

/-- The slices are cut between whole tiles. -/
theorem cuts (h : GptqLayer L placeholder) (ha : GptqAligned L) (E : L.GptqExpert) (s : Shard)
    (p : AwqPart) : (h.tile p).Cuts L.toRoutedExperts s := by
  have hdvd : ∀ dim, (h.tile p).size dim ∣ L.intermediateSizePerPartition ∧
      (h.tile p).size dim ∣ L.hiddenSize := by
    have hone := And.intro (one_dvd L.intermediateSizePerPartition) (one_dvd L.hiddenSize)
    have hbytes := And.intro ha.bytes_dvd (h.factor_dvd_hidden E)
    have hgroups := And.intro h.groupSize_dvd_intermediate h.groupSize_dvd_hidden
    intro dim
    cases p <;> cases dim <;> first | exact hone | exact hbytes | exact hgroups
  exact ⟨(hdvd _).1, (hdvd _).2⟩

/-- A slot of a parameter consists of the tiles that are loaded into it. -/
theorem whole_gptqParam (h : GptqLayer L placeholder) (ha : GptqAligned L) (s : Shard)
    (p : AwqPart) :
    Region.whole (L.gptqParam s p).rows (L.gptqParam s p).cols =
      L.toRoutedExperts.tileWhole (h.tile p) s := by
  have hbytes := Nat.mul_div_assoc 2 ha.bytes_dvd
  cases s <;> cases p <;>
    simp [MoeWNA16Layer.gptqParam, RoutedExperts.tileWhole, tile, Shard.inputs, hbytes]

theorem dvd_inputs (ha : GptqAligned L) (s : Shard) :
    L.quantConfig.groupSize ∣ s.inputs L.hiddenSize L.intermediateSize := by
  cases s with
  | w1 | w3 => exact ha.dvd_hidden
  | w2 => exact ha.dvd_intermediate

/-- A converted tensor has the tiles of the whole matrix. -/
theorem tiled (h : GptqLayer L placeholder) (ha : GptqAligned L) (E : L.GptqExpert) (s : Shard)
    {p : AwqPart} (hp : p = .qzeros → L.quantConfig.hasZp = true) :
    Tiled L.toRoutedExperts (h.tile p) s (L.gptqConverted ((E s).tensor (.part p)) p) := by
  have hgroups := h.groups_mul (dvd_inputs ha s)
  cases p with
  | qweight =>
    exact ⟨(E s).qweight_cols.trans (Nat.div_one _).symm, (h.words_div (E s).qweight_rows).2⟩
  | qzeros =>
    refine ⟨(h.words_div (E s).qzeros_cols).2, ?_⟩
    show (E s).qzeros.rows * L.groupSizeDivFactor = _ / L.groupSize
    rw [(E s).qzeros_rows, hgroups]
  | scales =>
    refine ⟨(E s).scales_cols.trans (Nat.div_one _).symm, ?_⟩
    show (E s).scales.rows * L.groupSizeDivFactor = _ / L.groupSize
    rw [(E s).scales_rows, hgroups]

/-! ## entries -/

/-- An entry of a byte of packed words is the entry of the words. -/
theorem packedEntry_byte (h : GptqLayer L placeholder) (words : Nat → BitVec 32) (i : Nat) :
    packedEntry L.quantConfig.weightBits
        (wordByte (words (i / L.quantConfig.bit8PackFactor / 4))
          (i / L.quantConfig.bit8PackFactor % 4)) (i % L.quantConfig.bit8PackFactor) =
      packedEntry L.quantConfig.weightBits (words (i / (32 / L.quantConfig.weightBits)))
        (i % (32 / L.quantConfig.weightBits)) := by
  rw [packedEntry_wordByte h.factor_mul.1 _ (Nat.mod_lt i h.factor_pos), h.factor_mul.2,
    Nat.mul_comm 4, Nat.mod_mul, ← Nat.div_div_eq_div_mul, Nat.add_comm (i % _)]

/-- A converted weight. -/
theorem converted_weight (h : GptqLayer L placeholder) (E : L.GptqExpert) (s : Shard) (n k : Nat) :
    ∃ b, (L.gptqConverted ((E s).tensor (.part .qweight)) .qweight).get (n / 1)
        (k / L.quantConfig.bit8PackFactor) = .uint8 b ∧
      packedEntry L.quantConfig.weightBits b (k % L.quantConfig.bit8PackFactor) =
        (E s).q k n := by
  rw [Nat.div_one]
  exact ⟨_, rfl, h.packedEntry_byte (fun j => (E s).qweight.get j n) k⟩

/-- The successor of a stored zero point, with no carry from the one before it. -/
theorem packedEntry_convertGptqInt4Qzeros {bits : Nat} (hbits : bits = 4) (m : Mat (BitVec 8))
    (g j : Nat) {i : Nat} (hi : i < 2)
    (hlow : i = 1 → packedEntry bits (m.get g j) 0 ≠ BitVec.allOnes bits) :
    packedEntry bits ((convertGptqInt4Qzeros m).get g j) i =
      packedEntry bits (m.get g j) i + 1 := by
  subst hbits
  have hnibble := nibble_increment (m.get g j) hi
  rw [if_neg (fun hcarry => hlow hcarry.1 hcarry.2), add_zero] at hnibble
  exact hnibble

/-- A converted zero point. -/
theorem converted_zero (h : GptqLayer L placeholder) (ha : GptqAligned L)
    (hzp : L.quantConfig.hasZp = true) (E : L.GptqExpert) {s : Shard} (hcarry : (E s).NoCarry)
    {n k : Nat} (hn : n < s.outputs L.hiddenSize L.intermediateSize)
    (hk : k < s.inputs L.hiddenSize L.intermediateSize) :
    ∃ b, (L.gptqConverted ((E s).tensor (.part .qzeros)) .qzeros).get
        (n / L.quantConfig.bit8PackFactor) (k / L.groupSize) = .uint8 b ∧
      packedEntry L.quantConfig.weightBits b (n % L.quantConfig.bit8PackFactor) =
        (E s).storedZero (k / L.quantConfig.groupSize) n + 1 := by
  have hgroup := h.div_group k
  have hfactor := h.factor_of_hasZp hzp
  have hentry := h.packedEntry_byte fun j => (E s).qzeros.get (k / L.quantConfig.groupSize) j
  have hg := Nat.div_lt_div_of_lt_of_dvd (dvd_inputs ha s) hk
  refine ⟨_, rfl, ?_⟩
  show _ = packedEntry _ _ _ + 1
  rw [← hentry n, hgroup]
  refine packedEntry_convertGptqInt4Qzeros (h.zeroPoint hzp) _ _ _
    (hfactor ▸ Nat.mod_lt n h.factor_pos) ?_
  intro hodd
  -- the other half of the byte is the output before this one
  have hbefore := hentry (n - 1)
  rw [hfactor] at hodd hbefore ⊢
  have hbyte : (n - 1) / 2 = n / 2 ∧ (n - 1) % 2 = 0 := by omega
  rw [hbyte.1, hbyte.2] at hbefore
  exact fun hmax => hcarry (n - 1) (by omega) _ hg hbyte.2 (hbefore.symm.trans hmax)

/-! ## one call -/

/-- The conversion and the repetition under the name of a parameter. -/
theorem convert_bind (h : GptqLayer L placeholder) (t : Tensor α) (s : Shard) {p : AwqPart}
    (hp : p = .qzeros → L.quantConfig.hasZp = true) {β : Type}
    (f : Mat (Elem α) → Except PyError β) :
    (do
      let m ← L.convert t (L.layerName ++ '.' :: paramName s p)
      f (L.repeatGroups m (L.layerName ++ '.' :: paramName s p))) = f (L.gptqConverted t p) := by
  have hweight := h.named.infix_iff (w := "weight".toList) (by decide) (by decide) (paramName s p)
  have hzeros := h.named.infix_iff (w := "zeros".toList) (by decide) (by decide) (paramName s p)
  have hqzeros := h.named.infix_iff (w := "qzeros".toList) (by decide) (by decide) (paramName s p)
  rw [weight_infix_paramName] at hweight
  rw [zeros_infix_paramName] at hzeros
  rw [qzeros_infix_paramName] at hqzeros
  unfold MoeWNA16Layer.convert
  simp only [h.method, if_pos h.bits, hweight, hzeros]
  cases p with
  | qweight =>
    show f (L.repeatGroups _ _) = _
    rw [h.named.repeatGroups_qweight]
    rfl
  | qzeros =>
    simp only [reduceCtorEq, if_false, if_true, h.zeroPoint (hp rfl)]
    show f (L.repeatGroups _ _) = _
    rw [L.repeatGroups_of_qzeros h.groupSizeDivFactor_pos _ (hqzeros.2 rfl)]
    rfl
  | scales =>
    show f (L.repeatGroups _ _) = _
    rw [h.named.repeatGroups_scales]
    rfl

theorem receiveGptq_of_getattr (E : L.GptqExpert) (expertId : Nat) {s : Shard} {p : GptqPart}
    {param : Param} (hparam : L.getattr (gptqParamName s p) = some param) :
    L.receiveGptq E expertId (s, p) =
      L.moeWeightLoader (gptqParamName s p) param ((E s).tensor p)
        (L.layerName ++ '.' :: gptqParamName s p) s expertId := by
  unfold MoeWNA16Layer.receiveGptq
  dsimp only
  rw [hparam]

/-- A call for a tensor that the layer uses converts and stores it, unless it is the zeros of
another rank's expert. -/
theorem receiveGptq_eq_ite (h : GptqLayer L placeholder) (E : L.GptqExpert) (expertId : Nat)
    (s : Shard) {p : AwqPart} (hp : p = .qzeros → L.quantConfig.hasZp = true) :
    L.receiveGptq E expertId (s, .part p) =
      if L.mapGlobalToLocal expertId = none ∧
        ("w13_qzeros".toList <:+: L.layerName ++ '.' :: paramName s p ∨
          "w2_qzeros".toList <:+: L.layerName ++ '.' :: paramName s p) then .ok notLoaded
      else L.storeConverted (paramName s p) (L.gptqParam s p) (L.layerName ++ '.' :: paramName s p)
        s expertId (L.gptqConverted ((E s).tensor (.part p)) p) := by
  have hidx : ¬ "g_idx".toList <:+: L.layerName ++ '.' :: paramName s p := by
    rw [h.named.infix_iff (by decide) (by decide)]
    exact not_infix_paramName s p (by decide)
  have hskip : ¬ (L.quantConfig.hasZp = false ∧
      "qzeros".toList <:+: L.layerName ++ '.' :: paramName s p) := by
    rintro ⟨hzp, hqzeros⟩
    rw [h.named.infix_iff (by decide) (by decide), qzeros_infix_paramName] at hqzeros
    rw [hp hqzeros] at hzp
    cases hzp
  rw [← h.convert_bind _ s hp (L.storeConverted (paramName s p) (L.gptqParam s p)
    (L.layerName ++ '.' :: paramName s p) s expertId)]
  rw [receiveGptq_of_getattr E expertId (p := .part p) (h.getattr_part s hp)]
  show L.moeWeightLoader (paramName s p) _ _ (L.layerName ++ '.' :: paramName s p) s expertId = _
  unfold MoeWNA16Layer.moeWeightLoader
  rw [if_neg hidx, if_neg hskip]

/-- Tensors that the layer does not use are ignored. -/
theorem receiveGptq_ignored (h : GptqLayer L placeholder) (E : L.GptqExpert) (expertId : Nat)
    (s : Shard) {p : GptqPart}
    (hp : p = .gIdx ∨ p = .part .qzeros ∧ L.quantConfig.hasZp = false) :
    L.receiveGptq E expertId (s, p) = .ok notLoaded := by
  rw [receiveGptq_of_getattr E expertId (h.getattr_ignored s hp)]
  unfold MoeWNA16Layer.moeWeightLoader
  rcases hp with rfl | ⟨rfl, hzp⟩
  · have hidx : "g_idx".toList <:+: gptqParamName s .gIdx := by cases s <;> decide
    rw [if_pos ((Str.infix_append_cons (by decide)).2 (.inr hidx))]
  · have hqzeros : "qzeros".toList <:+: gptqParamName s (.part .qzeros) :=
      (qzeros_infix_paramName s .qzeros).2 rfl
    split
    · rfl
    · rw [if_pos ⟨hzp, (Str.infix_append_cons (by decide)).2 (.inr hqzeros)⟩]

/-- The zeros of gate and up are assigned to their own bytes. -/
theorem qzerosRegion_eq (h : GptqLayer L placeholder) (ha : GptqAligned L)
    (hzp : L.quantConfig.hasZp = true) (s : Shard) :
    L.qzerosRegion (L.gptqParam s .qzeros) s = L.toRoutedExperts.tileRect (h.tile .qzeros) s := by
  have hfactor := h.factor_of_hasZp hzp
  obtain ⟨bytes, hbytes⟩ := ha.bytes_dvd
  rw [hfactor] at hbytes
  cases s with
  | w1 | w3 =>
    simp only [MoeWNA16Layer.qzerosRegion, MoeWNA16Layer.w13QzerosRegion, MoeWNA16Layer.gptqParam,
      RoutedExperts.tileRect, tile, hfactor, hbytes, Region.whole, Region.slice, Shard.firstRow,
      Shard.outputs, Shard.inputs, Region.mk.injEq, true_and, and_true,
      Nat.mul_div_cancel_left _ Nat.two_pos]
    omega
  | w2 => rfl

/-- **A call for a tensor of a local expert writes the tiles of the rank's slice.** -/
theorem receiveGptq_part (h : GptqLayer L placeholder) (ha : GptqAligned L) (E : L.GptqExpert)
    {expertId slot : Nat} (hlocal : L.mapGlobalToLocal expertId = some slot)
    (hslot : slot < L.moeConfig.numLocalExperts) (s : Shard) {p : AwqPart}
    (hp : p = .qzeros → L.quantConfig.hasZp = true) :
    L.receiveGptq E expertId (s, .part p) =
      .ok ⟨true, L.write (paramName s p) (L.gptqParam s p) slot
        ((L.toRoutedExperts.tileRect (h.tile p) s).fill (L.toRoutedExperts.rankTiles (h.tile p) s
          (L.gptqConverted ((E s).tensor (.part p)) p)))⟩ := by
  have hnum : slot < (L.gptqParam s p).numExperts := by cases p <;> exact hslot
  have htiled := h.tiled ha E s hp
  have hcuts := h.cuts ha E s p
  rw [h.receiveGptq_eq_ite E expertId s hp, if_neg fun hremote => by simp [hlocal] at hremote]
  by_cases hqzeros : p = .qzeros
  · subst hqzeros
    obtain ⟨hsize, hother⟩ : (L.gptqConverted ((E s).tensor (.part .qzeros)) .qzeros).size
          s.shardedDim = L.intermediateSizePerPartition / (h.tile .qzeros).size s.shardedDim *
            L.moeConfig.tpSize ∧
        (L.gptqConverted ((E s).tensor (.part .qzeros)) .qzeros).size s.shardedDim.other =
          (L.toRoutedExperts.tileRect (h.tile .qzeros) s).size s.shardedDim.other := by
      have hshare := tiles_mul L.moeConfig.tpSize (Tile.size_pos _ _) hcuts.sharded
      cases s with
      | w1 | w3 => exact ⟨htiled.rows.trans hshare, htiled.cols⟩
      | w2 => exact ⟨htiled.cols.trans hshare, htiled.rows⟩
    have hpos : 0 < (L.gptqConverted ((E s).tensor (.part .qzeros)) .qzeros).size
        s.shardedDim.other := by
      rw [hother]
      have hdiv := Nat.div_pos (Nat.le_of_dvd ha.hidden_pos hcuts.other) (Tile.size_pos _ _)
      cases s <;> exact hdiv
    have hdiv := (slice_bounds L.moeConfig hsize).1
    have hpart := Mat.part_eq_ok.2 ⟨hpos, L.moeConfig.tpRank_lt, Dvd.intro_left _ hsize.symm, rfl⟩
    rw [h.named.storeConverted_qzeros hlocal, hpart, hdiv, Nat.mul_comm,
      h.qzerosRegion_eq ha (hp rfl)]
    show (if slot < _ then _ else _) = _
    have hlength : L.intermediateSizePerPartition / (h.tile .qzeros).size s.shardedDim =
        (L.toRoutedExperts.tileRect (h.tile .qzeros) s).size s.shardedDim := by cases s <;> rfl
    rw [if_pos hnum, Region.copy_of_slice hlength hother]
    rfl
  · rw [h.named.storeConverted hlocal s hqzeros _ hnum, h.whole_gptqParam ha,
      load_tiled h.gated hcuts htiled]
    rfl

/-- Nothing is written for another rank's expert. -/
theorem receiveGptq_remote (h : GptqLayer L placeholder) (E : L.GptqExpert) {expertId : Nat}
    (hremote : L.mapGlobalToLocal expertId = none) (call : Shard × GptqPart) :
    L.receiveGptq E expertId call = .ok notLoaded := by
  obtain ⟨s, p⟩ := call
  by_cases hignored : p = .gIdx ∨ p = .part .qzeros ∧ L.quantConfig.hasZp = false
  · exact h.receiveGptq_ignored E expertId s hignored
  · obtain ⟨p, rfl⟩ : ∃ q, p = .part q := by
      cases p with
      | part q => exact ⟨q, rfl⟩
      | gIdx => exact absurd (.inl rfl) hignored
    have hp : p = .qzeros → L.quantConfig.hasZp = true := by
      rintro rfl
      exact Bool.eq_true_of_not_eq_false fun hzp => hignored (.inr ⟨rfl, hzp⟩)
    rw [h.receiveGptq_eq_ite E expertId s hp]
    split
    · rfl
    · next hskip =>
      obtain ⟨hw13, hw2⟩ := not_or.1 fun hzeros => hskip ⟨hremote, hzeros⟩
      unfold MoeWNA16Layer.storeConverted RoutedExperts.weightLoader
      rw [if_neg hw13, if_neg hw2, hremote]

/-! ## all calls -/

/-- What a call writes. -/
def patch (h : GptqLayer L placeholder) (E : L.GptqExpert) (slot : Nat) :
    Shard × GptqPart → Patch Cell (Elem α)
  | (s, .part p) =>
    if p = .qzeros ∧ L.quantConfig.hasZp = false then Patch.empty
    else L.write (paramName s p) (L.gptqParam s p) slot
      ((L.toRoutedExperts.tileRect (h.tile p) s).fill (L.toRoutedExperts.rankTiles (h.tile p) s
        (L.gptqConverted ((E s).tensor (.part p)) p)))
  | (_, .gIdx) => Patch.empty

theorem patch_part (h : GptqLayer L placeholder) (E : L.GptqExpert) (slot : Nat) (s : Shard)
    {p : AwqPart} (hp : p = .qzeros → L.quantConfig.hasZp = true) :
    h.patch E slot (s, .part p) = L.write (paramName s p) (L.gptqParam s p) slot
      ((L.toRoutedExperts.tileRect (h.tile p) s).fill (L.toRoutedExperts.rankTiles (h.tile p) s
        (L.gptqConverted ((E s).tensor (.part p)) p))) := by
  refine if_neg ?_
  rintro ⟨rfl, hzp⟩
  rw [hp rfl] at hzp
  cases hzp

theorem receiveGptq_patch (h : GptqLayer L placeholder) (ha : GptqAligned L) (E : L.GptqExpert)
    {expertId slot : Nat} (hlocal : L.mapGlobalToLocal expertId = some slot)
    (hslot : slot < L.moeConfig.numLocalExperts) (call : Shard × GptqPart) :
    Loaded.patch <$> L.receiveGptq E expertId call = .ok (h.patch E slot call) := by
  obtain ⟨s, p⟩ := call
  cases p with
  | part p =>
    by_cases hskip : p = .qzeros ∧ L.quantConfig.hasZp = false
    · obtain ⟨rfl, hzp⟩ := hskip
      rw [h.receiveGptq_ignored E expertId s (.inr ⟨rfl, hzp⟩)]
      exact congrArg Except.ok (if_pos ⟨rfl, hzp⟩).symm
    · have hp : p = .qzeros → L.quantConfig.hasZp = true := fun hqzeros =>
        Bool.eq_true_of_not_eq_false fun hzp => hskip ⟨hqzeros, hzp⟩
      rw [h.receiveGptq_part ha E hlocal hslot s hp, h.patch_part E slot s hp]
      rfl
  | gIdx =>
    rw [h.receiveGptq_ignored E expertId s (.inl rfl)]
    rfl

/-- Different calls write different cells. -/
theorem patch_disjoint (h : GptqLayer L placeholder) (E : L.GptqExpert) (slot : Nat)
    {c c' : Shard × GptqPart} (hc : c ≠ c') :
    (h.patch E slot c).Disjoint (h.patch E slot c') := by
  obtain ⟨s, p⟩ := c
  obtain ⟨s', p'⟩ := c'
  cases p with
  | gIdx => exact fun _ => .inl rfl
  | part p =>
    cases p' with
    | gIdx => exact fun _ => .inr rfl
    | part p' =>
      simp only [patch]
      split
      · exact fun _ => .inl rfl
      · split
        · exact fun _ => .inr rfl
        · apply write_tiles_disjoint
          intro hname
          obtain ⟨rfl, hw2⟩ := paramName_inj hname
          exact ⟨rfl, fun hs => hc (by rw [hs]), hw2⟩

/-- A call writes within the slot. -/
theorem patch_slot (h : GptqLayer L placeholder) (E : L.GptqExpert) {slot : Nat}
    (call : Shard × GptqPart) {cell : Cell} (hcell : cell.expert ≠ slot) :
    h.patch E slot call cell = none := by
  obtain ⟨s, p⟩ := call
  cases p with
  | gIdx => rfl
  | part p =>
    simp only [patch]
    split
    · rfl
    · exact if_neg fun hin => hcell hin.2

/-- The writes together leave the slice of the expert in the slot. -/
theorem holds_of_patches (h : GptqLayer L placeholder) (ha : GptqAligned L) {E : L.GptqExpert}
    {slot : Nat} {st : Params α}
    (hst : ∀ call cell v, h.patch E slot call cell = some v → st cell = v) :
    HoldsGptqExpert L E slot st := by
  have hread : ∀ s : Shard, ∀ p : AwqPart, (p = .qzeros → L.quantConfig.hasZp = true) →
      ∀ n < s.outputs L.hiddenSize L.intermediateSizePerPartition,
      ∀ k < s.inputs L.hiddenSize L.intermediateSizePerPartition,
      st ⟨paramName s p, slot,
          (s.firstRow L.intermediateSizePerPartition + n) / (h.tile p).outputs,
          k / (h.tile p).inputs⟩ =
        L.dtypes.convert (L.gptqParam s p).dtype
          ((L.gptqConverted ((E s).tensor (.part p)) p).get
            (s.globalOutput L.intermediateSizePerPartition L.moeConfig.tpRank n /
              (h.tile p).outputs)
            (s.globalInput L.intermediateSizePerPartition L.moeConfig.tpRank k /
              (h.tile p).inputs)) := by
    intro s p hp n hn k hk
    refine hst (s, .part p) _ _ ?_
    rw [h.patch_part E slot s hp]
    exact write_tiled (h.cuts ha E s p) (h.tiled ha E s hp) _ _ _ hn hk
  have hone : ∀ i, i / 1 = i := Nat.div_one
  constructor
  case weight =>
    intro s n hn k hk
    obtain ⟨b, hb, hq⟩ := h.converted_weight E s
      (s.globalOutput L.intermediateSizePerPartition L.moeConfig.tpRank n)
      (s.globalInput L.intermediateSizePerPartition L.moeConfig.tpRank k)
    have hcell := hread s .qweight nofun n hn k hk
    simp only [tile] at hcell
    rw [hb, hone (_ + n)] at hcell
    have hplace := (mod_tile (h.cuts ha E s .qweight) n k).2
    exact ⟨b, hcell.trans (L.dtypes.convert_uint8 b), (congrArg _ hplace).trans hq⟩
  case zero =>
    intro hzp s hcarry n hn k hk
    obtain ⟨b, hb, hz⟩ := h.converted_zero ha hzp E hcarry (globalOutput_lt hn) (globalInput_lt hk)
    have hcell := hread s .qzeros (fun _ => hzp) n hn k hk
    simp only [tile] at hcell
    rw [hb] at hcell
    have hplace := (mod_tile (h.cuts ha E s .qzeros) n k).1
    exact ⟨b, hcell.trans (L.dtypes.convert_uint8 b), (congrArg _ hplace).trans hz⟩
  case scale =>
    intro s n hn k hk
    have hcell := hread s .scales nofun n hn k hk
    simp only [tile] at hcell
    rw [hone (_ + n), hone] at hcell
    refine hcell.trans (congrArg (fun g => Elem.float (L.dtypes.toParams (.float
      ((E s).scales.get g _)))) ?_)
    exact h.div_group _

end GptqLayer

theorem mem_gptqCalls (call : Shard × GptqPart) : call ∈ gptqCalls := by
  obtain ⟨s, p⟩ := call
  cases s <;> rcases p with (_ | _ | _) | _ <;> decide

/-- **Loading a GPTQ expert is faithful on every rank**: whatever the order of its tensors, the
loader accepts them and the slot of a local expert holds the rank's slice; other slots, and those
of a rank that does not have the expert, are unchanged. -/
theorem gptqExpert_loaded {B : RoutedExperts α} {C : MoeWNA16Config} {placeholder : Param}
    {L : MoeWNA16Layer α} (hcreate : B.createGptqWeights C placeholder = .ok L)
    (hmethod : C.linearQuantMethod = .gptq) (hbits : C.weightBits = 4 ∨ C.weightBits = 8)
    (hzp : C.hasZp = true → C.weightBits = 4) {e : Nat} (hgroup : C.groupSize = 2 ^ e)
    (hgated : B.moeConfig.isActAndMul = true) (hname : KeywordFree B.layerName)
    (ha : GptqAligned L) (E : L.GptqExpert) (expertId : Nat)
    (hslots : ∀ slot, L.mapGlobalToLocal expertId = some slot →
      slot < L.moeConfig.numLocalExperts)
    {calls : List (Shard × GptqPart)} (hcalls : calls.Perm gptqCalls) (st : Params α) :
    ∃ st', L.receiveGptqAll E expertId calls st = .ok st' ∧
      match L.mapGlobalToLocal expertId with
      | none => st' = st
      | some slot =>
        HoldsGptqExpert L E slot st' ∧ ∀ cell, cell.expert ≠ slot → st' cell = st cell := by
  have h := gptqLayer_of_createGptqWeights hcreate hmethod hbits hzp hgroup hgated hname
  have hnodup : calls.Nodup := hcalls.nodup_iff.2 (by decide)
  cases hlocal : L.mapGlobalToLocal expertId with
  | none =>
    have hcall : ∀ call ∈ calls,
        Loaded.patch <$> L.receiveGptq E expertId call = .ok Patch.empty := by
      intro call _
      rw [h.receiveGptq_remote E hlocal call]
      rfl
    obtain ⟨st', hrun, -, hframe⟩ := Patch.runAll_holds hcall hnodup
      (fun _ _ _ _ _ _ => .inl rfl) st
    exact ⟨st', hrun, funext fun cell => hframe cell fun _ _ => rfl⟩
  | some slot =>
    obtain ⟨st', hrun, hholds, hframe⟩ := Patch.runAll_holds
      (fun call _ => h.receiveGptq_patch ha E hlocal (hslots slot hlocal) call) hnodup
      (fun _ _ _ _ hne => h.patch_disjoint E slot hne) st
    refine ⟨st', hrun, h.holds_of_patches ha fun call cell v hv =>
      hholds call (hcalls.mem_iff.2 (mem_gptqCalls call)) cell v hv, fun cell hcell => ?_⟩
    exact hframe cell fun call _ => h.patch_slot E call hcell

/-- An empty parameter of no expert. -/
def emptyParam : Param := ⟨0, 0, 0, .uint8⟩

/-- `gptqLayer` with what is registered for the order of the inputs. -/
def orderedLayer : MoeWNA16Layer Nat :=
  { gptqLayer with
    parameters := gptqLayer.parameters ++
      int4Gptq.invalidParamKeys.map fun key => (key, emptyParam) }

theorem createGptqWeights_orderedLayer :
    smallExperts.createGptqWeights int4Gptq emptyParam = .ok orderedLayer := by
  rw [RoutedExperts.createGptqWeights, createWeights_gptqLayer]
  rfl

theorem gptqAligned_orderedLayer : GptqAligned orderedLayer :=
  ⟨by decide, by decide, by decide, by decide⟩

/-- An expert of it, with zero points below 15. -/
def orderedExpert : orderedLayer.GptqExpert := fun s =>
  { qweight := ⟨8, 64, fun w n => BitVec.ofNat 32 (1000003 * n + 17 * w)⟩
    qzeros := ⟨2, 8, fun _ _ => 0x76543210⟩
    scales := ⟨2, 64, fun g n => 64 * g + n⟩
    gIdx := ⟨1, 64, fun _ k => BitVec.ofNat 32 (k / 32)⟩
    qweight_rows := by cases s <;> rfl
    qweight_cols := by cases s <;> rfl
    qzeros_rows := by cases s <;> rfl
    qzeros_cols := by cases s <;> rfl
    scales_rows := by cases s <;> rfl
    scales_cols := by cases s <;> rfl }

/-- Expert 3 is loaded into slot 1 with its zero points, expert 0 is another rank's. -/
theorem gptqExpert_loaded_ordered :
    (∃ st', orderedLayer.receiveGptqAll orderedExpert 3 gptqCalls.reverse (fun _ => .uint8 0) =
        .ok st' ∧ HoldsGptqExpert orderedLayer orderedExpert 1 st') ∧
    (∀ s, (orderedExpert s).NoCarry) ∧
    orderedLayer.receiveGptqAll orderedExpert 0 gptqCalls (fun _ => .uint8 0) =
      .ok (fun _ => .uint8 0) := by
  have hslots : ∀ e slot, orderedLayer.mapGlobalToLocal e = some slot →
      slot < orderedLayer.moeConfig.numLocalExperts := by
    intro e slot h
    obtain ⟨he, h⟩ := Option.ite_none_right_eq_some.1 h
    cases h
    show e - 2 < 2
    omega
  have hcarry : ∀ s, (orderedExpert s).NoCarry := by
    intro s n _ g _ _
    have hword : ∀ i < 8, packedEntry 4 (0x76543210 : BitVec 32) i ≠ BitVec.allOnes 4 := by decide
    exact hword _ (Nat.mod_lt n (by decide))
  obtain ⟨st, hrun, hholds, -⟩ := gptqExpert_loaded createGptqWeights_orderedLayer rfl (.inl rfl)
    (fun _ => rfl) (show int4Gptq.groupSize = 2 ^ 5 from rfl) rfl (by decide)
    gptqAligned_orderedLayer orderedExpert 3 (hslots 3) (List.reverse_perm gptqCalls)
    fun _ => .uint8 0
  obtain ⟨st', hrun', hsame⟩ := gptqExpert_loaded createGptqWeights_orderedLayer rfl (.inl rfl)
    (fun _ => rfl) (show int4Gptq.groupSize = 2 ^ 5 from rfl) rfl (by decide)
    gptqAligned_orderedLayer orderedExpert 0 (hslots 0) (List.Perm.refl gptqCalls)
    fun _ => .uint8 0
  exact ⟨⟨st, hrun, hholds⟩, hcarry, hrun'.trans (congrArg Except.ok hsame)⟩

end FlashNext
