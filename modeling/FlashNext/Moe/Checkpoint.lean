import FlashNext.Moe.WeightLoader

/-!
# FlashNext.Moe.Checkpoint

An AWQ expert in the checkpoint and in a layer.

A quantized matrix comes as three tensors: packed int4 weights, one packed zero
point and one scale for each group of inputs and each output (`AwqMatrix`).  A rank
holds a slice of each of the expert's three matrices, gate and up stacked in `w13`.
`HoldsExpert` says that what the layer reads for an output and an input of its slice
is the entry of the checkpoint at the corresponding global position.
-/

namespace FlashNext

variable {α : Type}

/-- The tensors of a quantized matrix. -/
inductive AwqPart where
  | qweight
  | qzeros
  | scales
deriving DecidableEq, Repr

def AwqPart.suffix : AwqPart → Str
  | .qweight => "qweight".toList
  | .qzeros => "qzeros".toList
  | .scales => "scales".toList

def Shard.paramPrefix : Shard → Str
  | .w1 => "w13_".toList
  | .w2 => "w2_".toList
  | .w3 => "w13_".toList

/-- The parameter that a tensor of a shard is loaded into. -/
def paramName (s : Shard) (p : AwqPart) : Str := s.paramPrefix ++ p.suffix

/-! ## shapes -/

/-- The outputs of a projection, gate and up having `intermediate` of them. -/
def Shard.outputs (hidden intermediate : Nat) : Shard → Nat
  | .w1 => intermediate
  | .w2 => hidden
  | .w3 => intermediate

/-- The inputs of a projection. -/
def Shard.inputs (hidden intermediate : Nat) : Shard → Nat
  | .w1 => hidden
  | .w2 => intermediate
  | .w3 => hidden

/-- A matrix in the layout that `convert_awq_tensor` documents. -/
structure AwqMatrix (α : Type) (inputs outputs groupSize : Nat) where
  qweight : Mat (BitVec 32)
  qzeros : Mat (BitVec 32)
  scales : Mat α
  qweight_rows : qweight.rows = inputs
  qweight_cols : 8 * qweight.cols = outputs
  qzeros_rows : qzeros.rows = inputs / groupSize
  qzeros_cols : 8 * qzeros.cols = outputs
  scales_rows : scales.rows = inputs / groupSize
  scales_cols : scales.cols = outputs

namespace AwqMatrix

variable {inputs outputs groupSize : Nat}

def tensor (M : AwqMatrix α inputs outputs groupSize) : AwqPart → Tensor α
  | .qweight => .int32 M.qweight
  | .qzeros => .int32 M.qzeros
  | .scales => .float M.scales

/-- The logical weight of input `k` and output `n`. -/
def q (M : AwqMatrix α inputs outputs groupSize) (k n : Nat) : BitVec 4 := awqEntry M.qweight k n

/-- The zero point of group `g` and output `n`. -/
def zero (M : AwqMatrix α inputs outputs groupSize) (g n : Nat) : BitVec 4 := awqEntry M.qzeros g n

/-- The scale of group `g` and output `n`. -/
def scale (M : AwqMatrix α inputs outputs groupSize) (g n : Nat) : α := M.scales.get g n

end AwqMatrix

/-- The three matrices of an expert. -/
abbrev AwqExpert (α : Type) (hidden intermediate groupSize : Nat) :=
  (s : Shard) → AwqMatrix α (s.inputs hidden intermediate) (s.outputs hidden intermediate) groupSize

/-! ## the layer's slice -/

/-- The row of `w13` or `w2` that output 0 of a shard has. -/
def Shard.firstRow (perRank : Nat) : Shard → Nat
  | .w1 => 0
  | .w2 => 0
  | .w3 => perRank

/-- The output of the full matrix that is output `n` of the slice. -/
def Shard.globalOutput (perRank rank : Nat) : Shard → Nat → Nat
  | .w1, n => perRank * rank + n
  | .w2, n => n
  | .w3, n => perRank * rank + n

/-- The input of the full matrix that is input `k` of the slice. -/
def Shard.globalInput (perRank rank : Nat) : Shard → Nat → Nat
  | .w1, k => k
  | .w2, k => perRank * rank + k
  | .w3, k => k

/-- The intermediate size before it is divided among the ranks. -/
def RoutedExperts.intermediateSize (L : RoutedExperts α) : Nat :=
  L.intermediateSizePerPartition * L.moeConfig.tpSize

/-- An expert of a layer's checkpoint. -/
abbrev MoeWNA16Layer.Expert (L : MoeWNA16Layer α) :=
  AwqExpert α L.hiddenSize L.intermediateSize L.quantConfig.groupSize

/-- The slot holds the layer's slice of the expert: for an output `n` and an input `k` of the
slice, the weight, the zero point and the scale the layer reads are the checkpoint's, the scale as
`copy_` converts it to the parameter's dtype. -/
structure HoldsExpert (L : MoeWNA16Layer α) (E : L.Expert) (slot : Nat) (st : Params α) :
    Prop where
  weight : ∀ s : Shard, ∀ n < s.outputs L.hiddenSize L.intermediateSizePerPartition,
    ∀ k < s.inputs L.hiddenSize L.intermediateSizePerPartition,
    let row := s.firstRow L.intermediateSizePerPartition + n
    ∃ b, st ⟨paramName s .qweight, slot, row, k / 2⟩ = .uint8 b ∧
      nibble b (k % 2) =
        (E s).q (s.globalInput L.intermediateSizePerPartition L.moeConfig.tpRank k)
          (s.globalOutput L.intermediateSizePerPartition L.moeConfig.tpRank n)
  zero : ∀ s : Shard, ∀ n < s.outputs L.hiddenSize L.intermediateSizePerPartition,
    ∀ k < s.inputs L.hiddenSize L.intermediateSizePerPartition,
    let row := s.firstRow L.intermediateSizePerPartition + n
    ∃ b, st ⟨paramName s .qzeros, slot, row / 2, k / L.groupSize⟩ = .uint8 b ∧
      nibble b (row % 2) =
        (E s).zero
          (s.globalInput L.intermediateSizePerPartition L.moeConfig.tpRank k /
            L.quantConfig.groupSize)
          (s.globalOutput L.intermediateSizePerPartition L.moeConfig.tpRank n)
  scale : ∀ s : Shard, ∀ n < s.outputs L.hiddenSize L.intermediateSizePerPartition,
    ∀ k < s.inputs L.hiddenSize L.intermediateSizePerPartition,
    let row := s.firstRow L.intermediateSizePerPartition + n
    st ⟨paramName s .scales, slot, row, k / L.groupSize⟩ =
      .float (L.dtypes.toParams (.float ((E s).scale
        (s.globalInput L.intermediateSizePerPartition L.moeConfig.tpRank k /
          L.quantConfig.groupSize)
        (s.globalOutput L.intermediateSizePerPartition L.moeConfig.tpRank n))))

/-! ## receiving an expert -/

/-- The loader's call for one tensor of an expert. -/
def MoeWNA16Layer.receive (L : MoeWNA16Layer α) (E : L.Expert) (expertId : Nat)
    (call : Shard × AwqPart) : Except PyError (Loaded α) :=
  let name := paramName call.1 call.2
  match L.getattr name with
  | some param =>
    L.moeWeightLoader name param ((E call.1).tensor call.2) (L.layerName ++ '.' :: name) call.1
      expertId
  | none => .error (.attributeError "no such parameter")

/-- The calls one after another. -/
def MoeWNA16Layer.receiveAll (L : MoeWNA16Layer α) (E : L.Expert) (expertId : Nat) :
    List (Shard × AwqPart) → Params α → Except PyError (Params α)
  | [], st => .ok st
  | call :: calls, st => do
    let loaded ← L.receive E expertId call
    L.receiveAll E expertId calls (loaded.patch.apply st)

/-- The nine tensors of an expert. -/
def expertCalls : List (Shard × AwqPart) :=
  [Shard.w1, .w2, .w3].flatMap fun s => [AwqPart.qweight, .qzeros, .scales].map fun p => (s, p)

theorem mem_expertCalls (call : Shard × AwqPart) : call ∈ expertCalls := by
  obtain ⟨s, p⟩ := call
  cases s <;> cases p <;> decide

/-! ## names -/

/-- The words the loaders look for in a qualified name. -/
def loaderKeywords : List Str :=
  ["g_idx".toList, "bias".toList, "input_scale".toList, "weight".toList, "zeros".toList,
    "scales".toList]

/-- A name the loaders take no hint from. -/
def KeywordFree (name : Str) : Prop := ∀ w ∈ loaderKeywords, ¬ w <:+: name

instance (name : Str) : Decidable (KeywordFree name) :=
  inferInstanceAs (Decidable (∀ w ∈ loaderKeywords, ¬ w <:+: name))

/-- In a qualified name only the parameter's own name can hold a keyword. -/
theorem KeywordFree.infix_iff {layerName : Str} (h : KeywordFree layerName) {w : Str}
    (hw : ∃ v ∈ loaderKeywords, v <:+: w) (hdot : '.' ∉ w) (name : Str) :
    w <:+: layerName ++ '.' :: name ↔ w <:+: name := by
  rw [Str.infix_append_cons hdot]
  obtain ⟨v, hv, hvw⟩ := hw
  exact or_iff_right fun hw => h v hv (hvw.trans hw)

theorem weight_infix_paramName (s : Shard) (p : AwqPart) :
    "weight".toList <:+: paramName s p ↔ p = .qweight := by
  cases s <;> cases p <;> decide

theorem zeros_infix_paramName (s : Shard) (p : AwqPart) :
    "zeros".toList <:+: paramName s p ↔ p = .qzeros := by
  cases s <;> cases p <;> decide

theorem qzeros_infix_paramName (s : Shard) (p : AwqPart) :
    "qzeros".toList <:+: paramName s p ↔ p = .qzeros := by
  cases s <;> cases p <;> decide

theorem scales_infix_paramName (s : Shard) (p : AwqPart) :
    "scales".toList <:+: paramName s p ↔ p = .scales := by
  cases s <;> cases p <;> decide

theorem w13Qzeros_infix_paramName (s : Shard) (p : AwqPart) :
    "w13_qzeros".toList <:+: paramName s p ↔ p = .qzeros ∧ s ≠ .w2 := by
  cases s <;> cases p <;> decide

theorem w2Qzeros_infix_paramName (s : Shard) (p : AwqPart) :
    "w2_qzeros".toList <:+: paramName s p ↔ p = .qzeros ∧ s = .w2 := by
  cases s <;> cases p <;> decide

/-- Tensors of one parameter are of one kind. -/
theorem paramName_inj {s s' : Shard} {p p' : AwqPart} (h : paramName s p = paramName s' p') :
    p = p' ∧ (s = .w2 ↔ s' = .w2) := by
  revert h
  cases s <;> cases s' <;> cases p <;> cases p' <;> decide

/-- No parameter is named like what the loaders skip, broadcast or take for a bias. -/
theorem not_infix_paramName (s : Shard) (p : AwqPart) {w : Str}
    (hw : w ∈ ["g_idx".toList, "bias".toList, "input_scale".toList, "weight_shape".toList]) :
    ¬ w <:+: paramName s p := by
  revert w
  cases s <;> cases p <;> decide

end FlashNext
