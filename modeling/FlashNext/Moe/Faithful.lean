import FlashNext.Moe.Receive

/-!
# FlashNext.Moe.Faithful

An AWQ expert arrives whole.

The three tensors of a matrix are cut and packed differently, so that the layer reads
an output's weight, zero point and scale at three different places; they stay aligned
when the ranks are cut between whole groups, and a load that succeeds shows that they
are (`Aligned`).

* `receiveAll_local` — after the nine calls, in any order, the slot of a local expert
  holds its slice;
* `receiveAll_remote` — the calls for another rank's expert change nothing.
-/

namespace FlashNext

variable {α : Type}

/-- The slice of a rank is cut between whole groups and whole bytes. -/
structure Aligned (L : MoeWNA16Layer α) : Prop where
  hidden_pos : 0 < L.hiddenSize
  hidden_even : 2 ∣ L.hiddenSize
  intermediate_pos : 0 < L.intermediateSizePerPartition
  intermediate_even : 2 ∣ L.intermediateSizePerPartition
  dvd_hidden : L.quantConfig.groupSize ∣ L.hiddenSize
  dvd_intermediate : L.quantConfig.groupSize ∣ L.intermediateSize

/-- The rectangle of a parameter that a tensor of a shard fills. -/
def MoeWNA16Layer.sliceRegion (L : MoeWNA16Layer α) (s : Shard) (p : AwqPart) : Region :=
  let row := s.firstRow L.intermediateSizePerPartition
  let outputs := s.outputs L.hiddenSize L.intermediateSizePerPartition
  let inputs := s.inputs L.hiddenSize L.intermediateSizePerPartition
  match p with
  | .qweight => ⟨row, 0, outputs, inputs / 2⟩
  | .qzeros => ⟨row / 2, 0, outputs / 2, inputs / L.groupSize⟩
  | .scales => ⟨row, 0, outputs, inputs / L.groupSize⟩

/-- What one rank has of the dimension that is divided among the ranks. -/
def MoeWNA16Layer.perRank (L : MoeWNA16Layer α) (s : Shard) (p : AwqPart) : Nat :=
  (L.sliceRegion s p).size s.shardedDim

/-- A tensor with the logical entries of the full matrix, the groups as small as the layer's. -/
def Full (L : MoeWNA16Layer α) (E : L.Expert) (s : Shard) (p : AwqPart) (m : Mat (Elem α)) :
    Prop :=
  ∀ n < s.outputs L.hiddenSize L.intermediateSize,
    ∀ k < s.inputs L.hiddenSize L.intermediateSize,
    match p with
    | .qweight => ∃ b, m.get n (k / 2) = .uint8 b ∧ nibble b (k % 2) = (E s).q k n
    | .qzeros => ∃ b, m.get (n / 2) (k / L.groupSize) = .uint8 b ∧
        nibble b (n % 2) = (E s).zero (k / L.quantConfig.groupSize) n
    | .scales => m.get n (k / L.groupSize) =
        .float ((E s).scale (k / L.quantConfig.groupSize) n)

/-- A tensor with the logical entries of the rank's slice. -/
def Slice (L : MoeWNA16Layer α) (E : L.Expert) (s : Shard) (p : AwqPart) (m : Mat (Elem α)) :
    Prop :=
  ∀ n < s.outputs L.hiddenSize L.intermediateSizePerPartition,
    ∀ k < s.inputs L.hiddenSize L.intermediateSizePerPartition,
    let n' := s.globalOutput L.intermediateSizePerPartition L.moeConfig.tpRank n
    let k' := s.globalInput L.intermediateSizePerPartition L.moeConfig.tpRank k
    match p with
    | .qweight => ∃ b, m.get n (k / 2) = .uint8 b ∧ nibble b (k % 2) = (E s).q k' n'
    | .qzeros => ∃ b, m.get (n / 2) (k / L.groupSize) = .uint8 b ∧
        nibble b (n % 2) = (E s).zero (k' / L.quantConfig.groupSize) n'
    | .scales => m.get n (k / L.groupSize) =
        .float ((E s).scale (k' / L.quantConfig.groupSize) n')

section

variable {L : MoeWNA16Layer α}

theorem Aligned.dvd_inputs (ha : Aligned L) (s : Shard) :
    L.quantConfig.groupSize ∣ s.inputs L.hiddenSize L.intermediateSize := by
  cases s with
  | w1 | w3 => exact ha.dvd_hidden
  | w2 => exact ha.dvd_intermediate

theorem Aligned.inputs_pos (ha : Aligned L) (s : Shard) :
    0 < s.inputs L.hiddenSize L.intermediateSize := by
  cases s with
  | w1 | w3 => exact ha.hidden_pos
  | w2 => exact Nat.mul_pos ha.intermediate_pos (Nat.zero_lt_of_lt L.moeConfig.tpRank_lt)

theorem Aligned.groups_pos (ha : Aligned L) (s : Shard) :
    0 < s.inputs L.hiddenSize L.intermediateSize / L.quantConfig.groupSize :=
  Nat.div_pos (Nat.le_of_dvd (ha.inputs_pos s) (ha.dvd_inputs s)) L.quantConfig.groupSize_pos

/-- Eight columns in a word make the inputs of every matrix even. -/
theorem inputs_even (E : L.Expert) (s : Shard) :
    2 ∣ s.inputs L.hiddenSize L.intermediateSize := by
  have hhidden : 8 * (E .w2).qweight.cols = L.hiddenSize := (E .w2).qweight_cols
  have hintermediate : 8 * (E .w1).qweight.cols = L.intermediateSize := (E .w1).qweight_cols
  cases s with
  | w1 | w3 => exact ⟨4 * (E .w2).qweight.cols, by rw [← Nat.mul_assoc]; exact hhidden.symm⟩
  | w2 => exact ⟨4 * (E .w1).qweight.cols, by rw [← Nat.mul_assoc]; exact hintermediate.symm⟩

/-! ## the converted tensors -/

/-- The rows of a converted tensor: an output each, or two of them. -/
def fullRows (outputs : Nat) : AwqPart → Nat
  | .qweight => outputs
  | .qzeros => outputs / 2
  | .scales => outputs

/-- The columns of a converted tensor: two inputs each, or a group. -/
def fullCols (inputs groupSize : Nat) : AwqPart → Nat
  | .qweight => inputs / 2
  | .qzeros => inputs / groupSize
  | .scales => inputs / groupSize

/-- Conversion and repetition keep every logical entry. -/
theorem converted_full (h : AwqLayer L) (ha : Aligned L) (E : L.Expert) (s : Shard)
    (p : AwqPart) :
    ∃ m, L.converted ((E s).tensor p) p = .ok m ∧
      m.rows = fullRows (s.outputs L.hiddenSize L.intermediateSize) p ∧
      m.cols = fullCols (s.inputs L.hiddenSize L.intermediateSize) L.groupSize p ∧
      Full L E s p m := by
  have hgroup : ∀ k < s.inputs L.hiddenSize L.intermediateSize, k / L.quantConfig.groupSize <
      s.inputs L.hiddenSize L.intermediateSize / L.quantConfig.groupSize :=
    fun k hk => Nat.div_lt_div_of_lt_of_dvd (ha.dvd_inputs s) hk
  cases p with
  | qweight =>
    obtain ⟨o, ho, hrows, hcols, hget⟩ := convertAwqTensor_qweight L.dtypes
      (m := (E s).qweight) ((ha.inputs_pos s).trans_eq (E s).qweight_rows.symm)
      ((inputs_even E s).trans (dvd_of_eq (E s).qweight_rows.symm))
    refine ⟨o.map .uint8, ?_, hrows.trans (E s).qweight_cols, ?_, ?_⟩
    · rw [MoeWNA16Layer.converted, AwqMatrix.tensor, ho]
      rfl
    · show o.cols = _
      rw [hcols, (E s).qweight_rows]
      rfl
    · intro n hn k hk
      refine ⟨o.get n (k / 2), rfl, ?_⟩
      exact hget n (hn.trans_eq (E s).qweight_cols.symm) k (hk.trans_eq (E s).qweight_rows.symm)
  | qzeros =>
    obtain ⟨o, ho, hrows, hcols, hget⟩ := convertAwqTensor_qzeros L.dtypes
      (m := (E s).qzeros) ((ha.groups_pos s).trans_eq (E s).qzeros_rows.symm)
    refine ⟨(o.map .uint8).repeatInterleave L.groupSizeDivFactor, ?_, ?_, ?_, ?_⟩
    · rw [MoeWNA16Layer.converted, AwqMatrix.tensor, ho]
      rfl
    · have := (E s).qzeros_cols
      show o.rows = s.outputs L.hiddenSize L.intermediateSize / 2
      omega
    · show o.cols * L.groupSizeDivFactor = _
      rw [hcols, (E s).qzeros_rows, h.groups_mul (ha.dvd_inputs s)]
      rfl
    · intro n hn k hk
      refine ⟨o.get (n / 2) (k / L.groupSize / L.groupSizeDivFactor), rfl, ?_⟩
      rw [h.div_group]
      exact hget n (hn.trans_eq (E s).qzeros_cols.symm) _
        ((hgroup k hk).trans_eq (E s).qzeros_rows.symm)
  | scales =>
    refine ⟨_, rfl, (E s).scales_cols, ?_, ?_⟩
    · show (E s).scales.rows * L.groupSizeDivFactor = _
      rw [(E s).scales_rows, h.groups_mul (ha.dvd_inputs s)]
      rfl
    · intro n _ k _
      show Elem.float ((E s).scales.get (k / L.groupSize / L.groupSizeDivFactor) n) = _
      rw [h.div_group]
      rfl

/-! ## the slice of a rank -/

/-- Positions behind a multiple of the divisor. -/
theorem div_behind_slice {d perRank : Nat} (hd : 0 < d) (hdvd : d ∣ perRank) (rank k : Nat) :
    (perRank * rank + k) / d = perRank / d * rank + k / d ∧ (perRank * rank + k) % d = k % d := by
  obtain ⟨c, rfl⟩ := hdvd
  rw [Nat.mul_div_cancel_left _ hd, Nat.mul_assoc]
  exact ⟨Nat.mul_add_div hd _ _, Nat.mul_add_mod _ _ _⟩

theorem globalOutput_lt {s : Shard} {n : Nat}
    (hn : n < s.outputs L.hiddenSize L.intermediateSizePerPartition) :
    s.globalOutput L.intermediateSizePerPartition L.moeConfig.tpRank n <
      s.outputs L.hiddenSize L.intermediateSize := by
  have hle := (slice_bounds L.moeConfig (rfl : L.intermediateSize = _)).2.1
  cases s with
  | w1 | w3 => exact Nat.lt_of_lt_of_le (Nat.add_lt_add_left hn _) hle
  | w2 => exact hn

theorem globalInput_lt {s : Shard} {k : Nat}
    (hk : k < s.inputs L.hiddenSize L.intermediateSizePerPartition) :
    s.globalInput L.intermediateSizePerPartition L.moeConfig.tpRank k <
      s.inputs L.hiddenSize L.intermediateSize := by
  have hle := (slice_bounds L.moeConfig (rfl : L.intermediateSize = _)).2.1
  cases s with
  | w1 | w3 => exact hk
  | w2 => exact Nat.lt_of_lt_of_le (Nat.add_lt_add_left hk _) hle

/-- The slice of a full tensor has the logical entries of the rank's slice. -/
theorem slice_of_full (h : AwqLayer L) (ha : Aligned L) {E : L.Expert} {s : Shard} {p : AwqPart}
    {m : Mat (Elem α)} (hm : Full L E s p m) :
    Slice L E s p (m.slice s.shardedDim (L.perRank s p * L.moeConfig.tpRank) (L.perRank s p)) := by
  intro n hn k hk
  have hfull := hm _ (globalOutput_lt hn) _ (globalInput_lt hk)
  have hbytes := fun i => div_behind_slice (by decide) ha.intermediate_even L.moeConfig.tpRank i
  have hgroups := fun i =>
    div_behind_slice h.groupSize_pos h.groupSize_dvd_intermediate L.moeConfig.tpRank i
  cases s with
  | w1 | w3 =>
    cases p with
    | qweight => exact hfull
    | qzeros =>
      simp only [Shard.globalOutput, hbytes] at hfull
      exact hfull
    | scales => exact hfull
  | w2 =>
    cases p with
    | qweight =>
      simp only [Shard.globalInput, hbytes] at hfull
      exact hfull
    | qzeros =>
      simp only [Shard.globalInput, hgroups] at hfull
      exact hfull
    | scales =>
      simp only [Shard.globalInput, hgroups] at hfull
      exact hfull

/-- A converted tensor has the slices of all ranks. -/
theorem full_size (h : AwqLayer L) (ha : Aligned L) (s : Shard) (p : AwqPart) {m : Mat (Elem α)}
    (hrows : m.rows = fullRows (s.outputs L.hiddenSize L.intermediateSize) p)
    (hcols : m.cols = fullCols (s.inputs L.hiddenSize L.intermediateSize) L.groupSize p) :
    m.size s.shardedDim = L.perRank s p * L.moeConfig.tpSize ∧
      m.size s.shardedDim.other = (L.sliceRegion s p).size s.shardedDim.other := by
  have hmul : ∀ {d : Nat}, 0 < d → d ∣ L.intermediateSizePerPartition →
      L.intermediateSize / d = L.intermediateSizePerPartition / d * L.moeConfig.tpSize := by
    rintro d hd ⟨c, hc⟩
    rw [RoutedExperts.intermediateSize, hc, Nat.mul_assoc, Nat.mul_div_cancel_left _ hd,
      Nat.mul_div_cancel_left _ hd]
  have hbytes := hmul (by decide) ha.intermediate_even
  have hgroups := hmul h.groupSize_pos h.groupSize_dvd_intermediate
  cases s with
  | w1 | w3 => cases p with
    | qweight => exact ⟨hrows, hcols⟩
    | qzeros => exact ⟨hrows.trans hbytes, hcols⟩
    | scales => exact ⟨hrows, hcols⟩
  | w2 => cases p with
    | qweight => exact ⟨hcols.trans hbytes, hrows⟩
    | qzeros => exact ⟨hcols.trans hgroups, hrows⟩
    | scales => exact ⟨hcols.trans hgroups, hrows⟩

/-- The two rows of `w13_qzeros` in a byte belong to one projection. -/
theorem w13QzerosRegion_eq (ha : Aligned L) {s : Shard} (hs : s ≠ .w2) :
    L.w13QzerosRegion (L.paramShape s .qzeros) s = L.sliceRegion s .qzeros := by
  obtain ⟨half, hhalf⟩ := ha.intermediate_even
  cases s with
  | w1 | w3 =>
    simp only [MoeWNA16Layer.w13QzerosRegion, MoeWNA16Layer.paramShape,
      MoeWNA16Layer.sliceRegion, Region.whole, Region.slice, Shard.firstRow, Shard.outputs,
      Shard.inputs, hhalf, Region.mk.injEq, true_and, and_true,
      Nat.mul_div_cancel_left _ Nat.two_pos]
    omega
  | w2 => exact absurd rfl hs

/-- **A converted tensor is stored as the rank's slice of it.** -/
theorem storeConverted_eq (h : AwqLayer L) (ha : Aligned L) {expertId slot : Nat}
    (hlocal : L.mapGlobalToLocal expertId = some slot)
    (hslot : slot < L.moeConfig.numLocalExperts) (s : Shard) (p : AwqPart) {m : Mat (Elem α)}
    (hsize : m.size s.shardedDim = L.perRank s p * L.moeConfig.tpSize)
    (hother : m.size s.shardedDim.other = (L.sliceRegion s p).size s.shardedDim.other) :
    L.storeConverted (paramName s p) (L.paramShape s p) (L.layerName ++ '.' :: paramName s p) s
        expertId m =
      .ok ⟨true, L.write (paramName s p) (L.paramShape s p) slot ((L.sliceRegion s p).fill
        (m.slice s.shardedDim (L.perRank s p * L.moeConfig.tpRank) (L.perRank s p)))⟩ := by
  have hnum : slot < (L.paramShape s p).numExperts := by cases p <;> exact hslot
  cases p with
  | qzeros =>
    have hpos : 0 < m.size s.shardedDim.other := by
      rw [hother]
      cases s with
      | w1 | w3 =>
        exact Nat.div_pos (Nat.le_of_dvd ha.hidden_pos h.groupSize_dvd_hidden) h.groupSize_pos
      | w2 => exact Nat.div_pos (Nat.le_of_dvd ha.hidden_pos ha.hidden_even) (by decide)
    have hdiv := (slice_bounds L.moeConfig hsize).1
    have hpart := Mat.part_eq_ok.2 ⟨hpos, L.moeConfig.tpRank_lt, Dvd.intro_left _ hsize.symm, rfl⟩
    have hregion : L.qzerosRegion (L.paramShape s .qzeros) s = L.sliceRegion s .qzeros := by
      cases s with
      | w1 => exact w13QzerosRegion_eq ha (s := .w1) (by decide)
      | w2 =>
        simp only [MoeWNA16Layer.qzerosRegion, MoeWNA16Layer.paramShape,
          MoeWNA16Layer.sliceRegion, Region.whole, Shard.firstRow, Shard.outputs, Nat.zero_div]
      | w3 => exact w13QzerosRegion_eq ha (s := .w3) (by decide)
    rw [h.storeConverted_qzeros hlocal, hpart, hdiv, Nat.mul_comm, hregion]
    show (if slot < _ then _ else _) = _
    rw [if_pos hnum, Region.copy_of_slice (show L.perRank s .qzeros = _ from rfl) hother]
    rfl
  | qweight | scales =>
    rw [h.storeConverted_of_ne_qzeros hlocal s (by decide) _ hnum]
    cases s with
    | w1 =>
      have hload := loadW13_of_even h.gated (s := .w1) hsize hother (by decide)
      exact congrArg (_ <$> ·) hload
    | w2 =>
      have hload := loadW2_of_even hsize hother
      exact congrArg (_ <$> ·) hload
    | w3 =>
      have hload := loadW13_of_even h.gated (s := .w3) hsize hother (by decide)
      exact congrArg (_ <$> ·) hload

/-- **A call for a local expert writes the rank's slice of its tensor.** -/
theorem receive_eq (h : AwqLayer L) (ha : Aligned L) (E : L.Expert) {expertId slot : Nat}
    (hlocal : L.mapGlobalToLocal expertId = some slot)
    (hslot : slot < L.moeConfig.numLocalExperts) (call : Shard × AwqPart) :
    ∃ m, L.receive E expertId call = .ok ⟨true, L.write (paramName call.1 call.2)
        (L.paramShape call.1 call.2) slot ((L.sliceRegion call.1 call.2).fill m)⟩ ∧
      m.rows = (L.sliceRegion call.1 call.2).rows ∧
      m.cols = (L.sliceRegion call.1 call.2).cols ∧ Slice L E call.1 call.2 m := by
  obtain ⟨s, p⟩ := call
  obtain ⟨m, hm, hrows, hcols, hfull⟩ := converted_full h ha E s p
  obtain ⟨hsize, hother⟩ := full_size h ha s p hrows hcols
  refine ⟨_, ?_, ?_, ?_, slice_of_full h ha hfull⟩
  · rw [h.receive_of_local E hlocal, hm]
    exact storeConverted_eq h ha hlocal hslot s p hsize hother
  · cases s with
    | w1 | w3 => rfl
    | w2 => exact hother
  · cases s with
    | w1 | w3 => exact hother
    | w2 => rfl

/-! ## the nine calls -/

/-- Calls that succeed are applied one after another. -/
theorem receiveAll_eq {E : L.Expert} {expertId : Nat} {result : Shard × AwqPart → Loaded α}
    {calls : List (Shard × AwqPart)}
    (h : ∀ call ∈ calls, L.receive E expertId call = .ok (result call)) (st : Params α) :
    L.receiveAll E expertId calls st =
      .ok (Patch.applyAll (calls.map fun call => (result call).patch) st) := by
  induction calls generalizing st with
  | nil => rfl
  | cons call calls ih =>
    rw [MoeWNA16Layer.receiveAll, h call List.mem_cons_self]
    exact ih (fun c hc => h c (List.mem_cons_of_mem _ hc)) _

/-- If the calls succeed then each of them does. -/
theorem receive_of_receiveAll {E : L.Expert} {expertId : Nat} {calls : List (Shard × AwqPart)}
    {st st' : Params α} (h : L.receiveAll E expertId calls st = .ok st')
    {call : Shard × AwqPart} (hcall : call ∈ calls) : ∃ r, L.receive E expertId call = .ok r := by
  induction calls generalizing st with
  | nil => cases hcall
  | cons c calls ih =>
    obtain ⟨r, hr, h⟩ := bind_eq_ok.1 h
    cases hcall with
    | head => exact ⟨r, hr⟩
    | tail _ hcall => exact ih h hcall

/-- The rectangles of gate and up do not meet. -/
theorem sliceRegion_disjoint {s s' : Shard} (p : AwqPart) (hs : s ≠ s') (hw2 : s = .w2 ↔ s' = .w2)
    {i j : Nat} (h : (L.sliceRegion s p).Mem i j) : ¬ (L.sliceRegion s' p).Mem i j := by
  cases s <;> cases s' <;> cases p <;>
    simp_all only [MoeWNA16Layer.sliceRegion, Region.Mem, Shard.firstRow, Shard.outputs,
      ne_eq, reduceCtorEq, not_true_eq_false, iff_false, not_false_eq_true, iff_self] <;> omega

/-- A write gives a value to a cell of its rectangle only. -/
theorem write_eq_none {name : Str} {param : Param} {slot : Nat} {r : Region} {m : Mat (Elem α)}
    {cell : Cell} (h : ¬ (cell.param = name ∧ r.Mem cell.row cell.col)) :
    L.write name param slot (r.fill m) cell = none := by
  unfold RoutedExperts.write
  split
  · next hcell => rw [Region.fill_eq_none fun hm => h ⟨hcell.1, hm⟩, Option.map_none]
  · rfl

/-- Different calls write different cells. -/
theorem write_disjoint {slot : Nat} {m m' : Mat (Elem α)} {c c' : Shard × AwqPart} (hc : c ≠ c') :
    Patch.Disjoint
      (L.write (paramName c.1 c.2) (L.paramShape c.1 c.2) slot ((L.sliceRegion c.1 c.2).fill m))
      (L.write (paramName c'.1 c'.2) (L.paramShape c'.1 c'.2) slot
        ((L.sliceRegion c'.1 c'.2).fill m')) := by
  intro cell
  by_cases h : cell.param = paramName c.1 c.2 ∧ (L.sliceRegion c.1 c.2).Mem cell.row cell.col
  · right
    apply write_eq_none
    rintro ⟨hname, hmem⟩
    obtain ⟨s, p⟩ := c
    obtain ⟨s', p'⟩ := c'
    obtain ⟨rfl, hw2⟩ := paramName_inj (h.1.symm.trans hname)
    have hs : s ≠ s' := fun hs => hc (by rw [hs])
    exact sliceRegion_disjoint p hs hw2 h.2 hmem
  · exact .inl (write_eq_none h)

/-- What a write leaves in a cell of its rectangle. -/
theorem write_eq_some {name : Str} {param : Param} {slot : Nat} {r : Region} {m : Mat (Elem α)}
    (hr : m.rows = r.rows) (hc : m.cols = r.cols) {i j : Nat} (hi : i < r.rows) (hj : j < r.cols) :
    L.write name param slot (r.fill m) ⟨name, slot, r.row + i, r.col + j⟩ =
      some (L.dtypes.convert param.dtype (m.get i j)) := by
  have hmem : r.Mem (r.row + i) (r.col + j) := by
    simp only [Region.Mem]
    omega
  unfold RoutedExperts.write
  rw [if_pos ⟨rfl, rfl⟩, Region.fill_eq_some hr hc hmem, Nat.add_sub_cancel_left,
    Nat.add_sub_cancel_left, Option.map_some]

theorem Aligned.outputs_even (ha : Aligned L) (s : Shard) :
    2 ∣ s.outputs L.hiddenSize L.intermediateSizePerPartition := by
  cases s with
  | w1 | w3 => exact ha.intermediate_even
  | w2 => exact ha.hidden_even

theorem Aligned.slice_inputs_even (ha : Aligned L) (s : Shard) :
    2 ∣ s.inputs L.hiddenSize L.intermediateSizePerPartition := by
  cases s with
  | w1 | w3 => exact ha.hidden_even
  | w2 => exact ha.intermediate_even

theorem AwqLayer.groupSize_dvd_inputs (h : AwqLayer L) (s : Shard) :
    L.groupSize ∣ s.inputs L.hiddenSize L.intermediateSizePerPartition := by
  cases s with
  | w1 | w3 => exact h.groupSize_dvd_hidden
  | w2 => exact h.groupSize_dvd_intermediate

theorem Aligned.firstRow_even (ha : Aligned L) (s : Shard) :
    2 ∣ s.firstRow L.intermediateSizePerPartition := by
  cases s with
  | w1 | w2 => exact ⟨0, rfl⟩
  | w3 => exact ha.intermediate_even

/-- The nine writes together leave the slice of the expert in the slot. -/
theorem holdsExpert_of_writes (h : AwqLayer L) (ha : Aligned L) {E : L.Expert} {slot : Nat}
    {st : Params α} {m : Shard × AwqPart → Mat (Elem α)}
    (hrows : ∀ c, (m c).rows = (L.sliceRegion c.1 c.2).rows)
    (hcols : ∀ c, (m c).cols = (L.sliceRegion c.1 c.2).cols)
    (hslice : ∀ c, Slice L E c.1 c.2 (m c))
    (hst : ∀ c : Shard × AwqPart, ∀ cell v,
      L.write (paramName c.1 c.2) (L.paramShape c.1 c.2) slot
        ((L.sliceRegion c.1 c.2).fill (m c)) cell = some v → st cell = v) :
    HoldsExpert L E slot st := by
  have hread : ∀ c : Shard × AwqPart, ∀ i < (L.sliceRegion c.1 c.2).rows,
      ∀ j < (L.sliceRegion c.1 c.2).cols,
      st ⟨paramName c.1 c.2, slot, (L.sliceRegion c.1 c.2).row + i, j⟩ =
        L.dtypes.convert (L.paramShape c.1 c.2).dtype ((m c).get i j) := by
    intro c i hi j hj
    have hcell := hst c _ _ (write_eq_some (hrows c) (hcols c) hi hj)
    have hcol : (L.sliceRegion c.1 c.2).col = 0 := by cases c.2 <;> rfl
    rwa [hcol, Nat.zero_add] at hcell
  have hpair : ∀ {size i : Nat}, 2 ∣ size → i < size → i / 2 < size / 2 :=
    fun hd hi => Nat.div_lt_div_of_lt_of_dvd hd hi
  constructor
  case weight =>
    intro s n hn k hk
    obtain ⟨b, hb, hq⟩ := hslice (s, .qweight) n hn k hk
    have hcell := hread (s, .qweight) n hn (k / 2) (hpair (ha.slice_inputs_even s) hk)
    rw [hb] at hcell
    refine ⟨b, ?_, hq⟩
    exact hcell.trans (L.dtypes.convert_uint8 b)
  case zero =>
    intro s n hn k hk
    obtain ⟨b, hb, hz⟩ := hslice (s, .qzeros) n hn k hk
    have hcell := hread (s, .qzeros) (n / 2) (hpair (ha.outputs_even s) hn) (k / L.groupSize)
      (Nat.div_lt_div_of_lt_of_dvd (h.groupSize_dvd_inputs s) hk)
    rw [hb] at hcell
    obtain ⟨half, hhalf⟩ := ha.firstRow_even s
    have hrow : (s.firstRow L.intermediateSizePerPartition + n) / 2 =
        s.firstRow L.intermediateSizePerPartition / 2 + n / 2 := by omega
    have hparity : (s.firstRow L.intermediateSizePerPartition + n) % 2 = n % 2 := by omega
    refine ⟨b, ?_, hparity ▸ hz⟩
    rw [hrow]
    exact hcell.trans (L.dtypes.convert_uint8 b)
  case scale =>
    intro s n hn k hk
    have hs := hslice (s, .scales) n hn k hk
    have hcell := hread (s, .scales) n hn (k / L.groupSize)
      (Nat.div_lt_div_of_lt_of_dvd (h.groupSize_dvd_inputs s) hk)
    exact hcell.trans (congrArg _ hs)

/-! ## what a load that succeeds shows -/

/-- Groups that fit the layer's columns, or the single column that is broadcast, divide the
inputs. -/
theorem AwqLayer.group_dvd_of_cols (h : AwqLayer L) {inputs : Nat} (hdvd : L.groupSize ∣ inputs)
    (hcols : inputs / L.quantConfig.groupSize * L.groupSizeDivFactor = inputs / L.groupSize ∨
      inputs / L.quantConfig.groupSize * L.groupSizeDivFactor = 1) :
    L.quantConfig.groupSize ∣ inputs := by
  rw [← h.groupSize_mul]
  cases hcols with
  | inl hcols =>
    refine ⟨inputs / L.quantConfig.groupSize, ?_⟩
    rw [Nat.mul_assoc, Nat.mul_comm L.groupSizeDivFactor, hcols, Nat.mul_div_cancel' hdvd]
  | inr hcols => rwa [Nat.eq_one_of_mul_eq_one_left hcols, Nat.mul_one]

/-- What a stored zeros tensor says about the sizes. -/
theorem qzeros_of_receive (h : AwqLayer L) {E : L.Expert} {expertId slot : Nat}
    (hlocal : L.mapGlobalToLocal expertId = some slot) {s : Shard} {r : Loaded α}
    (hr : L.receive E expertId (s, .qzeros) = .ok r) :
    0 < s.inputs L.hiddenSize L.intermediateSize / L.quantConfig.groupSize ∧
      slot < L.moeConfig.numLocalExperts ∧
      ∃ m : Mat (Elem α), m.rows = s.outputs L.hiddenSize L.intermediateSize / 2 ∧
        m.cols = s.inputs L.hiddenSize L.intermediateSize / L.quantConfig.groupSize *
          L.groupSizeDivFactor ∧
        L.moeConfig.tpSize ∣ m.size s.shardedDim ∧
        ∃ values, (L.qzerosRegion (L.paramShape s .qzeros) s).copy
          (m.slice s.shardedDim
            (L.moeConfig.tpRank * (m.size s.shardedDim / L.moeConfig.tpSize))
            (m.size s.shardedDim / L.moeConfig.tpSize)) = .ok values := by
  rw [h.receive_of_local E hlocal] at hr
  obtain ⟨m, hm, hr⟩ := bind_eq_ok.1 hr
  obtain ⟨o, ho, rfl⟩ := map_eq_ok.1 hm
  have hpos : 0 < (E s).qzeros.rows := by
    obtain ⟨u, hu, -⟩ := bind_eq_ok.1 ho
    exact (guard_eq_ok.1 hu).1.2
  obtain ⟨o', ho', hrows, hcols, -⟩ := convertAwqTensor_qzeros L.dtypes hpos
  cases ho.symm.trans ho'
  rw [h.storeConverted_qzeros hlocal] at hr
  obtain ⟨part, hpart, hr⟩ := bind_eq_ok.1 hr
  obtain ⟨-, -, hdvd, rfl⟩ := Mat.part_eq_ok.1 hpart
  obtain ⟨hslot, hr⟩ := guard_eq_ok.1 hr
  obtain ⟨values, hvalues, -⟩ := bind_eq_ok.1 hr
  refine ⟨hpos.trans_eq (E s).qzeros_rows, hslot, _, ?_, ?_, hdvd, values, hvalues⟩
  · have := (E s).qzeros_cols
    show o.rows = _
    omega
  · show o.cols * L.groupSizeDivFactor = _
    rw [hcols, (E s).qzeros_rows]

/-- **A layer that takes the zeros of an expert is cut between whole groups.** -/
theorem aligned_of_receive (h : AwqLayer L) {E : L.Expert} {expertId slot : Nat}
    (hlocal : L.mapGlobalToLocal expertId = some slot) {r r' : Loaded α}
    (hgate : L.receive E expertId (.w1, .qzeros) = .ok r)
    (hdown : L.receive E expertId (.w2, .qzeros) = .ok r') : Aligned L := by
  obtain ⟨hgroups, -, m, hrows, hcols, hdvd, values, hcopy⟩ := qzeros_of_receive h hlocal hgate
  obtain ⟨hgroups', -, m', hrows', hcols', hdvd', values', hcopy'⟩ :=
    qzeros_of_receive h hlocal hdown
  have htp : 0 < L.moeConfig.tpSize := Nat.zero_lt_of_lt L.moeConfig.tpRank_lt
  have hintermediate : L.intermediateSize =
    L.moeConfig.tpSize * L.intermediateSizePerPartition := Nat.mul_comm _ _
  replace hcols : m.cols =
    L.hiddenSize / L.quantConfig.groupSize * L.groupSizeDivFactor := hcols
  replace hcols' : m'.cols =
    L.intermediateSize / L.quantConfig.groupSize * L.groupSizeDivFactor := hcols'
  have hwidth : m.cols = L.hiddenSize / L.groupSize ∨ m.cols = 1 :=
    (Region.copy_eq_ok.1 hcopy).1.2
  have hwidth' : m'.cols / L.moeConfig.tpSize = L.intermediateSizePerPartition / L.groupSize ∨
    m'.cols / L.moeConfig.tpSize = 1 := (Region.copy_eq_ok.1 hcopy').1.2
  constructor
  case hidden_pos => exact Nat.pos_of_div_pos hgroups
  case hidden_even => exact inputs_even E .w1
  case intermediate_pos =>
    have hpos : 0 < L.intermediateSize := Nat.pos_of_div_pos hgroups'
    rw [hintermediate] at hpos
    exact Nat.pos_of_mul_pos_left hpos
  case intermediate_even =>
    -- the ranks share whole bytes of the gate's zeros
    obtain ⟨q, hq⟩ : L.moeConfig.tpSize ∣ L.intermediateSize / 2 := hrows ▸ hdvd
    obtain ⟨half, hhalf⟩ : 2 ∣ L.intermediateSize := inputs_even E .w2
    refine ⟨q, Nat.eq_of_mul_eq_mul_left htp ?_⟩
    rw [← hintermediate, hhalf, Nat.mul_left_comm, ← hq, hhalf,
      Nat.mul_div_cancel_left _ Nat.two_pos]
  case dvd_hidden =>
    apply h.group_dvd_of_cols h.groupSize_dvd_hidden
    rw [← hcols]
    exact hwidth
  case dvd_intermediate =>
    have hparts : m'.cols = L.moeConfig.tpSize * (m'.cols / L.moeConfig.tpSize) :=
      (Nat.mul_div_cancel' hdvd').symm
    have hdvd : L.groupSize ∣ L.intermediateSize := h.groupSize_dvd_intermediate.mul_right _
    cases hwidth' with
    | inl hwidth =>
      rw [hwidth, ← Nat.mul_div_assoc _ h.groupSize_dvd_intermediate, ← hintermediate] at hparts
      exact h.group_dvd_of_cols hdvd (.inl (hcols'.symm.trans hparts))
    | inr hwidth =>
      -- one column for each rank: the ranks are as many as the repeated groups
      rw [hwidth, Nat.mul_one, hcols'] at hparts
      obtain ⟨groups, hgroups⟩ := h.groupSize_dvd_intermediate
      refine ⟨groups * (L.intermediateSize / L.quantConfig.groupSize), ?_⟩
      calc L.intermediateSize
          = L.intermediateSize / L.quantConfig.groupSize * L.groupSizeDivFactor *
              (L.groupSize * groups) := by rw [hparts, ← hgroups, ← hintermediate]
        _ = L.groupSize * L.groupSizeDivFactor *
              (groups * (L.intermediateSize / L.quantConfig.groupSize)) := by ring
        _ = _ := by rw [h.groupSize_mul]

/-! ## the whole expert -/

/-- The nine calls succeed for a local expert and leave its slice in the slot. -/
theorem receiveAll_local (h : AwqLayer L) (ha : Aligned L) (E : L.Expert) {expertId slot : Nat}
    (hlocal : L.mapGlobalToLocal expertId = some slot)
    (hslot : slot < L.moeConfig.numLocalExperts) {calls : List (Shard × AwqPart)}
    (hcalls : calls.Perm expertCalls) (st : Params α) :
    ∃ st', L.receiveAll E expertId calls st = .ok st' ∧ HoldsExpert L E slot st' ∧
      ∀ cell, cell.expert ≠ slot → st' cell = st cell := by
  choose m hm hrows hcols hslice using receive_eq h ha E hlocal hslot
  refine ⟨_, receiveAll_eq (fun call _ => hm call) st, ?_, ?_⟩
  · apply holdsExpert_of_writes h ha hrows hcols hslice
    intro c cell v hv
    have hnodup : calls.Nodup := hcalls.nodup_iff.2 (by decide)
    apply Patch.applyAll_of_mem _ _ hv
    · rw [List.pairwise_map]
      exact hnodup.imp fun hne => write_disjoint hne
    · exact List.mem_map_of_mem (hcalls.mem_iff.2 (mem_expertCalls c))
  · intro cell hcell
    apply Patch.applyAll_frame
    intro p hp
    obtain ⟨c, -, rfl⟩ := List.mem_map.1 hp
    exact if_neg fun h => hcell h.2

/-- A call for another rank's expert writes nothing. -/
theorem receive_remote (h : AwqLayer L) {E : L.Expert} {expertId : Nat}
    (hremote : L.mapGlobalToLocal expertId = none) {call : Shard × AwqPart} {r : Loaded α}
    (hr : L.receive E expertId call = .ok r) : r.patch = Patch.empty := by
  have habsent : ∀ w ∈ ["input_scale".toList, "weight_shape".toList],
      ¬ w <:+: L.layerName ++ '.' :: paramName call.1 call.2 := by
    intro w hw
    have hkey : ∀ w ∈ ["input_scale".toList, "weight_shape".toList],
        (∃ v ∈ loaderKeywords, v <:+: w) ∧ '.' ∉ w := by decide
    rw [h.named.infix_iff (hkey w hw).1 (hkey w hw).2]
    exact not_infix_paramName _ _ (List.mem_cons_of_mem _ (List.mem_cons_of_mem _ hw))
  unfold MoeWNA16Layer.receive at hr
  dsimp only at hr
  rw [h.getattr_paramName] at hr
  have hwithin := moeWeightLoader_footprint (habsent _ (by decide)) (habsent _ (by decide)) hr
  funext cell
  by_contra hne
  have hlocal := (hwithin cell hne).2.1
  rw [hremote] at hlocal
  cases hlocal

/-- The calls for another rank's expert change nothing. -/
theorem receiveAll_remote (h : AwqLayer L) {E : L.Expert} {expertId : Nat}
    (hremote : L.mapGlobalToLocal expertId = none) {calls : List (Shard × AwqPart)}
    {st st' : Params α} (hrun : L.receiveAll E expertId calls st = .ok st') : st' = st := by
  induction calls generalizing st with
  | nil => exact (Except.ok.inj hrun).symm
  | cons call calls ih =>
    obtain ⟨r, hr, hrun⟩ := bind_eq_ok.1 hrun
    rw [ih hrun, receive_remote h hremote hr, Patch.apply_empty]

/-- The calls for another rank's expert succeed. -/
theorem receive_of_remote (h : AwqLayer L) (ha : Aligned L) (E : L.Expert) {expertId : Nat}
    (hremote : L.mapGlobalToLocal expertId = none) (call : Shard × AwqPart) :
    L.receive E expertId call = .ok notLoaded := by
  obtain ⟨s, p⟩ := call
  rw [h.receive_eq_ite]
  by_cases hzeros : "w13_qzeros".toList <:+: L.layerName ++ '.' :: paramName s p ∨
      "w2_qzeros".toList <:+: L.layerName ++ '.' :: paramName s p
  · rw [if_pos ⟨hremote, hzeros⟩]
  · obtain ⟨m, hm, -⟩ := converted_full h ha E s p
    rw [if_neg (fun hskip => hzeros hskip.2), hm]
    rw [not_or] at hzeros
    show L.storeConverted _ _ _ _ _ _ = _
    unfold MoeWNA16Layer.storeConverted RoutedExperts.weightLoader
    rw [if_neg hzeros.1, if_neg hzeros.2, hremote]

/-- **Loading an AWQ expert is faithful on every rank.** -/
theorem expert_loaded_faithfully {B : RoutedExperts α} {C : MoeWNA16Config}
    {L : MoeWNA16Layer α} (hcreate : B.createWeights C = .ok L)
    (hmethod : C.linearQuantMethod = .awq ∨ C.linearQuantMethod = .awqMarlin)
    (hbits : C.weightBits = 4) (hzp : C.hasZp = true) {e : Nat} (hgroup : C.groupSize = 2 ^ e)
    (hgated : B.moeConfig.isActAndMul = true) (hname : KeywordFree B.layerName) (E : L.Expert)
    (expertId : Nat) {calls : List (Shard × AwqPart)} (hcalls : calls.Perm expertCalls)
    (st : Params α) :
    (Aligned L → (∀ slot, L.mapGlobalToLocal expertId = some slot →
        slot < L.moeConfig.numLocalExperts) →
      ∃ st', L.receiveAll E expertId calls st = .ok st') ∧
    ∀ st', L.receiveAll E expertId calls st = .ok st' →
      match L.mapGlobalToLocal expertId with
      | none => st' = st
      | some slot =>
        HoldsExpert L E slot st' ∧ ∀ cell, cell.expert ≠ slot → st' cell = st cell := by
  have h := awqLayer_of_createWeights hcreate hmethod hbits hzp hgroup hgated hname
  constructor
  · intro ha hslots
    cases hlocal : L.mapGlobalToLocal expertId with
    | none =>
      exact ⟨_, receiveAll_eq (fun call _ => receive_of_remote h ha E hlocal call) st⟩
    | some slot =>
      obtain ⟨st', hrun, -⟩ := receiveAll_local h ha E hlocal (hslots slot hlocal) hcalls st
      exact ⟨st', hrun⟩
  · intro st' hrun
    cases hlocal : L.mapGlobalToLocal expertId with
    | none => exact receiveAll_remote h hlocal hrun
    | some slot =>
      obtain ⟨r, hgate⟩ := receive_of_receiveAll hrun
        (hcalls.mem_iff.2 (mem_expertCalls (.w1, .qzeros)))
      obtain ⟨r', hdown⟩ := receive_of_receiveAll hrun
        (hcalls.mem_iff.2 (mem_expertCalls (.w2, .qzeros)))
      have ha := aligned_of_receive h hlocal hgate hdown
      have hslot := (qzeros_of_receive h hlocal hgate).2.1
      obtain ⟨st'', hrun', hholds⟩ := receiveAll_local h ha E hlocal hslot hcalls st
      cases hrun.symm.trans hrun'
      exact hholds

end

/-- An expert of `smallLayer`. -/
def smallExpert : smallLayer.Expert := fun s =>
  { qweight := ⟨64, 8, fun k w => BitVec.ofNat 32 (1000003 * k + 17 * w)⟩
    qzeros := ⟨1, 8, fun _ w => BitVec.ofNat 32 (0x76543210 + w)⟩
    scales := ⟨1, 64, fun _ n => n⟩
    qweight_rows := by cases s <;> rfl
    qweight_cols := by cases s <;> rfl
    qzeros_rows := by cases s <;> rfl
    qzeros_cols := by cases s <;> rfl
    scales_rows := by cases s <;> rfl
    scales_cols := by cases s <;> rfl }

theorem aligned_smallLayer : Aligned smallLayer where
  hidden_pos := by decide
  hidden_even := by decide
  intermediate_pos := by decide
  intermediate_even := by decide
  dvd_hidden := by decide
  dvd_intermediate := by decide

/-- Expert 3 is loaded into slot 1, expert 0 is another rank's. -/
theorem expert_loaded_faithfully_small :
    (∃ st', smallLayer.receiveAll smallExpert 3 expertCalls.reverse (fun _ => .uint8 0) = .ok st' ∧
      HoldsExpert smallLayer smallExpert 1 st') ∧
    smallLayer.receiveAll smallExpert 0 expertCalls (fun _ => .uint8 0) =
      .ok (fun _ => .uint8 0) := by
  have hslots : ∀ e slot, smallLayer.mapGlobalToLocal e = some slot →
      slot < smallLayer.moeConfig.numLocalExperts := by
    intro e slot h
    obtain ⟨he, h⟩ := Option.ite_none_right_eq_some.1 h
    cases h
    show e - 2 < 2
    omega
  obtain ⟨hrun, hholds⟩ := expert_loaded_faithfully createWeights_smallExperts (.inl rfl) rfl rfl
    (show smallAwq.groupSize = 2 ^ 6 from rfl) rfl (by decide) smallExpert 3
    (List.reverse_perm expertCalls) fun _ => .uint8 0
  obtain ⟨hrun', hholds'⟩ := expert_loaded_faithfully createWeights_smallExperts (.inl rfl) rfl
    rfl (show smallAwq.groupSize = 2 ^ 6 from rfl) rfl (by decide) smallExpert 0
    (List.Perm.refl expertCalls) fun _ => .uint8 0
  constructor
  · obtain ⟨st', h⟩ := hrun aligned_smallLayer (hslots 3)
    exact ⟨st', h, (hholds st' h).1⟩
  · obtain ⟨st', h⟩ := hrun' aligned_smallLayer (hslots 0)
    rw [h]
    exact congrArg Except.ok (hholds' st' h)

end FlashNext
