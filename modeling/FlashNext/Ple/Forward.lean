import FlashNext.Ple.Complete

/-!
# FlashNext.Ple.Forward

`PLECpuOffloadEmbedding.forward` over the ranks of a table.

A rank gathers the rows it keeps and a row of no meaning for every other id; the mask
makes these zero after the scale is applied, so the sum over the ranks is the row of
the one rank that keeps it.
-/

namespace FlashNext

variable {ρ R : Type}

/-- A row of a tensor of `n` rows under an index, which may count from the end. -/
def wrapIndex (n : Nat) (i : Int) : Except PyError Nat :=
  if 0 ≤ i ∧ i < n then .ok i.toNat
  else if -n ≤ i ∧ i < 0 then .ok (n + i).toNat
  else .error .indexError

/-- `self.weight[idx_cpu]` -/
def gather (S : PleTable) (rank : PleRank) (st : PleState ρ R) (idx : List Int) :
    Except PyError (List (List ρ)) :=
  idx.mapM fun i => do
    let row ← wrapIndex rank.numEmbeddingsPerPartition i
    return (List.range S.embeddingDim).map fun j => st.weight (row, j)

section forward

variable [Mul R]

/-- `_dequant` -/
def dequant (X : PleEnv ρ R) (st : PleState ρ R) (gathered : List (List ρ)) : List (List R) :=
  gathered.map fun row => row.map fun x => X.toBf16 (.fp8 x) * st.weightScale

variable [Zero R]

/-- `masked_fill_(input_mask.unsqueeze(-1), 0)` -/
def maskedFill (rows : List (List R)) (mask : List Bool) : List (List R) :=
  rows.zipWith (fun row masked => if masked then row.map fun _ => 0 else row) mask

/-- What a rank puts into the sum: `output_parallel`. -/
def outputParallel (X : PleEnv ρ R) (S : PleTable) (rank : PleRank) (st : PleState ρ R)
    (input : List Int) : Except PyError (List (List R)) := do
  let masked := input.map (X.getMaskedInputAndMask rank.shardIndices)
  let gathered ← gather S rank st (masked.map (·.1))
  return maskedFill (dequant X st gathered) (masked.map (·.2))

/-- `forward` on rank `r` of `tpSize`, for ids of any shape in their order.  Every rank takes part
in the sum. -/
def forward (X : PleEnv ρ R) (S : PleTable) (tpSize : Nat) (rank : Nat → PleRank)
    (st : Nat → PleState ρ R) (r : Nat) (input : List Int) : Except PyError (List (List R)) :=
  if tpSize = 1 then do
    let gathered ← gather S (rank r) (st r) input
    return dequant X (st r) gathered
  else do
    let outputs ← (List.range tpSize).mapM fun r => outputParallel X S (rank r) (st r) input
    return (List.range input.length).map fun p => (List.range S.embeddingDim).map fun j =>
      X.allReduce (outputs.map fun output => (output.getD p []).getD j 0)

end forward

/-! ## gathering -/

theorem wrapIndex_of_lt {n x : Nat} (hx : x < n) : wrapIndex n x = .ok x := by
  rw [wrapIndex, if_pos (by omega), Int.toNat_natCast]

/-- Gathering rows that are there. -/
theorem gather_eq {S : PleTable} {rank : PleRank} {st : PleState ρ R} (input : List Int)
    (index : Int → Int) (row : Int → Nat)
    (h : ∀ id ∈ input, index id = row id ∧ row id < rank.numEmbeddingsPerPartition) :
    gather S rank st (input.map index) =
      .ok (input.map fun id => (List.range S.embeddingDim).map fun j => st.weight (row id, j)) := by
  rw [gather, mapM_eq_ok, List.forall₂_map_left_iff, List.forall₂_map_right_iff,
    List.forall₂_same]
  intro id hid
  obtain ⟨hindex, hlt⟩ := h id hid
  rw [hindex, wrapIndex_of_lt hlt]
  rfl

/-! ## the sum over the ranks -/

/-- Row `x` of the table, with the scale applied. -/
def tableRow [Mul R] (X : PleEnv ρ R) (S : PleTable) (shard : Nat → PleTensor ρ R)
    (scale : PleElem ρ R) (x : Nat) : List R :=
  (List.range S.embeddingDim).map fun j =>
    X.toBf16 (.fp8 (stored X S shard x j)) * X.toBf16 scale

/-- A rank holds the rows it keeps, and the scale. -/
def HoldsRows (X : PleEnv ρ R) (S : PleTable) (shard : Nat → PleTensor ρ R)
    (scale : PleElem ρ R) (rank : PleRank) (st : PleState ρ R) : Prop :=
  st.weightScale = X.toBf16 scale ∧
    ∀ x j, x < S.orgVocabSize → rank.Owns x → HoldsRow X S shard rank st x j

theorem map_getD_range [Zero R] {n : Nat} (row : List R) (hn : row.length = n) :
    (List.range n).map (fun j => row.getD j 0) = row := by
  subst hn
  apply List.ext_getElem (by simp)
  intro j hj hj'
  simp [hj']

/-- A sum with at most one term that is not zero. -/
theorem sum_map_range_of_unique [AddCommMonoid R] {n r : Nat} (hr : r < n) {f : Nat → R}
    (hzero : ∀ k < n, k ≠ r → f k = 0) : ((List.range n).map f).sum = f r := by
  rw [List.sum_map_eq_nsmul_single r f fun k hne hk => hzero k (List.mem_range.1 hk) hne,
    List.count_eq_one_of_mem List.nodup_range (List.mem_range.2 hr), one_nsmul]

/-- An id is sent to a row that is there: its own if the rank keeps it, else a masked one. -/
theorem PleEnv.Documented.mask_eq [AddCommMonoid R] {X : PleEnv ρ R} {S : PleTable} {T : Nat}
    {rank : Nat → PleRank} (hX : X.Documented S T rank) {r : Nat} (hr : r < T) {x : Nat}
    (hx : x < S.orgVocabSize) :
    ∃ row < (rank r).numEmbeddingsPerPartition,
      (X.getMaskedInputAndMask (rank r).shardIndices x).1 = (row : Int) ∧
      ((rank r).Owns x → row = x - (rank r).shardIndices.orgVocabStartIndex ∧
        (X.getMaskedInputAndMask (rank r).shardIndices x).2 = false) ∧
      (¬ (rank r).Owns x → (X.getMaskedInputAndMask (rank r).shardIndices x).2 = true) := by
  by_cases hown : (rank r).Owns x
  · have hmask := hX.maskOwn r hr x hx hown
    have hroom := hX.roomy r hr
    obtain ⟨hstart, hend⟩ := hown
    refine ⟨x - (rank r).shardIndices.orgVocabStartIndex, by omega, ?_, ?_, ?_⟩
    · rw [hmask, Int.natCast_sub hstart]
    · exact fun _ => ⟨rfl, by rw [hmask]⟩
    · exact fun h => absurd ⟨hstart, hend⟩ h
  · obtain ⟨row, hrow, hmask⟩ := hX.maskOther r hr x hx hown
    refine ⟨row, hrow, by rw [hmask], ?_, ?_⟩
    · exact fun h => absurd h hown
    · exact fun _ => by rw [hmask]

/-- An id is the number of a row. -/
theorem exists_row {S : PleTable} {input : List Int}
    (hinput : ∀ id ∈ input, 0 ≤ id ∧ id < S.orgVocabSize) :
    ∀ id ∈ input, ∃ x : Nat, id = x ∧ x < S.orgVocabSize := by
  intro id hid
  obtain ⟨hpos, hlt⟩ := hinput id hid
  exact ⟨id.toNat, by omega, by omega⟩

section ranks

variable [Mul R] {X : PleEnv ρ R} {S : PleTable} {T : Nat} {rank : Nat → PleRank}
  {shard : Nat → PleTensor ρ R} {scale : PleElem ρ R} {st : Nat → PleState ρ R}

/-- The rows a rank holds, gathered and scaled. -/
theorem map_dequant_eq {k : PleRank} {s : PleState ρ R} (hs : HoldsRows X S shard scale k s)
    {x : Nat} (hx : x < S.orgVocabSize) (hown : k.Owns x) :
    ((List.range S.embeddingDim).map fun j =>
        s.weight (x - k.shardIndices.orgVocabStartIndex, j)).map
      (fun v => X.toBf16 (.fp8 v) * s.weightScale) = tableRow X S shard scale x := by
  rw [List.map_map, tableRow]
  apply List.map_congr_left
  intro j _
  have hrow : s.weight (x - k.shardIndices.orgVocabStartIndex, j) = stored X S shard x j :=
    hs.2 x j hx hown
  rw [Function.comp_apply, hrow, hs.1]

variable [AddCommMonoid R] (hX : X.Documented S T rank)
  (hst : ∀ r < T, HoldsRows X S shard scale (rank r) (st r))
  {input : List Int} (hinput : ∀ id ∈ input, 0 ≤ id ∧ id < S.orgVocabSize)
include hX hst hinput

/-- A rank puts the rows it keeps into the sum, and zeros for the others. -/
theorem outputParallel_eq {r : Nat} (hr : r < T) :
    outputParallel X S (rank r) (st r) input =
      .ok (input.map fun id =>
        if (rank r).Owns id.toNat then tableRow X S shard scale id.toNat
        else (List.range S.embeddingDim).map fun _ => 0) := by
  have hrows := exists_row hinput
  have hgather : gather S (rank r) (st r)
      (input.map fun id => (X.getMaskedInputAndMask (rank r).shardIndices id).1) =
        .ok (input.map fun id => (List.range S.embeddingDim).map fun j =>
          (st r).weight ((X.getMaskedInputAndMask (rank r).shardIndices id).1.toNat, j)) := by
    apply gather_eq input _ fun id => (X.getMaskedInputAndMask (rank r).shardIndices id).1.toNat
    intro id hid
    obtain ⟨x, rfl, hx⟩ := hrows id hid
    obtain ⟨row, hrow, hindex, -⟩ := hX.mask_eq hr hx
    rw [hindex, Int.toNat_natCast]
    exact ⟨rfl, hrow⟩
  unfold outputParallel
  simp only [List.map_map]
  refine bind_eq_ok.2 ⟨_, hgather, congrArg Except.ok ?_⟩
  rw [maskedFill, dequant, List.map_map, List.zipWith_map, List.zipWith_self]
  apply List.map_congr_left
  intro id hid
  obtain ⟨x, rfl, hx⟩ := hrows id hid
  obtain ⟨row, -, hindex, hown, hother⟩ := hX.mask_eq hr hx
  by_cases h : (rank r).Owns x
  · obtain ⟨hrow, hmasked⟩ := hown h
    simp only [Function.comp_apply, hindex, Int.toNat_natCast, hmasked, h, if_true, hrow]
    exact map_dequant_eq (hst r hr) hx h
  · simp only [Function.comp_apply, hother h, Int.toNat_natCast, h, if_true, if_false,
      List.map_map]
    exact List.map_congr_left fun _ _ => rfl

/-- The only rank keeps the whole table, from row 0 on. -/
theorem forward_of_one_rank (hone : T = 1) {r : Nat} (hr : r < T) :
    forward X S T rank st r input =
      .ok (input.map fun id => tableRow X S shard scale id.toNat) := by
  have hrows := exists_row hinput
  have hown : ∀ x < S.orgVocabSize, (rank r).Owns x := by
    intro x hx
    obtain ⟨k, ⟨hk, hown⟩, -⟩ := hX.ranges x hx
    rwa [show k = r by omega] at hown
  have hstart : ∀ x < S.orgVocabSize, (rank r).shardIndices.orgVocabStartIndex = 0 := by
    intro x hx
    have := (hown 0 (by omega)).1
    omega
  have hgather : gather S (rank r) (st r) input = .ok (input.map fun id =>
      (List.range S.embeddingDim).map fun j => (st r).weight (id.toNat, j)) := by
    rw [← gather_eq input (fun id => id) Int.toNat, List.map_id']
    intro id hid
    obtain ⟨x, rfl, hx⟩ := hrows id hid
    have hroom := hX.roomy r hr
    have hend := (hown x hx).2
    rw [hstart x hx] at hroom
    exact ⟨by omega, by omega⟩
  rw [forward, if_pos hone]
  refine bind_eq_ok.2 ⟨_, hgather, congrArg Except.ok ?_⟩
  rw [dequant, List.map_map]
  apply List.map_congr_left
  intro id hid
  obtain ⟨x, rfl, hx⟩ := hrows id hid
  have hrow := map_dequant_eq (hst r hr) hx (hown x hx)
  rwa [hstart x hx] at hrow

/-- The sum over several ranks is the row of the one that keeps it. -/
theorem forward_of_ranks (hone : T ≠ 1) (r : Nat) :
    forward X S T rank st r input =
      .ok (input.map fun id => tableRow X S shard scale id.toNat) := by
  rw [forward, if_neg hone]
  refine bind_eq_ok.2 ⟨(List.range T).map fun k => input.map fun id =>
    if (rank k).Owns id.toNat then tableRow X S shard scale id.toNat
    else (List.range S.embeddingDim).map fun _ => 0, ?_, congrArg Except.ok ?_⟩
  · rw [mapM_eq_ok, List.forall₂_map_right_iff, List.forall₂_same]
    intro k hk
    exact outputParallel_eq hX hst hinput (List.mem_range.1 hk)
  · apply List.ext_getElem (by simp)
    intro p hp _
    simp only [List.length_map, List.length_range] at hp
    obtain ⟨x, hid, hx⟩ := exists_row hinput _ (List.getElem_mem hp)
    obtain ⟨k, ⟨hk, hown⟩, hunique⟩ := hX.ranges x hx
    simp only [List.getElem_map, List.getElem_range, hid, Int.toNat_natCast]
    rw [← map_getD_range (tableRow X S shard scale x) (n := S.embeddingDim) (by simp [tableRow])]
    apply List.map_congr_left
    intro j _
    rw [hX.reduces, List.map_map, sum_map_range_of_unique hk]
    · simp [hp, hid, hown]
    · intro k' hk' hne
      have hother : ¬ (rank k').Owns x := fun h => hne (hunique k' ⟨hk', h⟩)
      simp [hp, hid, hother, List.getD_eq_getElem?_getD]

/-- Every rank returns the rows of the table. -/
theorem forward_eq_tableRow {r : Nat} (hr : r < T) :
    forward X S T rank st r input =
      .ok (input.map fun id => tableRow X S shard scale id.toNat) := by
  by_cases hone : T = 1
  · exact forward_of_one_rank hX hst hinput hone hr
  · exact forward_of_ranks hX hst hinput hone r

end ranks

/-! ## one table -/

/-- The rows of the table that shard `i` covers. -/
def PleTable.InShard (S : PleTable) (i x : Nat) : Prop :=
  S.checkpointStart i ≤ x ∧ x < S.checkpointStart i + S.expectedRows i

variable [AddCommMonoid R] [Mul R] {X : PleEnv ρ R} {S : PleTable} {T : Nat}
  {rank : Nat → PleRank} (lens : PersistentBuffer → Nat) (shard : Nat → PleTensor ρ R)
  (scale : PleElem ρ R)

/-- **The split table is one table.**  The shards cut the rows; a shard with a wrong index or
shape raises and leaves what the tensors before it have written; and when every rank has read
a complete checkpoint, in its own order and its own calls, every rank returns the rows of the
concatenated shards times the scale, on one rank as on many. -/
theorem split_table_is_one_table (hX : X.Documented S T rank)
    (hshape : ∀ i < S.splitNgramParts, (shard i).shape = [S.expectedRows i, S.embeddingDim]) :
    ((∀ i < S.splitNgramParts, ∀ x, S.InShard i x → x < S.orgVocabSize) ∧
      (∀ i < S.splitNgramParts, ∀ i' < S.splitNgramParts, ∀ x,
        S.InShard i x → S.InShard i' x → i = i') ∧
      ∀ x < S.orgVocabSize, ∃ i < S.splitNgramParts, S.InShard i x) ∧
    (∀ r < T, ∀ st ws l, loadLoop X S (rank r) ws ⟨st, ∅, []⟩ = .ok () l →
      ∀ w i, X.ReadsAs w.1 i →
        S.splitNgramParts ≤ i ∨ w.2.shape ≠ [S.expectedRows i, S.embeddingDim] →
        ∀ ws', ∃ msg, loadWeights X S (rank r) (ws ++ w :: ws') st =
          .error (.valueError msg) l.state) ∧
    ∀ (calls : Nat → List (List (Str × PleTensor ρ R))) (st : Nat → PleState ρ R),
      (∀ r < T, CompleteCkpt X S lens shard scale (calls r).flatten ∧
        ∀ b, ((st r).buffers b).length = lens b) →
      ∃ st', (∀ r < T, loadCalls X S (rank r) (calls r) (st r) = .ok () (st' r)) ∧
        ∀ input : List Int, (∀ id ∈ input, 0 ≤ id ∧ id < S.orgVocabSize) →
          ∃ rows, input.mapM (fun id => (checkpointTable S shard)[id.toNat]?) = some rows ∧
            ∀ r < T, forward X S T rank st' r input =
              .ok (rows.map fun row => (List.range S.embeddingDim).map fun j =>
                X.toBf16 (.fp8 (X.toFp8 (row j))) * X.toBf16 scale) := by
  refine ⟨⟨?_, ?_, ?_⟩, ?_, ?_⟩
  · exact fun i _ x h => (S.mem_shard_iff.1 h).1
  · exact fun i _ i' _ x h h' => (S.mem_shard_iff.1 h).2.symm.trans (S.mem_shard_iff.1 h').2
  · exact fun x hx => ⟨_, S.div_shardSize_lt hx, S.mem_shard_iff.2 ⟨hx, rfl⟩⟩
  · exact fun r _ st ws l hrun w i hname hbad ws' => loadWeights_rejects hname hbad hrun ws'
  · intro calls st hcalls
    have hload : ∀ r, ∃ s, r < T → loadCalls X S (rank r) (calls r) (st r) = .ok () s ∧
        HoldsRows X S shard scale (rank r) s := by
      intro r
      by_cases hr : r < T
      · obtain ⟨hckpt, hlens⟩ := hcalls r hr
        obtain ⟨s, hrun, hscale, hrows⟩ := loadCalls_complete hX hshape hr hckpt hlens
        exact ⟨s, fun _ => ⟨hrun, hscale, hrows⟩⟩
      · exact ⟨st r, fun h => absurd h hr⟩
    choose st' hst' using hload
    refine ⟨st', fun r hr => (hst' r hr).1, ?_⟩
    intro input hinput
    have hrows : input.mapM (fun id => (checkpointTable S shard)[id.toNat]?) = some
        (input.map fun id j =>
          (shard (id.toNat / S.shardSize)).get [id.toNat % S.shardSize, j]) := by
      apply mapM_eq_some
      intro id hid
      have hbounds := hinput id hid
      exact getElem?_checkpointTable shard (by omega)
    refine ⟨_, hrows, ?_⟩
    intro r hr
    rw [forward_eq_tableRow hX (fun k hk => (hst' k hk).2) hinput hr, List.map_map]
    rfl

/-! ## a table of five rows -/

/-- Exact integers for all dtypes. -/
def PleElem.value : PleElem Int Int → Int
  | .long x => x.toInt
  | .fp8 x => x
  | .bf16 x => x

/-- The functions from outside, over exact integers. -/
def exactEnv : PleEnv Int Int where
  isDigit := Char.isDigit
  decimal c := if c.isDigit = true then some (c.toNat - '0'.toNat) else none
  toLong x := BitVec.ofInt 64 x.value
  toFp8 := PleElem.value
  toBf16 := PleElem.value
  copyPleEmbeddingShard indices weight w start :=
    (overlap PleElem.value indices w start).apply weight
  autoWeightsLoader ws st := .ok (ws.map Prod.fst).toFinset
    { st with weightScale := (ws.getLast?.map fun w => (w.2.get [0]).value).getD st.weightScale }
  getMaskedInputAndMask indices id :=
    if indices.orgVocabStartIndex ≤ id ∧ id < indices.orgVocabEndIndex then
      (id - indices.orgVocabStartIndex, false)
    else (0, true)
  allReduce := List.sum

/-- Five rows of one column in two shards. -/
def fiveRows : PleTable where
  orgVocabSize := 5
  embeddingDim := 1
  splitNgramParts := 2
  splitNgramParts_pos := Nat.two_pos

/-- Rows 0, 1, 2 on one rank and rows 3, 4 on the other. -/
def threeAndTwo (r : Nat) : PleRank where
  shardIndices := ⟨3 * r, min (3 * r + 3) 5, 0, 5, 5⟩
  numEmbeddingsPerPartition := 3

theorem exactEnv_documented : exactEnv.Documented fiveRows 2 threeAndTwo where
  digit := fun c hc => ⟨hc, if_pos hc⟩
  copies := fun _ _ _ _ _ => rfl
  ranges := by
    intro x hx
    have hx : x < 5 := hx
    refine ⟨x / 3, ⟨by omega, ?_, ?_⟩, ?_⟩
    · show 3 * (x / 3) ≤ x
      omega
    · show x < min (3 * (x / 3) + 3) 5
      omega
    · rintro r ⟨hr, hstart, hend⟩
      have hstart : 3 * r ≤ x := hstart
      have hend : x < min (3 * r + 3) 5 := hend
      omega
  roomy := by
    intro r _
    show min (3 * r + 3) 5 ≤ 3 * r + 3
    omega
  maskOwn := by
    intro r _ x _ hown
    exact if_pos ⟨Int.ofNat_le.2 hown.1, Int.ofNat_lt.2 hown.2⟩
  maskOther := by
    intro r _ x _ hown
    refine ⟨0, Nat.zero_lt_succ 2, if_neg ?_⟩
    rintro ⟨hstart, hend⟩
    exact hown ⟨Int.ofNat_le.1 hstart, Int.ofNat_lt.1 hend⟩
  reduces := fun _ => rfl
  loadsScale := by
    intro ws hne scale hws st
    have hlast := List.getLast?_eq_some_getLast hne
    obtain ⟨-, -, hget⟩ := hws _ (List.getLast_mem hne)
    refine ⟨_, congrArg (EStateM.Result.ok _) ?_⟩
    simp [hlast, hget, exactEnv]

/-- Row `x` of the table holds `10 * (x + 1)`. -/
def fiveShard (i : Nat) : PleTensor Int Int where
  shape := [fiveRows.expectedRows i, 1]
  get
    | row :: _ => .fp8 (10 * (3 * i + row + 1))
    | [] => .fp8 0

/-- One rank reads the shards in two calls, the second first, the other in one call. -/
def fiveCalls (r : Nat) : List (List (Str × PleTensor Int Int)) :=
  let scale := (scaleName, ⟨[1], fun _ => .bf16 2⟩)
  if r = 0 then [[scale, (shardName 1, fiveShard 1)], [(shardName 0, fiveShard 0)]]
  else [[(shardName 0, fiveShard 0), (shardName 1, fiveShard 1), scale]]

theorem fiveCalls_complete (r : Nat) :
    CompleteCkpt exactEnv fiveRows (fun _ => 0) fiveShard (.bf16 2) (fiveCalls r).flatten := by
  have hshard : ∀ i < 2, CkptEntry exactEnv fiveRows (fun _ => 0) fiveShard (.bf16 2)
      (shardName i, fiveShard i) := fun i hi =>
    .shard hi (exactEnv_documented.readsAs_shardName i)
  have hmem : ∀ w, w ∈ (fiveCalls r).flatten ↔ w = (scaleName, ⟨[1], fun _ => .bf16 2⟩) ∨
      w = (shardName 0, fiveShard 0) ∨ w = (shardName 1, fiveShard 1) := by
    intro w
    unfold fiveCalls
    split <;> simp <;> tauto
  refine ⟨?_, ?_, ?_⟩
  · intro w hw
    rcases (hmem w).1 hw with rfl | rfl | rfl
    · exact .scale rfl rfl
    · exact hshard 0 (by decide)
    · exact hshard 1 (by decide)
  · intro i hi
    have hi : i < 2 := hi
    refine ⟨(shardName i, fiveShard i), (hmem _).2 ?_, exactEnv_documented.readsAs_shardName i⟩
    interval_cases i <;> simp
  · exact ⟨_, (hmem _).2 (Or.inl rfl), rfl⟩

theorem split_table_is_one_table_five_rows :
    ∃ st', (∀ r < 2, loadCalls exactEnv fiveRows (threeAndTwo r) (fiveCalls r)
        ⟨fun _ => [], fun _ => 7, 0⟩ = .ok () (st' r)) ∧
      ∀ r < 2, forward exactEnv fiveRows 2 threeAndTwo st' r [4, 0, 2] =
        .ok [[100], [20], [60]] := by
  obtain ⟨-, -, hone⟩ := split_table_is_one_table (fun _ => 0) fiveShard (.bf16 2)
    exactEnv_documented fun _ _ => rfl
  obtain ⟨st', hload, hforward⟩ := hone fiveCalls (fun _ => ⟨fun _ => [], fun _ => 7, 0⟩)
    fun r _ => ⟨fiveCalls_complete r, fun _ => rfl⟩
  refine ⟨st', hload, ?_⟩
  obtain ⟨rows, hrows, hout⟩ := hforward [4, 0, 2] (by decide)
  intro r hr
  rw [hout r hr]
  cases hrows
  rfl

end FlashNext
