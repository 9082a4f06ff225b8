import FlashNext.Ple.Table

/-!
# FlashNext.Ple.Complete

A rank that has read a checkpoint holds its rows of the table.

A row is right from the moment its shard is read, and every later tensor leaves it right
(`Reads.rows`); so neither the order of the tensors nor the calls they come in matter.
-/

namespace FlashNext

variable {ρ R : Type}

/-! ## checkpoints -/

/-- The tensors that a checkpoint with these shards and this scale may hold. -/
inductive CkptEntry (X : PleEnv ρ R) (S : PleTable) (lens : PersistentBuffer → Nat)
    (shard : Nat → PleTensor ρ R) (scale : PleElem ρ R) : Str × PleTensor ρ R → Prop where
  | skipped {name : Str} {w : PleTensor ρ R} (hname : Skipped name) :
      CkptEntry X S lens shard scale (name, w)
  | buffer (b : PersistentBuffer) {w : PleTensor ρ R} (hshape : w.shape = [lens b]) :
      CkptEntry X S lens shard scale (b.name, w)
  | shard {name : Str} {i : Nat} (hi : i < S.splitNgramParts) (hname : X.ReadsAs name i) :
      CkptEntry X S lens shard scale (name, shard i)
  | scale {w : PleTensor ρ R} (hshape : w.shape = [1]) (hget : w.get [0] = scale) :
      CkptEntry X S lens shard scale (scaleName, w)

/-- The checkpoint holds every shard and the scale, in any order and as often as it likes. -/
structure CompleteCkpt (X : PleEnv ρ R) (S : PleTable) (lens : PersistentBuffer → Nat)
    (shard : Nat → PleTensor ρ R) (scale : PleElem ρ R) (ws : List (Str × PleTensor ρ R)) :
    Prop where
  entries : ∀ w ∈ ws, CkptEntry X S lens shard scale w
  shards : ∀ i < S.splitNgramParts, ∃ w ∈ ws, X.ReadsAs w.1 i
  scale : ∃ w ∈ ws, w.1 = scaleName

/-- Row `x` of the table as a rank stores it. -/
def stored (X : PleEnv ρ R) (S : PleTable) (shard : Nat → PleTensor ρ R) (x j : Nat) : ρ :=
  X.toFp8 ((shard (x / S.shardSize)).get [x % S.shardSize, j])

/-- A rank holds entry `j` of row `x` of the table. -/
def HoldsRow (X : PleEnv ρ R) (S : PleTable) (shard : Nat → PleTensor ρ R) (rank : PleRank)
    (st : PleState ρ R) (x j : Nat) : Prop :=
  st.weight (x - rank.shardIndices.orgVocabStartIndex, j) = stored X S shard x j

/-! ## one call -/

/-- What the loop does with tensors of a checkpoint. -/
structure Reads (X : PleEnv ρ R) (S : PleTable) (lens : PersistentBuffer → Nat)
    (shard : Nat → PleTensor ρ R) (rank : PleRank) (ws : List (Str × PleTensor ρ R))
    (l l' : Loading ρ R) : Prop where
  lens : ∀ b, (l'.state.buffers b).length = lens b
  weightScale : l'.state.weightScale = l.state.weightScale
  regularWeights : l'.regularWeights = l.regularWeights ++ ws.filter (·.1 = scaleName)
  rows : ∀ x j, x < S.orgVocabSize → rank.Owns x →
    HoldsRow X S shard rank l.state x j ∨ (∃ w ∈ ws, X.ReadsAs w.1 (x / S.shardSize)) →
      HoldsRow X S shard rank l'.state x j

section reading

variable {X : PleEnv ρ R} {S : PleTable} {lens : PersistentBuffer → Nat}
  {shard : Nat → PleTensor ρ R} {scale : PleElem ρ R}

theorem Reads.cons {w : Str × PleTensor ρ R} {ws : List (Str × PleTensor ρ R)} {k : PleRank}
    {l l' l'' : Loading ρ R} (hw : Reads X S lens shard k [w] l l')
    (hws : Reads X S lens shard k ws l' l'') : Reads X S lens shard k (w :: ws) l l'' where
  lens := hws.lens
  weightScale := hws.weightScale.trans hw.weightScale
  regularWeights := by
    rw [hws.regularWeights, hw.regularWeights, List.append_assoc, ← List.filter_append,
      List.singleton_append]
  rows := by
    intro x j hx hown h
    apply hws.rows x j hx hown
    simp only [List.mem_cons, exists_eq_or_imp] at h
    rcases h with hheld | hread | hlater
    · exact Or.inl (hw.rows x j hx hown (Or.inl hheld))
    · exact Or.inl (hw.rows x j hx hown (Or.inr ⟨w, List.mem_cons_self, hread⟩))
    · exact Or.inr hlater

/-- A tensor that touches no row leaves every row as it was. -/
theorem Reads.of_weight_eq {w : Str × PleTensor ρ R} {k : PleRank} {l l' : Loading ρ R}
    (hlens : ∀ b, (l'.state.buffers b).length = lens b)
    (hscale : l'.state.weightScale = l.state.weightScale)
    (hregular : l'.regularWeights = l.regularWeights ++ [w].filter (·.1 = scaleName))
    (hweight : l'.state.weight = l.state.weight) (hname : ∀ i, ¬ X.ReadsAs w.1 i) :
    Reads X S lens shard k [w] l l' where
  lens := hlens
  weightScale := hscale
  regularWeights := hregular
  rows := by
    intro x j _ _ h
    rw [HoldsRow, hweight]
    refine h.resolve_right ?_
    rintro ⟨v, hv, hread⟩
    rw [List.mem_singleton.1 hv] at hread
    exact hname _ hread

variable [AddCommMonoid R] {T : Nat} {rank : Nat → PleRank} (hX : X.Documented S T rank)
  (hshape : ∀ i < S.splitNgramParts, (shard i).shape = [S.expectedRows i, S.embeddingDim])
  {r : Nat} (hr : r < T)
include hX hshape hr

/-- Reading shard `i` makes its rows right and leaves the others alone. -/
theorem copy_shard {i : Nat} (hi : i < S.splitNgramParts) {x : Nat} (hx : x < S.orgVocabSize)
    (hown : (rank r).Owns x) (j : Nat) (weight : Nat × Nat → ρ) :
    X.copyPleEmbeddingShard (rank r).shardIndices weight (shard i) (S.checkpointStart i)
        (x - (rank r).shardIndices.orgVocabStartIndex, j) =
      if x / S.shardSize = i then stored X S shard x j
      else weight (x - (rank r).shardIndices.orgVocabStartIndex, j) := by
  have hrow : (rank r).shardIndices.orgVocabStartIndex +
      (x - (rank r).shardIndices.orgVocabStartIndex) = x := Nat.add_sub_cancel' hown.1
  have hmem := S.mem_shard_iff (i := i) (x := x)
  rw [hX.copies r hr]
  by_cases heq : x / S.shardSize = i
  · have hoffset : x - S.checkpointStart i = x % S.shardSize := by
      rw [PleTable.checkpointStart, ← heq, Nat.mul_comm, Nat.mod_eq_sub]
    rw [if_pos heq]
    apply Patch.apply_of_some
    simp only [overlap, hrow, hshape i hi, List.headD_cons]
    rw [if_pos ⟨hown.2, hmem.2 ⟨hx, heq⟩⟩, hoffset, stored, heq]
  · rw [if_neg heq]
    apply Patch.apply_of_none
    simp only [overlap, hrow, hshape i hi, List.headD_cons]
    rw [if_neg fun h => heq (hmem.1 h.2).2]

/-- The loop body takes every tensor of a checkpoint. -/
theorem loadEntry_ckpt {w : Str × PleTensor ρ R} (hw : CkptEntry X S lens shard scale w)
    {l : Loading ρ R} (hlens : ∀ b, (l.state.buffers b).length = lens b) :
    ∃ l', loadEntry X S (rank r) w.1 w.2 l = .ok () l' ∧
      Reads X S lens shard (rank r) [w] l l' := by
  cases hw with
  | @skipped name w hname =>
    refine ⟨l, if_pos hname, Reads.of_weight_eq hlens rfl ?_ rfl fun i h => h.not_skipped hname⟩
    have hne : name ≠ scaleName := by
      rintro rfl
      exact scaleName_not_skipped hname
    simp [hne]
  | @buffer b w hwshape =>
    refine ⟨_, loadEntry_buffer b (by rw [hwshape, hlens b]),
      Reads.of_weight_eq ?_ rfl (by simp [b.name_ne_scaleName]) rfl fun i h => h.ne_buffer b rfl⟩
    intro b'
    by_cases heq : b' = b
    · subst heq
      simp [hlens]
    · simp [heq, hlens]
  | @shard name i hi hname =>
    refine ⟨_, loadEntry_shard hname hi (hshape i hi), hlens, rfl, by simp [hname.ne_scale], ?_⟩
    intro x j hx hown h
    refine (copy_shard hX hshape hr hi hx hown j l.state.weight).trans ?_
    split
    · rfl
    · next hne =>
      refine h.resolve_right ?_
      rintro ⟨v, hv, hread⟩
      rw [List.mem_singleton.1 hv] at hread
      exact hne (hread.unique hname)
  | @scale w hwshape hget =>
    refine ⟨_, loadEntry_scale, Reads.of_weight_eq hlens rfl ?_ rfl fun i h => h.ne_scale rfl⟩
    simp

/-- The loop takes the tensors of a checkpoint. -/
theorem loadLoop_ckpt {ws : List (Str × PleTensor ρ R)}
    (hws : ∀ w ∈ ws, CkptEntry X S lens shard scale w) {l : Loading ρ R}
    (hlens : ∀ b, (l.state.buffers b).length = lens b) :
    ∃ l', loadLoop X S (rank r) ws l = .ok () l' ∧ Reads X S lens shard (rank r) ws l l' := by
  induction ws generalizing l with
  | nil =>
    refine ⟨l, rfl, hlens, rfl, by simp, ?_⟩
    intro x j _ _ h
    exact h.resolve_right (by simp)
  | cons w ws ih =>
    obtain ⟨l', hstep, hw⟩ := loadEntry_ckpt hX hshape hr (hws w List.mem_cons_self) hlens
    obtain ⟨l'', hloop, hrest⟩ := ih (fun v hv => hws v (List.mem_cons_of_mem w hv)) hw.lens
    refine ⟨l'', ?_, hw.cons hrest⟩
    rw [loadLoop, hstep]
    exact hloop

/-! ## all calls -/

/-- What calls of `load_weights` with tensors of a checkpoint do. -/
structure Loads (X : PleEnv ρ R) (S : PleTable) (lens : PersistentBuffer → Nat)
    (shard : Nat → PleTensor ρ R) (scale : PleElem ρ R) (rank : PleRank)
    (ws : List (Str × PleTensor ρ R)) (st st' : PleState ρ R) : Prop where
  lens : ∀ b, (st'.buffers b).length = lens b
  weightScale : st.weightScale = X.toBf16 scale ∨ (∃ w ∈ ws, w.1 = scaleName) →
    st'.weightScale = X.toBf16 scale
  rows : ∀ x j, x < S.orgVocabSize → rank.Owns x →
    HoldsRow X S shard rank st x j ∨ (∃ w ∈ ws, X.ReadsAs w.1 (x / S.shardSize)) →
      HoldsRow X S shard rank st' x j

/-- A call of `load_weights` takes the tensors of a checkpoint. -/
theorem loadWeights_ckpt {ws : List (Str × PleTensor ρ R)}
    (hws : ∀ w ∈ ws, CkptEntry X S lens shard scale w) {st : PleState ρ R}
    (hlens : ∀ b, (st.buffers b).length = lens b) :
    ∃ names st', loadWeights X S (rank r) ws st = .ok names st' ∧
      Loads X S lens shard scale (rank r) ws st st' := by
  obtain ⟨l, hloop, hreads⟩ := loadLoop_ckpt hX hshape hr hws (l := ⟨st, ∅, []⟩) hlens
  have hregular : l.regularWeights = ws.filter (·.1 = scaleName) := hreads.regularWeights
  unfold loadWeights
  rw [hloop]
  dsimp only
  rw [hregular]
  by_cases hnil : ws.filter (·.1 = scaleName) = []
  · rw [hnil, List.isEmpty_nil, if_pos rfl]
    refine ⟨_, _, rfl, hreads.lens, ?_, hreads.rows⟩
    rintro (hheld | ⟨w, hw, hname⟩)
    · exact hreads.weightScale.trans hheld
    · exact absurd hname (by simpa using List.filter_eq_nil_iff.1 hnil w hw)
  · have hscales : ∀ w ∈ ws.filter (·.1 = scaleName),
        w.1 = scaleName ∧ w.2.shape = [1] ∧ w.2.get [0] = scale := by
      intro w hw
      obtain ⟨hmem, hname⟩ := List.mem_filter.1 hw
      have hname : w.1 = scaleName := by simpa using hname
      refine ⟨hname, ?_⟩
      cases hws w hmem with
      | skipped hskip => exact absurd (hname ▸ hskip) scaleName_not_skipped
      | buffer b hwshape => exact absurd hname b.name_ne_scaleName
      | shard hi hread => exact absurd hname hread.ne_scale
      | scale hwshape hget => exact ⟨hwshape, hget⟩
    obtain ⟨names, hload⟩ := hX.loadsScale _ hnil scale hscales l.state
    rw [if_neg (by simpa using hnil), hload]
    exact ⟨_, _, rfl, hreads.lens, fun _ => rfl, hreads.rows⟩

/-- The calls of `load_weights` take the tensors of a checkpoint one call after another. -/
theorem loadCalls_ckpt {calls : List (List (Str × PleTensor ρ R))}
    (hws : ∀ w ∈ calls.flatten, CkptEntry X S lens shard scale w) {st : PleState ρ R}
    (hlens : ∀ b, (st.buffers b).length = lens b) :
    ∃ st', loadCalls X S (rank r) calls st = .ok () st' ∧
      Loads X S lens shard scale (rank r) calls.flatten st st' := by
  induction calls generalizing st with
  | nil =>
    refine ⟨st, rfl, hlens, ?_, ?_⟩
    · intro h
      exact h.resolve_right (by simp)
    · intro x j _ _ h
      exact h.resolve_right (by simp)
  | cons ws calls ih =>
    simp only [List.flatten_cons, List.mem_append] at hws
    obtain ⟨names, st', hcall, hfirst⟩ :=
      loadWeights_ckpt hX hshape hr (fun w hw => hws w (Or.inl hw)) hlens
    obtain ⟨st'', hcalls, hrest⟩ := ih (fun w hw => hws w (Or.inr hw)) hfirst.lens
    refine ⟨st'', ?_, hrest.lens, ?_, ?_⟩
    · rw [loadCalls, hcall]
      exact hcalls
    · simp only [List.flatten_cons, List.mem_append, or_and_right, exists_or]
      rintro (hheld | hnow | hlater)
      · exact hrest.weightScale (Or.inl (hfirst.weightScale (Or.inl hheld)))
      · exact hrest.weightScale (Or.inl (hfirst.weightScale (Or.inr hnow)))
      · exact hrest.weightScale (Or.inr hlater)
    · intro x j hx hown
      simp only [List.flatten_cons, List.mem_append, or_and_right, exists_or]
      rintro (hheld | hnow | hlater)
      · exact hrest.rows x j hx hown (Or.inl (hfirst.rows x j hx hown (Or.inl hheld)))
      · exact hrest.rows x j hx hown (Or.inl (hfirst.rows x j hx hown (Or.inr hnow)))
      · exact hrest.rows x j hx hown (Or.inr hlater)

/-- A rank that has read a complete checkpoint holds its rows of the table and the scale. -/
theorem loadCalls_complete {calls : List (List (Str × PleTensor ρ R))}
    (hckpt : CompleteCkpt X S lens shard scale calls.flatten) {st : PleState ρ R}
    (hlens : ∀ b, (st.buffers b).length = lens b) :
    ∃ st', loadCalls X S (rank r) calls st = .ok () st' ∧
      st'.weightScale = X.toBf16 scale ∧
      ∀ x j, x < S.orgVocabSize → (rank r).Owns x → HoldsRow X S shard (rank r) st' x j := by
  obtain ⟨st', hcalls, hloads⟩ := loadCalls_ckpt hX hshape hr hckpt.entries hlens
  refine ⟨st', hcalls, hloads.weightScale (Or.inr hckpt.scale), ?_⟩
  intro x j hx hown
  exact hloads.rows x j hx hown (Or.inr (hckpt.shards _ (S.div_shardSize_lt hx)))

end reading

end FlashNext
