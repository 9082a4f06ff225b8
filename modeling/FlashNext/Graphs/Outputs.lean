import FlashNext.Graphs.ModelManager

/-!
# FlashNext.Graphs.Outputs

The buffers in which a `ModelCudaGraphManager` keeps outputs.

The buffers of a manager lie one after another (`Outputs.from`).  An output that is no longer than
they are is copied to their front and read back from there (`store_eq_ok`); a longer one is refused
(`store_eq_error`).  The first output a manager keeps allocates them (`keepOutput_fresh`), and from
then on they are only copied to (`keepOutput_allocated`).
-/

namespace FlashNext

variable {σ ρ : Type}

/-! ## one buffer -/

section buffer

variable {buf rows : List ρ} {n : Int} {mem : Memory ρ} {addr : Nat}

/-- The error of an output that is longer than its buffer. -/
def tooLong : ModelGraphError :=
  .raised (.runtimeError "The expanded size of the tensor must match the existing size")

theorem sliceEnd_of_le (hn : 0 ≤ n) (hle : n.toNat ≤ buf.length) :
    sliceEnd buf.length n = n.toNat := by
  rw [sliceEnd, if_neg (by omega)]
  omega

theorem sliceEnd_of_lt (hn : 0 ≤ n) (hlt : buf.length < n.toNat) :
    sliceEnd buf.length n = buf.length := by
  rw [sliceEnd, if_neg (by omega)]
  omega

theorem setSlice_eq_ok (hn : 0 ≤ n) (hrows : rows.length = n.toNat)
    (hle : n.toNat ≤ buf.length) : setSlice buf n rows = .ok (rows ++ buf.drop n.toNat) := by
  unfold setSlice
  dsimp only
  rw [sliceEnd_of_le hn hle, if_pos hrows]

/-- A longer output does not fit, unless the buffer is empty. -/
theorem setSlice_eq_error (hn : 0 ≤ n) (hrows : rows.length = n.toNat) (hbuf : 0 < buf.length)
    (hlt : buf.length < n.toNat) : setSlice buf n rows = .error tooLong := by
  unfold setSlice
  dsimp only
  rw [sliceEnd_of_lt hn hlt, if_neg (by omega)]
  rcases rows with _ | ⟨row, _ | ⟨row', rows⟩⟩
  · rfl
  · rw [List.length_singleton] at hrows
    omega
  · rfl

/-- The slice that was assigned is read back. -/
theorem slice_setSlice (hn : 0 ≤ n) (hrows : rows.length = n.toNat) (hle : n.toNat ≤ buf.length) :
    slice (rows ++ buf.drop n.toNat) n = rows := by
  have hlen : n.toNat ≤ (rows ++ buf.drop n.toNat).length := by simp; omega
  rw [slice, sliceEnd_of_le hn hlen, ← hrows, List.take_left']
  rfl

end buffer

/-! ## allocation -/

section alloc

variable (uninit : Nat → Nat → ρ)

theorem emptyLike_eq (mem : Memory ρ) (rows : List ρ) :
    ∃ new, mem.emptyLike uninit rows = (mem.allocated, new) ∧
      new.allocated = mem.allocated + 1 ∧ (new.buffers mem.allocated).length = rows.length ∧
      ∀ addr, addr ≠ mem.allocated → new.buffers addr = mem.buffers addr := by
  refine ⟨_, rfl, rfl, ?_, fun addr hne => Function.update_of_ne hne _ _⟩
  simp

/-- New buffers lie one after another, and the old ones keep their rows. -/
theorem emptyLikes_eq {len : Nat} (tensors : List (List ρ))
    (hlen : ∀ rows ∈ tensors, rows.length = len) (mem : Memory ρ) :
    ∃ new, mem.emptyLikes uninit tensors = (List.range' mem.allocated tensors.length, new) ∧
      new.allocated = mem.allocated + tensors.length ∧
      (∀ i < tensors.length, (new.buffers (mem.allocated + i)).length = len) ∧
      ∀ addr < mem.allocated, new.buffers addr = mem.buffers addr := by
  induction tensors generalizing mem with
  | nil => exact ⟨mem, rfl, rfl, fun i hi => absurd hi (Nat.not_lt_zero i), fun _ _ => rfl⟩
  | cons rows tensors ih =>
    obtain ⟨new, hnew, halloc, hrows, hkeep⟩ := emptyLike_eq uninit mem rows
    obtain ⟨rest, hrest, hallocs, hlens, hkeeps⟩ :=
      ih (fun rows h => hlen rows (List.mem_cons_of_mem _ h)) new
    refine ⟨rest, ?_, ?_, ?_, ?_⟩
    · rw [Memory.emptyLikes, hnew]
      dsimp only
      rw [hrest, halloc, List.length_cons, List.range'_succ]
    · rw [hallocs, halloc, List.length_cons]
      omega
    · intro i hi
      rcases i with _ | i
      · rw [Nat.add_zero, hkeeps _ (by omega), hrows]
        exact hlen rows List.mem_cons_self
      · rw [List.length_cons] at hi
        have := hlens i (by omega)
        rwa [halloc, Nat.add_assoc, Nat.add_comm 1 i] at this
    · intro addr hlt
      rw [hkeeps addr (by omega), hkeep addr (by omega)]

end alloc

/-! ## the buffers of an output -/

/-- The names under which an output is kept. -/
def ModelOutput.names (output : ModelOutput ρ) : List OutputName := output.tensors.map Prod.fst

/-- The kind of output that a rank expects of the model. -/
def ModelOutput.IsOf (isLastPpRank useAux : Bool) : ModelOutput ρ → Prop
  | .hiddenStates _ => isLastPpRank = true ∧ useAux = false
  | .withAux _ _ => isLastPpRank = true ∧ useAux = true
  | .intermediateTensors _ => isLastPpRank = false

/-- Buffers one after another from an address on, for outputs of the shape of this one. -/
def Outputs.from (base : Nat) : ModelOutput ρ → Outputs
  | .hiddenStates _ => { hiddenStates := some base }
  | .withAux _ aux =>
    { hiddenStates := some base, auxHiddenStates := List.range' (base + 1) aux.length }
  | .intermediateTensors tensors =>
    { intermediateTensors :=
        some ((tensors.map Prod.fst).zip (List.range' base tensors.length)) }

/-- In a dictionary without repeated keys the position of a key is that of its value. -/
theorem lookup_zip {κ ν : Type} [BEq κ] [LawfulBEq κ] {keys : List κ} {values : List ν}
    (hnodup : keys.Nodup) (hlen : keys.length = values.length) {i : Nat} (hi : i < keys.length) :
    (keys.zip values).lookup keys[i] = some (values[i]) := by
  induction keys generalizing values i with
  | nil => exact absurd hi (Nat.not_lt_zero i)
  | cons key keys ih =>
    rcases values with _ | ⟨value, values⟩
    · cases hlen
    · rw [List.nodup_cons] at hnodup
      rcases i with _ | i
      · simp
      · have hi' : i < keys.length := Nat.lt_of_succ_lt_succ hi
        have hne : (keys[i] == key) = false := by
          rw [beq_eq_false_iff_ne]
          exact ne_of_mem_of_not_mem (List.getElem_mem hi') hnodup.1
        simpa [List.lookup_cons, hne] using ih hnodup.2 (Nat.succ.inj hlen) hi'

/-- The buffers are found by name. -/
theorem find_from {output : ModelOutput ρ} (hnodup : output.names.Nodup) (base : Nat) {i : Nat}
    (hi : i < output.tensors.length) :
    (Outputs.from base output).find output.tensors[i].1 = .ok (base + i) := by
  cases output with
  | hiddenStates rows =>
    obtain rfl : i = 0 := Nat.lt_one_iff.mp hi
    rfl
  | withAux rows aux =>
    rcases i with _ | i
    · rfl
    · have hi' : i < aux.length := by simpa [ModelOutput.tensors] using hi
      simp [ModelOutput.tensors, Outputs.from, Outputs.find, hi', Nat.add_assoc, Nat.add_comm 1 i]
  | intermediateTensors tensors =>
    have hi' : i < (tensors.map Prod.fst).length := by simpa [ModelOutput.tensors] using hi
    have hkeys : (tensors.map Prod.fst).Nodup := by
      apply List.Nodup.of_map OutputName.intermediateTensors
      simpa [ModelOutput.names, ModelOutput.tensors, Function.comp_def] using hnodup
    have hlen : (tensors.map Prod.fst).length = (List.range' base tensors.length).length := by
      simp
    have hlookup := lookup_zip hkeys hlen hi'
    simp only [List.getElem_map] at hlookup
    simp [ModelOutput.tensors, Outputs.from, Outputs.find, hlookup]

/-! ## storing an output -/

section store

variable {o : Outputs} {n : Int} {base len : Nat} {tensors : List (OutputName × List ρ)}
  {mem : Memory ρ}

/-- The buffers of an output: each is found by its name, and all are equally long. -/
structure Outputs.Room (o : Outputs) (base len : Nat) (tensors : List (OutputName × List ρ))
    (mem : Memory ρ) : Prop where
  find : ∀ i (hi : i < tensors.length), o.find tensors[i].1 = .ok (base + i)
  length : ∀ i < tensors.length, (mem.buffers (base + i)).length = len

theorem Outputs.Room.tail {x : OutputName × List ρ} (h : o.Room base len (x :: tensors) mem) :
    o.Room (base + 1) len tensors mem := by
  refine ⟨fun i hi => ?_, fun i hi => ?_⟩
  · have hfind := h.find (i + 1) (Nat.succ_lt_succ hi)
    rwa [List.getElem_cons_succ, ← Nat.add_assoc, Nat.add_right_comm] at hfind
  · rw [Nat.add_right_comm]
    exact h.length (i + 1) (Nat.succ_lt_succ hi)

theorem Outputs.Room.congr {new : Memory ρ} (h : o.Room base len tensors mem)
    (hlens : ∀ addr, (new.buffers addr).length = (mem.buffers addr).length) :
    o.Room base len tensors new :=
  ⟨h.find, fun i hi => (hlens _).trans (h.length i hi)⟩

/-- What one assignment does. -/
theorem storeOne_eq_ok {x : OutputName × List ρ} {addr : Nat} (hfind : o.find x.1 = .ok addr)
    (hn : 0 ≤ n) (hle : n.toNat ≤ (mem.buffers addr).length) (hrows : x.2.length = n.toNat) :
    ∃ new, o.storeOne n mem x = .ok new ∧ new.allocated = mem.allocated ∧
      (∀ addr, (new.buffers addr).length = (mem.buffers addr).length) ∧
      (∀ addr', addr' ≠ addr → new.buffers addr' = mem.buffers addr') ∧
      slice (new.buffers addr) n = x.2 := by
  let buffers := Function.update mem.buffers addr (x.2 ++ (mem.buffers addr).drop n.toNat)
  refine ⟨⟨buffers, mem.allocated⟩, ?_, rfl, fun addr' => ?_, fun addr' hne => ?_, ?_⟩
  · rw [Outputs.storeOne, hfind]
    simp only [Memory.store, setSlice_eq_ok hn hrows hle, bind, Except.bind]
    rfl
  · by_cases haddr : addr' = addr
    · subst haddr
      simp only [buffers, Function.update_self, List.length_append, List.length_drop]
      omega
    · exact congrArg List.length (Function.update_of_ne haddr _ _)
  · exact Function.update_of_ne hne _ _
  · have hself : buffers addr = _ := Function.update_self ..
    change slice (buffers addr) n = x.2
    rw [hself]
    exact slice_setSlice hn hrows hle

/-- An output that is no longer than its buffers is stored, and read back from them. -/
theorem store_eq_ok (hroom : o.Room base len tensors mem) (hn : 0 ≤ n) (hle : n.toNat ≤ len)
    (hrows : ∀ x ∈ tensors, x.2.length = n.toNat) :
    ∃ new, o.store n tensors mem = .ok new ∧ new.allocated = mem.allocated ∧
      (∀ addr, (new.buffers addr).length = (mem.buffers addr).length) ∧
      (∀ addr, addr < base ∨ base + tensors.length ≤ addr →
        new.buffers addr = mem.buffers addr) ∧
      ∀ i (hi : i < tensors.length), slice (new.buffers (base + i)) n = tensors[i].2 := by
  induction tensors generalizing base mem with
  | nil =>
    exact ⟨mem, rfl, rfl, fun _ => rfl, fun _ _ => rfl, fun i hi => absurd hi (Nat.not_lt_zero i)⟩
  | cons x tensors ih =>
    have hpos : 0 < (x :: tensors).length := Nat.zero_lt_succ _
    obtain ⟨mem₁, hone, halloc₁, hlens₁, hkeep₁, hread₁⟩ := storeOne_eq_ok (hroom.find 0 hpos) hn
      (hle.trans (hroom.length 0 hpos).ge) (hrows x List.mem_cons_self)
    obtain ⟨new, hnew, halloc, hlens, hkeep, hread⟩ :=
      ih (hroom.congr hlens₁).tail fun y hy => hrows y (List.mem_cons_of_mem _ hy)
    refine ⟨new, ?_, halloc.trans halloc₁, fun addr => (hlens addr).trans (hlens₁ addr), ?_, ?_⟩
    · rw [Outputs.store, List.foldlM_cons]
      exact bind_eq_ok.2 ⟨mem₁, hone, hnew⟩
    · intro addr haddr
      rw [List.length_cons] at haddr
      rw [hkeep addr (by omega), hkeep₁ addr (by omega)]
    · intro i hi
      rcases i with _ | i
      · rw [hkeep (base + 0) (.inl (Nat.lt_succ_self _))]
        exact hread₁
      · have htail := hread i (Nat.lt_of_succ_lt_succ hi)
        rwa [Nat.add_assoc, Nat.add_comm 1 i] at htail

/-- An output that is longer than its buffers is refused. -/
theorem store_eq_error (hroom : o.Room base len tensors mem) (hne : tensors ≠ []) (hn : 0 ≤ n)
    (hpos : 0 < len) (hlt : len < n.toNat) (hrows : ∀ x ∈ tensors, x.2.length = n.toNat) :
    o.store n tensors mem = .error tooLong := by
  obtain ⟨x, tensors, rfl⟩ := List.exists_cons_of_ne_nil hne
  have hlen : (mem.buffers base).length = len := hroom.length 0 (Nat.zero_lt_succ _)
  have hone : o.storeOne n mem x = .error tooLong := by
    rw [Outputs.storeOne, show o.find x.1 = .ok base from hroom.find 0 (Nat.zero_lt_succ _)]
    have hset := setSlice_eq_error hn (hrows x List.mem_cons_self) (hlen ▸ hpos) (hlen ▸ hlt)
    simp only [Memory.store, hset, bind, Except.bind]
  rw [Outputs.store, List.foldlM_cons, hone]
  rfl

end store

/-! ## keeping an output -/

namespace ModelCudaGraphManager

variable {X : ModelEnv σ ρ} {M M' : ModelCudaGraphManager ρ} {n : Int} {base len : Nat}
  {output : ModelOutput ρ}

/-- The buffers are allocated, one after another from `base` on, for outputs of this shape. -/
structure Allocated (M : ModelCudaGraphManager ρ) (base len : Nat) (output : ModelOutput ρ) :
    Prop where
  outputs : M.outputs = Outputs.from base output
  allocated : base + output.tensors.length ≤ M.memory.allocated
  length : ∀ i < output.tensors.length, (M.memory.buffers (base + i)).length = len

theorem Allocated.room (h : M.Allocated base len output) (hnodup : output.names.Nodup) :
    M.outputs.Room base len output.tensors M.memory :=
  ⟨fun _ hi => h.outputs ▸ find_from hnodup base hi, h.length⟩

/-- The assignments of two parts of an output, one after the other. -/
theorem assign_append (xs ys : List (OutputName × List ρ)) :
    M.assign n (xs ++ ys) = M.assign n xs >>= fun M => M.assign n ys := by
  have hstore : M.outputs.store n (xs ++ ys) M.memory =
      M.outputs.store n xs M.memory >>= M.outputs.store n ys := List.foldlM_append
  rw [assign, assign, hstore]
  cases M.outputs.store n xs M.memory <;> rfl

theorem assign_eq_ok {tensors : List (OutputName × List ρ)} (h : M.assign n tensors = .ok M') :
    ∃ memory, M.outputs.store n tensors M.memory = .ok memory ∧
      M' = { M with memory := memory } := by
  obtain ⟨memory, hstore, h⟩ := bind_eq_ok.1 h
  cases h
  exact ⟨memory, hstore, rfl⟩

/-- Buffers for auxiliary outputs are allocated once. -/
theorem allocAuxHiddenStates_eq {aux : List (List ρ)}
    (h : M.outputs.auxHiddenStates.length = aux.length) : M.allocAuxHiddenStates X aux = M := by
  rw [allocAuxHiddenStates]
  split
  · next hnone =>
    rw [hnone.2] at h
    obtain rfl := List.length_eq_zero_iff.mp h.symm
    have houtputs : { M.outputs with auxHiddenStates := [] } = M.outputs := by rw [← hnone.2]
    simp only [Memory.emptyLikes, houtputs]
  · rfl

/-- Where the buffers are allocated, an output is only copied. -/
theorem keepOutput_allocated (h : M.Allocated base len output)
    (hkind : output.IsOf M.isLastPpRank M.useAuxHiddenStateOutputs) :
    M.keepOutput X n output = M.assign n output.tensors := by
  have houtputs := h.outputs
  cases output with
  | hiddenStates rows =>
    simp only [keepOutput, hkind.1, hkind.2, if_true, allocHiddenStates, houtputs, Outputs.from,
      ModelOutput.tensors]
  | withAux rows aux =>
    have hhidden : M.allocHiddenStates X rows = M := by
      simp only [allocHiddenStates, houtputs, Outputs.from]
    simp only [keepOutput, hkind.1, hkind.2, if_true, hhidden]
    refine Eq.trans ?_ (assign_append [(.hiddenStates, rows)] _).symm
    rcases hassign : M.assign n [(.hiddenStates, rows)] with e | M₁
    · rfl
    · obtain ⟨memory, -, rfl⟩ := assign_eq_ok hassign
      have haux : ({ M with memory := memory }.allocAuxHiddenStates X aux) =
          { M with memory := memory } := by
        apply allocAuxHiddenStates_eq
        simp [houtputs, Outputs.from]
      simp only [bind, Except.bind, haux]
  | intermediateTensors tensors =>
    have hlast : M.isLastPpRank = false := hkind
    simp only [keepOutput, hlast, Bool.false_eq_true, if_false, allocIntermediateTensors, houtputs,
      Outputs.from, ModelOutput.tensors]

/-- What the copies of an output leave in the buffers. -/
structure Copied (M M' : ModelCudaGraphManager ρ) (n : Int) (base : Nat) (output : ModelOutput ρ) :
    Prop where
  frame : M' = { M with memory := M'.memory }
  allocated : M'.memory.allocated = M.memory.allocated
  length : ∀ addr, (M'.memory.buffers addr).length = (M.memory.buffers addr).length
  read : ∀ i (hi : i < output.tensors.length),
    slice (M'.memory.buffers (base + i)) n = output.tensors[i].2

theorem assign_allocated (h : M.Allocated base len output) (hnodup : output.names.Nodup)
    (hn : 0 ≤ n) (hle : n.toNat ≤ len) (hrows : ∀ x ∈ output.tensors, x.2.length = n.toNat) :
    ∃ M', M.assign n output.tensors = .ok M' ∧ M.Copied M' n base output := by
  obtain ⟨memory, hstore, halloc, hlens, -, hread⟩ := store_eq_ok (h.room hnodup) hn hle hrows
  exact ⟨{ M with memory := memory }, bind_eq_ok.2 ⟨memory, hstore, rfl⟩,
    ⟨rfl, halloc, hlens, hread⟩⟩

/-- Only the lengths of the buffers matter. -/
theorem Allocated.congr (h : M.Allocated base len output) (houtputs : M'.outputs = M.outputs)
    (hallocated : M'.memory.allocated = M.memory.allocated)
    (hlens : ∀ addr, (M'.memory.buffers addr).length = (M.memory.buffers addr).length) :
    M'.Allocated base len output :=
  ⟨houtputs.trans h.outputs, hallocated ▸ h.allocated, fun i hi => (hlens _).trans (h.length i hi)⟩

/-- Copies leave the buffers allocated. -/
theorem Allocated.copied (h : M.Allocated base len output) (hM : M.Copied M' n base output) :
    M'.Allocated base len output := by
  refine h.congr ?_ hM.allocated hM.length
  rw [hM.frame]

/-- The hidden states are the first that a fresh manager allocates and copies. -/
theorem assign_hiddenStates_fresh (hfresh : M.outputs = {}) {rows : List ρ} (hn : 0 ≤ n)
    (hrows : rows.length = n.toNat) :
    ∃ M', (M.allocHiddenStates X rows).assign n [(.hiddenStates, rows)] = .ok M' ∧
      M' = { M with
        outputs := { hiddenStates := some M.memory.allocated }, memory := M'.memory } ∧
      M'.memory.allocated = M.memory.allocated + 1 ∧
      (M'.memory.buffers M.memory.allocated).length = n.toNat := by
  obtain ⟨new, hnew, halloc, hlen, -⟩ := emptyLike_eq X.uninit M.memory rows
  let M₁ := { M with outputs := { hiddenStates := some M.memory.allocated }, memory := new }
  have hM₁ : M.allocHiddenStates X rows = M₁ := by
    simp only [allocHiddenStates, hfresh, hnew, M₁]
  have halloc₁ : M₁.Allocated M.memory.allocated n.toNat (.hiddenStates rows) := by
    refine ⟨rfl, halloc.ge, fun i hi => ?_⟩
    obtain rfl : i = 0 := Nat.lt_one_iff.mp hi
    exact hlen.trans hrows
  obtain ⟨M', hM', hcopied⟩ := assign_allocated halloc₁ (List.nodup_singleton _) hn le_rfl
    fun x hx => by rw [List.mem_singleton.mp hx]; exact hrows
  exact ⟨M', hM₁ ▸ hM', hcopied.frame, hcopied.allocated.trans halloc,
    (halloc₁.copied hcopied).length 0 Nat.zero_lt_one⟩

/-- The first output of a capture allocates the buffers, as long as the output. -/
theorem keepOutput_fresh (hfresh : M.outputs = {})
    (hkind : output.IsOf M.isLastPpRank M.useAuxHiddenStateOutputs) (hnodup : output.names.Nodup)
    (hn : 0 ≤ n) (hrows : ∀ x ∈ output.tensors, x.2.length = n.toNat) :
    ∃ M', M.keepOutput X n output = .ok M' ∧
      M' = { M with outputs := M'.outputs, memory := M'.memory } ∧
      M'.Allocated M.memory.allocated n.toNat output := by
  cases output with
  | hiddenStates rows =>
    obtain ⟨M', hM', hframe, halloc, hlen⟩ :=
      assign_hiddenStates_fresh (X := X) hfresh hn (hrows _ List.mem_cons_self)
    have houtputs := congrArg ModelCudaGraphManager.outputs hframe
    refine ⟨M', ?_, ?_, houtputs, halloc.ge, fun i hi => ?_⟩
    · simp only [keepOutput, hkind.1, hkind.2, if_true]
      exact hM'
    · rw [houtputs]
      exact hframe
    · obtain rfl : i = 0 := Nat.lt_one_iff.mp hi
      exact hlen
  | withAux rows aux =>
    obtain ⟨M₁, hM₁, hframe₁, halloc₁, hlen₁⟩ :=
      assign_hiddenStates_fresh (X := X) hfresh hn (hrows _ List.mem_cons_self)
    have hauxrows : ∀ x ∈ aux, x.length = n.toNat := by
      intro x hx
      obtain ⟨i, hi, rfl⟩ := List.mem_iff_getElem.mp hx
      refine hrows (.auxHiddenStates i, aux[i]) (List.mem_cons_of_mem _ (List.mem_map.mpr ?_))
      exact ⟨(aux[i], i), List.mem_zipIdx_iff_getElem?.mpr (by simp [hi]), rfl⟩
    obtain ⟨new, hnew, halloc, hlens, hkeep⟩ := emptyLikes_eq X.uninit aux hauxrows M₁.memory
    let M₂ := { M₁ with
      outputs := Outputs.from M.memory.allocated (.withAux rows aux), memory := new }
    have hM₂ : M₁.allocAuxHiddenStates X aux = M₂ := by
      have huse : M₁.useAuxHiddenStateOutputs = true := by
        rw [hframe₁]
        exact hkind.2
      have houtputs : M₁.outputs = { hiddenStates := some M.memory.allocated } :=
        congrArg ModelCudaGraphManager.outputs hframe₁
      simp only [allocAuxHiddenStates, huse, houtputs, and_self, if_true, hnew, halloc₁, M₂,
        Outputs.from]
    have hM₂alloc : M₂.Allocated M.memory.allocated n.toNat (.withAux rows aux) := by
      refine ⟨rfl, ?_, fun i hi => ?_⟩
      · simp only [ModelOutput.tensors, List.length_cons, List.length_map, List.length_zipIdx, M₂,
          halloc, halloc₁]
        omega
      · rcases i with _ | i
        · exact (congrArg List.length (hkeep _ (by omega))).trans hlen₁
        · have hlen := hlens i (by simpa [ModelOutput.tensors] using hi)
          rwa [halloc₁, Nat.add_assoc, Nat.add_comm 1 i] at hlen
    obtain ⟨memory, hstore, halloc', hlens', -, -⟩ :=
      store_eq_ok (hM₂alloc.room hnodup).tail hn le_rfl fun x hx =>
        hrows x (List.mem_cons_of_mem _ hx)
    refine ⟨{ M₂ with memory := memory }, ?_, ?_, hM₂alloc.congr rfl halloc' hlens'⟩
    · simp only [keepOutput, hkind.1, hkind.2, if_true]
      refine bind_eq_ok.2 ⟨M₁, hM₁, ?_⟩
      rw [hM₂]
      exact bind_eq_ok.2 ⟨memory, hstore, rfl⟩
    · simp only [M₂]
      rw [hframe₁]
  | intermediateTensors tensors =>
    have hlast : M.isLastPpRank = false := hkind
    have hlens : ∀ rows ∈ tensors.map Prod.snd, rows.length = n.toNat := by
      intro rows hmem
      obtain ⟨x, hx, rfl⟩ := List.mem_map.mp hmem
      exact hrows (.intermediateTensors x.1, x.2) (List.mem_map_of_mem hx)
    obtain ⟨new, hnew, halloc, hlen, -⟩ :=
      emptyLikes_eq X.uninit (tensors.map Prod.snd) hlens M.memory
    rw [List.length_map] at hnew halloc hlen
    let M₁ := { M with
      outputs := Outputs.from M.memory.allocated (.intermediateTensors tensors)
      memory := new }
    have hM₁ : M.allocIntermediateTensors X tensors = M₁ := by
      simp only [allocIntermediateTensors, hfresh, hnew, M₁, Outputs.from]
    have halloc₁ : M₁.Allocated M.memory.allocated n.toNat (.intermediateTensors tensors) := by
      refine ⟨rfl, ?_, fun i hi => hlen i ?_⟩
      · simp [ModelOutput.tensors, halloc, M₁]
      · simpa [ModelOutput.tensors] using hi
    obtain ⟨M', hM', hcopied⟩ := assign_allocated halloc₁ hnodup hn le_rfl hrows
    refine ⟨M', ?_, ?_, halloc₁.copied hcopied⟩
    · simp only [keepOutput, hlast, Bool.false_eq_true, if_false, hM₁]
      exact hM'
    · rw [hcopied.frame]

end ModelCudaGraphManager

end FlashNext
