import FlashNext.ShortConv.Request

/-!
# FlashNext.ShortConv.Idle

Rows of a batch that bring no token.

Every kernel gathers the slots of all rows, recomputes them and writes them back, so a
row is left alone by its mask only.  Decode and prefill mask the row; the speculative
kernel masks columns, by a bound that for no tokens is one short of the state.

* `indexCopy_at_row` — a slot holds what its own row wrote;
* `idle_rows_keep_slots` — all idle rows keep their slots, but an empty speculative row
  only if its window stays the same when it is shifted.
-/

namespace FlashNext

variable {ι α β : Type}

/-! ## what is written back -/

/-- Two rows of a batch share the NULL slot only. -/
theorem DistinctSlots.getD_inj {slots : List Nat} (h : DistinctSlots slots) {r r' : Nat}
    (hr : slots.getD r 0 ≠ nullBlockId) (heq : slots.getD r' 0 = slots.getD r 0) : r' = r := by
  have hlt : ∀ k, slots.getD k 0 ≠ nullBlockId → k < slots.length := by
    intro k hk
    by_contra hge
    exact hk (List.getD_eq_default _ _ (by omega))
  have hrlt := hlt r hr
  have hrlt' := hlt r' (heq ▸ hr)
  rw [List.getD_eq_getElem _ _ hrlt] at hr heq
  rw [List.getD_eq_getElem _ _ hrlt'] at heq
  have hpair : slots.Pairwise fun a b => a ≠ nullBlockId → b ≠ nullBlockId → a ≠ b := by
    have hnodup : (slots.filter (· != nullBlockId)).Pairwise (· ≠ ·) := h
    simpa only [List.pairwise_filter, bne_iff_ne] using hnodup
  rw [List.pairwise_iff_getElem] at hpair
  rcases Nat.lt_trichotomy r' r with hlt | heqr | hgt
  · exact absurd heq (hpair r' r hrlt' hrlt hlt (heq ▸ hr) hr)
  · exact heqr
  · exact absurd heq.symm (hpair r r' hrlt hrlt' hgt hr (heq ▸ hr))

/-- A slot holds what its own row wrote, provided that NULL rows write back what they read. -/
theorem indexCopy_at_row {convState : ConvState ι β} {slots : List Nat}
    (hdistinct : DistinctSlots slots) {n : Nat} {rows : Nat → Slot ι β}
    (hnull : ∀ r, slots.getD r 0 = nullBlockId → rows r = convState.data nullBlockId) {r : Nat}
    (hr : r < n) :
    (convState.indexCopy n (stateIndex slots) rows).data (slots.getD r 0) = rows r := by
  apply scatter_of_mem
  · exact List.mem_map.mpr ⟨r, List.mem_range.mpr hr, by rw [stateIndex_eq]⟩
  · intro s hs
    obtain ⟨r', -, hrow⟩ := List.mem_map.mp hs
    obtain ⟨hindex, rfl⟩ := Prod.mk.inj hrow
    rw [stateIndex_eq] at hindex
    by_cases hslot : slots.getD r 0 = nullBlockId
    · rw [hnull r hslot, hnull r' (hindex.trans hslot)]
    · rw [hdistinct.getD_inj hslot hindex]

theorem validState_of_null {slots : List Nat} {r : Nat} (h : slots.getD r 0 = nullBlockId) :
    validState slots r = false := by
  rw [validState, h, bne_self_eq_false]

theorem setCols_eq_self_iff {n : Nat} {s new : Slot ι β} :
    setCols n s new = s ↔ ∀ c t, t < n → new c t = s c t := by
  constructor
  · intro h c t ht
    have hcol := congrFun (congrFun h c) t
    rwa [setCols, if_pos ht] at hcol
  · intro h
    funext c t
    rw [setCols]
    split
    · next ht => exact h c t ht
    · rfl

/-! ## the three kernels -/

/-- Shifted by one column behind `offset`, the window of a slot is what it was. -/
def PleLayer.WindowRepeats (L : PleLayer ι α β) (offset : Nat) (s : Slot ι β) : Prop :=
  ∀ c t, t + 1 < L.convStateLen → L.toState (L.ofState (s c (offset + (t + 1)))) = s c t

variable [Zero α] [Add α] [Mul α] {L : PleLayer ι α β} {convState convState' : ConvState ι β}
  {output : List (Row ι α)}

/-- A NULL row of a decode batch keeps its slot. -/
theorem decodeBatched_keeps_slot [One α] {xD : List (Row ι α)} {slots : List Nat}
    {flags : Option (List Bool)} (hdistinct : DistinctSlots slots)
    (hrun : shortConvDilatedDecodeBatched L xD convState slots flags = .ok (output, convState'))
    {r : Nat} (hr : r < slots.length) (hslot : slots.getD r 0 = nullBlockId) :
    convState'.data (slots.getD r 0) = convState.data (slots.getD r 0) := by
  unfold shortConvDilatedDecodeBatched at hrun
  cases hflags : decodeHasInitialState slots flags with
  | error e => rw [hflags] at hrun; cases hrun
  | ok hasInitialState =>
    rw [hflags] at hrun
    cases hrun
    dsimp only
    split
    · have hkeep : ∀ r, slots.getD r 0 = nullBlockId →
          setCols L.convStateLen (convState.data (stateIndex slots r))
            (convState.data (stateIndex slots r)) = convState.data nullBlockId := by
        intro r hnull
        rw [setCols_self, stateIndex_eq, hnull]
      rw [indexCopy_at_row hdistinct _ hr]
      · simp only [validState_of_null hslot, Bool.false_eq_true, if_false, hkeep r hslot, hslot]
      · intro r hnull
        simp only [validState_of_null hnull, Bool.false_eq_true, if_false, hkeep r hnull]
    · rfl

/-- A NULL or empty row of a prefill batch keeps its slot. -/
theorem prefillCore_keeps_slot {xP : List (Row ι α)} {qStarts lengths slots : List Nat}
    {maxLen numPrefills numPrefillTokens : Nat} {flags : List Bool}
    (hdistinct : DistinctSlots (slots.take numPrefills))
    (hrun : shortConvDilatedPrefillCore L xP qStarts lengths maxLen numPrefills numPrefillTokens
      slots flags convState = .ok (output, convState'))
    {r : Nat} (hr : r < numPrefills)
    (hidle : slots.getD r 0 = nullBlockId ∨ lengths.getD r 0 = 0) :
    convState'.data (slots.getD r 0) = convState.data (slots.getD r 0) := by
  have htake : (slots.take numPrefills).getD r 0 = slots.getD r 0 := by
    simp [List.getD_eq_getElem?_getD, hr]
  unfold shortConvDilatedPrefillCore at hrun
  dsimp only at hrun
  split at hrun
  · cases hrun
  · split at hrun
    · cases hrun
    · cases hrun
      split
      · rw [← htake, indexCopy_at_row hdistinct _ hr]
        · have hmask : (validState (slots.take numPrefills) r && decide (0 < lengths.getD r 0)) =
              false := by
            rcases hidle with hslot | hempty
            · rw [validState_of_null (htake.trans hslot), Bool.false_and]
            · have hzero : ¬ 0 < lengths.getD r 0 := by omega
              rw [decide_eq_false hzero, Bool.and_false]
          simp only [hmask, Bool.false_eq_true, if_false, setCols_self, stateIndex_eq]
        · intro r hnull
          simp only [validState_of_null hnull, Bool.false_and, Bool.false_eq_true, if_false,
            setCols_self, stateIndex_eq, hnull]
      · rfl

omit [Add α] [Mul α] in
/-- The columns that an empty speculative row writes are those of its window, each read from the
column behind it. -/
theorem shifted_eq_self_iff (hS : 0 < L.convStateLen) {offset specQueryLen : Nat}
    {tokens : Nat → Row ι α} {s : Slot ι β} :
    (setCols (L.convStateLen + specQueryLen - 1) s fun c t =>
      if t < L.convStateLen - 1 then
        L.toState (catHistory L.convStateLen (fun c t => L.ofState (s c (offset + t))) tokens c
          (t + 1))
      else s c t) = s ↔ L.WindowRepeats offset s := by
  -- a column of the window is read from the state, not from the tokens
  have hcolumn : ∀ c t, t + 1 < L.convStateLen →
      catHistory L.convStateLen (fun c t => L.ofState (s c (offset + t))) tokens c (t + 1) =
        L.ofState (s c (offset + (t + 1))) := by
    intro c t ht
    rw [catHistory, if_pos hS, if_pos ht]
  rw [setCols_eq_self_iff]
  constructor
  · intro h c t ht
    have hnew := h c t (by omega)
    rwa [if_pos (by omega), hcolumn c t ht] at hnew
  · intro h c t ht
    split
    · next hupdate =>
        have ht : t + 1 < L.convStateLen := by omega
        rw [hcolumn c t ht]
        exact h c t ht
    · rfl

/-- A NULL row of a speculative batch keeps its slot, and a row without tokens does exactly when
its window repeats. -/
theorem specBatched_keeps_slot [One α] {xSpec : List (Row ι α)} {slots queryStartLoc : List Nat}
    {accepted : List Nat} {specQueryLen : Nat} (hdistinct : DistinctSlots slots)
    (hrun : shortConvDilatedSpecBatched L xSpec convState slots queryStartLoc accepted
      specQueryLen = .ok (output, convState'))
    {r : Nat} (hr : r < slots.length)
    (hidle : slots.getD r 0 = nullBlockId ∨
      queryStartLoc.getD (r + 1) 0 = queryStartLoc.getD r 0) :
    convState'.data (slots.getD r 0) = convState.data (slots.getD r 0) ↔
      slots.getD r 0 = nullBlockId ∨
        L.WindowRepeats (min (accepted.getD r 0 - 1) (specQueryLen - 1))
          (convState.data (slots.getD r 0)) := by
  have htake : ∀ k ≤ slots.length,
      (queryStartLoc.take (slots.length + 1)).getD k 0 = queryStartLoc.getD k 0 := by
    intro k hk
    simp [List.getD_eq_getElem?_getD, Nat.lt_succ_of_le hk]
  have haccepted : (accepted.take slots.length).getD r 0 = accepted.getD r 0 := by
    simp [List.getD_eq_getElem?_getD, hr]
  -- what a call that returns writes back
  unfold shortConvDilatedSpecBatched at hrun
  dsimp only at hrun
  split at hrun
  · cases hrun
  split at hrun
  · cases hrun
  split at hrun
  · next hS =>
      split at hrun
      · cases hrun
      · cases hrun
        rw [indexCopy_at_row hdistinct _ hr]
        · by_cases hslot : slots.getD r 0 = nullBlockId
          · simp only [validState_of_null hslot, Bool.false_and, Bool.false_eq_true, if_false,
              stateIndex_eq, hslot, true_or, iff_true]
            exact setCols_self _ _
          · have hvalid : validState slots r = true := bne_iff_ne.mpr hslot
            have hempty := hidle.resolve_left hslot
            simp only [hvalid, htake r hr.le, htake (r + 1) hr, hempty, Nat.sub_self, haccepted, hr,
              stateIndex_eq, hslot, false_or, Bool.true_and, if_true, decide_true, Nat.add_zero,
              decide_eq_true_eq]
            exact shifted_eq_self_iff hS
        · intro r hnull
          simp only [validState_of_null hnull, Bool.false_and, Bool.false_eq_true, if_false,
            stateIndex_eq, hnull]
          exact setCols_self _ _
  · next hS =>
      cases hrun
      have hrepeats : ∀ offset s, L.WindowRepeats offset s := by
        intro offset s c t ht
        omega
      simp only [hrepeats, or_true]

/-! ## any batch -/

/-- A batch given to one of the kernels. -/
inductive KernelBatch (ι α : Type) where
  | decode (xD : List (Row ι α)) (stateIndicesTensorD : List Nat)
      (hasInitialStatesD : Option (List Bool))
  | prefill (xP : List (Row ι α)) (qStarts lengths : List Nat)
      (maxLen numPrefills numPrefillTokens : Nat) (stateIndicesTensorP : List Nat)
      (hasInitialStatesP : List Bool)
  | spec (xSpec : List (Row ι α)) (specStateIndicesTensor specQueryStartLoc : List Nat)
      (numAcceptedTokens : List Nat) (specQueryLen : Nat)

namespace KernelBatch

/-- The kernel on its batch. -/
def run [One α] (L : PleLayer ι α β) (convState : ConvState ι β) :
    KernelBatch ι α → Except PyError (List (Row ι α) × ConvState ι β)
  | decode xD slots flags => shortConvDilatedDecodeBatched L xD convState slots flags
  | prefill xP qStarts lengths maxLen numPrefills numPrefillTokens slots flags =>
    shortConvDilatedPrefillCore L xP qStarts lengths maxLen numPrefills numPrefillTokens slots flags
      convState
  | spec xSpec slots queryStartLoc accepted specQueryLen =>
    shortConvDilatedSpecBatched L xSpec convState slots queryStartLoc accepted specQueryLen

/-- The slots of the rows. -/
def slots : KernelBatch ι α → List Nat
  | decode _ slots _ => slots
  | prefill _ _ _ _ numPrefills _ slots _ => slots.take numPrefills
  | spec _ slots _ _ _ => slots

/-- Row `r` is NULL or brings no token; a decode row always brings one. -/
def Idle (b : KernelBatch ι α) (r : Nat) : Prop :=
  b.slots.getD r 0 = nullBlockId ∨
    match b with
    | decode _ _ _ => False
    | prefill _ _ lengths _ _ _ _ _ => lengths.getD r 0 = 0
    | spec _ _ queryStartLoc _ _ => queryStartLoc.getD (r + 1) 0 = queryStartLoc.getD r 0

/-- Row `r` is no row of a speculative batch on a real slot, or its rolled-back window repeats. -/
def WindowRepeats (L : PleLayer ι α β) (convState : ConvState ι β) (b : KernelBatch ι α)
    (r : Nat) : Prop :=
  match b with
  | decode _ _ _ => True
  | prefill _ _ _ _ _ _ _ _ => True
  | spec _ slots _ accepted specQueryLen =>
    slots.getD r 0 = nullBlockId ∨
      L.WindowRepeats (min (accepted.getD r 0 - 1) (specQueryLen - 1))
        (convState.data (slots.getD r 0))

end KernelBatch

/-- **An idle row keeps its slot, whatever the other rows do, exactly when it is no speculative row
on a real slot or its window repeats.** -/
theorem idle_rows_keep_slots [One α] (b : KernelBatch ι α) (hdistinct : DistinctSlots b.slots)
    (hrun : b.run L convState = .ok (output, convState')) {r : Nat} (hr : r < b.slots.length)
    (hidle : b.Idle r) :
    convState'.data (b.slots.getD r 0) = convState.data (b.slots.getD r 0) ↔
      b.WindowRepeats L convState r := by
  cases b with
  | decode xD slots flags =>
    exact iff_true_intro (decodeBatched_keeps_slot hdistinct hrun hr (hidle.resolve_right id))
  | prefill xP qStarts lengths maxLen numPrefills numPrefillTokens slots flags =>
    have hlt : r < numPrefills := (List.length_take ▸ hr).trans_le (Nat.min_le_left _ _)
    have hslot : (slots.take numPrefills).getD r 0 = slots.getD r 0 := by
      simp [List.getD_eq_getElem?_getD, hlt]
    rw [KernelBatch.Idle, KernelBatch.slots, hslot] at hidle
    rw [KernelBatch.slots, hslot]
    exact iff_true_intro (prefillCore_keeps_slot hdistinct hrun hlt hidle)
  | spec xSpec slots queryStartLoc accepted specQueryLen =>
    exact specBatched_keeps_slot hdistinct hrun hr hidle

/-- A cache that tells all its columns apart. -/
def countingCache : ConvState Unit Int where
  slots := 4
  columns := 3
  data slot _ t := 10 * slot + t

/-- A NULL row, a row without tokens on slot 1 and a row of one token on slot 2. -/
def idleSpecBatch : KernelBatch Unit Int :=
  .spec [fun _ => 5] [0, 1, 2] [0, 0, 0, 1] [1, 1, 1] 2

/-- Slot 1 is kept where all its columns are alike. -/
theorem idle_rows_keep_slots_constant :
    ∃ output cache', idleSpecBatch.run twoTapLayer (constCache 3) = .ok (output, cache') ∧
      cache'.data 1 = (constCache 3).data 1 := by
  have hdistinct : DistinctSlots idleSpecBatch.slots := by decide
  have hrow : 1 < idleSpecBatch.slots.length := by decide
  have hidle : idleSpecBatch.Idle 1 := .inr rfl
  obtain ⟨output, cache', hrun⟩ : ∃ output cache',
      idleSpecBatch.run twoTapLayer (constCache 3) = .ok (output, cache') := ⟨_, _, rfl⟩
  refine ⟨output, cache', hrun, (idle_rows_keep_slots _ hdistinct hrun hrow hidle).2 (.inr ?_)⟩
  intro c t _
  rfl

/-- A row without tokens shifts the state of its request by a column. -/
theorem empty_spec_row_shifts_slot :
    ∃ output convState', idleSpecBatch.run twoTapLayer countingCache = .ok (output, convState') ∧
      DistinctSlots idleSpecBatch.slots ∧ idleSpecBatch.Idle 1 ∧ idleSpecBatch.slots.getD 1 0 = 1 ∧
      convState'.data 1 () 0 = 11 ∧ countingCache.data 1 () 0 = 10 := by
  refine ⟨_, _, rfl, by decide, .inr rfl, rfl, ?_, rfl⟩
  decide

end FlashNext
