import FlashNext.KeyedStore
import FlashNext.ShortConv.Layer

/-!
# FlashNext.ShortConv.Request

What one request does to its cache slot, with no packing and no other request in
sight: a `Job` on the slot, one for each of the three kernels.  The kernels are
shown to be `runAll` of these jobs in `FlashNext.ShortConv.Prefill`,
`FlashNext.ShortConv.Decode` and `FlashNext.ShortConv.Spec`.
-/

namespace FlashNext

variable {ι α β : Type}

/-! ## shared pieces -/

@[simp] theorem setCols_zero (s new : Slot ι β) : setCols 0 s new = s := by
  funext c t
  simp [setCols]

@[simp] theorem setCols_self (n : Nat) (s : Slot ι β) : setCols n s s = s := by
  funext c t
  simp [setCols]

/-- NULL rows are gathered from slot 0, which is their own index. -/
@[simp] theorem stateIndex_eq (stateIndices : List Nat) (r : Nat) :
    stateIndex stateIndices r = stateIndices.getD r 0 := by
  unfold stateIndex
  split
  · rfl
  · next h => simp_all [validState, nullBlockId]

theorem getD_slots {Q : Type} (slot : Q → Nat) {qs : List Q} {r : Nat} (hr : r < qs.length) :
    (qs.map slot).getD r 0 = slot qs[r] := by
  simp [hr]

theorem validState_slots {Q : Type} (slot : Q → Nat) {qs : List Q} {r : Nat}
    (hr : r < qs.length) : validState (qs.map slot) r = (slot qs[r] != nullBlockId) := by
  rw [validState, getD_slots slot hr]

/-- Copying rows back that are the requests' own new slots is running the requests. -/
theorem indexCopy_eq_runAll {Q ο : Type} {convState : ConvState ι β} {qs : List Q}
    {job : Q → Job Nat (Slot ι β) ο} {index : Nat → Nat} {rows : Nat → Slot ι β}
    (hindex : ∀ r (hr : r < qs.length), index r = (job qs[r]).key)
    (hrows : ∀ r (hr : r < qs.length),
      rows r = ((job qs[r]).run (convState.data (job qs[r]).key)).2) :
    convState.indexCopy qs.length index rows =
      { convState with data := (runAll (qs.map job) convState.data).2 } := by
  unfold ConvState.indexCopy runAll
  congr 2
  rw [List.map_map]
  apply map_range_eq_map
  intro r hr
  rw [hindex r hr, hrows r hr]
  rfl

/-- A kernel that has nothing to write back runs idle requests. -/
theorem writeBack_eq_runAll {Q ο : Type} {convState : ConvState ι β} {qs : List Q}
    {job : Q → Job Nat (Slot ι β) ο} {index : Nat → Nat} {rows : Nat → Slot ι β} {writes : Prop}
    [Decidable writes] (hindex : ∀ r (hr : r < qs.length), index r = (job qs[r]).key)
    (hrows : writes → ∀ r (hr : r < qs.length),
      rows r = ((job qs[r]).run (convState.data (job qs[r]).key)).2)
    (hidle : ¬ writes → ∀ q, (job q).Idle) :
    (if writes then convState.indexCopy qs.length index rows else convState) =
      { convState with data := (runAll (qs.map job) convState.data).2 } := by
  split
  · next hwrites => exact indexCopy_eq_runAll hindex (hrows hwrites)
  · next hkeeps =>
    rw [runAll_eq_self]
    intro j hj
    obtain ⟨q, _, rfl⟩ := List.mem_map.mp hj
    exact hidle hkeeps q

/-- The non-NULL slots of a batch are pairwise distinct. -/
def DistinctSlots (slots : List Nat) : Prop := (slots.filter (· != nullBlockId)).Nodup

instance (slots : List Nat) : Decidable (DistinctSlots slots) :=
  inferInstanceAs (Decidable (List.Nodup _))

/-- Requests on distinct slots are separate, as long as NULL requests leave slot 0 alone. -/
theorem separate_of_distinctSlots {σ ο : Type} {js : List (Job Nat σ ο)}
    (hslots : DistinctSlots (js.map Job.key)) (hnull : ∀ j ∈ js, j.key = nullBlockId → j.Idle) :
    Separate js := by
  induction js with
  | nil => exact List.Pairwise.nil
  | cons j js ih =>
      have hnull' : ∀ i ∈ js, i.key = nullBlockId → i.Idle :=
        fun i hi => hnull i (List.mem_cons_of_mem j hi)
      have hj := hnull j List.mem_cons_self
      unfold DistinctSlots at hslots ih
      rw [List.map_cons, List.filter_cons] at hslots
      split at hslots
      · next hne =>
          obtain ⟨hnotin, hrest⟩ := List.nodup_cons.mp hslots
          refine List.pairwise_cons.mpr ⟨?_, ih hrest hnull'⟩
          intro i hi hk
          have hmem : j.key ∈ (js.map Job.key).filter (· != nullBlockId) :=
            List.mem_filter.mpr ⟨List.mem_map.mpr ⟨i, hi, hk.symm⟩, hne⟩
          exact absurd hmem hnotin
      · next heq =>
          have hkey : j.key = nullBlockId := by simpa using heq
          refine List.pairwise_cons.mpr ⟨?_, ih hslots hnull'⟩
          intro i hi hk
          exact ⟨hj hkey, hnull' i hi (hk ▸ hkey)⟩

/-! ## prefill -/

variable [Zero α] [Add α] [Mul α]

/-- A prefill request: its chunk of tokens, its slot, and whether it continues the slot. -/
structure PrefillReq (ι α : Type) where
  tokens : List (Row ι α)
  slot : Nat
  hasInitial : Bool

/-- The history a prefill request convolves, given the content of its slot. -/
def PrefillReq.history (L : PleLayer ι α β) (q : PrefillReq ι α) (cached : Bool)
    (s : Slot ι β) : ι → Nat → α :=
  catHistory L.convStateLen
    (fun c t => if q.slot != nullBlockId && q.hasInitial then
      (if cached then L.ofState (s c t) else 0) else 0)
    (fun j => q.tokens.getD j 0)

/-- What a prefill request does to its slot; `cached` says that the cache has slots at all. -/
def PrefillReq.job (L : PleLayer ι α β) (cached : Bool) (q : PrefillReq ι α) :
    Job Nat (Slot ι β) (List (Row ι α)) where
  key := q.slot
  run s :=
    ((List.range q.tokens.length).map fun j =>
        if q.slot != nullBlockId then L.conv (q.history L cached s) j else 0,
      if cached && q.slot != nullBlockId && 0 < q.tokens.length then
        setCols L.convStateLen s fun c t => L.toState (q.history L cached s c (q.tokens.length + t))
      else s)

/-- A NULL or empty prefill request leaves its slot alone. -/
theorem PrefillReq.job_idle (L : PleLayer ι α β) (cached : Bool) (q : PrefillReq ι α)
    (h : q.slot = nullBlockId ∨ q.tokens = []) : (q.job L cached).Idle := by
  intro s
  rcases h with h | h <;> simp [PrefillReq.job, h]

theorem separate_prefillJobs (L : PleLayer ι α β) (cached : Bool) {qs : List (PrefillReq ι α)}
    (h : DistinctSlots (qs.map PrefillReq.slot)) : Separate (qs.map (PrefillReq.job L cached)) := by
  apply separate_of_distinctSlots
  · rw [List.map_map]
    exact h
  · intro j hj hkey
    obtain ⟨q, _, rfl⟩ := List.mem_map.mp hj
    exact q.job_idle L cached (.inl hkey)

/-! ## decode -/

/-- A decode request: its token, its slot, and whether it continues the slot. -/
structure DecodeReq (ι α : Type) where
  token : Row ι α
  slot : Nat
  hasInitial : Bool

/-- The history a decode request convolves, given the content of its slot. -/
def DecodeReq.history (L : PleLayer ι α β) (q : DecodeReq ι α) (s : Slot ι β) : ι → Nat → α :=
  catHistory L.convStateLen
    (fun c t => if q.hasInitial && q.slot != nullBlockId then L.ofState (s c t) else 0)
    (fun _ => q.token)

/-- What a decode request does to its slot. -/
def DecodeReq.job [One α] (L : PleLayer ι α β) (q : DecodeReq ι α) :
    Job Nat (Slot ι β) (List (Row ι α)) where
  key := q.slot
  run s :=
    ([fun c => L.conv (q.history L s) 0 c * if q.slot != nullBlockId then 1 else 0],
      setCols L.convStateLen s
        (if q.slot != nullBlockId then fun c t => L.toState (q.history L s c (t + 1)) else s))

/-- A NULL decode request leaves its slot alone. -/
theorem DecodeReq.job_idle [One α] (L : PleLayer ι α β) (q : DecodeReq ι α)
    (h : q.slot = nullBlockId) : (q.job L).Idle := by
  intro s
  simp [DecodeReq.job, h]

/-! ## speculative decode -/

/-- A speculative request: its tokens, its slot, and the number of tokens of its
previous step that were accepted. -/
structure SpecReq (ι α : Type) where
  tokens : List (Row ι α)
  slot : Nat
  accepted : Nat

/-- Packed column `j` of a speculative request of width `maxLen`. -/
def SpecReq.packed (maxLen : Nat) (q : SpecReq ι α) (j : Nat) : Row ι α :=
  scatter (fun _ => 0)
    (((List.range q.tokens.length).map fun i => min i (maxLen - 1)).zip q.tokens) j

/-- The history a speculative request convolves, given the content of its slot. -/
def SpecReq.history (L : PleLayer ι α β) (maxLen : Nat) (q : SpecReq ι α) (s : Slot ι β) :
    ι → Nat → α :=
  catHistory L.convStateLen
    (fun c t => if q.slot != nullBlockId then
      L.ofState (s c (min (q.accepted - 1) (maxLen - 1) + t)) else 0)
    (q.packed maxLen)

/-- What a speculative request does to its slot. -/
def SpecReq.job (L : PleLayer ι α β) (maxLen : Nat) (q : SpecReq ι α) :
    Job Nat (Slot ι β) (List (Row ι α)) where
  key := q.slot
  run s :=
    ((List.range q.tokens.length).map fun j => L.conv (q.history L maxLen s) (min j (maxLen - 1)),
      if 0 < L.convStateLen then
        setCols (L.convStateLen + maxLen - 1) s fun c t =>
          if q.slot != nullBlockId && t < L.convStateLen + q.tokens.length - 1 then
            L.toState (q.history L maxLen s c (t + 1))
          else s c t
      else s)

/-- A NULL speculative request leaves its slot alone. -/
theorem SpecReq.job_idle (L : PleLayer ι α β) (maxLen : Nat) (q : SpecReq ι α)
    (h : q.slot = nullBlockId) : (q.job L maxLen).Idle := by
  intro s
  simp [SpecReq.job, h]

end FlashNext
