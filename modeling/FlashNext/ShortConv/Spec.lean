import FlashNext.ShortConv.Request

/-!
# FlashNext.ShortConv.Spec

The batched speculative kernel is `runAll` of its requests' jobs; graph-padded
token rows behind the requests' own tokens come out as zero.
-/

namespace FlashNext

variable {ι α β : Type}

/-! ## the packed tensor -/

/-- The entry of each token row: a real token's request and column, and the dummy sink for the
padding rows behind them. -/
theorem specIndex_eq (lens : List Nat) (pad maxLen : Nat) :
    ((List.range (lens.sum + pad)).map fun p =>
      let req := min (rowOf (cuSeqlens lens) p) (lens.length - 1)
      if p < lens.sum then (req, min (p - (cuSeqlens lens).getD req 0) (maxLen - 1))
      else (lens.length, 0)) =
    (ragged lens).map (Prod.map id (min · (maxLen - 1))) ++
      List.replicate pad (lens.length, 0) := by
  rw [List.range_add, List.map_append, ← rowCol_range, List.map_map, List.map_map]
  congr 1
  · apply List.map_congr_left
    intro p hp
    have hp : p < lens.sum := List.mem_range.mp hp
    have hrow : rowOf (cuSeqlens lens) p < lens.length := rowOf_lt hp
    have hmin : min (rowOf (cuSeqlens lens) p) (lens.length - 1) = rowOf (cuSeqlens lens) p := by
      omega
    simp only [Function.comp_apply, Prod.map_apply, id_eq, hp, if_true, hmin]
    rfl
  · simp [List.eq_replicate_iff]

/-- What the entries of a request hold: its own tokens, whatever the padding rows hold. -/
theorem specPacked_eq [Zero α] (qs : List (SpecReq ι α)) (pad : List (Row ι α)) (maxLen : Nat)
    {r : Nat} (hr : r < qs.length) (j : Nat) :
    scatter (fun _ => 0)
        (((ragged (qs.map fun q : SpecReq ι α => q.tokens.length)).map
            (Prod.map id (min · (maxLen - 1))) ++ List.replicate pad.length (qs.length, 0)).zip
          ((qs.map SpecReq.tokens).flatten ++ pad)) (r, j) =
      qs[r].packed maxLen j := by
  have hlens : qs.map (·.tokens.length) = (qs.map SpecReq.tokens).map List.length := by simp
  rw [List.zip_append (by simp [Function.comp_def]), scatter_append, scatter_of_notMem,
    List.zip_map_left, hlens, ragged_zip_flatten]
  · exact scatter_entries_map _ j (by simp [hr])
  · intro hmem
    obtain ⟨w, hw, hk⟩ := List.mem_map.mp hmem
    have hrep := List.eq_of_mem_replicate (List.of_mem_zip hw).1
    rw [hrep] at hk
    have : qs.length = r := congrArg Prod.fst hk
    omega

/-! ## the output -/

/-- A real token comes out as `f` of its entry and a padding row as zero. -/
theorem specOutput_eq [MulZeroOneClass α] (lens : List Nat) (pad : Nat) (g : Nat × Nat → Nat × Nat)
    (sink : Nat × Nat) (f : Nat × Nat → Row ι α) :
    (List.range (lens.sum + pad)).zipWith
        (fun p rc c => f rc c * if decide (p < lens.sum) then 1 else 0)
        ((ragged lens).map g ++ List.replicate pad sink) =
      (ragged lens).map (fun rc => f (g rc)) ++ List.replicate pad 0 := by
  have hlen : (List.range lens.sum).length = ((ragged lens).map g).length := by simp
  rw [List.range_add, List.zipWith_append hlen]
  congr 1
  · rw [zipWith_eq_map (g := f) hlen, List.map_map]
    · rfl
    · intro p hp rc _
      funext c
      simp [List.mem_range.mp hp]
  · rw [zipWith_eq_map (g := fun _ => 0) (by simp)]
    · simp
    · intro p hp rc _
      obtain ⟨i, _, rfl⟩ := List.mem_map.mp hp
      funext c
      simp

/-! ## the kernel -/

variable [Add α] [MulZeroOneClass α]

/-- A batch of speculative requests and padding rows, as the speculative kernel is given it. -/
theorem specBatched_eq_runAll (L : PleLayer ι α β) (qs : List (SpecReq ι α))
    (pad : List (Row ι α)) (convState : ConvState ι β) (queryStartLoc accepted : List Nat)
    {maxLen : Nat} (hpos : 0 < maxLen)
    (hloc : queryStartLoc.take (qs.length + 1) = cuSeqlens (qs.map (·.tokens.length)))
    (hacc : accepted.take qs.length = qs.map SpecReq.accepted)
    (hcols : 0 < L.convStateLen → L.convStateLen + maxLen - 1 ≤ convState.columns) :
    shortConvDilatedSpecBatched L ((qs.map SpecReq.tokens).flatten ++ pad) convState
        (qs.map SpecReq.slot) queryStartLoc accepted maxLen =
      .ok ((runAll (qs.map (SpecReq.job L maxLen)) convState.data).1.flatten ++ pad.map fun _ => 0,
        { convState with data := (runAll (qs.map (SpecReq.job L maxLen)) convState.data).2 }) := by
  unfold shortConvDilatedSpecBatched
  extract_lets S numReqs maxLen accepted' qStarts total valid validToken index packed cachedState
    rollbackOffset state history output stateCapacity queryLength updateMask rows
  have hreqs : numReqs = qs.length := List.length_map _
  have hstarts : qStarts = cuSeqlens (qs.map (·.tokens.length)) := by
    simp only [qStarts, hreqs, hloc]
  have htotal : total = (qs.map (·.tokens.length)).sum := by
    have h := getD_cuSeqlensFrom_length 0 (qs.map (·.tokens.length))
    rw [List.length_map, Nat.zero_add] at h
    simp only [total, hstarts, hreqs, cuSeqlens, h]
  have htoken : ∀ p, validToken p = decide (p < (qs.map (·.tokens.length)).sum) := by
    intro p
    by_cases hp : p < (qs.map (·.tokens.length)).sum
    · have hrow : rowOf qStarts p < numReqs := by simpa [hstarts, hreqs] using rowOf_lt hp
      simp [validToken, htotal, hp, hrow]
    · simp [validToken, htotal, hp]
  have hcount : ((qs.map SpecReq.tokens).flatten ++ pad).length =
      (qs.map (·.tokens.length)).sum + pad.length := by
    rw [List.length_append, List.length_flatten, List.map_map]
    rfl
  have hindex : index = (ragged (qs.map (·.tokens.length))).map
      (Prod.map id (min · (maxLen - 1))) ++ List.replicate pad.length (qs.length, 0) := by
    have h := specIndex_eq (qs.map (·.tokens.length)) pad.length maxLen
    simp only [List.length_map] at h
    simp only [index, hcount, htoken, hstarts, hreqs, decide_eq_true_eq, h]
  have hpacked : ∀ r (hr : r < qs.length) j, packed (r, j) = qs[r].packed maxLen j := by
    intro r hr j
    simp only [packed, hindex]
    exact specPacked_eq qs pad maxLen hr j
  have hslot : ∀ r (hr : r < qs.length), (qs.map SpecReq.slot).getD r 0 = qs[r].slot :=
    fun r hr => getD_slots _ hr
  have hvalid : ∀ r (hr : r < qs.length), valid r = (qs[r].slot != nullBlockId) :=
    fun r hr => validState_slots _ hr
  have haccepted : ∀ r (hr : r < qs.length), accepted'.getD r 0 = qs[r].accepted := by
    intro r hr
    simp [accepted', hreqs, hacc, hr]
  have hlen : ∀ r (hr : r < qs.length), queryLength r = qs[r].tokens.length := by
    intro r hr
    have hsucc := getD_cuSeqlensFrom_succ 0 (qs.map (·.tokens.length)) (r := r) (by simpa)
    rw [List.getElem_map] at hsucc
    simp only [queryLength, hstarts, cuSeqlens, hsucc, Nat.add_sub_cancel_left]
  have hhist : ∀ r (hr : r < qs.length),
      history r = qs[r].history L maxLen (convState.data qs[r].slot) := by
    intro r hr
    simp only [history, SpecReq.history, state, cachedState, rollbackOffset, hreqs, hr,
      hvalid r hr, haccepted r hr, stateIndex_eq, hslot r hr, hpacked r hr]
    congr 1
    funext c t
    split <;> simp_all
  have hrows : ∀ r (hr : r < qs.length), 0 < S →
      rows r = ((qs[r].job L maxLen).run (convState.data qs[r].slot)).2 := by
    intro r hr hS
    simp only [rows, updateMask, stateCapacity, cachedState, stateIndex_eq, hslot r hr, hvalid r hr,
      hhist r hr, hlen r hr, SpecReq.job, S, if_pos hS]
  have hout : output = (runAll (qs.map (SpecReq.job L maxLen)) convState.data).1.flatten ++
      pad.map fun _ => 0 := by
    simp only [output, hcount, hindex, htoken, runAll, List.map_map]
    rw [specOutput_eq _ _ _ _ fun rc => L.conv (history rc.1) rc.2, List.map_const']
    congr 1
    refine map_ragged_eq_flatten qs _ (fun r j => L.conv (history r) (min j (maxLen - 1))) _ ?_
    intro r hr j hj
    rw [hhist r hr]
    rfl
  rw [hout, if_neg (by omega), if_neg (L.not_lt_kernelExtent hpos)]
  by_cases hS : 0 < S
  · rw [if_pos hS, if_neg (by simpa [stateCapacity] using hcols hS), hreqs]
    congr 2
    apply indexCopy_eq_runAll
    · intro r hr
      rw [stateIndex_eq, hslot r hr, SpecReq.job]
    · intro r hr
      exact hrows r hr hS
  · rw [if_neg hS, runAll_eq_self]
    intro j hj
    obtain ⟨q, _, rfl⟩ := List.mem_map.mp hj
    intro s
    exact if_neg hS

end FlashNext
