import FlashNext.ShortConv.Request

/-!
# FlashNext.ShortConv.Decode

The batched decode kernel is `runAll` of its requests' jobs.
-/

namespace FlashNext

variable {ι α β : Type} [Zero α] [Add α] [Mul α] [One α]

/-- `has_initial_states_d` gives the requests' flags; without it every request continues. -/
def DecodeFlags (qs : List (DecodeReq ι α)) : Option (List Bool) → Prop
  | none => ∀ q ∈ qs, q.hasInitial = true
  | some flags => flags.take qs.length = qs.map DecodeReq.hasInitial

omit [Zero α] [Add α] [Mul α] [One α] in
theorem decodeHasInitialState_eq {qs : List (DecodeReq ι α)} {flags : Option (List Bool)}
    (hflags : DecodeFlags qs flags) :
    ∃ mask, decodeHasInitialState (qs.map DecodeReq.slot) flags = .ok mask ∧
      ∀ r (hr : r < qs.length), mask r = (qs[r].hasInitial && qs[r].slot != nullBlockId) := by
  cases flags with
  | none =>
      refine ⟨_, rfl, ?_⟩
      intro r hr
      simp [validState, hr, hflags qs[r] (List.getElem_mem hr)]
  | some flags =>
      have hlen : qs.length ≤ flags.length := by
        have := congrArg List.length hflags
        simp only [List.length_take, List.length_map] at this
        omega
      refine ⟨fun r => flags.getD r false && validState (qs.map DecodeReq.slot) r, ?_, ?_⟩
      · simp only [decodeHasInitialState, List.length_map]
        exact if_neg (by omega)
      · intro r hr
        have hflag : flags.getD r false = qs[r].hasInitial := by
          have hget := congrArg (·[r]?) hflags
          simp only [List.getElem?_take, hr, if_true, List.getElem?_map,
            List.getElem?_eq_getElem hr, Option.map_some] at hget
          simp [hget]
        beta_reduce
        rw [hflag]
        simp [validState, hr]

/-- A batch of decode requests, as the decode kernel is given it. -/
theorem decodeBatched_eq_runAll (L : PleLayer ι α β) (qs : List (DecodeReq ι α))
    (flags : Option (List Bool)) (convState : ConvState ι β) (hflags : DecodeFlags qs flags) :
    shortConvDilatedDecodeBatched L (qs.map DecodeReq.token) convState (qs.map DecodeReq.slot)
        flags =
      .ok ((runAll (qs.map (DecodeReq.job L)) convState.data).1.flatten,
        { convState with data := (runAll (qs.map (DecodeReq.job L)) convState.data).2 }) := by
  obtain ⟨mask, hok, hmask⟩ := decodeHasInitialState_eq hflags
  unfold shortConvDilatedDecodeBatched
  rw [hok]
  refine congrArg Except.ok ?_
  beta_reduce
  extract_lets S numRows valid cachedState initialState history output nextState rows
  have hnum : numRows = qs.length := List.length_map _
  have hslot : ∀ r (hr : r < qs.length), (qs.map DecodeReq.slot).getD r 0 = qs[r].slot :=
    fun r hr => getD_slots _ hr
  have hvalid : ∀ r (hr : r < qs.length), valid r = (qs[r].slot != nullBlockId) :=
    fun r hr => validState_slots _ hr
  have hhist : ∀ r (hr : r < qs.length),
      history r = qs[r].history L (convState.data qs[r].slot) := by
    intro r hr
    simp only [history, DecodeReq.history, initialState, cachedState, hmask r hr, stateIndex_eq,
      hslot r hr]
    congr 1
    simp [hr]
  have hrows : ∀ r (hr : r < qs.length),
      rows r = ((qs[r].job L).run (convState.data qs[r].slot)).2 := by
    intro r hr
    simp only [rows, nextState, cachedState, stateIndex_eq, hslot r hr, hvalid r hr, hhist r hr,
      DecodeReq.job, S]
  have hout : output = (runAll (qs.map (DecodeReq.job L)) convState.data).1.flatten := by
    have hflat : (runAll (qs.map (DecodeReq.job L)) convState.data).1.flatten =
        qs.map fun q c => L.conv (q.history L (convState.data q.slot)) 0 c *
          if q.slot != nullBlockId then 1 else 0 := by
      simp only [runAll, List.map_map]
      exact flatten_map_singleton _ _
    rw [hflat]
    simp only [output, hnum]
    apply map_range_eq_map
    intro r hr
    rw [hhist r hr, hvalid r hr]
  rw [hout, hnum]
  congr 1
  apply writeBack_eq_runAll
  · intro r hr
    rw [stateIndex_eq, hslot r hr, DecodeReq.job]
  · exact fun _ => hrows
  · intro hS q s
    have hzero : L.convStateLen = 0 := by simp only [S] at hS; omega
    simp [DecodeReq.job, hzero]

end FlashNext
