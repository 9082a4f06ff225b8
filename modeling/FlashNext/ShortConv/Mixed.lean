import FlashNext.ShortConv.Run

/-!
# FlashNext.ShortConv.Mixed

Runs of one request that change between speculative and plain steps.

A plain step always reads the first `convStateLen` columns of the slot, which
after a speculative step hold the window after one of its tokens, however many
were accepted.  `mixed_right_iff` says exactly which runs this leaves right.
-/

namespace FlashNext

variable {ι α β : Type} [Add α] [MulZeroOneClass α] {queryLen : Nat}

/-- A step of a request that sometimes has drafts and sometimes has none. -/
inductive MixedStep (ι α : Type) (queryLen : Nat) where
  | plain (step : ChunkStep ι α)
  | spec (step : SpecStep ι α queryLen)

/-- The tokens of a step that are kept. -/
def MixedStep.kept : MixedStep ι α queryLen → List (Row ι α)
  | .plain step => step.tokens
  | .spec step => step.kept

/-- The `num_accepted_tokens` of the step after this one. -/
def MixedStep.accepted : MixedStep ι α queryLen → Nat
  | .plain _ => 1
  | .spec step => step.accepted

/-- Plain steps are non-empty; speculative steps are valid by construction. -/
def MixedStep.Valid : MixedStep ι α queryLen → Prop
  | .plain step => step.Valid
  | .spec _ => True

/-- Run one step of a request that has already started. -/
def MixedStep.run (L : PleLayer ι α β) (slot numAccepted : Nat) (convState : ConvState ι β) :
    MixedStep ι α queryLen → Except PyError (List (Row ι α) × ConvState ι β)
  | .plain step => step.run L slot true convState
  | .spec step => step.run L slot numAccepted convState

/-- The cache after a list of steps, with what the last step accepted. -/
def runMixed (L : PleLayer ι α β) (slot : Nat) :
    List (MixedStep ι α queryLen) → Nat → ConvState ι β → Except PyError (Nat × ConvState ι β)
  | [], numAccepted, convState => .ok (numAccepted, convState)
  | step :: steps, numAccepted, convState =>
    match step.run L slot numAccepted convState with
    | .error e => .error e
    | .ok (_, convState) => runMixed L slot steps step.accepted convState

/-- All tokens that a list of steps keeps, in order. -/
def mixedTokens (steps : List (MixedStep ι α queryLen)) : List (Row ι α) :=
  (steps.map MixedStep.kept).flatten

/-- The plain step `next` after the steps `before`, the last of them speculative, starts from the
window of everything kept so far and outputs the convolution that continues it. -/
def RightAfter (L : PleLayer ι α β) (slot : Nat) (convState : ConvState ι β)
    (xs : List (Row ι α)) (before : List (MixedStep ι α queryLen)) (next : ChunkStep ι α) : Prop :=
  let history := xs ++ mixedTokens before
  ∃ numAccepted mid after,
    runMixed L slot before 1 convState = .ok (numAccepted, mid) ∧
    next.run L slot true mid = .ok (L.causalRows history next.tokens, after) ∧
    ∀ c, ∀ t < L.convStateLen,
      L.ofState (mid.data slot c t) = (window 0 L.convStateLen history).getD t 0 c

/-- The window after all the tokens the speculative step keeps is the window after the first. -/
def SameWindow (L : PleLayer ι α β) (xs : List (Row ι α)) (step : SpecStep ι α queryLen) : Prop :=
  window 0 L.convStateLen (xs ++ step.kept) = window 0 L.convStateLen (xs ++ step.tokens.take 1)

/-- Every change from a speculative to a plain step is one where the windows agree. -/
def SwitchesOk (L : PleLayer ι α β) (xs : List (Row ι α)) (steps : List (MixedStep ι α queryLen)) :
    Prop :=
  ∀ before step next rest, steps = before ++ .spec step :: .plain next :: rest →
    SameWindow L (xs ++ mixedTokens before) step

omit [Add α] in
/-- A speculative step that kept one token can be followed by anything. -/
theorem sameWindow_of_accepted_one (L : PleLayer ι α β) (xs : List (Row ι α))
    {step : SpecStep ι α queryLen} (h : step.accepted = 1) : SameWindow L xs step := by
  unfold SameWindow SpecStep.kept
  rw [h]

/-! ## runs -/

omit [Add α] [MulZeroOneClass α] in
@[simp] theorem mixedTokens_append_singleton (steps : List (MixedStep ι α queryLen))
    (step : MixedStep ι α queryLen) :
    mixedTokens (steps ++ [step]) = mixedTokens steps ++ step.kept := by
  simp [mixedTokens]

theorem runMixed_append_singleton {L : PleLayer ι α β} {slot : Nat}
    {steps : List (MixedStep ι α queryLen)} {step : MixedStep ι α queryLen} {a a' : Nat}
    {convState mid after : ConvState ι β} {out : List (Row ι α)}
    (hrun : runMixed L slot steps a convState = .ok (a', mid))
    (hstep : step.run L slot a' mid = .ok (out, after)) :
    runMixed L slot (steps ++ [step]) a convState = .ok (step.accepted, after) := by
  induction steps generalizing a convState with
  | nil =>
      obtain ⟨rfl, rfl⟩ : a = a' ∧ convState = mid := by simpa [runMixed] using hrun
      simp [runMixed, hstep]
  | cons first steps ih =>
      rw [runMixed] at hrun
      rw [List.cons_append, runMixed]
      split at hrun
      · next => cases hrun
      · next => exact ih hrun

/-- What the slot holds after a list of steps that keep all their tokens right. -/
structure HoldsAfter (L : PleLayer ι α β) (xs : List (Row ι α))
    (steps : List (MixedStep ι α queryLen)) (numAccepted : Nat) (s : Slot ι β) : Prop where
  /-- what the next speculative step is told to roll back is within its width -/
  accepted : numAccepted = 1 ∨ numAccepted ≤ queryLen
  /-- a speculative step finds the window of everything kept -/
  rolledBack : HoldsAt L numAccepted (xs ++ mixedTokens steps) s
  /-- a plain step finds the window of everything kept, unless it follows a speculative step -/
  first : (∀ before step, steps ≠ before ++ [.spec step]) →
    HoldsAt L 1 (xs ++ mixedTokens steps) s
  /-- after a speculative step it finds the window after that step's first token -/
  firstSpec : ∀ before step, steps = before ++ [.spec step] →
    HoldsAt L 1 (xs ++ mixedTokens before ++ step.tokens.take 1) s

omit [Add α] in
theorem holdsAt_congr {L : PleLayer ι α β} {xs ys : List (Row ι α)} {n : Nat} {s : Slot ι β}
    (h : window 0 L.convStateLen xs = window 0 L.convStateLen ys) :
    HoldsAt L n xs s ↔ HoldsAt L n ys s := by
  unfold HoldsAt
  rw [h]

omit [Add α] in
/-- Where the switch is right, a plain step finds the window of everything kept. -/
theorem HoldsAfter.plain {L : PleLayer ι α β} {xs : List (Row ι α)}
    {steps : List (MixedStep ι α queryLen)} {numAccepted : Nat} {s : Slot ι β}
    (h : HoldsAfter L xs steps numAccepted s)
    (hsame : ∀ before step, steps = before ++ [.spec step] →
      SameWindow L (xs ++ mixedTokens before) step) :
    HoldsAt L 1 (xs ++ mixedTokens steps) s := by
  by_cases hlast : ∃ before step, steps = before ++ [.spec step]
  · obtain ⟨before, step, rfl⟩ := hlast
    have hwin := hsame before step rfl
    rw [mixedTokens_append_singleton, ← List.append_assoc]
    exact (holdsAt_congr hwin).mpr (h.firstSpec before step rfl)
  · exact h.first fun before step heq => hlast ⟨before, step, heq⟩

section Runs

variable {L : PleLayer ι α β} {slot : Nat} {xs : List (Row ι α)} {convState : ConvState ι β}

/-- One more step, from a slot that holds everything kept so far. -/
theorem MixedStep.run_holds (hexact : L.Exact) (hslot : slot ≠ nullBlockId)
    (convState : ConvState ι β) (hin : slot < convState.slots)
    (hcols : 0 < L.convStateLen → L.convStateLen + queryLen - 1 ≤ convState.columns)
    {steps : List (MixedStep ι α queryLen)} {numAccepted : Nat}
    (hheld : HoldsAfter L xs steps numAccepted (convState.data slot))
    {step : MixedStep ι α queryLen} (hvalid : step.Valid)
    (hplain : ∀ next, step = .plain next → HoldsAt L 1 (xs ++ mixedTokens steps)
      (convState.data slot)) :
    ∃ out data, step.run L slot numAccepted convState =
        .ok (out, { convState with data := data }) ∧
      HoldsAfter L xs (steps ++ [step]) step.accepted (data slot) := by
  cases step with
  | plain next =>
      obtain ⟨data, hrun, hafter⟩ := next.run_eq hexact hslot convState hin true
        (by simpa using hplain next rfl) hvalid
      refine ⟨_, data, hrun, .inl rfl, ?_, ?_, ?_⟩
      · simpa [MixedStep.kept, MixedStep.accepted] using hafter
      · intro _
        simpa [MixedStep.kept] using hafter
      · intro before step heq
        simp at heq
  | spec step =>
      obtain ⟨data, hrun, hafter⟩ := step.run_eq hexact hslot hcols hheld.accepted hheld.rolledBack
      refine ⟨_, data, hrun, .inr step.accepted_le_queryLen, ?_, ?_, ?_⟩
      · have hkept := hafter step.accepted step.accepted_pos step.accepted_le
        simpa [MixedStep.kept, MixedStep.accepted, SpecStep.kept] using hkept
      · intro hne
        exact absurd rfl (hne steps step)
      · intro before step' heq
        obtain ⟨rfl, heq⟩ := List.append_inj' heq rfl
        obtain rfl : step = step' := by simpa using heq
        exact hafter 1 (Nat.le_refl 1) (Nat.le_trans step.accepted_pos step.accepted_le)

/-- Where every switch is right, a whole run keeps all its tokens right. -/
theorem runMixed_holds (hexact : L.Exact) (hslot : slot ≠ nullBlockId)
    (hin : slot < convState.slots)
    (hcols : 0 < L.convStateLen → L.convStateLen + queryLen - 1 ≤ convState.columns)
    (hheld : HoldsAt L 1 xs (convState.data slot)) {steps : List (MixedStep ι α queryLen)}
    (hvalid : ∀ step ∈ steps, step.Valid) (hok : SwitchesOk L xs steps) :
    ∃ numAccepted data,
      runMixed L slot steps 1 convState = .ok (numAccepted, { convState with data := data }) ∧
      HoldsAfter L xs steps numAccepted (data slot) := by
  induction steps using List.reverseRecOn with
  | nil =>
      have hnil : HoldsAt L 1 (xs ++ mixedTokens ([] : List (MixedStep ι α queryLen)))
          (convState.data slot) := by
        simpa [mixedTokens] using hheld
      exact ⟨1, convState.data, rfl, .inl rfl, hnil, fun _ => hnil, by simp⟩
  | append_singleton steps step ih =>
      obtain ⟨numAccepted, data, hrun, hafter⟩ := ih
        (fun s hs => hvalid s (List.mem_append_left _ hs))
        (fun before s next rest heq => hok before s next (rest ++ [step]) (by simp [heq]))
      have hplain : ∀ next, step = .plain next → HoldsAt L 1 (xs ++ mixedTokens steps)
          (data slot) := by
        rintro next rfl
        apply hafter.plain
        rintro before s rfl
        exact hok before s next [] (by simp)
      obtain ⟨out, data', hstep, hafter'⟩ := MixedStep.run_holds hexact hslot
        { convState with data := data } hin hcols hafter (hvalid step (by simp)) hplain
      exact ⟨step.accepted, data', runMixed_append_singleton hrun hstep, hafter'⟩

omit [Add α] in
/-- A window is known from its rows. -/
theorem window_eq_of_getD {ys : List (Row ι α)}
    (h : ∀ c, ∀ t < L.convStateLen,
      (window 0 L.convStateLen xs).getD t 0 c = (window 0 L.convStateLen ys).getD t 0 c) :
    window 0 L.convStateLen xs = window 0 L.convStateLen ys := by
  apply List.ext_getElem
  · rw [length_window, length_window]
  · intro t hx hy
    have ht : t < L.convStateLen := by rwa [length_window] at hx
    have hrow : (window 0 L.convStateLen xs).getD t 0 = (window 0 L.convStateLen ys).getD t 0 :=
      funext fun c => h c t ht
    simpa [List.getD_eq_getElem?_getD, List.getElem?_eq_getElem hx,
      List.getElem?_eq_getElem hy] using hrow

/-- One change of kind, after a run whose changes so far were right. -/
theorem rightAfter_iff (hexact : L.Exact) (hslot : slot ≠ nullBlockId)
    (hin : slot < convState.slots)
    (hcols : 0 < L.convStateLen → L.convStateLen + queryLen - 1 ≤ convState.columns)
    (hheld : HoldsAt L 1 xs (convState.data slot)) {before : List (MixedStep ι α queryLen)}
    {step : SpecStep ι α queryLen} {next : ChunkStep ι α}
    (hvalid : ∀ s ∈ before ++ [.spec step], s.Valid) (hnext : next.Valid)
    (hok : SwitchesOk L xs (before ++ [.spec step])) :
    RightAfter L slot convState xs (before ++ [.spec step]) next ↔
      SameWindow L (xs ++ mixedTokens before) step := by
  obtain ⟨numAccepted, data, hrun, hafter⟩ :=
    runMixed_holds hexact hslot hin hcols hheld hvalid hok
  constructor
  · rintro ⟨_, mid, _, hmid, _, hstart⟩
    obtain ⟨rfl, rfl⟩ : _ ∧ mid = _ := by simpa [hmid] using hrun
    apply window_eq_of_getD
    intro c t ht
    -- what the plain step reads is the window after one token
    have hfirst := hafter.firstSpec before step rfl c t ht
    rw [Nat.sub_self, Nat.zero_add] at hfirst
    have hread : L.ofState (data slot c t) = _ := hstart c t ht
    rw [hfirst, hexact] at hread
    simpa [MixedStep.kept] using hread.symm
  · intro hsame
    have hplain := hafter.plain fun b s heq => by
      obtain ⟨rfl, heq⟩ := List.append_inj' heq rfl
      obtain rfl : step = s := by simpa using heq
      exact hsame
    obtain ⟨after, hstep, _⟩ := next.run_eq hexact hslot { convState with data := data } hin true
      (by simpa only [if_true] using hplain) hnext
    refine ⟨numAccepted, { convState with data := data }, { convState with data := after }, hrun,
      hstep, ?_⟩
    intro c t ht
    have hcol := hplain c t ht
    rw [Nat.sub_self, Nat.zero_add] at hcol
    exact (congrArg L.ofState hcol).trans (hexact _)

/-- **Leaving speculation**: the plain steps that follow speculative ones are right throughout a
run exactly when, at each such change, the accepted tokens leave the same window as the first of
them alone. -/
theorem mixed_right_iff (hexact : L.Exact) (hslot : slot ≠ nullBlockId)
    (hin : slot < convState.slots)
    (hcols : 0 < L.convStateLen → L.convStateLen + queryLen - 1 ≤ convState.columns)
    (hheld : HoldsAt L 1 xs (convState.data slot)) (steps : List (MixedStep ι α queryLen))
    (hvalid : ∀ step ∈ steps, step.Valid) :
    (∀ before step next rest, steps = before ++ .spec step :: .plain next :: rest →
      RightAfter L slot convState xs (before ++ [.spec step]) next) ↔ SwitchesOk L xs steps := by
  have hswitch : ∀ (before : List (MixedStep ι α queryLen)) (step : SpecStep ι α queryLen)
      (next : ChunkStep ι α) (rest : List (MixedStep ι α queryLen)),
      steps = before ++ MixedStep.spec step :: MixedStep.plain next :: rest →
      SwitchesOk L xs (before ++ [.spec step]) →
      (RightAfter L slot convState xs (before ++ [.spec step]) next ↔
        SameWindow L (xs ++ mixedTokens before) step) := by
    rintro before step next rest rfl
    refine rightAfter_iff hexact hslot hin hcols hheld (fun s hs => hvalid s ?_)
      (hvalid (.plain next) (by simp))
    rw [List.append_cons]
    exact List.mem_append_left _ hs
  constructor
  · intro hright
    -- by induction on the part of the run already known to switch well
    suffices hstart : ∀ done rest, steps = done ++ rest → SwitchesOk L xs done from
      hstart steps [] (List.append_nil steps).symm
    intro done
    induction done using List.reverseRecOn with
    | nil =>
        intro _ _ before step next rest heq
        simp at heq
    | append_singleton done last ih =>
        intro rest hsteps before step next rest' heq
        have hdone : SwitchesOk L xs done := ih (last :: rest) (by simp [hsteps])
        rcases List.eq_nil_or_concat rest' with rfl | ⟨rest'', last', rfl⟩
        · -- the switch is at the very end of the part
          obtain ⟨rfl, hlast⟩ := List.append_inj' (heq.trans (List.append_cons before _ _)) rfl
          obtain rfl : last = .plain next := by simpa using hlast
          have hcut : steps = before ++ .spec step :: .plain next :: rest := by simp [hsteps]
          exact (hswitch before step next rest hcut hdone).mp (hright before step next rest hcut)
        · have hsplit : done ++ [last] =
              (before ++ .spec step :: .plain next :: rest'') ++ [last'] := by simpa using heq
          exact hdone before step next rest'' (List.append_inj' hsplit rfl).1
  · intro hok before step next rest hsteps
    refine (hswitch before step next rest hsteps ?_).mpr (hok before step next rest hsteps)
    intro b s n r heq
    refine hok b s n (r ++ .plain next :: rest) ?_
    rw [hsteps, List.append_cons, heq]
    simp

end Runs

/-- The same two tokens with only the first accepted. -/
def acceptedFirst : SpecStep Unit Int 2 :=
  { acceptedPair with accepted := 1, accepted_pos := Nat.one_pos, accepted_le := Nat.one_lt_two.le }

/-- A decoded token after one accepted token. -/
theorem mixed_right_iff_first :
    RightAfter twoTapLayer 1 (constCache 0) [] [MixedStep.spec acceptedFirst]
      (.decode (fun _ => 1) true) := by
  have hok : SwitchesOk twoTapLayer []
      [MixedStep.spec acceptedFirst, .plain (.decode (fun _ => 1) true)] := by
    intro before step next rest heq
    apply sameWindow_of_accepted_one
    have hmem : MixedStep.spec step ∈
        [MixedStep.spec acceptedFirst, .plain (.decode (fun _ => 1) true)] := by simp [heq]
    obtain rfl : step = acceptedFirst := by simpa using hmem
    rfl
  exact (mixed_right_iff (fun _ => rfl) (by decide) (by decide) (by decide) holdsAt_constCache _
    (by simp [MixedStep.Valid, ChunkStep.Valid])).mpr hok [] acceptedFirst _ [] rfl

/-- A decoded token after two accepted ones is convolved with the row before them. -/
theorem decode_after_pair_wrong :
    HoldsAt twoTapLayer 1 [] ((constCache 0).data 1) ∧
    ∃ mid out after,
      runMixed twoTapLayer 1 [.spec acceptedPair] 1 (constCache 0) = .ok (2, mid) ∧
      ChunkStep.run twoTapLayer 1 true mid (.decode (fun _ => 1) true) = .ok (out, after) ∧
      out.map (· ()) = [3] ∧
      (twoTapLayer.causalRows acceptedPair.kept [fun _ => 1]).map (· ()) = [13] := by
  refine ⟨holdsAt_constCache, _, _, _, rfl, rfl, ?_, ?_⟩ <;> decide

end FlashNext
