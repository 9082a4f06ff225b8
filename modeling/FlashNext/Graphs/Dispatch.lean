import FlashNext.Graphs.Shapes

/-!
# FlashNext.Graphs.Dispatch

What `dispatch` finds in the candidates of a manager that has captured its graphs.

The candidates of a token count and a LoRA case are, mode by mode, the captured
descriptors of the least size that is not below the count (`mem_candidates_iff`).  An
active LoRA count is mapped to the least case not below it (`isLeast_effective`), and a
capture records every descriptor (`capture_eq_ok`).
-/

namespace FlashNext

/-- The descriptor can run the batch. -/
structure Fits (d : BatchExecutionDescriptor) (b : GraphBatch) : Prop where
  uniform : ∀ u, d.uniformTokenCount = some u → b.uniformTokenCount = some u
  query : ∀ q, d.maxQueryLen = some q → ∃ m, b.maxQueryLen = some m ∧ m ≤ q
  reqs : ∀ r, d.numReqs = some r → b.numReqs ≤ r
  tokens : b.numTokens ≤ d.numTokens
  loras : d.numActiveLoras = b.numActiveLoras

theorem boundsQueryLen_iff {bound m : Option Int} :
    boundsQueryLen bound m = true ↔ ∀ q, bound = some q → ∃ k, m = some k ∧ k ≤ q := by
  cases bound <;> cases m <;> simp [boundsQueryLen]

theorem holdsReqs_iff {bound : Option Int} {n : Int} :
    holdsReqs bound n = true ↔ ∀ r, bound = some r → n ≤ r := by
  cases bound <;> simp [holdsReqs]

theorem isCompatible_iff {d : BatchExecutionDescriptor} {b : GraphBatch} :
    isCompatible d b = true ↔ Fits d b := by
  have huniform : (d.uniformTokenCount = none ∨ d.uniformTokenCount = b.uniformTokenCount) ↔
      ∀ u, d.uniformTokenCount = some u → b.uniformTokenCount = some u := by
    cases d.uniformTokenCount <;> grind
  simp only [isCompatible, Bool.and_eq_true, Bool.or_eq_true, decide_eq_true_eq,
    boundsQueryLen_iff, holdsReqs_iff, huniform]
  constructor
  · rintro ⟨⟨⟨⟨h₁, h₂⟩, h₃⟩, h₄⟩, h₅⟩
    exact ⟨h₁, h₂, h₃, h₄, h₅⟩
  · rintro ⟨h₁, h₂, h₃, h₄, h₅⟩
    exact ⟨⟨⟨⟨h₁, h₂⟩, h₃⟩, h₄⟩, h₅⟩

/-! ## LoRA cases -/

section lora

/-- A table of the pairs `(n, g n)` that exist holds `g` at the listed numbers. -/
theorem lookup_pairs (g : Int → Option Int) (n : Int) (ns : List Int) :
    (ns.filterMap fun n => (g n).map (n, ·)).lookup n = if n ∈ ns then g n else none := by
  induction ns with
  | nil => simp
  | cons m ns ih =>
    by_cases hm : n = m
    · subst hm
      cases hg : g n <;> simp [hg, ih]
    · have hmn : (n == m) = false := by simp [hm]
      cases hg : g m <;> simp [hg, ih, hm, hmn, List.lookup_cons]

theorem pairwise_lt_range (lo hi : Int) : (Int.range lo hi).Pairwise (· < ·) :=
  List.pairwise_lt_range.map _ fun a b (h : a < b) => by omega

/-- The loop over the active counts writes down the first case not below each of them. -/
theorem loraDispatch_foldlM (cases rest : List Int) {ns : List Int} (m : List (Int × Int))
    (hasc : ns.Pairwise (· < ·))
    (hrest : ∀ n ∈ ns, rest.dropWhile (· < n) = cases.dropWhile (· < n))
    (hex : ∀ n ∈ ns, ∃ c ∈ cases, n ≤ c) :
    ∃ rest', ns.foldlM loraDispatchStep (rest, m) =
      .ok (rest', m ++ ns.filterMap fun n => (cases.find? (n ≤ ·)).map (n, ·)) := by
  induction ns generalizing rest m with
  | nil => exact ⟨_, by simp; rfl⟩
  | cons n ns ih =>
    rw [List.pairwise_cons] at hasc
    obtain ⟨c, hc⟩ : ∃ c, cases.find? (n ≤ ·) = some c := by
      have := hex n List.mem_cons_self
      rw [← Option.isSome_iff_exists, List.find?_isSome]
      simpa using this
    obtain ⟨cs, hcs⟩ : ∃ cs, cases.dropWhile (· < n) = c :: cs := by
      rw [← head?_dropWhile_lt] at hc
      exact List.head?_eq_some_iff.mp hc
    have hstep : loraDispatchStep (rest, m) n =
        .ok (cases.dropWhile (· < n), m ++ [(n, c)]) := by
      simp only [loraDispatchStep, hrest n List.mem_cons_self, hcs]
    obtain ⟨rest', hrun⟩ := ih (cases.dropWhile (· < n)) (m ++ [(n, c)]) hasc.2
      (fun k hk => dropWhile_dropWhile (hasc.1 k hk).le cases)
      fun k hk => hex k (List.mem_cons_of_mem _ hk)
    refine ⟨rest', ?_⟩
    rw [List.foldlM_cons, hstep]
    refine hrun.trans ?_
    simp [hc]

/-- The positive cases in ascending order. -/
def positiveCases (cases : List Int) : List Int :=
  (cases.filter (0 < ·)).insertionSort (· ≤ ·)

theorem mem_positiveCases {cases : List Int} {c : Int} :
    c ∈ positiveCases cases ↔ c ∈ cases ∧ 0 < c := by
  simp [positiveCases]

theorem pairwise_positiveCases (cases : List Int) : (positiveCases cases).Pairwise (· ≤ ·) :=
  List.pairwise_insertionSort _ _

/-- The map is always built.  It is empty without a positive case, and otherwise holds the
first positive case not below each count up to the largest case. -/
theorem buildLoraDispatchMap_eq_ok (cases : List Int) :
    ∃ m last, buildLoraDispatchMap cases = .ok (m, last) ∧
      (m = [] ∧ positiveCases cases = [] ∨
        m ≠ [] ∧ ∀ n, 0 < n → (∃ c ∈ cases, n ≤ c) →
          m.lookup n = (positiveCases cases).find? (n ≤ ·)) := by
  unfold buildLoraDispatchMap
  dsimp only
  rw [← positiveCases]
  rcases hlast : (positiveCases cases).getLast? with _ | last
  · exact ⟨[], 0, rfl, .inl ⟨rfl, List.getLast?_eq_none_iff.mp hlast⟩⟩
  · have hmem : last ∈ positiveCases cases := List.mem_of_getLast? hlast
    have hpos : 0 < last := (mem_positiveCases.1 hmem).2
    obtain ⟨init, hinit⟩ := List.getLast?_eq_some_iff.mp hlast
    have hmax : ∀ c ∈ positiveCases cases, c ≤ last := by
      intro c hc
      have hsorted := pairwise_positiveCases cases
      rw [hinit] at hc hsorted
      rcases List.mem_append.mp hc with hc | hc
      · exact (List.pairwise_append.mp hsorted).2.2 c hc last (by simp)
      · exact (List.mem_singleton.mp hc).le
    obtain ⟨rest, hrun⟩ := loraDispatch_foldlM (positiveCases cases) _ []
      (pairwise_lt_range 1 (last + 1)) (fun _ _ => rfl) fun n hn =>
        ⟨last, hmem, by have := (Int.mem_range_iff.mp hn).2; omega⟩
    have hlookup : ∀ n, 0 < n → n ≤ last →
        ((Int.range 1 (last + 1)).filterMap fun n =>
          ((positiveCases cases).find? (n ≤ ·)).map (n, ·)).lookup n =
          (positiveCases cases).find? (n ≤ ·) := by
      intro n hn hle
      rw [lookup_pairs fun n => (positiveCases cases).find? (n ≤ ·), if_pos]
      exact Int.mem_range_iff.mpr ⟨hn, by omega⟩
    refine ⟨_, last, bind_eq_ok.2 ⟨_, hrun, rfl⟩, .inr ⟨fun hnil => ?_, ?_⟩⟩
    · have hfind := (congrArg (List.lookup last) hnil).symm.trans (hlookup last hpos le_rfl)
      have := List.find?_eq_none.mp hfind.symm last hmem
      simp at this
    · rintro n hn ⟨c, hc, hle⟩
      exact hlookup n hn (hle.trans (hmax c (mem_positiveCases.2 ⟨hc, by omega⟩)))

variable {σ : Type} {vllm : Vllm σ} {cfg : GraphConfig σ} {mgr : CudaGraphManager}

theorem resolveEffectiveLoras_of_nonpos {n : Int} (h : n ≤ 0) :
    mgr.resolveEffectiveLoras n = n :=
  if_pos (.inl h)

/-- An active count that some case reaches is mapped to the least case not below it. -/
theorem isLeast_effective (h : CudaGraphManager.init vllm cfg = .ok mgr) {n : Int}
    (hcase : mgr.resolveEffectiveLoras n ∈ cfg.loraCases) (hex : ∃ c ∈ cfg.loraCases, n ≤ c) :
    IsLeast {c | c ∈ cfg.loraCases ∧ n ≤ c} (mgr.resolveEffectiveLoras n) := by
  by_cases hn : n ≤ 0
  · rw [resolveEffectiveLoras_of_nonpos hn] at hcase ⊢
    exact ⟨⟨hcase, le_rfl⟩, fun c hc => hc.2⟩
  · obtain ⟨m, last, hmap, hspec⟩ := buildLoraDispatchMap_eq_ok cfg.loraCases
    obtain ⟨rfl, rfl⟩ := Prod.mk.inj (Except.ok.inj (hmap.symm.trans (init_eq_ok h).1))
    obtain ⟨c, hc, hnc⟩ := hex
    rcases hspec with ⟨-, hnone⟩ | ⟨hne, hlookup⟩
    · have : c ∈ positiveCases cfg.loraCases := mem_positiveCases.2 ⟨hc, by omega⟩
      simp [hnone] at this
    · have hfind := hlookup n (by omega) ⟨c, hc, hnc⟩
      rcases hleast : (positiveCases cfg.loraCases).find? (n ≤ ·) with _ | e
      · have := List.find?_eq_none.mp hleast c (mem_positiveCases.2 ⟨hc, by omega⟩)
        simp [hnc] at this
      · have heff : mgr.resolveEffectiveLoras n = e := by
          simp [CudaGraphManager.resolveEffectiveLoras, hn, hne, hfind, hleast]
        have := isLeast_of_find? (pairwise_positiveCases _) hleast
        rw [heff]
        refine ⟨⟨(mem_positiveCases.1 this.1.1).1, this.1.2⟩, fun c' hc' => ?_⟩
        exact this.2 ⟨mem_positiveCases.2 ⟨hc'.1, by have := hc'.2; omega⟩, hc'.2⟩

end lora

/-! ## candidates -/

section candidates

/-- What the modes' descriptors of one LoRA case offer a token count. -/
def offered (descs : List BatchExecutionDescriptor) (i l : Int) : List BatchExecutionDescriptor :=
  serving BatchExecutionDescriptor.numTokens
    (descs.filter (fun d => d.numActiveLoras = l)) i

theorem addLoraCandidates_at {descs : List BatchExecutionDescriptor}
    (hasc : descs.Pairwise fun a b => a.numTokens ≤ b.numTokens) (cands : Candidates) {i : Int}
    (hi : 0 ≤ i) (l l' : Int) :
    (addLoraCandidates descs cands l' (i, l)).getD [] =
      (cands (i, l)).getD [] ++ if l = l' then offered descs i l else [] := by
  by_cases hl : l = l'
  · subst hl
    rw [if_pos rfl]
    exact fillRanges_groupBy (fun a b h => (Prod.mk.inj h).1)
      (hasc.filter _) hi
  · rw [if_neg hl, List.append_nil, addLoraCandidates, fillRanges_frame]
    intro j hj
    exact hl (Prod.mk.inj hj).2.symm

theorem foldl_addLoraCandidates_at {descs : List BatchExecutionDescriptor}
    (hasc : descs.Pairwise fun a b => a.numTokens ≤ b.numTokens) (cands : Candidates) {i : Int}
    (hi : 0 ≤ i) (l : Int) (cases : List Int) :
    (cases.foldl (addLoraCandidates descs) cands (i, l)).getD [] =
      (cands (i, l)).getD [] ++ (cases.filter (l = ·)).flatMap fun _ => offered descs i l := by
  induction cases generalizing cands with
  | nil => simp
  | cons l' cases ih =>
    rw [List.foldl_cons, ih, addLoraCandidates_at hasc cands hi]
    by_cases hl : l = l' <;> simp [hl]

/-- The candidates of a token count: what the full descriptors offer, once for each
occurrence of the LoRA case, and then what the piecewise ones do. -/
theorem candidatesOf_at (cases : List Int) (descs : DescsByMode) {i : Int} (hi : 0 ≤ i)
    (l : Int) :
    (candidatesOf cases (captureDescsOf descs) (i, l)).getD [] =
      ((cases.filter (l = ·)).flatMap fun _ => offered (captureDescsOf descs .FULL).reverse i l) ++
      (cases.filter (l = ·)).flatMap fun _ =>
        offered (captureDescsOf descs .PIECEWISE).reverse i l := by
  simp only [candidatesOf, List.foldl_cons, List.foldl_nil]
  rw [foldl_addLoraCandidates_at (pairwise_reverse_captureDescsOf descs _) _ hi,
    foldl_addLoraCandidates_at (pairwise_reverse_captureDescsOf descs _) _ hi]
  rfl

variable {σ : Type} {vllm : Vllm σ} {cfg : GraphConfig σ} {mgr : CudaGraphManager}

/-- The candidates of mode `m` for a token count and a LoRA case. -/
def modeCandidates (cases : List Int) (mgr : CudaGraphManager) (m : CUDAGraphMode) (i l : Int) :
    List BatchExecutionDescriptor :=
  (cases.filter (l = ·)).flatMap fun _ => offered (mgr.captureDescs m).reverse i l

theorem candidates_at (h : CudaGraphManager.init vllm cfg = .ok mgr) {i : Int} (hi : 0 ≤ i)
    (l : Int) : (mgr.candidates (i, l)).getD [] =
      modeCandidates cfg.loraCases mgr .FULL i l ++
        modeCandidates cfg.loraCases mgr .PIECEWISE i l := by
  obtain ⟨-, -, -, ⟨descs, -, -, hcap, hcands⟩ | ⟨-, hcap, hcands⟩⟩ := init_eq_ok h
  · rw [hcands, candidatesOf_at _ _ hi]
    simp only [modeCandidates, hcap]
  · simp [modeCandidates, hcands, hcap, offered, serving, groupBy]

theorem pairwise_reverse_captureDescs (h : CudaGraphManager.init vllm cfg = .ok mgr)
    (m : CUDAGraphMode) :
    (mgr.captureDescs m).reverse.Pairwise fun a b => a.numTokens ≤ b.numTokens := by
  obtain ⟨-, -, -, ⟨descs, -, -, hcap, -⟩ | ⟨-, hcap, -⟩⟩ := init_eq_ok h
  · rw [hcap]
    exact pairwise_reverse_captureDescsOf descs m
  · simp [hcap]

/-- A captured descriptor of the LoRA case, of the least size of its mode that is not
below the token count. -/
structure Nearest (vllm : Vllm σ) (cfg : GraphConfig σ) (i l : Int)
    (d : BatchExecutionDescriptor) : Prop where
  captures : Captures vllm cfg d
  loras : d.numActiveLoras = l
  le : i ≤ d.numTokens
  least : ∀ d', Captures vllm cfg d' → d'.cgMode = d.cgMode → d'.numActiveLoras = l →
    i ≤ d'.numTokens → d.numTokens ≤ d'.numTokens

/-- The candidates of a mode are its nearest descriptors. -/
theorem mem_modeCandidates_iff (h : CudaGraphManager.init vllm cfg = .ok mgr) {m : CUDAGraphMode}
    {i l : Int} {d : BatchExecutionDescriptor} :
    d ∈ modeCandidates cfg.loraCases mgr m i l ↔ d.cgMode = m ∧ Nearest vllm cfg i l d := by
  have hcase : Captures vllm cfg d → d.numActiveLoras = l → l ∈ cfg.loraCases := by
    rintro ⟨-, n, -, l', hl', hc⟩ rfl
    rwa [hc.numActiveLoras]
  have hserving : d ∈ offered (mgr.captureDescs m).reverse i l ↔
      d.cgMode = m ∧ Nearest vllm cfg i l d := by
    rw [offered, mem_serving_iff ((pairwise_reverse_captureDescs h m).filter _)]
    constructor
    · rintro ⟨hmem, hle, hleast⟩
      simp only [List.mem_filter, List.mem_reverse, mem_captureDescs_iff h, decide_eq_true_eq]
        at hmem hleast
      refine ⟨hmem.1.1, hmem.1.2, hmem.2, hle, fun d' hd' hmode hl hi => ?_⟩
      exact hleast d' ⟨⟨hmode.trans hmem.1.1, hd'⟩, hl⟩ hi
    · rintro ⟨rfl, hnear⟩
      refine ⟨?_, hnear.le, fun d' hd' hi => ?_⟩
      · simp [mem_captureDescs_iff h, hnear.captures, hnear.loras]
      · simp only [List.mem_filter, List.mem_reverse, mem_captureDescs_iff h,
          decide_eq_true_eq] at hd'
        exact hnear.least d' hd'.1.2 hd'.1.1 hd'.2 hi
  rw [modeCandidates, List.mem_flatMap]
  simp only [List.mem_filter, decide_eq_true_eq, exists_and_right, hserving]
  grind [Nearest]

end candidates

/-! ## capture -/

section capture

variable {forward : CudaGraphManager.Forward}

open CudaGraphManager (captureStep)

/-- Piecewise descriptors run through the wrappers of the model. -/
theorem captureStep_piecewise (hfwd : ∀ d w m, forward d w m = .ok ())
    {ds : List BatchExecutionDescriptor} (hds : ∀ d ∈ ds, d.cgMode = .PIECEWISE)
    (breakable : Bool) (rec : CudaGraphManager.Recorded) :
    ds.foldlM (captureStep forward breakable) rec =
      .ok { rec with piecewise := rec.piecewise ++ ds } := by
  induction ds generalizing rec with
  | nil => simp; rfl
  | cons d ds ih =>
    have hstep : captureStep forward breakable rec d =
        .ok { rec with piecewise := rec.piecewise ++ [d] } := by
      simp [captureStep, hfwd, hds d List.mem_cons_self, bind, Except.bind, pure, Except.pure]
    rw [List.foldlM_cons, hstep]
    refine (ih (fun d hd => hds d (List.mem_cons_of_mem _ hd)) _).trans ?_
    simp

/-- Descriptors that are new get their graphs recorded, and no assertion fails. -/
theorem captureStep_full (hfwd : ∀ d w m, forward d w m = .ok ())
    {ds : List BatchExecutionDescriptor} (hds : ∀ d ∈ ds, d.cgMode = .FULL)
    (breakable : Bool) (rec : CudaGraphManager.Recorded)
    (hnodup : (rec.graphs ++ ds).Nodup) :
    ds.foldlM (captureStep forward breakable) rec =
      .ok { rec with graphs := rec.graphs ++ ds } := by
  induction ds generalizing rec with
  | nil => simp; rfl
  | cons d ds ih =>
    have hnew : d ∉ rec.graphs := by
      rw [List.nodup_middle, List.nodup_cons, List.mem_append, not_or] at hnodup
      exact hnodup.1.1
    have hstep : captureStep forward breakable rec d =
        .ok { rec with graphs := rec.graphs ++ [d] } := by
      simp [captureStep, hfwd, hds d List.mem_cons_self, hnew, bind, Except.bind, pure,
        Except.pure]
    rw [List.foldlM_cons, hstep]
    refine (ih (fun d hd => hds d (List.mem_cons_of_mem _ hd)) _ (by simpa using hnodup)).trans ?_
    simp

variable {σ : Type} {vllm : Vllm σ} {cfg : GraphConfig σ} {mgr : CudaGraphManager}

/-- A capture in which every forward succeeds records every descriptor. -/
theorem capture_eq_ok (h : CudaGraphManager.init vllm cfg = .ok mgr)
    (hsizes : cfg.cudagraphCaptureSizes.Nodup) (hcases : cfg.loraCases.Nodup)
    (hfwd : ∀ d w m, forward d w m = .ok ()) :
    mgr.capture forward =
      .ok ({ mgr with graphs := mgr.captureDescs .FULL, graphsCaptured := true },
        ⟨mgr.captureDescs .FULL, mgr.captureDescs .PIECEWISE⟩) := by
  obtain ⟨-, hgraphs, hmax, -⟩ := init_eq_ok h
  have hrun : mgr.toCapture.foldlM (captureStep forward mgr.useBreakableCg) ⟨mgr.graphs, []⟩ =
      .ok ⟨mgr.captureDescs .FULL, mgr.captureDescs .PIECEWISE⟩ := by
    have hpiece := captureStep_piecewise hfwd
      (fun d hd => ((mem_captureDescs_iff h).1 hd).1) mgr.useBreakableCg ⟨mgr.graphs, []⟩
    have hfull := captureStep_full hfwd
      (fun d hd => ((mem_captureDescs_iff h).1 hd).1) mgr.useBreakableCg
      ⟨[], mgr.captureDescs .PIECEWISE⟩
      (nodup_captureDescs h hsizes hcases .FULL)
    rw [CudaGraphManager.toCapture, hmax, List.foldlM_append, hpiece, hgraphs]
    exact hfull
  rw [CudaGraphManager.capture, hrun]
  rfl

end capture

/-! ## building a manager -/

section init

variable {σ : Type} {vllm : Vllm σ} {cfg : GraphConfig σ}

theorem exists_uniformStep {q : Int} (hq : q ≠ 0) (n l : Int) (descs : DescsByMode) :
    ∃ descs', uniformStep vllm cfg n l descs q = .ok descs' := by
  have hdiv : floorDiv (vllm.roundUp n q) q = .ok _ := floorDiv_eq_ok.2 ⟨hq, rfl⟩
  rw [uniformStep]
  dsimp only
  rw [hdiv]
  simp only [bind, Except.bind]
  split
  · exact ⟨_, rfl⟩
  · split <;> exact ⟨_, rfl⟩

theorem exists_sizeStep (hq : ∀ q ∈ decodeQueryLens vllm cfg, q ≠ 0) (descs : DescsByMode)
    (p : Int × Int) : ∃ descs', sizeStep vllm cfg descs p = .ok descs' := by
  obtain ⟨descs', h⟩ : ∃ descs', decodeStep vllm cfg descs p.1 p.2 = .ok descs' := by
    rw [decodeStep]
    split
    · exact ⟨_, rfl⟩
    · split
      · exact exists_foldlM (fun descs q hmem => exists_uniformStep (hq q hmem) p.1 p.2 descs) descs
      · exact ⟨_, rfl⟩
  exact ⟨_, bind_eq_ok.2 ⟨descs', h, rfl⟩⟩

/-- Every configuration whose decode query lengths are not zero has a manager. -/
theorem exists_init (vllm : Vllm σ) (cfg : GraphConfig σ)
    (hq : ∀ q ∈ decodeQueryLens vllm cfg, q ≠ 0) :
    ∃ mgr, CudaGraphManager.init vllm cfg = .ok mgr := by
  obtain ⟨m, last, hmap, -⟩ := buildLoraDispatchMap_eq_ok cfg.loraCases
  obtain ⟨cands, hcands⟩ : ∃ cands, CudaGraphManager.initCandidates vllm cfg = .ok cands := by
    rw [CudaGraphManager.initCandidates]
    split
    · obtain ⟨descs, hdescs⟩ : ∃ descs, descsByMode vllm cfg = .ok descs :=
        exists_foldlM (fun descs p _ => exists_sizeStep hq descs p) _
      exact ⟨_, bind_eq_ok.2 ⟨descs, hdescs, rfl⟩⟩
    · exact ⟨_, rfl⟩
  exact ⟨_, bind_eq_ok.2 ⟨_, hmap, bind_eq_ok.2 ⟨cands, hcands, rfl⟩⟩⟩

end init

/-! ## dispatch -/

section dispatch

open CudaGraphManager (noGraph)

variable {σ : Type} {vllm : Vllm σ} {cfg : GraphConfig σ} {mgr : CudaGraphManager} {b : GraphBatch}

/-- A manager with its graphs captured takes the first candidate that fits, and the full
candidates come first. -/
theorem dispatch_captured (h : CudaGraphManager.init vllm cfg = .ok mgr)
    (graphs : List BatchExecutionDescriptor) (hpos : 0 < b.numTokens) :
    { mgr with graphs := graphs, graphsCaptured := true }.dispatch b =
      ((modeCandidates cfg.loraCases mgr .FULL b.numTokens (mgr.effective b).numActiveLoras ++
        modeCandidates cfg.loraCases mgr .PIECEWISE b.numTokens
          (mgr.effective b).numActiveLoras).find? (isCompatible · (mgr.effective b))).getD
        (noGraph (mgr.effective b)) := by
  rw [← candidates_at h hpos.le]
  have heff : { mgr with graphs := graphs, graphsCaptured := true }.effective b =
    mgr.effective b := rfl
  simp only [CudaGraphManager.dispatch, heff, hpos, and_self, if_true]
  cases mgr.candidates (b.numTokens, (mgr.effective b).numActiveLoras) <;> simp

/-- Without a token the batch gets no graph. -/
theorem dispatch_of_nonpos (hpos : ¬ 0 < b.numTokens) :
    mgr.dispatch b = noGraph (mgr.effective b) := by
  simp [CudaGraphManager.dispatch, hpos]

/-- What `dispatch` returns: no graph, or a nearest descriptor of the full or the
piecewise mode that fits. -/
theorem dispatch_cases (h : CudaGraphManager.init vllm cfg = .ok mgr)
    (graphs : List BatchExecutionDescriptor) (b : GraphBatch) {d : BatchExecutionDescriptor}
    (hd : { mgr with graphs := graphs, graphsCaptured := true }.dispatch b = d) :
    d = noGraph (mgr.effective b) ∨
      (d.cgMode = .FULL ∨ d.cgMode = .PIECEWISE) ∧ Fits d (mgr.effective b) ∧
        Nearest vllm cfg b.numTokens (mgr.effective b).numActiveLoras d := by
  by_cases hpos : 0 < b.numTokens
  · rw [dispatch_captured h graphs hpos] at hd
    rcases hfind : List.find? _ _ with _ | d'
    · left
      rw [← hd, hfind]
      rfl
    · right
      rw [hfind] at hd
      obtain rfl : d' = d := hd
      have hfits := isCompatible_iff.1
        (List.find?_some (p := fun x => isCompatible x (mgr.effective b)) hfind)
      have hmem := List.mem_of_find?_eq_some hfind
      rw [List.mem_append, mem_modeCandidates_iff h, mem_modeCandidates_iff h] at hmem
      grind
  · left
    rw [← hd]
    exact dispatch_of_nonpos hpos

/-- A descriptor that runs the batch soundly and with the least padding. -/
structure RunsTightly (cfg : GraphConfig σ) (mgr : CudaGraphManager)
    (rec : CudaGraphManager.Recorded) (b : GraphBatch) (d : BatchExecutionDescriptor) : Prop where
  tokens : b.numTokens ≤ d.numTokens
  reqs : ∀ r, d.numReqs = some r → b.numReqs ≤ r
  uniform : ∀ u, d.uniformTokenCount = some u → b.uniformTokenCount = some u
  query : ∀ q, d.maxQueryLen = some q → ∃ m, b.maxQueryLen = some m ∧ m ≤ q
  loras : (∃ c ∈ cfg.loraCases, b.numActiveLoras ≤ c) →
    IsLeast {c | c ∈ cfg.loraCases ∧ b.numActiveLoras ≤ c} d.numActiveLoras
  graph : d.cgMode = .FULL → d ∈ mgr.graphs ∧ mgr.runFullgraph d = .ok ()
  tight : ∀ d' ∈ rec.graphs ++ rec.piecewise, d'.cgMode = d.cgMode →
    d'.numActiveLoras = d.numActiveLoras → isCompatible d' (mgr.effective b) = true →
    d.numTokens ≤ d'.numTokens

/-- A capture in which every forward succeeds raises no assertion, and afterwards every
batch is dispatched to no graph, with its own sizes, or to a descriptor that runs it. -/
theorem dispatch_sound {forward : CudaGraphManager.Forward}
    (h : CudaGraphManager.init vllm cfg = .ok mgr) (hsizes : cfg.cudagraphCaptureSizes.Nodup)
    (hcases : cfg.loraCases.Nodup) (hfwd : ∀ d w m, forward d w m = .ok ()) :
    ∃ mgr' rec, mgr.capture forward = .ok (mgr', rec) ∧ ∀ b : GraphBatch,
      (mgr'.dispatch b).cgMode = .NONE ∧ (mgr'.dispatch b).numTokens = b.numTokens ∧
          (mgr'.dispatch b).numReqs = some b.numReqs ∨
        RunsTightly cfg mgr' rec b (mgr'.dispatch b) := by
  refine ⟨_, _, capture_eq_ok h hsizes hcases hfwd, fun b => ?_⟩
  generalize hd : CudaGraphManager.dispatch _ b = d
  rcases dispatch_cases h _ b hd with rfl | ⟨hmode, hfits, hnear⟩
  · exact .inl ⟨rfl, rfl, rfl⟩
  · right
    refine ⟨hfits.tokens, hfits.reqs, hfits.uniform, hfits.query, fun hex => ?_, fun hfull => ?_,
      fun d' hd' hmode' hl hcompat => ?_⟩
    · obtain ⟨-, n, -, l, hl, hc⟩ := hnear.captures
      rw [hfits.loras]
      refine isLeast_effective h ?_ hex
      rwa [← hc.numActiveLoras, hfits.loras] at hl
    · have hmem : d ∈ mgr.captureDescs .FULL := (mem_captureDescs_iff h).2 ⟨hfull, hnear.captures⟩
      exact ⟨hmem, if_pos ⟨hfull, hmem⟩⟩
    · have hcap : Captures vllm cfg d' := by
        rcases List.mem_append.mp hd' with hd' | hd' <;>
          exact ((mem_captureDescs_iff h).1 hd').2
      exact hnear.least d' hcap hmode' (hl.trans hnear.loras) (isCompatible_iff.1 hcompat).tokens

/-- A ladder out of order, with two LoRA cases and query length two. -/
def smallGraphs : GraphConfig (List Int) where
  cudagraphMode := .FULL_AND_PIECEWISE
  decodeQueryLen := 2
  loraCaptureCases := some [0, 2]
  varlenDecode := false
  maxNumReqs := 4
  cudagraphCaptureSizes := [8, 1, 3]
  maxCudagraphCaptureSize := 8
  numSpeculativeTokens := 1
  speculativeConfig := none
  useBreakableCg := false

theorem dispatch_sound_smallGraphs :
    ∃ mgr, CudaGraphManager.init documentedVllm smallGraphs = .ok mgr ∧
      ∃ mgr' rec, mgr.capture (fun _ _ _ => .ok ()) = .ok (mgr', rec) ∧ ∀ b : GraphBatch,
        (mgr'.dispatch b).cgMode = .NONE ∧ (mgr'.dispatch b).numTokens = b.numTokens ∧
            (mgr'.dispatch b).numReqs = some b.numReqs ∨
          RunsTightly smallGraphs mgr' rec b (mgr'.dispatch b) := by
  obtain ⟨mgr, h⟩ := exists_init documentedVllm smallGraphs (by decide)
  exact ⟨mgr, h, dispatch_sound h (by decide) (by decide) fun _ _ _ => rfl⟩

end dispatch

end FlashNext
