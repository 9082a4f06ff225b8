import FlashNext.Graphs.Dispatch
import Mathlib.Data.Int.LeastGreatest

/-!
# FlashNext.Graphs.Reach

When a captured full graph that fits a batch is used.

`dispatch` looks only at the descriptors of the least captured size that is not below
the batch's token count.  With graphs for several decode query lengths the graph that
fits may be at a larger size, behind one of another query length: then it is not used.

* `fullGraphUsed_iff` — a full graph that fits is used exactly when the least full size
  not below the token count has one;
* `fullGraphUsed_of_one_queryLen` — with a single decode query length it always is.
-/

namespace FlashNext

section reach

open CudaGraphManager (captureStep Recorded noGraph)

variable {σ : Type} {vllm : Vllm σ} {cfg : GraphConfig σ} {mgr mgr' : CudaGraphManager}
  {forward : CudaGraphManager.Forward} {rec rec' : Recorded}

/-! ## after a capture -/

/-- A capture step records a new graph, or runs a piecewise descriptor. -/
theorem captureStep_eq_ok {breakable : Bool} {d : BatchExecutionDescriptor}
    (h : captureStep forward breakable rec d = .ok rec') :
    d.cgMode = .PIECEWISE ∧ rec' = { rec with piecewise := rec.piecewise ++ [d] } ∨
      d.cgMode ≠ .PIECEWISE ∧ d ∉ rec.graphs ∧ rec' = { rec with graphs := rec.graphs ++ [d] } := by
  obtain ⟨-, -, h⟩ := bind_eq_ok.1 h
  split at h
  · next hmode =>
    obtain ⟨-, -, h⟩ := bind_eq_ok.1 h
    cases h
    exact .inl ⟨hmode, rfl⟩
  · next hmode =>
    split at h
    · cases h
    · next hnew =>
      obtain ⟨-, -, h⟩ := bind_eq_ok.1 h
      cases h
      exact .inr ⟨hmode, hnew, rfl⟩

/-- After a capture the graphs are those of the full descriptors. -/
theorem capture_inv (h : CudaGraphManager.init vllm cfg = .ok mgr)
    (hcap : mgr.capture forward = .ok (mgr', rec)) :
    mgr' = { mgr with graphs := mgr'.graphs, graphsCaptured := true } ∧
      ∀ d, d ∈ mgr'.graphs ↔ d.cgMode = .FULL ∧ Captures vllm cfg d := by
  obtain ⟨-, hgraphs, hmax, -⟩ := init_eq_ok h
  obtain ⟨rec', hrun, hcap⟩ := bind_eq_ok.1 hcap
  cases hcap
  refine ⟨rfl, fun d => ?_⟩
  have hinv : ∀ d, d ∈ rec.graphs ↔ d ∈ mgr.toCapture ∧ d.cgMode ≠ .PIECEWISE := by
    refine foldlM_inv (P := fun done rec => ∀ d, d ∈ rec.graphs ↔
      d ∈ done ∧ d.cgMode ≠ .PIECEWISE) hrun (by simp [hgraphs]) ?_
    rintro done x - - s s' hs hstep d
    rcases captureStep_eq_ok hstep with ⟨hmode, rfl⟩ | ⟨hmode, -, rfl⟩
    · rw [hs d]
      grind
    · simp only [List.mem_append, List.mem_singleton, hs d]
      grind
  rw [hinv, CudaGraphManager.toCapture, hmax]
  simp only [List.mem_append, mem_captureDescs_iff h]
  grind

/-! ## the graph that is used -/

/-- If a captured full graph fits the batch, a full graph is dispatched. -/
def FullGraphUsed (mgr : CudaGraphManager) (b : GraphBatch) : Prop :=
  (∃ d ∈ mgr.graphs, d.cgMode = .FULL ∧ isCompatible d (mgr.effective b) = true) →
    (mgr.dispatch b).cgMode = .FULL

/-- A full descriptor that the configuration captures. -/
def CapturesFull (vllm : Vllm σ) (cfg : GraphConfig σ) (d : BatchExecutionDescriptor) : Prop :=
  d.cgMode = .FULL ∧ Captures vllm cfg d

/-- No captured full size stands between the batch and the full descriptors that fit it:
at or below every captured full size that is not below the token count, one fits. -/
def NoneBetween (vllm : Vllm σ) (cfg : GraphConfig σ) (b : GraphBatch) : Prop :=
  ∀ d, CapturesFull vllm cfg d → d.numActiveLoras = b.numActiveLoras →
    b.numTokens ≤ d.numTokens →
    ∃ e, CapturesFull vllm cfg e ∧ Fits e b ∧ e.numTokens ≤ d.numTokens

/-- A full graph is dispatched exactly when a nearest full descriptor fits. -/
theorem dispatch_full_iff (h : CudaGraphManager.init vllm cfg = .ok mgr)
    (graphs : List BatchExecutionDescriptor) {b : GraphBatch} (hpos : 0 < b.numTokens) :
    ({ mgr with graphs := graphs, graphsCaptured := true }.dispatch b).cgMode = .FULL ↔
      ∃ d, d.cgMode = .FULL ∧
        Nearest vllm cfg b.numTokens (mgr.effective b).numActiveLoras d ∧
        Fits d (mgr.effective b) := by
  constructor
  · intro hfull
    rcases dispatch_cases h graphs b rfl with hnone | ⟨-, hfits, hnear⟩
    · rw [hnone] at hfull
      cases hfull
    · exact ⟨_, hfull, hnear, hfits⟩
  · rintro ⟨d, hmode, hnear, hfits⟩
    have hmem := (mem_modeCandidates_iff h).2 ⟨hmode, hnear⟩
    obtain ⟨d', hfind⟩ := Option.isSome_iff_exists.mp
      (List.find?_isSome (p := fun x => isCompatible x (mgr.effective b)) |>.mpr
        ⟨d, hmem, isCompatible_iff.2 hfits⟩)
    rw [dispatch_captured h graphs hpos, List.find?_append, hfind]
    exact ((mem_modeCandidates_iff h).1 (List.mem_of_find?_eq_some hfind)).1

/-- The least of the full descriptors that fit is a nearest one when none stands
between. -/
theorem exists_nearest_of_noneBetween {b : GraphBatch} (hbetween : NoneBetween vllm cfg b)
    {d : BatchExecutionDescriptor} (hd : CapturesFull vllm cfg d) (hfits : Fits d b) :
    ∃ e, e.cgMode = .FULL ∧ Nearest vllm cfg b.numTokens b.numActiveLoras e ∧ Fits e b := by
  obtain ⟨n, ⟨e, he, hefits, rfl⟩, hleast⟩ := Int.exists_least_of_bdd
    (P := fun n => ∃ e, CapturesFull vllm cfg e ∧ Fits e b ∧ e.numTokens = n)
    ⟨b.numTokens, by rintro _ ⟨e, -, hefits, rfl⟩; exact hefits.tokens⟩ ⟨_, d, hd, hfits, rfl⟩
  refine ⟨e, he.1, ⟨he.2, hefits.loras, hefits.tokens, fun d' hd' hmode hl hle => ?_⟩, hefits⟩
  obtain ⟨e', he', hfits', hle'⟩ := hbetween d' ⟨hmode.trans he.1, hd'⟩ hl hle
  exact (hleast _ ⟨e', he', hfits', rfl⟩).trans hle'

/-- After a capture a full graph that fits is used exactly when, whenever one fits, the
batch has a token and no captured full size stands between. -/
theorem fullGraphUsed_iff (h : CudaGraphManager.init vllm cfg = .ok mgr)
    (hcap : mgr.capture forward = .ok (mgr', rec)) (b : GraphBatch) :
    FullGraphUsed mgr' b ↔
      ((∃ d, CapturesFull vllm cfg d ∧ Fits d (mgr'.effective b)) →
        0 < b.numTokens ∧ NoneBetween vllm cfg (mgr'.effective b)) := by
  obtain ⟨hmgr, hgraphs⟩ := capture_inv h hcap
  have heff : mgr'.effective b = mgr.effective b := by
    rw [hmgr]
    rfl
  have hex : (∃ d ∈ mgr'.graphs, d.cgMode = .FULL ∧ isCompatible d (mgr'.effective b) = true) ↔
      ∃ d, CapturesFull vllm cfg d ∧ Fits d (mgr'.effective b) := by
    simp only [hgraphs, isCompatible_iff, CapturesFull]
    grind
  rw [FullGraphUsed, hex]
  refine forall_congr' fun ⟨d, hd, hfits⟩ => ?_
  by_cases hpos : 0 < b.numTokens
  · rw [hmgr, dispatch_full_iff h _ hpos, ← hmgr, ← heff]
    simp only [hpos, true_and]
    constructor
    · rintro ⟨e, hmode, hnear, hefits⟩ d' hd' hl hle
      exact ⟨e, ⟨hmode, hnear.captures⟩, hefits,
        hnear.least d' hd'.2 (hd'.1.trans hmode.symm) hl hle⟩
    · intro hbetween
      exact exists_nearest_of_noneBetween hbetween hd hfits
  · rw [dispatch_of_nonpos hpos]
    simp [noGraph, hpos]

theorem fullGraphUsed_iff_smallGraphs :
    ∃ mgr, CudaGraphManager.init documentedVllm smallGraphs = .ok mgr ∧
      ∃ mgr' rec, mgr.capture (fun _ _ _ => .ok ()) = .ok (mgr', rec) ∧ ∀ b : GraphBatch,
        (FullGraphUsed mgr' b ↔
          ((∃ d, CapturesFull documentedVllm smallGraphs d ∧ Fits d (mgr'.effective b)) →
            0 < b.numTokens ∧ NoneBetween documentedVllm smallGraphs (mgr'.effective b))) := by
  obtain ⟨mgr, h⟩ := exists_init documentedVllm smallGraphs (by decide)
  have hcap := capture_eq_ok h (by decide) (by decide) fun _ _ _ => rfl
  exact ⟨mgr, h, _, _, hcap, fun b => fullGraphUsed_iff h hcap b⟩

/-- A dynamic schedule of at most two speculative tokens over two capture sizes. -/
def dynamicGraphs : GraphConfig (List Int) where
  cudagraphMode := .FULL_AND_PIECEWISE
  decodeQueryLen := 3
  loraCaptureCases := none
  varlenDecode := false
  maxNumReqs := 4
  cudagraphCaptureSizes := [4, 8]
  maxCudagraphCaptureSize := 8
  numSpeculativeTokens := 2
  speculativeConfig := some ⟨true, [2, 2, 1, 0, 0]⟩
  useBreakableCg := false

/-- One decode request of three tokens. -/
def threeTokenBatch : GraphBatch where
  numReqs := 1
  numTokens := 3
  uniformTokenCount := some 3
  numActiveLoras := 0
  maxQueryLen := some 3

/-- The graph of query length three is at six tokens, behind the graphs of four tokens
of the other query lengths. -/
theorem three_token_graph_unused :
    ∃ mgr, CudaGraphManager.init documentedVllm dynamicGraphs = .ok mgr ∧
      ∃ mgr' rec, mgr.capture (fun _ _ _ => .ok ()) = .ok (mgr', rec) ∧
        (∃ d ∈ mgr'.graphs, d.cgMode = .FULL ∧
          isCompatible d (mgr'.effective threeTokenBatch) = true) ∧
        (mgr'.dispatch threeTokenBatch).cgMode ≠ .FULL := by
  obtain ⟨mgr, h⟩ := exists_init documentedVllm dynamicGraphs (by decide)
  have hfull : ∀ q ∈ [1, 2, 3],
      Captures documentedVllm dynamicGraphs (roundedDesc documentedVllm dynamicGraphs 4 0 q) := by
    intro q hq
    have hlens : decodeQueryLens documentedVllm dynamicGraphs = [1, 2, 3] := by decide
    refine ⟨rfl, 4, by decide, 0, by decide, .uniform rfl (hlens ▸ hq) ?_⟩
    have hadm : ∀ q ∈ [1, 2, 3], documentedVllm.roundUp 4 q ≤ maxDecodeTokens dynamicGraphs ∧
        documentedVllm.roundUp 4 q ≤ dynamicGraphs.maxCudagraphCaptureSize ∧
        (documentedVllm.roundUp 4 q).fdiv q ≤ dynamicGraphs.maxNumReqs := by decide
    exact ⟨(hadm q hq).1, (hadm q hq).2.1, (hadm q hq).2.2⟩
  refine ⟨mgr, h, _, _, capture_eq_ok h (by decide) (by decide) fun _ _ _ => rfl, ?_, ?_⟩
  · exact ⟨roundedDesc documentedVllm dynamicGraphs 4 0 3,
      (mem_captureDescs_iff h).2 ⟨rfl, hfull 3 (by decide)⟩, rfl, rfl⟩
  · rw [ne_eq, dispatch_full_iff h _ (by decide)]
    rintro ⟨d, hmode, hnear, hfits⟩
    have hfour := hnear.least _ (hfull 1 (by decide)) hmode.symm rfl (by decide)
    obtain ⟨-, n, hn, l, -, hc⟩ := hnear.captures
    cases hc with
    | varlen hvar => cases hvar
    | @uniform _ q hq hadm =>
      obtain rfl : q = 3 := Option.some.inj (hfits.uniform q rfl).symm
      have hgap : ∀ n ∈ dynamicGraphs.cudagraphCaptureSizes,
          ¬ documentedVllm.roundUp n 3 ≤ documentedVllm.roundUp 4 1 := by decide
      exact hgap n hn hfour
    | mixed => cases hmode

/-! ## batches of requests -/

/-- Every request has a token, and all have as many as the uniform count says. -/
structure Coherent (b : GraphBatch) : Prop where
  reqs : b.numReqs ≤ b.numTokens
  uniform : ∀ u, b.uniformTokenCount = some u → 0 < u ∧ b.numReqs * u ≤ b.numTokens

/-- A uniform batch fits every descriptor of its query length with as many tokens. -/
theorem fits_roundedDesc {b : GraphBatch} (hb : Coherent b) {n u : Int}
    (hu : b.uniformTokenCount = some u) (hle : b.numTokens ≤ vllm.roundUp n u) :
    Fits (roundedDesc vllm cfg n b.numActiveLoras u) b := by
  obtain ⟨hpos, hreqs⟩ := hb.uniform u hu
  refine ⟨fun q hq => ?_, fun q hq => ?_, fun r hr => ?_, hle, rfl⟩
  · cases hq
    exact hu
  · cases hq
  · cases hr
    rw [Int.fdiv_eq_ediv_of_nonneg _ hpos.le]
    exact (Int.le_ediv_iff_mul_le hpos).2 (hreqs.trans hle)

/-- The full descriptors of uniform decode, with another mixed mode: one for each size and
query length that keep the limits. -/
theorem capturesFull_uniform_iff (hon : vllm.truthy cfg.cudagraphMode = true)
    (hmode : captureUniformDecode vllm cfg = true)
    (hdecode : vllm.decodeMode cfg.cudagraphMode = .FULL)
    (hmixed : vllm.mixedMode cfg.cudagraphMode ≠ .FULL) {l : Int} (hl : l ∈ cfg.loraCases)
    {d : BatchExecutionDescriptor} :
    CapturesFull vllm cfg d ∧ d.numActiveLoras = l ↔
      ∃ n ∈ cfg.cudagraphCaptureSizes, ∃ q ∈ decodeQueryLens vllm cfg, Admitted vllm cfg n q ∧
        d = roundedDesc vllm cfg n l q := by
  constructor
  · rintro ⟨⟨hfull, -, n, hn, l', -, hc⟩, hdl⟩
    rw [hc.numActiveLoras] at hdl
    subst hdl
    cases hc with
    | varlen hvar => simp [captureUniformDecode_eq_false hvar] at hmode
    | @uniform _ q hq hadm => exact ⟨n, hn, q, hq, hadm, rfl⟩
    | mixed => exact absurd hfull hmixed
  · rintro ⟨n, hn, q, hq, hadm, rfl⟩
    exact ⟨⟨hdecode, hon, n, hn, l, hl, .uniform hmode hq hadm⟩, rfl⟩

/-- For a uniform decode batch nothing stands between exactly when, at or below every
size that another query length is rounded up to, its own query length has one too. -/
theorem noneBetween_uniform_iff (hon : vllm.truthy cfg.cudagraphMode = true)
    (hmode : captureUniformDecode vllm cfg = true)
    (hdecode : vllm.decodeMode cfg.cudagraphMode = .FULL)
    (hmixed : vllm.mixedMode cfg.cudagraphMode ≠ .FULL) {b : GraphBatch} (hb : Coherent b) {u : Int}
    (hu : b.uniformTokenCount = some u) (hl : b.numActiveLoras ∈ cfg.loraCases) :
    NoneBetween vllm cfg b ↔
      ∀ n ∈ cfg.cudagraphCaptureSizes, ∀ q ∈ decodeQueryLens vllm cfg, Admitted vllm cfg n q →
        b.numTokens ≤ vllm.roundUp n q →
        u ∈ decodeQueryLens vllm cfg ∧ ∃ n' ∈ cfg.cudagraphCaptureSizes, Admitted vllm cfg n' u ∧
          b.numTokens ≤ vllm.roundUp n' u ∧ vllm.roundUp n' u ≤ vllm.roundUp n q := by
  have hfull := fun d => capturesFull_uniform_iff hon hmode hdecode hmixed hl (d := d)
  constructor
  · intro hbetween n hn q hq hadm hle
    have hd := (hfull _).2 ⟨n, hn, q, hq, hadm, rfl⟩
    obtain ⟨e, he, hfits, hele⟩ := hbetween _ hd.1 hd.2 hle
    obtain ⟨n', hn', u', hu', hadm', rfl⟩ := (hfull e).1 ⟨he, hfits.loras⟩
    obtain rfl : u' = u := Option.some.inj ((hfits.uniform u' rfl).symm.trans hu)
    exact ⟨hu', n', hn', hadm', hfits.tokens, hele⟩
  · intro hrounded d hd hdl hle
    obtain ⟨n, hn, q, hq, hadm, rfl⟩ := (hfull d).1 ⟨hd, hdl⟩
    obtain ⟨hu', n', hn', hadm', hle', hbelow⟩ := hrounded n hn q hq hadm hle
    exact ⟨_, ((hfull _).2 ⟨n', hn', u, hu', hadm', rfl⟩).1, fits_roundedDesc hb hu hle', hbelow⟩

/-- A smaller descriptor of the same kind fits too, if it has room for the tokens. -/
theorem fits_of_fits {b : GraphBatch} (hb : Coherent b)
    (hlens : ∀ q ∈ decodeQueryLens vllm cfg, ∀ q' ∈ decodeQueryLens vllm cfg, q = q')
    (hmixed : vllm.separateRoutine cfg.cudagraphMode = true →
      vllm.mixedMode cfg.cudagraphMode ≠ .FULL)
    {d e : BatchExecutionDescriptor} (he : CapturesFull vllm cfg e) (hfits : Fits e b)
    (hd : CapturesFull vllm cfg d) (hl : d.numActiveLoras = b.numActiveLoras)
    (hle : b.numTokens ≤ d.numTokens) : Fits d b := by
  obtain ⟨hefull, -, n, -, l, -, hce⟩ := he
  obtain ⟨hdfull, -, n', -, l', -, hcd⟩ := hd
  have hreqs := hb.reqs
  have hvar : captureVarlenDecode vllm cfg = true → vllm.mixedMode cfg.cudagraphMode ≠ .FULL := by
    intro hmode
    apply hmixed
    simp [captureVarlenDecode] at hmode
    exact hmode.1.1
  have huni : captureUniformDecode vllm cfg = true →
      vllm.mixedMode cfg.cudagraphMode ≠ .FULL := by
    intro hmode
    apply hmixed
    simp [captureUniformDecode] at hmode
    exact hmode.1.1
  cases hce with
  | varlen hmode hn =>
    cases hcd with
    | varlen =>
      refine ⟨by simp [varlenDesc], hfits.query, fun r hr => ?_, hle, hl⟩
      cases hr
      have := hfits.reqs _ rfl
      exact le_min (hreqs.trans hle) (this.trans (min_le_right _ _))
    | uniform hmode' => simp [captureUniformDecode_eq_false hmode] at hmode'
    | mixed => exact absurd hdfull (hvar hmode)
  | @uniform hmode q hq hadm =>
    cases hcd with
    | varlen hmode' => simp [captureUniformDecode_eq_false hmode'] at hmode
    | @uniform _ q' hq' hadm' =>
      obtain rfl := hlens q hq q' hq'
      have hl' : l' = b.numActiveLoras := hl
      rw [hl']
      exact fits_roundedDesc hb (hfits.uniform q rfl) hle
    | mixed => exact absurd hdfull (huni hmode)
  | mixed =>
    cases hcd with
    | varlen hmode' => exact absurd hefull (hvar hmode')
    | uniform hmode' => exact absurd hefull (huni hmode')
    | mixed =>
      have hmix : vllm.mixedMode cfg.cudagraphMode = .FULL := hefull
      refine ⟨by simp [mixedDesc], by simp [mixedDesc], fun r hr => ?_, hle, hl⟩
      have := hfits.reqs (min n cfg.maxNumReqs) (by simp [mixedDesc, hmix])
      simp only [mixedDesc, hmix, if_true, Option.some.injEq] at hr
      rw [← hr]
      exact le_min (hreqs.trans hle) (this.trans (min_le_right _ _))

/-- With a single decode query length a full graph that fits a batch is always used. -/
theorem fullGraphUsed_of_one_queryLen (h : CudaGraphManager.init vllm cfg = .ok mgr)
    (hcap : mgr.capture forward = .ok (mgr', rec))
    (hlens : ∀ q ∈ decodeQueryLens vllm cfg, ∀ q' ∈ decodeQueryLens vllm cfg, q = q')
    (hmixed : vllm.separateRoutine cfg.cudagraphMode = true →
      vllm.mixedMode cfg.cudagraphMode ≠ .FULL)
    {b : GraphBatch} (hb : Coherent b) (hpos : 0 < b.numTokens) : FullGraphUsed mgr' b := by
  have hb' : Coherent (mgr'.effective b) := ⟨hb.reqs, hb.uniform⟩
  refine (fullGraphUsed_iff h hcap b).2 ?_
  rintro ⟨e, he, hfits⟩
  exact ⟨hpos, fun d hd hl hle =>
    ⟨d, hd, fits_of_fits hb' hlens hmixed he hfits hd hl hle, le_rfl⟩⟩

end reach

end FlashNext
