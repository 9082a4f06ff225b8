import FlashNext.Graphs.Profile

/-!
# FlashNext.Graphs.NoTrace

What the profiling leaves behind, on every way it can end.

The warmup runs before the inner `try`, where only the outer `finally` stands guard, and
the names of the speculator's managers are noted after the swap.  So the platform's
pool, the counters and the wrappers' pools are given back always, but

* `profile_leaves_no_trace_iff` — the profiling state is released exactly when the warmup
  returns, and the speculator's managers dropped exactly when all pools are swapped or
  there are none.
-/

namespace FlashNext

variable {π κ τ ρ γ : Type}

namespace World

/-! ## what should hold at the end -/

/-- What the profiling borrows is as it was. -/
structure Restored (w w' : World π κ τ ρ) : Prop where
  globalGraphPool : w'.globalGraphPool = w.globalGraphPool
  numCudagraphCaptured : w'.numCudagraphCaptured = w.numCudagraphCaptured
  numGpuRunnerCaptureTriggers : w'.numGpuRunnerCaptureTriggers = w.numGpuRunnerCaptureTriggers
  graphPool : ∀ i ∈ w.wrappers, w'.graphPool i = w.graphPool i

/-- The profiling KV cache, attention groups and graph manager are gone. -/
structure Released (w : World π κ τ ρ) : Prop where
  kvCaches : w.kvCaches.getD [] = []
  attnGroups : w.attnGroups.getD [] = []
  kvCacheConfig : w.kvCacheConfig = none
  cudagraphManager : w.cudagraphManager = none
  numGpuBlocks : w.numGpuBlocks = none

/-- No attribute of the speculator is a graph manager. -/
def NoSpeculatorManager (w : World π κ τ ρ) : Prop :=
  ∀ name, (name, true) ∉ w.speculatorAttrs

/-- The run from `w` to `w'` has left nothing behind. -/
structure NoTrace (w w' : World π κ τ ρ) : Prop extends Restored w w' where
  dropped : w'.NoSpeculatorManager
  released : w'.Released

/-! ## what calls from outside leave alone -/

/-- The counters count captures, and a wrapper keeps its pool. -/
structure Kept (w w' : World π κ τ ρ) : Prop where
  numCudagraphCaptured : w'.numCudagraphCaptured = w.numCudagraphCaptured
  numGpuRunnerCaptureTriggers : w'.numGpuRunnerCaptureTriggers = w.numGpuRunnerCaptureTriggers
  graphPool : ∀ i ∈ w.wrappers, i ∈ w'.wrappers ∧ w'.graphPool i = w.graphPool i

/-- An eager run also keeps the runner's KV cache, graph manager and speculator. -/
structure KeptByRun (w w' : World π κ τ ρ) : Prop extends Kept w w' where
  kvCacheConfig : w'.kvCacheConfig = w.kvCacheConfig
  cudagraphManager : w'.cudagraphManager = w.cudagraphManager
  speculator : w'.speculator = w.speculator

theorem Kept.refl (w : World π κ τ ρ) : w.Kept w := ⟨rfl, rfl, fun _ hi => ⟨hi, rfl⟩⟩

theorem Kept.trans {w w' w'' : World π κ τ ρ} (h : w.Kept w') (h' : w'.Kept w'') : w.Kept w'' where
  numCudagraphCaptured := h'.numCudagraphCaptured.trans h.numCudagraphCaptured
  numGpuRunnerCaptureTriggers :=
    h'.numGpuRunnerCaptureTriggers.trans h.numGpuRunnerCaptureTriggers
  graphPool i hi := by
    obtain ⟨hmem, hpool⟩ := h.graphPool i hi
    obtain ⟨hmem', hpool'⟩ := h'.graphPool i hmem
    exact ⟨hmem', hpool'.trans hpool⟩

theorem KeptByRun.refl (w : World π κ τ ρ) : w.KeptByRun w := ⟨.refl w, rfl, rfl, rfl⟩

theorem KeptByRun.trans {w w' w'' : World π κ τ ρ} (h : w.KeptByRun w') (h' : w'.KeptByRun w'') :
    w.KeptByRun w'' where
  toKept := h.toKept.trans h'.toKept
  kvCacheConfig := h'.kvCacheConfig.trans h.kvCacheConfig
  cudagraphManager := h'.cudagraphManager.trans h.cudagraphManager
  speculator := h'.speculator.trans h.speculator

end World

/-- What is documented of the calls from outside. -/
structure ProfilingEnv.Documented (X : ProfilingEnv π κ τ ρ γ) : Prop where
  graphPoolHandle : ∀ w, Ends X.graphPoolHandle w (fun _ => w.Kept) fun _ => True
  getKvCacheGroups : ∀ w, Ends X.getKvCacheGroups w (fun _ => w.Kept) fun _ => True
  getKvCacheConfigFromGroups : ∀ groups w,
    Ends (X.getKvCacheConfigFromGroups groups) w (fun _ => w.Kept) fun _ => True
  /-- `initialize_kv_cache` sets the config and makes a graph manager. -/
  initializeKvCache : ∀ config w, Ends (X.initializeKvCache config) w
    (fun _ w' => w.Kept w' ∧ w'.kvCacheConfig = some config ∧ w'.cudagraphManager.isSome)
    fun _ => True
  dummyRun : ∀ run w, Ends (X.dummyRun run) w (fun _ => w.KeptByRun) w.KeptByRun
  /-- `capture_model` makes no graph managers of the speculator; `initialize_kv_cache` does. -/
  captureModel : ∀ w, let old := fun w' : World π κ τ ρ =>
      ∀ name, (name, true) ∈ w'.speculatorAttrs → (name, true) ∈ w.speculatorAttrs
    Ends X.captureModel w (fun _ => old) old

/-! ## before the capture -/

section before

variable {X : ProfilingEnv π κ τ ρ γ} (hX : X.Documented) (w : World π κ τ ρ)
include hX

theorem enterProfiling_keeps : Ends X.enterProfiling w (fun _ => w.Kept) fun _ => True := by
  simp only [ProfilingEnv.enterProfiling, ends_bind, ends_modify, ends_pure]
  refine (hX.graphPoolHandle _).mono ?_ fun _ h => h
  intro pool w' h
  exact ⟨h.1, h.2, h.3⟩

/-- Once the minimal KV cache is there, the runner has its config and a graph manager. -/
theorem initMinimal_ends : Ends X.initMinimalKvCacheForProfiling w
    (fun _ w' => w.Kept w' ∧ w'.kvCacheConfig ≠ none ∧ w'.cudagraphManager.isSome)
    fun _ => True := by
  simp only [ProfilingEnv.initMinimalKvCacheForProfiling, ends_bind, ends_get, ends_modify,
    ends_tryFinally, id_eq]
  refine (hX.getKvCacheGroups w).mono ?_ fun _ h => h
  intro groups w₁ h₁
  refine (hX.getKvCacheConfigFromGroups groups _).mono ?_ fun _ h => h
  intro config w₂ h₂
  refine (hX.initializeKvCache config _).mono ?_ fun _ h => h
  rintro - w₃ ⟨h₃, hconfig, hmanager⟩
  have h₂' : w₁.Kept w₂ := ⟨h₂.1, h₂.2, h₂.3⟩
  have h₃' : w₂.Kept w₃ := ⟨h₃.1, h₃.2, h₃.3⟩
  have h := (h₁.trans h₂').trans h₃'
  exact ⟨⟨h.1, h.2, h.3⟩, by simp [hconfig], hmanager⟩

/-- All forced runs keep what a single one keeps, also if one of them raises. -/
theorem qsaWarmup_keeps : Ends X.qsaWarmup w (fun _ => w.KeptByRun) w.KeptByRun := by
  simp only [ProfilingEnv.qsaWarmup, ends_bind, ends_get]
  refine Ends.forM (I := fun _ => w.KeptByRun) (.refl w) ?_
  intro done run later _ w' h
  exact (hX.dummyRun run w').mono (fun _ w'' h' => h.trans h') fun w'' h' => h.trans h'

end before

/-! ## the inner block -/

@[simp] theorem ends_onWorld {α : Type} {call : EStateM PyError (World π κ τ ρ) α}
    {s : Profiling π κ τ ρ} {Q : α → Profiling π κ τ ρ → Prop} {E : Profiling π κ τ ρ → Prop} :
    Ends (onWorld call) s Q E ↔
      Ends call s.toWorld (fun a w => Q a { s with toWorld := w })
        fun w => E { s with toWorld := w } := by
  unfold Ends onWorld
  cases call s.toWorld <;> rfl

/-- The pool that the cleanup leaves a wrapper with. -/
def Profiling.restoredPool (s : Profiling π κ τ ρ) (i : Nat) : π :=
  if i ∈ s.allWrappers then (s.originalPools i).getD (s.graphPool i) else s.graphPool i

/-- The block has ended before the names were noted; the pools can be restored. -/
structure Stopped (w : World π κ τ ρ) (s : Profiling π κ τ ρ) : Prop where
  specManagerNames : s.specManagerNames = []
  speculator : s.speculator = w.speculator
  restoredPool : ∀ i, s.restoredPool i = w.graphPool i

/-- All pools have been swapped, and noted. -/
structure Swapped (w : World π κ τ ρ) (s : Profiling π κ τ ρ) : Prop where
  speculator : s.speculator = w.speculator
  allWrappers : s.allWrappers = w.wrappers
  originalPools : ∀ i ∈ w.wrappers, s.originalPools i = some (w.graphPool i)

/-- The swap has dealt with `done`. -/
structure Swapping (w : World π κ τ ρ) (done : List Nat) (s : Profiling π κ τ ρ) : Prop where
  specManagerNames : s.specManagerNames = []
  speculator : s.speculator = w.speculator
  allWrappers : s.allWrappers = w.wrappers
  originalPools : ∀ i, s.originalPools i = if i ∈ done then some (w.graphPool i) else none
  graphPool : ∀ i ∉ done, s.graphPool i = w.graphPool i

theorem stopped_profiling (w : World π κ τ ρ) : Stopped w w.profiling :=
  ⟨rfl, rfl, fun _ => rfl⟩

/-- Wherever the swap stops, the table of original pools is enough. -/
theorem Swapping.stopped {w : World π κ τ ρ} {done : List Nat} {s : Profiling π κ τ ρ}
    (h : Swapping w done s) (hdone : ∀ i ∈ done, i ∈ w.wrappers) : Stopped w s := by
  refine ⟨h.specManagerNames, h.speculator, fun i => ?_⟩
  rw [Profiling.restoredPool, h.allWrappers, h.originalPools]
  by_cases hi : i ∈ done
  · rw [if_pos (hdone i hi), if_pos hi, Option.getD_some]
  · rw [if_neg hi, Option.getD_none, ite_self, h.graphPool i hi]

variable (X : ProfilingEnv π κ τ ρ γ)

/-- A round of the swap: a wrapper's pool is noted before it is replaced. -/
theorem swapPool_ends {w : World π κ τ ρ} {done later : List Nat} {i : Nat}
    (hsplit : w.wrappers = done ++ i :: later) {s : Profiling π κ τ ρ} (h : Swapping w done s)
    (throwawayPool : π) :
    Ends (X.swapPool throwawayPool i) s (fun _ s' => Swapping w (done ++ [i]) s') (Stopped w) := by
  have hnodup : (done ++ i :: later).Nodup := hsplit ▸ w.wrappers_nodup
  have hnew : i ∉ done := fun hi => List.disjoint_of_nodup_append hnodup hi List.mem_cons_self
  have hpool : s.graphPool i = w.graphPool i := h.graphPool i hnew
  have hdone : ∀ j ∈ done ++ [i], j ∈ w.wrappers := by
    intro j hj
    rw [hsplit]
    simp only [List.mem_append, List.mem_cons] at hj ⊢
    tauto
  -- the pool is noted, and not yet replaced
  have hnoted : ∀ j, Function.update s.originalPools i (some (s.graphPool i)) j =
      if j ∈ done ++ [i] then some (w.graphPool j) else none := by
    intro j
    by_cases hj : j = i
    · subst hj
      simp [hpool]
    · simp [h.originalPools, hj]
  unfold Ends ProfilingEnv.swapPool
  cases X.graphPoolError .get i s.toWorld with
  | some e => exact h.stopped fun j hj => hdone j (List.mem_append_left _ hj)
  | none =>
    dsimp only
    cases X.graphPoolError .set i s.toWorld with
    | some e =>
      refine ⟨h.specManagerNames, h.speculator, fun j => ?_⟩
      rw [Profiling.restoredPool]
      dsimp only
      rw [h.allWrappers, hnoted]
      by_cases hj : j ∈ done ++ [i]
      · rw [if_pos (hdone j hj), if_pos hj, Option.getD_some]
      · rw [if_neg hj, Option.getD_none, ite_self,
          h.graphPool j fun hmem => hj (List.mem_append_left _ hmem)]
    | none =>
      refine ⟨h.specManagerNames, h.speculator, h.allWrappers, hnoted, fun j hj => ?_⟩
      rw [List.mem_append, List.mem_singleton, not_or] at hj
      exact (Function.update_of_ne hj.2 _ _).trans (h.graphPool j hj.1)

theorem swapPools_ends (w : World π κ τ ρ) (throwawayPool : π) :
    Ends (X.swapPools throwawayPool) w.profiling (fun _ => Swapped w) (Stopped w) := by
  simp only [ProfilingEnv.swapPools, ends_bind, ends_modify, ends_get]
  have hinit : Swapping w [] { w.profiling with allWrappers := w.wrappers } :=
    ⟨rfl, rfl, rfl, fun _ => by simp [World.profiling], fun _ _ => rfl⟩
  refine (Ends.forM (I := Swapping w) hinit ?_).mono ?_ fun _ h => h
  · intro done i later hsplit s h
    exact swapPool_ends X hsplit h throwawayPool
  · intro _ s h
    exact ⟨h.speculator, h.allWrappers, fun i hi => (h.originalPools i).trans (if_pos hi)⟩

/-- A breakable runner may have been added to the wrappers. -/
structure World.Extended (w w' : World π κ τ ρ) : Prop where
  speculator : w'.speculator = w.speculator
  graphPool : ∀ i ∈ w.wrappers, i ∈ w'.wrappers ∧ w'.graphPool i = w.graphPool i

theorem World.Extended.refl (w : World π κ τ ρ) : w.Extended w := ⟨rfl, fun _ hi => ⟨hi, rfl⟩⟩

theorem World.extended_addBreakable (w : World π κ τ ρ) (pool : π) :
    w.Extended (w.addBreakable pool) := by
  refine ⟨rfl, fun i hi => ⟨?_, ?_⟩⟩
  · rw [World.wrappers, World.addBreakable, ← List.append_assoc]
    exact List.mem_append_left _ hi
  · have hne : i ≠ w.freshWrapper := ne_of_mem_of_not_mem hi w.freshWrapper_notMem
    exact Function.update_of_ne hne _ _

theorem initBreakableCgRunner_ends (manager : ProfiledManager π) (w : World π κ τ ρ) :
    Ends (X.initBreakableCgRunner manager) w (fun _ => w.Extended) w.Extended := by
  unfold Ends ProfilingEnv.initBreakableCgRunner
  by_cases hrunner : manager.breakableCgRunner.isSome = true
  · rw [if_pos hrunner]
    exact .refl w
  · rw [if_neg hrunner]
    cases X.breakableWrapper w with
    | ok pool => exact w.extended_addBreakable pool
    | error e => exact .refl w

/-- The state at the swap. -/
structure Begun (w : World π κ τ ρ) (s : Profiling π κ τ ρ) : Prop
    extends World.Extended w s.toWorld where
  profiling : s.toWorld.profiling = s

theorem beginCaptures_ends (w : World π κ τ ρ) (manager : ProfiledManager π)
    (throwawayPool : π) :
    Ends (X.beginCaptures manager throwawayPool) w.profiling (fun _ => Begun w) (Begun w) := by
  simp only [ProfilingEnv.beginCaptures, ends_onWorld, ends_bind, ends_modify]
  by_cases hbreakable : manager.useBreakableCg = true
  · rw [if_pos hbreakable]
    refine (initBreakableCgRunner_ends X manager _).mono (fun _ w' h => ?_) fun w' h => ?_
    · exact ⟨⟨h.speculator, h.graphPool⟩, rfl⟩
    · exact ⟨⟨h.speculator, h.graphPool⟩, rfl⟩
  · rw [if_neg hbreakable]
    exact ⟨⟨rfl, fun i hi => ⟨hi, rfl⟩⟩, rfl⟩

/-- What the inner block has left when the names are noted. -/
structure Captured (w : World π κ τ ρ) (s : Profiling π κ τ ρ) : Prop where
  restoredPool : ∀ i ∈ w.wrappers, s.restoredPool i = w.graphPool i
  specManagerNames : ∀ name, (name, true) ∈ s.speculatorAttrs → name ∈ s.specManagerNames

theorem captureSwapped_ends (hX : X.Documented) {w : World π κ τ ρ} {s : Profiling π κ τ ρ}
    (h : Swapped w s) (manager : ProfiledManager π) :
    Ends (X.captureSwapped manager) s (fun _ => Captured w) (Captured w) := by
  simp only [ProfilingEnv.captureSwapped, ends_bind, ends_modify, ends_onWorld, ends_pure]
  have hcaptured : ∀ w' : World π κ τ ρ,
      (∀ name, (name, true) ∈ w'.speculatorAttrs → (name, true) ∈ s.speculatorAttrs) →
      Captured w { s with
        toWorld := w'
        specManagerNames := (s.speculatorAttrs.filter (·.2)).map Prod.fst } := by
    intro w' hold
    refine ⟨fun i hi => ?_, fun name hname => ?_⟩
    · rw [Profiling.restoredPool, if_pos (h.allWrappers ▸ hi)]
      dsimp only
      rw [h.originalPools i hi, Option.getD_some]
    · exact List.mem_map.2 ⟨(name, true), List.mem_filter.2 ⟨hold name hname, rfl⟩, rfl⟩
  exact (hX.captureModel _).mono (fun _ w' => hcaptured w') hcaptured

/-- There is something to capture, and the pools of all wrappers are swapped. -/
def ProfilingEnv.Swaps (manager : ProfiledManager π) (throwawayPool : π) (w : World π κ τ ρ) :
    Prop :=
  manager.needsCapture = true ∧
    Returns (do X.beginCaptures manager throwawayPool; X.swapPools throwawayPool) w.profiling

/-- The swap finishes if no access to a pool raises. -/
theorem swaps_of_no_error {manager : ProfiledManager π} (hneeds : manager.needsCapture = true)
    (hwrapper : ∀ w, ∃ pool, X.breakableWrapper w = .ok pool)
    (hpool : ∀ access i w, X.graphPoolError access i w = none) (throwawayPool : π)
    (w : World π κ τ ρ) : X.Swaps manager throwawayPool w := by
  refine ⟨hneeds, ?_⟩
  have hrunner : ∀ w, Returns (X.initBreakableCgRunner manager) w := by
    intro w
    obtain ⟨pool, h⟩ := hwrapper w
    unfold Returns Ends ProfilingEnv.initBreakableCgRunner
    by_cases hrunner : manager.breakableCgRunner.isSome = true
    · rw [if_pos hrunner]
      trivial
    · rw [if_neg hrunner, h]
      trivial
  have hbegin : Returns (X.beginCaptures manager throwawayPool) w.profiling := by
    simp only [Returns, ProfilingEnv.beginCaptures, ends_onWorld, ends_bind, ends_modify]
    by_cases hbreakable : manager.useBreakableCg = true
    · rw [if_pos hbreakable]
      exact hrunner _
    · rw [if_neg hbreakable]
      trivial
  have hswap : ∀ s, Returns (X.swapPools throwawayPool) s := by
    intro s
    simp only [Returns, ProfilingEnv.swapPools, ends_bind, ends_modify, ends_get]
    refine Ends.forM (I := fun _ _ => True) trivial fun _ i _ _ s _ => ?_
    simp only [Ends, ProfilingEnv.swapPool, hpool]
  exact ends_bind.2 (hbegin.mono (fun _ s _ => hswap s) fun _ h => h)

/-- What the inner block has left, however it has ended. -/
structure CaptureEnded (manager : ProfiledManager π) (throwawayPool : π) (w : World π κ τ ρ)
    (s : Profiling π κ τ ρ) : Prop where
  restoredPool : ∀ i ∈ w.wrappers, s.restoredPool i = w.graphPool i
  /-- Wrappers at the swap also have their pools of then. -/
  atSwap : manager.needsCapture = true → ∀ s₁,
    X.beginCaptures manager throwawayPool w.profiling = .ok () s₁ →
      ∀ i ∈ s₁.wrappers, s.restoredPool i = s₁.graphPool i
  specManagerNames : (∀ name, (name, true) ∈ s.speculatorAttrs → name ∈ s.specManagerNames) ↔
    w.NoSpeculatorManager ∨ X.Swaps manager throwawayPool w

/-- The names are noted after the swap, so before there must be none to note. -/
theorem captureEnded_of_stopped {manager : ProfiledManager π} {throwawayPool : π}
    {w w₁ : World π κ τ ρ} {s : Profiling π κ τ ρ} (hext : w.Extended w₁) (h : Stopped w₁ s)
    (hswap : ¬ X.Swaps manager throwawayPool w)
    (hbegin : manager.needsCapture = true → ∀ s₁,
      X.beginCaptures manager throwawayPool w.profiling = .ok () s₁ → s₁.toWorld = w₁) :
    CaptureEnded X manager throwawayPool w s where
  restoredPool i hi := (h.restoredPool i).trans (hext.graphPool i hi).2
  atSwap hneeds s₁ hs₁ i _ := by
    rw [h.restoredPool i, hbegin hneeds s₁ hs₁]
  specManagerNames := by
    simp only [h.specManagerNames, List.not_mem_nil, imp_false, hswap, or_false,
      World.NoSpeculatorManager, World.speculatorAttrs, h.speculator, hext.speculator]

theorem captureBlock_ends (hX : X.Documented) (w : World π κ τ ρ) (manager : ProfiledManager π)
    (throwawayPool : π) :
    Ends (X.captureBlock manager throwawayPool) w.profiling
      (fun _ => CaptureEnded X manager throwawayPool w)
      (CaptureEnded X manager throwawayPool w) := by
  unfold ProfilingEnv.captureBlock
  by_cases hneeds : manager.needsCapture = true
  · rw [if_pos hneeds, ends_bind]
    have hbegun := beginCaptures_ends X w manager throwawayPool
    have hreturns : X.Swaps manager throwawayPool w → Ends
        (X.beginCaptures manager throwawayPool) w.profiling
        (fun _ s => Returns (X.swapPools throwawayPool) s) fun _ => False :=
      fun h => ends_bind.1 h.2
    cases hbegin : X.beginCaptures manager throwawayPool w.profiling with
    | error e s =>
      rw [ends_of_error hbegin] at hbegun ⊢
      refine captureEnded_of_stopped X hbegun.toExtended (hbegun.profiling ▸ stopped_profiling _)
        (fun h => (ends_of_error hbegin).1 (hreturns h)) fun _ s₁ hs₁ => ?_
      rw [hbegin] at hs₁
      cases hs₁
    | ok _ s₁ =>
      rw [ends_of_ok hbegin] at hbegun ⊢
      rw [ends_bind]
      have hswapped := swapPools_ends X s₁.toWorld throwawayPool
      rw [hbegun.profiling] at hswapped
      cases hswap : X.swapPools throwawayPool s₁ with
      | error e s =>
        rw [ends_of_error hswap] at hswapped ⊢
        refine captureEnded_of_stopped X hbegun.toExtended hswapped (fun h => ?_)
          fun _ s₁' hs₁ => ?_
        · exact (ends_of_error hswap).1 ((ends_of_ok hbegin).1 (hreturns h))
        · rw [hbegin] at hs₁
          cases hs₁
          rfl
      | ok _ s =>
        rw [ends_of_ok hswap] at hswapped ⊢
        have hswaps : X.Swaps manager throwawayPool w :=
          ⟨hneeds, ends_bind.2 ((ends_of_ok hbegin).2 ((ends_of_ok hswap).2 trivial))⟩
        have hcaptured : ∀ s', Captured s₁.toWorld s' →
            CaptureEnded X manager throwawayPool w s' := by
          intro s' h
          refine ⟨fun i hi => ?_, fun _ s₁' hs₁ => ?_, iff_of_true h.specManagerNames (.inr hswaps)⟩
          · obtain ⟨hmem, hpool⟩ := hbegun.graphPool i hi
            exact (h.restoredPool i hmem).trans hpool
          · rw [hbegin] at hs₁
            cases hs₁
            exact h.restoredPool
        exact (captureSwapped_ends X hX hswapped manager).mono (fun _ => hcaptured) hcaptured
  · rw [if_neg hneeds]
    exact captureEnded_of_stopped X (.refl w) (stopped_profiling w) (fun h => hneeds h.1)
      fun h => absurd h hneeds

/-! ## the cleanup -/

theorem foldl_keeps {ω ν χ : Type} {f : ω → χ} {step : ω → ν → ω}
    (h : ∀ w x, f (step w x) = f w) (xs : List ν) (w : ω) : f (xs.foldl step w) = f w := by
  induction xs generalizing w with
  | nil => rfl
  | cons x xs ih => rw [List.foldl_cons, ih, h]

/-- The loop gives back every pool that was noted. -/
theorem foldl_restorePool_graphPool (originalPools : Nat → Option π) (wrappers : List Nat)
    (w : World π κ τ ρ) (i : Nat) :
    (wrappers.foldl (ProfilingEnv.restorePool originalPools) w).graphPool i =
      if i ∈ wrappers then (originalPools i).getD (w.graphPool i) else w.graphPool i := by
  induction wrappers generalizing w with
  | nil => rfl
  | cons j wrappers ih =>
    have hstep : (ProfilingEnv.restorePool originalPools w j).graphPool i =
        if i = j then (originalPools i).getD (w.graphPool i) else w.graphPool i := by
      unfold ProfilingEnv.restorePool
      by_cases hi : i = j
      · subst hi
        cases originalPools i <;> simp
      · cases originalPools j <;> simp [hi]
    rw [List.foldl_cons, ih, hstep]
    by_cases hi : i = j
    · subst hi
      cases originalPools i <;> simp
    · simp [hi]

/-- An attribute set to None is no manager, and the others stay. -/
theorem mem_setSpeculatorNone {w : World π κ τ ρ} {name name' : Str} :
    (name', true) ∈ (w.setSpeculatorNone name).speculatorAttrs ↔
      (name', true) ∈ w.speculatorAttrs ∧ name' ≠ name := by
  unfold World.setSpeculatorNone World.speculatorAttrs
  cases w.speculator with
  | none => simp
  | some attrs =>
    simp only [Option.map_some, Option.getD_some]
    split
    · simp only [List.mem_map]
      constructor
      · rintro ⟨a, ha, heq⟩
        split at heq
        · cases heq
        · next hne =>
          subst heq
          exact ⟨ha, hne⟩
      · rintro ⟨ha, hne⟩
        exact ⟨_, ha, if_neg hne⟩
    · next hmissing =>
      simp only [List.mem_append, List.mem_singleton, Prod.mk.injEq, Bool.true_eq_false, and_false,
        or_false]
      refine ⟨fun ha => ⟨ha, fun heq => hmissing ?_⟩, fun h => h.1⟩
      exact List.any_eq_true.2 ⟨_, ha, by simpa using heq⟩

theorem mem_foldl_setSpeculatorNone {names : List Str} {w : World π κ τ ρ} {name : Str} :
    (name, true) ∈ (names.foldl World.setSpeculatorNone w).speculatorAttrs ↔
      (name, true) ∈ w.speculatorAttrs ∧ name ∉ names := by
  induction names generalizing w with
  | nil => simp
  | cons n names ih =>
    rw [List.foldl_cons, ih, mem_setSpeculatorNone, List.mem_cons, not_or, and_assoc]

/-- What the inner `finally` makes of the state that the inner block has left. -/
structure CleanedUp (w₀ : World π κ τ ρ) (s : Profiling π κ τ ρ) (w : World π κ τ ρ) : Prop where
  numCudagraphCaptured : w.numCudagraphCaptured = w₀.numCudagraphCaptured
  numGpuRunnerCaptureTriggers : w.numGpuRunnerCaptureTriggers = w₀.numGpuRunnerCaptureTriggers
  graphPool : ∀ i, w.graphPool i = s.restoredPool i
  speculator : ∀ name, (name, true) ∈ w.speculatorAttrs ↔
    (name, true) ∈ s.speculatorAttrs ∧ name ∉ s.specManagerNames
  released : w.Released

theorem cleanedUp_endCaptures (w₀ : World π κ τ ρ) (s : Profiling π κ τ ρ) :
    CleanedUp w₀ s (X.endCaptures w₀ s) := by
  unfold ProfilingEnv.endCaptures
  extract_lets _ counted pooled dropped
  have hpooled : ∀ {χ : Type} {f : World π κ τ ρ → χ},
      (∀ w i, f (ProfilingEnv.restorePool s.originalPools w i) = f w) → f pooled = f counted :=
    fun h => foldl_keeps h s.allWrappers counted
  have hdropped : ∀ {χ : Type} {f : World π κ τ ρ → χ},
      (∀ w name, f (w.setSpeculatorNone name) = f w) → f dropped = f pooled :=
    fun h => foldl_keeps h s.specManagerNames pooled
  have hround : ∀ (w : World π κ τ ρ) i,
      (ProfilingEnv.restorePool s.originalPools w i).numCudagraphCaptured = w.numCudagraphCaptured ∧
      (ProfilingEnv.restorePool s.originalPools w i).numGpuRunnerCaptureTriggers =
        w.numGpuRunnerCaptureTriggers ∧
      (ProfilingEnv.restorePool s.originalPools w i).speculator = w.speculator := by
    intro w i
    unfold ProfilingEnv.restorePool
    split <;> simp
  have hspec : pooled.speculator = s.speculator := hpooled fun w i => (hround w i).2.2
  refine ⟨?_, ?_, fun i => ?_, fun name => ?_, ⟨?_, ?_, rfl, rfl, rfl⟩⟩
  · exact (hdropped fun _ _ => rfl).trans (hpooled fun w i => (hround w i).1)
  · exact (hdropped fun _ _ => rfl).trans (hpooled fun w i => (hround w i).2.1)
  · have hpool := foldl_restorePool_graphPool s.originalPools s.allWrappers counted i
    exact (congrFun (hdropped (f := World.graphPool) fun _ _ => rfl) i).trans hpool
  · show (name, true) ∈ dropped.speculatorAttrs ↔ _
    rw [mem_foldl_setSpeculatorNone, World.speculatorAttrs, hspec]
    rfl
  · show (dropped.kvCaches.map fun _ => []).getD [] = []
    cases dropped.kvCaches <;> rfl
  · show (dropped.attnGroups.map fun _ => []).getD [] = []
    cases dropped.attnGroups <;> rfl

/-! ## every way to end -/

/-- The calls before the inner block, and the block's state when the names are noted or not. -/
theorem exitState_profile {w w₀ w₁ : World π κ τ ρ} {throwawayPool : π}
    (hmode : w.cudagraphMode ≠ .NONE) (henter : X.enterProfiling w = .ok throwawayPool w₀)
    (hinit : X.initMinimalKvCacheForProfiling w₀ = .ok () w₁) :
    exitState (X.profileCudagraphMemory w) =
      { exitState ((do X.qsaWarmup; X.profileManager throwawayPool : EStateM _ _ _) w₁) with
        globalGraphPool := w.globalGraphPool } := by
  have hget : (get : EStateM PyError (World π κ τ ρ) _) w = .ok w w := rfl
  rw [ProfilingEnv.profileCudagraphMemory, exitState_bind_ok hget, if_neg hmode]
  dsimp only
  rw [exitState_bind_ok henter, exitState_tryFinally]
  exact congrArg (fun w' : World π κ τ ρ => { w' with globalGraphPool := w.globalGraphPool })
    (exitState_bind_ok hinit)

/-- Once the manager is there, the inner `finally` runs. -/
theorem exitState_profileManager {w : World π κ τ ρ} {manager : ProfiledManager π}
    (hmanager : w.cudagraphManager = some manager) (throwawayPool : π) :
    exitState (X.profileManager throwawayPool w) =
      X.endCaptures w (exitState (X.captureBlock manager throwawayPool w.profiling)) := by
  have hget : (get : EStateM PyError (World π κ τ ρ) _) w = .ok w w := rfl
  rw [ProfilingEnv.profileManager, exitState_bind_ok hget, hmanager]
  exact exitState_tryFinally

section ended

variable {X} (hX : X.Documented) {w w₀ w₁ w₂ : World π κ τ ρ} {throwawayPool : π}
  (hmode : w.cudagraphMode ≠ .NONE) (henter : X.enterProfiling w = .ok throwawayPool w₀)
  (hinit : X.initMinimalKvCacheForProfiling w₀ = .ok () w₁)
include hX hmode henter hinit

/-- A warmup that raises passes the outer `finally` only. -/
theorem profile_of_warmup_error {e : PyError} (hwarm : X.qsaWarmup w₁ = .error e w₂) :
    let w' := exitState (X.profileCudagraphMemory w)
    w.Restored w' ∧ ¬ w'.Released := by
  intro w'
  have hw' : w' = _ := exitState_profile X hmode henter hinit
  have hentered := (ends_of_ok henter).1 (enterProfiling_keeps hX w)
  obtain ⟨hinited, hconfig, -⟩ := (ends_of_ok hinit).1 (initMinimal_ends hX w₀)
  have hwarmed := (ends_of_error hwarm).1 (qsaWarmup_keeps hX w₁)
  have hkept := (hentered.trans hinited).trans hwarmed.toKept
  rw [exitState_bind_error hwarm] at hw'
  constructor
  · rw [hw']
    exact ⟨rfl, hkept.1, hkept.2, fun i hi => (hkept.3 i hi).2⟩
  · intro h
    -- the KV cache is still there
    have hleft : w'.kvCacheConfig = w₁.kvCacheConfig := by
      rw [hw']
      exact hwarmed.kvCacheConfig
    exact hconfig (hleft.symm.trans h.kvCacheConfig)

/-- After a warmup that returns, the inner `finally` runs on what the inner block has left. -/
theorem profile_of_warmup_ok (hwarm : X.qsaWarmup w₁ = .ok () w₂) :
    let w' := exitState (X.profileCudagraphMemory w)
    ∃ manager s, w₂.cudagraphManager = some manager ∧ CaptureEnded X manager throwawayPool w₂ s ∧
      w.Restored w' ∧ w'.Released ∧ (∀ i, w'.graphPool i = s.restoredPool i) ∧
      (w'.NoSpeculatorManager ↔
        ∀ name, (name, true) ∈ s.speculatorAttrs → name ∈ s.specManagerNames) := by
  intro w'
  have hw' : w' = _ := exitState_profile X hmode henter hinit
  have hentered := (ends_of_ok henter).1 (enterProfiling_keeps hX w)
  obtain ⟨hinited, -, hmanager⟩ := (ends_of_ok hinit).1 (initMinimal_ends hX w₀)
  have hwarmed := (ends_of_ok hwarm).1 (qsaWarmup_keeps hX w₁)
  have hkept := (hentered.trans hinited).trans hwarmed.toKept
  obtain ⟨manager, hw₁⟩ := Option.isSome_iff_exists.1 hmanager
  have hw₂ : w₂.cudagraphManager = some manager := hwarmed.cudagraphManager.trans hw₁
  rw [exitState_bind_ok hwarm, exitState_profileManager X hw₂] at hw'
  have hended := ends_exitState.1 (captureBlock_ends X hX w₂ manager throwawayPool)
  generalize exitState (X.captureBlock manager throwawayPool w₂.profiling) = s at hw' hended
  have hclean := cleanedUp_endCaptures X w₂ s
  have hpool : ∀ i, w'.graphPool i = s.restoredPool i := by
    rw [hw']
    exact hclean.graphPool
  refine ⟨manager, s, hw₂, hended, ⟨hw' ▸ rfl, ?_, ?_, fun i hi => ?_⟩, ?_, hpool, ?_⟩
  · rw [hw']
    exact hclean.numCudagraphCaptured.trans hkept.numCudagraphCaptured
  · rw [hw']
    exact hclean.numGpuRunnerCaptureTriggers.trans hkept.numGpuRunnerCaptureTriggers
  · obtain ⟨hmem, hsame⟩ := hkept.graphPool i hi
    rw [hpool, hended.restoredPool i hmem, hsame]
  · rw [hw']
    exact ⟨hclean.released.1, hclean.released.2, hclean.released.3, hclean.released.4,
      hclean.released.5⟩
  · rw [hw']
    refine forall_congr' fun name => (not_congr (hclean.speculator name)).trans ?_
    rw [not_and, not_not]

end ended

/-- **The profiling leaves no trace exactly when the warmup returns, and the pools are swapped
unless the speculator has no graph manager.**  What is borrowed is given back always. -/
theorem profile_leaves_no_trace_iff (hX : X.Documented) {w w₀ w₁ : World π κ τ ρ}
    {throwawayPool : π} (hmode : w.cudagraphMode ≠ .NONE)
    (henter : X.enterProfiling w = .ok throwawayPool w₀)
    (hinit : X.initMinimalKvCacheForProfiling w₀ = .ok () w₁) :
    let w' := exitState (X.profileCudagraphMemory w)
    w.Restored w' ∧
    (∀ w₂ manager s, X.qsaWarmup w₁ = .ok () w₂ → w₂.cudagraphManager = some manager →
      manager.needsCapture = true →
      X.beginCaptures manager throwawayPool w₂.profiling = .ok () s →
      ∀ i ∈ s.wrappers, w'.graphPool i = s.graphPool i) ∧
    (w.NoTrace w' ↔ ∃ w₂, X.qsaWarmup w₁ = .ok () w₂ ∧
      (w₂.NoSpeculatorManager ∨
        ∃ manager, w₂.cudagraphManager = some manager ∧ X.Swaps manager throwawayPool w₂)) := by
  intro w'
  cases hwarm : X.qsaWarmup w₁ with
  | error e w₂ =>
    obtain ⟨hrestored, hleft⟩ := profile_of_warmup_error hX hmode henter hinit hwarm
    refine ⟨hrestored, fun _ _ _ h => ?_, fun h => absurd h.released hleft, fun ⟨_, h, _⟩ => ?_⟩
    · cases h
    · cases h
  | ok _ w₂ =>
    obtain ⟨manager, s, hw₂, hended, hrestored, hreleased, hpool, hdropped⟩ :=
      profile_of_warmup_ok hX hmode henter hinit hwarm
    refine ⟨hrestored, ?_, ?_, ?_⟩
    · intro w₂' manager' s₁ h hmanager' hneeds hbegin i hi
      cases h
      cases hw₂.symm.trans hmanager'
      exact (hpool i).trans (hended.atSwap hneeds s₁ hbegin i hi)
    · intro h
      refine ⟨w₂, rfl, (hended.specManagerNames.1 (hdropped.1 h.dropped)).imp_right fun h => ?_⟩
      exact ⟨manager, hw₂, h⟩
    · rintro ⟨w₂', h, hcond⟩
      cases h
      refine ⟨hrestored, hdropped.2 (hended.specManagerNames.2 (hcond.imp_right ?_)), hreleased⟩
      rintro ⟨manager', hmanager', hswaps⟩
      cases hw₂.symm.trans hmanager'
      exact hswaps

/-! ## a small process -/

/-- A manager with a graph for each of the token counts. -/
def graphsOf (tokens : List Int) : ProfiledManager Nat where
  loraDispatchMap := []
  maxLoraCase := 0
  useBreakableCg := true
  captureDescs mode := if mode = .FULL then tokens.map fun n => ⟨.FULL, n, some n, none, none, 0⟩
    else []
  candidates _ := none
  pool := some 9

/-- Calls that do what they are for; `warm` is what a forced run does, and `tokens` what there is to
capture.  The capture runs out of memory half way. -/
def smallEnv (warm : Except PyError Unit) (tokens : List Int) :
    ProfilingEnv Nat Int Unit Unit Unit where
  gcCollect := id
  emptyCache := id
  synchronize := id
  clearAllGraphs := id
  clearAllBreakableGraphs := id
  clearEncoderRunner := id
  clearLayerKvCaches := id
  maybeRemoveAllLoras := id
  graphPoolHandle := pure 9
  getKvCacheGroups := pure ()
  getKvCacheConfigFromGroups _ := fun w => .ok (w.numGpuBlocksOverride.getD 0) w
  numBlocks := id
  initializeKvCache config := modify fun w => { w with
    kvCaches := some [()]
    attnGroups := some [()]
    kvCacheConfig := some config
    cudagraphManager := some (graphsOf tokens)
    speculator := some [("cudagraph_manager".toList, true)] }
  dummyRun _ := match warm with
    | .ok _ => pure ()
    | .error e => throw e
  breakableWrapper _ := .ok 9
  graphPoolError _ _ _ := none
  captureModel := fun w => .error (.runtimeError "out of memory")
    { w with numCudagraphCaptured := 1, numGpuRunnerCaptureTriggers := 1 }

/-- Two compiled wrappers and a breakable one, on pools of their own. -/
def smallWorld : World Nat Int Unit Unit where
  globalGraphPool := some 1
  numCudagraphCaptured := 0
  numGpuRunnerCaptureTriggers := 0
  cudaGraphWrappers := [0, 1]
  breakableWrappers := [2]
  graphPool i := i + 3
  speculator := some [("cudagraph_manager".toList, false)]
  cudagraphMode := .FULL
  maxNumReqs := 4
  maxCudagraphCaptureSize := 8
  warmupRunner := sparseRunner [1, 2]
  numGpuBlocksOverride := none
  numGpuBlocks := none
  kvCaches := none
  attnGroups := none
  kvCacheConfig := none
  cudagraphManager := none
  mambaCtx := none
  mambaGroupIds := none
  mambaSpec := none
  supportsMmInputs := false
  rest := ()
  wrappers_nodup := by decide

theorem smallEnv_documented (warm : Except PyError Unit) (tokens : List Int) :
    (smallEnv warm tokens).Documented where
  graphPoolHandle w := .refl w
  getKvCacheGroups w := .refl w
  getKvCacheConfigFromGroups _ w := .refl w
  initializeKvCache _ w := ⟨⟨rfl, rfl, fun _ hi => ⟨hi, rfl⟩⟩, rfl, rfl⟩
  dummyRun run w := by
    cases warm <;> exact .refl w
  captureModel w := fun _ h => h

/-- The process once the minimal KV cache is there. -/
def runningWorld (tokens : List Int) : World Nat Int Unit Unit :=
  { smallWorld with
    globalGraphPool := some 9
    speculator := some [("cudagraph_manager".toList, true)]
    numGpuBlocks := some 4
    kvCaches := some [()]
    attnGroups := some [()]
    kvCacheConfig := some 4
    cudagraphManager := some (graphsOf tokens) }

theorem smallEnv_enter (warm : Except PyError Unit) (tokens : List Int) :
    (smallEnv warm tokens).enterProfiling smallWorld =
      .ok 9 { smallWorld with globalGraphPool := some 9 } := rfl

theorem smallEnv_init (warm : Except PyError Unit) (tokens : List Int) :
    (smallEnv warm tokens).initMinimalKvCacheForProfiling
      { smallWorld with globalGraphPool := some 9 } = .ok () (runningWorld tokens) := rfl

/-- A capture that runs out of memory leaves no trace. -/
theorem profile_leaves_no_trace_oom :
    smallWorld.NoTrace
      (exitState ((smallEnv (.ok ()) [2, 4]).profileCudagraphMemory smallWorld)) := by
  obtain ⟨-, -, hiff⟩ := profile_leaves_no_trace_iff (smallEnv (.ok ()) [2, 4])
    (smallEnv_documented _ _) (by decide) (smallEnv_enter _ _) (smallEnv_init _ _)
  exact hiff.2 ⟨runningWorld [2, 4], rfl, .inr ⟨graphsOf [2, 4], rfl,
    swaps_of_no_error _ rfl (fun _ => ⟨9, rfl⟩) (fun _ _ _ => rfl) _ _⟩⟩

/-- A warmup that runs out of memory leaves the profiling KV cache, the attention groups and the
graph manager; a profiling without anything to capture leaves the speculator's manager. -/
theorem warmup_oom_leaves_kv_cache :
    let oom := exitState
      ((smallEnv (.error (.runtimeError "out of memory")) [2, 4]).profileCudagraphMemory smallWorld)
    let idle := exitState ((smallEnv (.ok ()) []).profileCudagraphMemory smallWorld)
    oom.kvCaches = some [()] ∧ oom.attnGroups = some [()] ∧ oom.kvCacheConfig = some 4 ∧
      oom.cudagraphManager.isSome ∧ ¬ smallWorld.NoTrace oom ∧
      ("cudagraph_manager".toList, true) ∈ idle.speculatorAttrs ∧ ¬ smallWorld.NoTrace idle := by
  intro oom idle
  have hoom : oom = { runningWorld [2, 4] with globalGraphPool := some 1 } :=
    exitState_profile _ (by decide) (smallEnv_enter _ _) (smallEnv_init _ _)
  have hidle : idle = _ :=
    exitState_profile _ (by decide) (smallEnv_enter _ _) (smallEnv_init _ _)
  have hmanager : ("cudagraph_manager".toList, true) ∈ idle.speculatorAttrs := by
    rw [hidle]
    exact List.mem_cons_self
  rw [hoom]
  refine ⟨rfl, rfl, rfl, rfl, fun h => ?_, hmanager, fun h => h.dropped _ hmanager⟩
  exact absurd h.released.kvCacheConfig (by decide)

end FlashNext
