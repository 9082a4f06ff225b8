import FlashNext.Ranks
import FlashNext.Str
import Mathlib.Data.Finset.Dedup

/-!
# FlashNext.Warmup.Autotune

FlashInfer's autotuning before the graphs are captured.

Rank 0 broadcasts the cache file of earlier tunings.  If there is one, every rank writes it to
its own path, waits for the others, and loads it.  Then all ranks profile the tactics that
the cache does not answer; with more than one rank each time is averaged over the group, so a
rank waits at every trial for the rest.  In the end rank 0 saves the table.

`flashinferAutotune` is what one rank does next, and `waitsAt` the collective it waits at.
The tuner itself is FlashInfer's (`AutoTuner`), as is what a rank finds in a file that
another one has open for writing: any bytes at all.
-/

namespace FlashNext

/-- A call that makes the tuner profile kernels. -/
inductive TuningCall where
  | dummyRun (numTokens : Nat) (skipEplb isProfile randomizeInputs : Bool)
  | replayssmAutotuneWarmup
  | autotuneKdaQkvg
deriving DecidableEq, Repr

/-- What the autotuning reads of a `GPUModelRunner` and of its process. -/
structure AutotuneRunner where
  maxNumBatchedTokens : Nat
  linearBackend : Str
  /-- `VLLM_FLASHINFER_AUTOTUNE_SKIP_OPS` -/
  autotuneSkipOps : Option (List Str)
  /-- For each module, whether the kernels of its `quant_method` and of its `scheme` are a
  `FlashInferCuteDslNvFp4LinearKernel`. -/
  isCuteDslKernel : List (Bool × Bool)
  /-- `vllm.models.kimi_k3.nvidia.low_latency_gemm` is in `sys.modules`. -/
  kimiK3Loaded : Bool

namespace AutotuneRunner

variable (runner : AutotuneRunner)

/-- `_flashinfer_autotune_skip_ops` -/
def flashinferAutotuneSkipOps : Option (Finset Str) :=
  match runner.autotuneSkipOps with
  | some ops => if ops.toFinset = ∅ then none else some ops.toFinset
  | none =>
    if runner.isCuteDslKernel.any (fun kernels => kernels.1 || kernels.2) then
      some {"fp4_gemm".toList}
    else none

def flashinferBf16AutotuneMaxTokens : Nat := 32

/-- `_flashinfer_autotune_token_counts` -/
def flashinferAutotuneTokenCounts : List Nat :=
  if runner.linearBackend = "flashinfer_cutedsl".toList ∧
      flashinferBf16AutotuneMaxTokens < runner.maxNumBatchedTokens then
    [runner.maxNumBatchedTokens, flashinferBf16AutotuneMaxTokens]
  else [runner.maxNumBatchedTokens]

/-- `_run_flashinfer_autotune_dummy_runs` -/
def flashinferAutotuneDummyRuns : List TuningCall :=
  runner.flashinferAutotuneTokenCounts.map fun numTokens => .dummyRun numTokens true true true

/-- The calls that are tuned, in order. -/
def tuningCalls : List TuningCall :=
  runner.flashinferAutotuneDummyRuns ++ [.replayssmAutotuneWarmup] ++
    if runner.kimiK3Loaded then [.autotuneKdaQkvg] else []

end AutotuneRunner

/-- FlashInfer's tuner.  In tuning mode it profiles, one after the other, the trials that the
calls ask for and the table does not answer; which ones follow depends on the times so far. -/
structure AutoTuner (Bytes Time : Type) where
  Table : Type
  Trial : Type
  Tuning : Type
  loadConfigs : Bytes → Table → Table
  saveConfigs : Table → Bytes
  /-- `autotune(tune_mode=True, skip_ops=…)` -/
  autotune : Option (Finset Str) → List TuningCall → Table → Tuning
  /-- The tactic that is profiled next, unless all calls are done. -/
  trial : Tuning → Option Trial
  record : Tuning → Time → Tuning
  table : Tuning → Table
  /-- The trials that are left, at most. -/
  remaining : Tuning → Nat
  record_lt : ∀ {t x} (time : Time), trial t = some x → remaining (record t time) < remaining t
  /-- The mean of the times that the ranks of a group have measured. -/
  average : List Time → Time

/-- The autotuning of a group of `followers + 1` ranks. -/
structure Autotune (Path Bytes Time : Type) (followers : Nat) where
  tuner : AutoTuner Bytes Time
  runner : AutotuneRunner
  /-- `resolve_flashinfer_autotune_file`; ranks of one machine share their path. -/
  cachePath : Fin (followers + 1) → Path
  /-- Whether a call raises on the rank when its tuning has come this far. -/
  raises : Fin (followers + 1) → tuner.Tuning → Bool

/-- Where a rank is in `flashinfer_autotune`. -/
inductive Stage (Bytes Tuning : Type) where
  | resolved
  /-- `cache_path.exists()` on rank 0 -/
  | found
  /-- About to broadcast or receive. -/
  | read (cachedResults : Option Bytes)
  | write (cachedResults : Bytes)
  | writing (cachedResults : Bytes)
  | written
  | load
  | loaded
  | tuning (t : Tuning)
  /-- Behind the `finally`. -/
  | tuned
  | save
  | done
  | raised

/-- A rank, with the table of its tuner and whether the tuner has a process group. -/
structure TuningRank (Bytes Table Tuning : Type) where
  stage : Stage Bytes Tuning
  table : Table
  grouped : Bool

/-- The files, and what rank 0 has broadcast. -/
structure TuningFiles (Path Bytes : Type) where
  files : Path → Option Bytes
  broadcast : Option (Option Bytes)

namespace Autotune

variable {Path Bytes Time : Type} [DecidableEq Path] {followers : Nat}
variable (E : Autotune Path Bytes Time followers)

abbrev Rank : Type := TuningRank Bytes E.tuner.Table E.tuner.Tuning

/-- `if cached_results is not None:` -/
def received : Option Bytes → Stage Bytes E.tuner.Tuning
  | none => .loaded
  | some cachedResults => .write cachedResults

/-- The tuning of the calls, with the table at its start. -/
def tuningOf (table : E.tuner.Table) : E.tuner.Tuning :=
  E.tuner.autotune E.runner.flashinferAutotuneSkipOps E.runner.tuningCalls table

/-- Behind the last barrier. -/
def lastStage (r : Fin (followers + 1)) : Stage Bytes E.tuner.Tuning :=
  if r = 0 then .save else .done

/-- What rank `r` does next, unless it waits for other ranks or is done.  A file that is open
for writing holds `partialBytes`; a tactic that is profiled takes `time`. -/
def flashinferAutotune (r : Fin (followers + 1)) (partialBytes : Bytes) (time : Time) (st : E.Rank)
    (sh : TuningFiles Path Bytes) : Option (E.Rank × TuningFiles Path Bytes) :=
  let path := E.cachePath r
  match st.stage with
  | .resolved =>
    let stage := if r = 0 ∧ (sh.files path).isSome then .found else .read none
    some ({ st with stage := stage }, sh)
  | .found =>
    match sh.files path with
    | some bytes => some ({ st with stage := .read (some bytes) }, sh)
    | none => none
  | .read cachedResults =>
    if r = 0 then
      some ({ st with stage := E.received cachedResults },
        { sh with broadcast := some cachedResults })
    else
      match sh.broadcast with
      | some cachedResults => some ({ st with stage := E.received cachedResults }, sh)
      | none => none
  | .write cachedResults =>
    some ({ st with stage := .writing cachedResults },
      { sh with files := Function.update sh.files path partialBytes })
  | .writing cachedResults =>
    some ({ st with stage := .written },
      { sh with files := Function.update sh.files path cachedResults })
  | .load =>
    match sh.files path with
    | some bytes =>
      some ({ st with stage := .loaded, table := E.tuner.loadConfigs bytes st.table }, sh)
    | none => none
  | .loaded =>
    some ({ st with stage := .tuning (E.tuningOf st.table), grouped := decide (0 < followers) }, sh)
  | .tuning t =>
    if E.raises r t then
      some ({ stage := .raised, table := E.tuner.table t, grouped := false }, sh)
    else if (E.tuner.trial t).isNone then
      some ({ stage := .tuned, table := E.tuner.table t, grouped := false }, sh)
    else if st.grouped then none
    else some ({ st with stage := .tuning (E.tuner.record t time) }, sh)
  | .tuned => if 0 < followers then none else some ({ st with stage := E.lastStage r }, sh)
  | .save =>
    some ({ st with stage := .done },
      { sh with files := Function.update sh.files path (E.tuner.saveConfigs st.table) })
  | .written | .done | .raised => none

/-- A collective of the group; `all_reduce` averages the times of a trial. -/
inductive Collective where
  | barrier
  | allReduce
deriving DecidableEq, Repr

/-- The collective that a rank waits at. -/
def waitsAt (r : Fin (followers + 1)) (st : E.Rank) : Option Collective :=
  match st.stage with
  | .written => some .barrier
  | .tuning t =>
    if !E.raises r t && (E.tuner.trial t).isSome && st.grouped then some .allReduce else none
  | .tuned => if 0 < followers then some .barrier else none
  | _ => none

/-- What a rank has become behind the collective it waited at. -/
def resume (r : Fin (followers + 1)) (time : Time) (st : E.Rank) : E.Rank :=
  match st.stage with
  | .written => { st with stage := .load }
  | .tuning t => { st with stage := .tuning (E.tuner.record t time) }
  | .tuned => { st with stage := E.lastStage r }
  | _ => st

/-- The group.  Ranks meet when all of them wait at a barrier, or all at an all-reduce. -/
def ranks : Ranks (Fin (followers + 1)) E.Rank (TuningFiles Path Bytes) where
  act r st sh st' sh' :=
    ∃ partialBytes time, E.flashinferAutotune r partialBytes time st sh = some (st', sh')
  meet l l' := ∃ c, (∀ r, E.waitsAt r (l r) = some c) ∧
    ∃ times : Fin (followers + 1) → Time,
      l' = fun r => E.resume r (E.tuner.average (List.ofFn times)) (l r)

/-- A step of the group, with what the environment chooses. -/
inductive Move (followers : Nat) (Bytes Time : Type) where
  | act (r : Fin (followers + 1)) (partialBytes : Bytes) (time : Time)
  | meet (c : Collective) (times : Fin (followers + 1) → Time)

abbrev World : Type := Ranks.State (Fin (followers + 1)) E.Rank (TuningFiles Path Bytes)

/-- The group plays some moves, if they are possible. -/
def play : List (Move followers Bytes Time) → E.World → Option E.World
  | [], s => some s
  | .act r partialBytes time :: moves, s =>
    match E.flashinferAutotune r partialBytes time (s.rank r) s.shared with
    | some (st, sh) => play moves ⟨Function.update s.rank r st, sh⟩
    | none => none
  | .meet c times :: moves, s =>
    if ∀ r, E.waitsAt r (s.rank r) = some c then
      play moves
        ⟨fun r => E.resume r (E.tuner.average (List.ofFn times)) (s.rank r), s.shared⟩
    else none

/-- Every rank has resolved its path; the tables of the tuners are the same. -/
def start (table : E.tuner.Table) (files : Path → Option Bytes) : E.World where
  rank _ := { stage := .resolved, table := table, grouped := false }
  shared := { files := files, broadcast := none }

/-- All ranks are done with the same table, and the file of rank 0 holds it. -/
def Tuned (s : E.World) (table : E.tuner.Table) : Prop :=
  (∀ r, s.rank r = ⟨.done, table, false⟩) ∧
    s.shared.files (E.cachePath 0) = some (E.tuner.saveConfigs table)

variable {E}

theorem run_play {k : Nat} {s s' s'' : E.World} {moves : List (Move followers Bytes Time)}
    (hrun : E.ranks.Run s k s') (hplay : E.play moves s' = some s'') :
    E.ranks.Run s (k + moves.length) s'' := by
  induction moves generalizing k s' with
  | nil =>
    cases hplay
    exact hrun
  | cons move moves ih =>
    rw [List.length_cons, Nat.add_comm moves.length, ← Nat.add_assoc]
    cases move with
    | act r partialBytes time =>
      rw [play] at hplay
      split at hplay
      · next hact => exact ih (hrun.tail (.act r ⟨partialBytes, time, hact⟩)) hplay
      · cases hplay
    | meet c times =>
      rw [play, Option.ite_none_right_eq_some] at hplay
      exact ih (hrun.tail (.meet ⟨c, hplay.1, times, rfl⟩)) hplay.2

end Autotune

end FlashNext
