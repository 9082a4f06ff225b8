import FlashNext.Warmup.Autotune

/-!
# FlashNext.Warmup.Lockstep

The ranks tune in lockstep, in any interleaving.

A run of the group goes through three phases.  In the first, `Gathers`, the ranks write the
leader's cache file to their own paths; paths may be shared, so that a file can be torn by a
rank that is late.  The barrier waits for all of them before anyone loads the file.  In the
second, `Tunes t`, no two ranks have come to different points `t` of the tuning, although a
rank reaches an all-reduce whenever it likes.  In the third all are done but the leader.

Every step keeps this (`Phase.step`), and each rank it moves has less to do afterwards, so that
every run ends: all ranks hold one table, which is the leader's cache file, or a call has
raised on some rank and the cache file is what it was (`autotune_lockstep`).
-/

namespace FlashNext

namespace Autotune

variable {Path Bytes Time : Type} [DecidableEq Path] {followers : Nat}

section phases

variable (E : Autotune Path Bytes Time followers) (table : E.tuner.Table)
variable (cached : Option Bytes)

/-- The table that the tuning starts with. -/
def loadedTable : E.tuner.Table :=
  match cached with
  | none => table
  | some bytes => E.tuner.loadConfigs bytes table

/-- The tuning at its start. -/
def firstTuning : E.tuner.Tuning := E.tuningOf (E.loadedTable table cached)

/-- Some times lead to this point of the tuning. -/
def Reached (t : E.tuner.Tuning) : Prop :=
  ∃ times : List Time, t = times.foldl E.tuner.record (E.firstTuning table cached)

/-- A rank up to the first barrier. -/
inductive Gathering (r : Fin (followers + 1)) (sh : TuningFiles Path Bytes) : E.Rank → Prop
  | resolved (h : r = 0 → sh.broadcast = none) : Gathering r sh ⟨.resolved, table, false⟩
  | found (hr : r = 0) (hb : cached ≠ none) (h : sh.broadcast = none) :
      Gathering r sh ⟨.found, table, false⟩
  | read {c : Option Bytes} (h : r = 0 → sh.broadcast = none ∧ c = cached) :
      Gathering r sh ⟨.read c, table, false⟩
  | write {b : Bytes} (hb : cached = some b) (h : sh.broadcast = some cached) :
      Gathering r sh ⟨.write b, table, false⟩
  | writing {b : Bytes} (hb : cached = some b) (h : sh.broadcast = some cached) :
      Gathering r sh ⟨.writing b, table, false⟩
  | written (hb : cached ≠ none) (h : sh.broadcast = some cached) :
      Gathering r sh ⟨.written, table, false⟩

/-- A rank behind the first barrier, or without a cache file; `t` is how far the tuning has
come.  Whoever has not entered it keeps the others at its start. -/
inductive Within (t : E.tuner.Tuning) (r : Fin (followers + 1)) (sh : TuningFiles Path Bytes) :
    E.Rank → Prop
  | before {st : E.Rank} (ht : t = E.firstTuning table cached) (hnone : cached = none)
      (h : E.Gathering table cached r sh st) : Within t r sh st
  | load (ht : t = E.firstTuning table cached) (hsome : cached ≠ none)
      (h : sh.broadcast = some cached) : Within t r sh ⟨.load, table, false⟩
  | loaded (ht : t = E.firstTuning table cached) (h : sh.broadcast = some cached) :
      Within t r sh ⟨.loaded, E.loadedTable table cached, false⟩
  | tuning (own : E.tuner.Table) (h : sh.broadcast = some cached) :
      Within t r sh ⟨.tuning t, own, decide (0 < followers)⟩
  | tuned (hend : E.tuner.trial t = none) (h : sh.broadcast = some cached) :
      Within t r sh ⟨.tuned, E.tuner.table t, false⟩
  | raised (own : E.tuner.Table) (h : sh.broadcast = some cached) :
      Within t r sh ⟨.raised, own, false⟩

/-- A rank behind the last barrier. -/
inductive Finishing (t : E.tuner.Tuning) (r : Fin (followers + 1)) (sh : TuningFiles Path Bytes) :
    E.Rank → Prop
  | save (hr : r = 0) : Finishing t r sh ⟨.save, E.tuner.table t, false⟩
  | done (h : r = 0 →
        sh.files (E.cachePath 0) = some (E.tuner.saveConfigs (E.tuner.table t))) :
      Finishing t r sh ⟨.done, E.tuner.table t, false⟩

/-- No rank is behind the first barrier.  A path is torn only while some rank writes to it. -/
structure Gathers (s : E.World) : Prop where
  hasCache : cached ≠ none
  rank : ∀ r, E.Gathering table cached r s.shared (s.rank r)
  broadcast : s.shared.broadcast = none ∨ s.shared.broadcast = some cached
  leader : s.shared.broadcast = none → s.shared.files (E.cachePath 0) = cached
  written : ∀ r, (s.rank r).stage = .written → s.shared.files (E.cachePath r) = cached ∨
    ∃ r' b, E.cachePath r' = E.cachePath r ∧ (s.rank r').stage = .writing b

/-- No rank writes, and the tuning has come to `t`. -/
structure Tunes (t : E.tuner.Tuning) (s : E.World) : Prop where
  reached : E.Reached table cached t
  rank : ∀ r, E.Within table cached t r s.shared (s.rank r)
  broadcast : s.shared.broadcast = none ∨ s.shared.broadcast = some cached
  leader : s.shared.files (E.cachePath 0) = cached
  files : cached ≠ none → ∀ r, s.shared.files (E.cachePath r) = cached

/-- The tuning has ended at `t` on all ranks. -/
structure Finishes (t : E.tuner.Tuning) (s : E.World) : Prop where
  reached : E.Reached table cached t
  ended : E.tuner.trial t = none
  rank : ∀ r, E.Finishing t r s.shared (s.rank r)

/-- The phases of a run. -/
inductive Phase (s : E.World) : Prop
  | gathers (h : E.Gathers table cached s)
  | tunes (t : E.tuner.Tuning) (h : E.Tunes table cached t s)
  | finishes (t : E.tuner.Tuning) (h : E.Finishes table cached t s)

end phases

variable {E : Autotune Path Bytes Time followers} {table : E.tuner.Table} {cached : Option Bytes}
variable {t : E.tuner.Tuning} {r : Fin (followers + 1)}
variable {sh sh' : TuningFiles Path Bytes} {st st' : E.Rank} {s s' : E.World}

omit [DecidableEq Path] in
/-- A run starts in its first phase, or, without a cache file, in its second. -/
theorem phase_start (files : Path → Option Bytes) :
    E.Phase table (files (E.cachePath 0)) (E.start table files) := by
  have hrank : ∀ r, E.Gathering table (files (E.cachePath 0)) r
      (E.start table files).shared ((E.start table files).rank r) := fun _ => .resolved fun _ => rfl
  cases hcached : files (E.cachePath 0) with
  | none =>
    rw [hcached] at hrank
    refine .tunes _ ⟨⟨[], rfl⟩, fun r => .before rfl rfl (hrank r), .inl rfl, hcached, ?_⟩
    simp
  | some b =>
    rw [hcached] at hrank
    refine .gathers ⟨nofun, hrank, .inl rfl, fun _ => hcached, ?_⟩
    simp [start]

/-! ## the first phase -/

omit [DecidableEq Path] in
/-- Another rank's step does not concern a gathering rank, unless it is the broadcast. -/
theorem Gathering.frame (h : E.Gathering table cached r sh st)
    (hsent : sh'.broadcast = sh.broadcast ∨ r ≠ 0 ∧ sh'.broadcast = some cached) :
    E.Gathering table cached r sh' st := by
  obtain hsent | ⟨hr, hsent⟩ := hsent
  · cases h with
    | resolved h => exact .resolved fun hr => hsent.trans (h hr)
    | found hr hb h => exact .found hr hb (hsent.trans h)
    | read h => exact .read fun hr => ⟨hsent.trans (h hr).1, (h hr).2⟩
    | write hb h => exact .write hb (hsent.trans h)
    | writing hb h => exact .writing hb (hsent.trans h)
    | written hb h => exact .written hb (hsent.trans h)
  · cases h with
    | resolved => exact .resolved fun h => absurd h hr
    | found h => exact absurd h hr
    | read => exact .read fun h => absurd h hr
    | write hb => exact .write hb hsent
    | writing hb => exact .writing hb hsent
    | written hb => exact .written hb hsent

omit [DecidableEq Path] in
/-- Behind the broadcast a rank writes the file, or has nothing to load. -/
theorem gathering_received (hsent : sh.broadcast = some cached) :
    E.Gathering table cached r sh ⟨E.received cached, table, false⟩ ∨
      cached = none ∧ sh.broadcast = some cached ∧
        (⟨E.received cached, table, false⟩ : E.Rank) = ⟨.loaded, table, false⟩ := by
  cases cached with
  | none => exact .inr ⟨rfl, hsent, rfl⟩
  | some b => exact .inl (.write rfl hsent)

omit [DecidableEq Path] in
theorem received_ne_written : E.received cached ≠ .written := by
  cases cached <;> nofun

/-- What a gathering rank can do: go on to the broadcast and behind it, open its file, and
write it. -/
theorem Gathering.act_cases (h : E.Gathering table cached r sh st)
    (hsent : sh.broadcast = none ∨ sh.broadcast = some cached)
    (hleader : sh.broadcast = none → sh.files (E.cachePath 0) = cached)
    (hact : E.ranks.act r st sh st' sh') :
    ((sh'.broadcast = sh.broadcast ∨ r = 0 ∧ sh'.broadcast = some cached) ∧
      sh'.files = sh.files ∧ st'.stage ≠ .written ∧ (∀ b, st.stage ≠ .writing b) ∧
      (E.Gathering table cached r sh' st' ∨
        cached = none ∧ sh'.broadcast = some cached ∧ st' = ⟨.loaded, table, false⟩)) ∨
    (sh.broadcast = some cached ∧ sh'.broadcast = some cached ∧ ∃ b torn, cached = some b ∧
      st.stage = .write b ∧ st' = ⟨.writing b, table, false⟩ ∧
      sh'.files = Function.update sh.files (E.cachePath r) (some torn)) ∨
    (sh.broadcast = some cached ∧ sh'.broadcast = some cached ∧ cached ≠ none ∧
      st' = ⟨.written, table, false⟩ ∧
      sh'.files = Function.update sh.files (E.cachePath r) cached) := by
  obtain ⟨torn, time, hact⟩ := hact
  cases h with
  | resolved h =>
    cases hact
    refine .inl ⟨.inl rfl, rfl, ?_, nofun, .inl ?_⟩
    · dsimp only
      split <;> nofun
    · dsimp only
      split
      · next hfound =>
        obtain ⟨rfl, hfound⟩ := hfound
        rw [hleader (h rfl)] at hfound
        exact .found rfl (Option.isSome_iff_ne_none.1 hfound) (h rfl)
      · next hfound =>
        refine .read fun hr => ⟨h hr, ?_⟩
        subst hr
        have hnone : cached = none := by simpa [hleader (h rfl)] using hfound
        exact hnone.symm
  | found hr hb h =>
    subst hr
    simp only [flashinferAutotune, hleader h] at hact
    cases hcached : cached with
    | none => simp [hcached] at hact
    | some b =>
      rw [hcached] at hact
      cases hact
      exact .inl ⟨.inl rfl, rfl, nofun, nofun, .inl (.read fun _ => ⟨h, rfl⟩)⟩
  | read h =>
    by_cases hr : r = 0
    · obtain ⟨-, rfl⟩ := h hr
      simp only [flashinferAutotune, hr, if_true] at hact
      cases hact
      exact .inl ⟨.inr ⟨hr, rfl⟩, rfl, received_ne_written, nofun, gathering_received rfl⟩
    · simp only [flashinferAutotune, hr, if_false] at hact
      cases hbroadcast : sh.broadcast with
      | none => simp [hbroadcast] at hact
      | some c =>
        rw [hbroadcast] at hact hsent
        cases hsent.resolve_left nofun
        cases hact
        exact .inl ⟨.inl hbroadcast, rfl, received_ne_written, nofun, gathering_received hbroadcast⟩
  | write hb h =>
    cases hact
    exact .inr (.inl ⟨h, h, _, torn, hb, rfl, rfl, rfl⟩)
  | writing hb h =>
    cases hact
    exact .inr (.inr ⟨h, h, by simp [hb], rfl, by rw [hb]⟩)
  | written h => cases hact

/-- A rank that acts in the first phase leaves the group in it. -/
theorem Gathers.act {g : TuningFiles Path Bytes} {l : E.Rank} (h : E.Gathers table cached s)
    (hact : E.ranks.act r (s.rank r) s.shared l g) :
    E.Gathers table cached ⟨Function.update s.rank r l, g⟩ := by
  have hrank : (g.broadcast = s.shared.broadcast ∨ r = 0 ∧ g.broadcast = some cached) →
      E.Gathering table cached r g l →
      ∀ i, E.Gathering table cached i g (Function.update s.rank r l i) := by
    intro hsent hl
    refine (Function.forall_update_iff s.rank _).2 ⟨hl, fun i hi => ?_⟩
    exact (h.rank i).frame (hsent.imp_right fun hsent => ⟨fun hi0 => hi (hi0.trans hsent.1.symm),
      hsent.2⟩)
  obtain ⟨hsent, hfiles, hne, hnot, hl⟩ | ⟨hsent, hsent', b, torn, hb, hst, rfl, hfiles⟩ |
    ⟨hsent, hsent', hb, rfl, hfiles⟩ := (h.rank r).act_cases h.broadcast h.leader hact
  · have hl := hl.resolve_right fun hl => h.hasCache hl.1
    refine ⟨h.hasCache, hrank hsent hl, ?_, fun hnone => ?_, fun i hi => ?_⟩
    · obtain hsent | ⟨-, hsent⟩ := hsent
      · exact hsent ▸ h.broadcast
      · exact .inr hsent
    · obtain hsent | ⟨-, hsent⟩ := hsent
      · exact hfiles ▸ h.leader (hsent.symm.trans hnone)
      · exact nomatch hsent.symm.trans hnone
    · by_cases hir : i = r
      · subst hir
        exact absurd (by simpa using hi) hne
      · obtain hi | ⟨j, b, hj, hjb⟩ := h.written i (by simpa [hir] using hi)
        · exact .inl (hfiles ▸ hi)
        · have hjr : j ≠ r := fun hjr => hnot b (hjr ▸ hjb)
          exact .inr ⟨j, b, hj, by simpa [hjr] using hjb⟩
  · refine ⟨h.hasCache, hrank (.inl (hsent'.trans hsent.symm)) (.writing hb hsent'), .inr hsent',
      fun hnone => (nomatch hsent'.symm.trans hnone), fun i hi => ?_⟩
    by_cases hpath : E.cachePath r = E.cachePath i
    · exact .inr ⟨r, b, hpath, by simp⟩
    · have hir : i ≠ r := fun hir => hpath (hir ▸ rfl)
      obtain hi | ⟨j, b', hj, hjb⟩ := h.written i (by simpa [hir] using hi)
      · exact .inl (by simpa [hfiles, Ne.symm hpath] using hi)
      · have hjr : j ≠ r := fun hjr => hpath (hjr ▸ hj)
        exact .inr ⟨j, b', hj, by simpa [hjr] using hjb⟩
  · refine ⟨h.hasCache, hrank (.inl (hsent'.trans hsent.symm)) (.written hb hsent'), .inr hsent',
      fun hnone => (nomatch hsent'.symm.trans hnone), fun i hi => ?_⟩
    by_cases hpath : E.cachePath i = E.cachePath r
    · exact .inl (by simp [hfiles, hpath])
    · have hir : i ≠ r := fun hir => hpath (hir ▸ rfl)
      obtain hi | ⟨j, b', hj, hjb⟩ := h.written i (by simpa [hir] using hi)
      · exact .inl (by simpa [hfiles, hpath] using hi)
      · have hjr : j ≠ r := fun hjr => hpath (hjr ▸ hj).symm
        exact .inr ⟨j, b', hj, by simpa [hjr] using hjb⟩

/-! ## collectives -/

omit [DecidableEq Path] in
theorem Gathering.waitsAt (h : E.Gathering table cached r sh st) {c : Collective}
    (hwait : E.waitsAt r st = some c) : st = ⟨.written, table, false⟩ := by
  cases h <;> first | rfl | cases hwait

/-- Behind the first barrier every rank finds the leader's cache at its path. -/
theorem Gathers.meet {l : Fin (followers + 1) → E.Rank} (h : E.Gathers table cached s)
    (hmeet : E.ranks.meet s.rank l) :
    E.Tunes table cached (E.firstTuning table cached) ⟨l, s.shared⟩ := by
  obtain ⟨c, hwait, times, rfl⟩ := hmeet
  have hwritten := fun i => (h.rank i).waitsAt (hwait i)
  have hsent : s.shared.broadcast = some cached := by
    have h0 := h.rank 0
    rw [hwritten 0] at h0
    cases h0 with
    | written _ h => exact h
  have hfiles : ∀ i, s.shared.files (E.cachePath i) = cached := by
    intro i
    obtain hi | ⟨j, b, -, hj⟩ := h.written i (by rw [hwritten])
    · exact hi
    · rw [hwritten] at hj
      cases hj
  refine ⟨⟨[], rfl⟩, fun i => ?_, .inr hsent, hfiles 0, fun _ => hfiles⟩
  dsimp only
  rw [hwritten i]
  exact .load rfl h.hasCache hsent

/-! ## the second phase -/

/-- What a rank can do in the second phase: get on beside the others, or, when it is alone,
profile a trial or end the tuning. -/
theorem Within.act_cases (h : E.Within table cached t r sh st)
    (hsent : sh.broadcast = none ∨ sh.broadcast = some cached)
    (hleader : sh.files (E.cachePath 0) = cached)
    (hfiles : cached ≠ none → ∀ r, sh.files (E.cachePath r) = cached)
    (hact : E.ranks.act r st sh st' sh') :
    ((sh'.broadcast = sh.broadcast ∨ r = 0 ∧ sh'.broadcast = some cached) ∧
      sh'.files = sh.files ∧ E.Within table cached t r sh' st') ∨
    (followers = 0 ∧ sh' = sh ∧ ∃ time, E.Within table cached (E.tuner.record t time) r sh st') ∨
    (followers = 0 ∧ E.tuner.trial t = none ∧ st' = ⟨E.lastStage r, E.tuner.table t, false⟩) := by
  cases h with
  | before ht hnone h =>
    obtain ⟨hsent', hfiles', -, -, hst⟩ | ⟨-, -, b, -, hb, -⟩ | ⟨-, -, hb, -⟩ :=
      h.act_cases hsent (fun _ => hleader) hact
    · refine .inl ⟨hsent', hfiles', ?_⟩
      obtain hst | ⟨-, hsent', rfl⟩ := hst
      · exact .before ht hnone hst
      · subst hnone
        exact .loaded ht hsent'
    · exact nomatch hnone.symm.trans hb
    · exact absurd hnone hb
  | load ht hsome h =>
    obtain ⟨torn, time, hact⟩ := hact
    obtain ⟨b, rfl⟩ := Option.ne_none_iff_exists'.1 hsome
    simp only [flashinferAutotune, hfiles hsome r] at hact
    cases hact
    exact .inl ⟨.inl rfl, rfl, .loaded ht h⟩
  | loaded ht h =>
    obtain ⟨torn, time, hact⟩ := hact
    cases hact
    subst ht
    exact .inl ⟨.inl rfl, rfl, .tuning _ h⟩
  | tuning own h =>
    obtain ⟨torn, time, hact⟩ := hact
    simp only [flashinferAutotune] at hact
    split at hact
    · cases hact
      exact .inl ⟨.inl rfl, rfl, .raised _ h⟩
    · split at hact
      · next hend =>
        cases hact
        exact .inl ⟨.inl rfl, rfl, .tuned (Option.isNone_iff_eq_none.1 hend) h⟩
      · split at hact
        · cases hact
        · next halone =>
          cases hact
          exact .inr (.inl ⟨by simpa using halone, rfl, time, .tuning own h⟩)
  | tuned hend h =>
    obtain ⟨torn, time, hact⟩ := hact
    simp only [flashinferAutotune] at hact
    split at hact
    · cases hact
    · next halone =>
      cases hact
      exact .inr (.inr ⟨by omega, hend, rfl⟩)
  | raised =>
    obtain ⟨torn, time, hact⟩ := hact
    cases hact

omit [DecidableEq Path] in
theorem Within.frame (h : E.Within table cached t r sh st)
    (hsent : sh'.broadcast = sh.broadcast ∨ r ≠ 0 ∧ sh'.broadcast = some cached) :
    E.Within table cached t r sh' st := by
  have hsent' : sh.broadcast = some cached → sh'.broadcast = some cached := fun h =>
    hsent.elim (fun hsame => hsame.trans h) And.right
  cases h with
  | before ht hnone h => exact .before ht hnone (h.frame hsent)
  | load ht hsome h => exact .load ht hsome (hsent' h)
  | loaded ht h => exact .loaded ht (hsent' h)
  | tuning own h => exact .tuning own (hsent' h)
  | tuned hend h => exact .tuned hend (hsent' h)
  | raised own h => exact .raised own (hsent' h)

omit [DecidableEq Path] in
theorem Reached.record (h : E.Reached table cached t) (time : Time) :
    E.Reached table cached (E.tuner.record t time) := by
  obtain ⟨times, rfl⟩ := h
  exact ⟨times ++ [time], by simp⟩

omit [DecidableEq Path] in
/-- Behind the last barrier rank 0 saves the table, and the others are done. -/
theorem finishing_lastStage :
    E.Finishing t r sh ⟨E.lastStage r, E.tuner.table t, false⟩ := by
  unfold lastStage
  split
  · next hr => exact .save hr
  · next hr => exact .done fun h => absurd h hr

/-- A rank that acts in the second phase leaves the group in it or, alone, ends it. -/
theorem Tunes.act {g : TuningFiles Path Bytes} {l : E.Rank} (h : E.Tunes table cached t s)
    (hact : E.ranks.act r (s.rank r) s.shared l g) :
    E.Phase table cached ⟨Function.update s.rank r l, g⟩ := by
  obtain ⟨hsent, hfiles, hl⟩ | ⟨halone, rfl, time, hl⟩ | ⟨halone, hend, rfl⟩ :=
    (h.rank r).act_cases h.broadcast h.leader h.files hact
  · refine .tunes t ⟨h.reached, ?_, ?_, hfiles ▸ h.leader, hfiles ▸ h.files⟩
    · refine (Function.forall_update_iff s.rank _).2 ⟨hl, fun i hi => ?_⟩
      exact (h.rank i).frame (hsent.imp_right fun hsent =>
        ⟨fun hi0 => hi (hi0.trans hsent.1.symm), hsent.2⟩)
    · obtain hsent | ⟨-, hsent⟩ := hsent
      · exact hsent ▸ h.broadcast
      · exact .inr hsent
  · subst halone
    refine .tunes _ ⟨h.reached.record time, fun i => ?_, h.broadcast, h.leader, h.files⟩
    obtain rfl : r = i := Fin.ext (by omega)
    simpa using hl
  · subst halone
    refine .finishes t ⟨h.reached, hend, fun i => ?_⟩
    obtain rfl : r = i := Fin.ext (by omega)
    simpa using finishing_lastStage

omit [DecidableEq Path] in
/-- In the second phase a rank waits at a trial, or at the last barrier. -/
theorem Within.waitsAt (h : E.Within table cached t r sh st) {c : Collective}
    (hwait : E.waitsAt r st = some c) (time : Time) :
    (c = .allReduce ∧ E.Within table cached (E.tuner.record t time) r sh (E.resume r time st)) ∨
      (c = .barrier ∧ E.tuner.trial t = none ∧ E.Finishing t r sh (E.resume r time st)) := by
  cases h with
  | before ht hnone h =>
    cases h.waitsAt hwait
    cases h with
    | written hb => exact absurd hnone hb
  | load => cases hwait
  | loaded => cases hwait
  | tuning own h =>
    simp only [Autotune.waitsAt, Option.ite_none_right_eq_some] at hwait
    cases hwait.2
    exact .inl ⟨rfl, .tuning own h⟩
  | tuned hend =>
    simp only [Autotune.waitsAt, Option.ite_none_right_eq_some] at hwait
    cases hwait.2
    exact .inr ⟨rfl, hend, finishing_lastStage⟩
  | raised => cases hwait

/-- A collective of the second phase is a trial of all ranks, or the end of the tuning. -/
theorem Tunes.meet {l : Fin (followers + 1) → E.Rank} (h : E.Tunes table cached t s)
    (hmeet : E.ranks.meet s.rank l) : E.Phase table cached ⟨l, s.shared⟩ := by
  obtain ⟨c, hwait, times, rfl⟩ := hmeet
  have hranks := fun i => (h.rank i).waitsAt (hwait i) (E.tuner.average (List.ofFn times))
  cases c with
  | allReduce =>
    refine .tunes _ ⟨h.reached.record (E.tuner.average (List.ofFn times)), fun i => ?_,
      h.broadcast, h.leader, h.files⟩
    exact ((hranks i).resolve_right nofun).2
  | barrier =>
    have hend := fun i => (hranks i).resolve_left nofun
    exact .finishes t ⟨h.reached, (hend 0).2.1, fun i => (hend i).2.2⟩

/-! ## the last phase -/

/-- In the last phase rank 0 saves the table of the tuning. -/
theorem Finishes.act {g : TuningFiles Path Bytes} {l : E.Rank} (h : E.Finishes table cached t s)
    (hact : E.ranks.act r (s.rank r) s.shared l g) :
    E.Finishes table cached t ⟨Function.update s.rank r l, g⟩ := by
  obtain ⟨torn, time, hact⟩ := hact
  have hr := h.rank r
  generalize s.rank r = st at hr hact
  cases hr with
  | done => cases hact
  | save hr =>
    subst hr
    cases hact
    refine ⟨h.reached, h.ended, (Function.forall_update_iff s.rank _).2
      ⟨.done fun _ => Function.update_self .., fun i hi => ?_⟩⟩
    have hother := h.rank i
    generalize s.rank i = st at hother
    cases hother with
    | save hi0 => exact absurd hi0 hi
    | done => exact .done fun hi0 => absurd hi0 hi

omit [DecidableEq Path] in
theorem Finishing.waitsAt (h : E.Finishing t r sh st) : E.waitsAt r st = none := by
  cases h <;> rfl

/-- Every step leaves the group in one of the phases. -/
theorem Phase.step (h : E.Phase table cached s) (hstep : E.ranks.Step s s') :
    E.Phase table cached s' := by
  cases h with
  | gathers h =>
    cases hstep with
    | act r hact => exact .gathers (h.act hact)
    | meet hmeet => exact .tunes _ (h.meet hmeet)
  | tunes t h =>
    cases hstep with
    | act r hact => exact h.act hact
    | meet hmeet => exact h.meet hmeet
  | finishes t h =>
    cases hstep with
    | act r hact => exact .finishes t (h.act hact)
    | meet hmeet =>
      obtain ⟨c, hwait, -⟩ := hmeet
      exact nomatch (h.rank 0).waitsAt.symm.trans (hwait 0)

/-! ## every run ends -/

/-- The steps that a rank still has before it, when a whole tuning has `trials` of them. -/
def work (E : Autotune Path Bytes Time followers) (trials : Nat) (st : E.Rank) : Nat :=
  match st.stage with
  | .resolved => trials + 11
  | .found => trials + 10
  | .read _ => trials + 9
  | .write _ => trials + 8
  | .writing _ => trials + 7
  | .written => trials + 6
  | .load => trials + 5
  | .loaded => trials + 4
  | .tuning t => E.tuner.remaining t + 3
  | .tuned => 2
  | .save => 1
  | .done | .raised => 0

omit [DecidableEq Path] in
theorem work_lastStage {trials : Nat} (r : Fin (followers + 1)) (own : E.tuner.Table)
    (grouped : Bool) : E.work trials ⟨E.lastStage r, own, grouped⟩ < 2 := by
  unfold lastStage
  split <;> simp [work]

/-- A rank that acts has less before it. -/
theorem work_lt_of_act {trials : Nat}
    (htrials : st.stage = .loaded → E.tuner.remaining (E.tuningOf st.table) ≤ trials)
    (hact : E.ranks.act r st sh st' sh') : E.work trials st' < E.work trials st := by
  obtain ⟨torn, time, hact⟩ := hact
  obtain ⟨stage, own, grouped⟩ := st
  cases stage with
  | resolved =>
    cases hact
    dsimp only
    split <;> simp [work]
  | found =>
    simp only [flashinferAutotune] at hact
    split at hact <;> cases hact
    simp [work]
  | read c =>
    have hreceived : ∀ c own grouped, E.work trials ⟨E.received c, own, grouped⟩ < trials + 9 := by
      intro c own grouped
      cases c <;> simp [work, received]
    simp only [flashinferAutotune] at hact
    split at hact
    · cases hact
      exact hreceived ..
    · split at hact <;> cases hact
      exact hreceived ..
  | load =>
    simp only [flashinferAutotune] at hact
    split at hact <;> cases hact
    simp [work]
  | loaded =>
    cases hact
    have hle : E.tuner.remaining (E.tuningOf own) ≤ trials := htrials rfl
    simp only [work]
    omega
  | tuning t =>
    simp only [flashinferAutotune] at hact
    split at hact
    · cases hact
      simp [work]
    · split at hact
      · cases hact
        simp [work]
      · next htrial =>
        split at hact <;> cases hact
        obtain ⟨x, hx⟩ := Option.ne_none_iff_exists'.1 (by simpa using htrial)
        have := E.tuner.record_lt time hx
        simp only [work]
        omega
  | tuned =>
    simp only [flashinferAutotune] at hact
    split at hact <;> cases hact
    exact work_lastStage ..
  | write | writing | save =>
    cases hact
    simp [work]
  | written | done | raised => cases hact

omit [DecidableEq Path] in
/-- A rank has less before it behind a collective. -/
theorem work_resume_lt {trials : Nat} {c : Collective} (hwait : E.waitsAt r st = some c)
    (time : Time) : E.work trials (E.resume r time st) < E.work trials st := by
  obtain ⟨stage, own, grouped⟩ := st
  cases stage with
  | written => simp [work, resume]
  | tuning t =>
    simp only [waitsAt, Option.ite_none_right_eq_some, Bool.and_eq_true] at hwait
    obtain ⟨x, hx⟩ := Option.isSome_iff_exists.1 hwait.1.1.2
    have := E.tuner.record_lt time hx
    simp only [work, resume]
    omega
  | tuned => exact work_lastStage ..
  | _ => cases hwait

omit [DecidableEq Path] in
/-- Whatever the phase, the tuning has come to one point for every rank. -/
theorem Phase.exists_tuning (h : E.Phase table cached s) :
    ∃ t, ∀ r, E.Gathering table cached r s.shared (s.rank r) ∨
      E.Within table cached t r s.shared (s.rank r) ∨ E.Finishing t r s.shared (s.rank r) := by
  cases h with
  | gathers h => exact ⟨E.firstTuning table cached, fun r => .inl (h.rank r)⟩
  | tunes t h => exact ⟨t, fun r => .inr (.inl (h.rank r))⟩
  | finishes t h => exact ⟨t, fun r => .inr (.inr (h.rank r))⟩

omit [DecidableEq Path] in
/-- Whoever enters the tuning enters it at its start. -/
theorem Phase.loaded (h : E.Phase table cached s) {r : Fin (followers + 1)}
    (hr : (s.rank r).stage = .loaded) :
    E.tuningOf (s.rank r).table = E.firstTuning table cached := by
  obtain ⟨t, hrank⟩ := h.exists_tuning
  have hrank := hrank r
  generalize s.rank r = st at hr hrank
  obtain h | h | h := hrank
  · cases h <;> cases hr
  · cases h with
    | before ht hnone h => cases h <;> cases hr
    | loaded => rfl
    | _ => cases hr
  · cases h <;> cases hr

/-- Every step takes work off the group. -/
theorem Phase.work_lt (h : E.Phase table cached s) (hstep : E.ranks.Step s s') :
    ∑ i, E.work (E.tuner.remaining (E.firstTuning table cached)) (s'.rank i) <
      ∑ i, E.work (E.tuner.remaining (E.firstTuning table cached)) (s.rank i) := by
  refine hstep.work_lt (fun hact => work_lt_of_act (fun hr => ?_) hact) fun hmeet i => ?_
  · rw [h.loaded hr]
  · obtain ⟨c, hwait, times, rfl⟩ := hmeet
    exact work_resume_lt (hwait i) _

/-! ## where a run can end -/

/-- A gathering rank that has the broadcast, or is to send it, is at the barrier or acts. -/
theorem Gathering.acts (h : E.Gathering table cached r sh st)
    (hsent : r = 0 ∨ sh.broadcast = some cached)
    (hleader : sh.broadcast = none → sh.files (E.cachePath 0) = cached) (torn : Bytes)
    (time : Time) :
    (cached ≠ none ∧ sh.broadcast = some cached ∧ st = ⟨.written, table, false⟩) ∨
      (E.flashinferAutotune r torn time st sh).isSome := by
  cases h with
  | found hr hb h =>
    subst hr
    obtain ⟨b, hb⟩ := Option.ne_none_iff_exists'.1 hb
    exact .inr (by simp [flashinferAutotune, hleader h, hb])
  | read h =>
    by_cases hr : r = 0
    · exact .inr (by simp [flashinferAutotune, hr])
    · exact .inr (by simp [flashinferAutotune, hr, hsent.resolve_left hr])
  | written hb h => exact .inl ⟨hb, h, rfl⟩
  | resolved | write | writing => exact .inr rfl

/-- In the second phase a rank that has the broadcast, or is to send it, has raised, waits for
the others, or acts. -/
theorem Within.acts (h : E.Within table cached t r sh st)
    (hsent : r = 0 ∨ sh.broadcast = some cached)
    (hleader : sh.files (E.cachePath 0) = cached)
    (hfiles : cached ≠ none → ∀ r, sh.files (E.cachePath r) = cached) (torn : Bytes)
    (time : Time) :
    (sh.broadcast = some cached ∧ (st.stage = .raised ∨ E.waitsAt r st =
        some (if (E.tuner.trial t).isSome then .allReduce else .barrier))) ∨
      (E.flashinferAutotune r torn time st sh).isSome := by
  cases h with
  | before ht hnone h =>
    obtain ⟨hb, -⟩ | hact := h.acts hsent (fun _ => hleader) torn time
    · exact absurd hnone hb
    · exact .inr hact
  | load ht hsome h =>
    obtain ⟨b, rfl⟩ := Option.ne_none_iff_exists'.1 hsome
    exact .inr (by simp [flashinferAutotune, hfiles hsome r])
  | loaded => exact .inr rfl
  | tuning own h =>
    by_cases hraises : E.raises r t = true
    · exact .inr (by simp [flashinferAutotune, hraises])
    · cases htrial : E.tuner.trial t with
      | none => exact .inr (by simp [flashinferAutotune, hraises, htrial])
      | some x =>
        by_cases halone : 0 < followers
        · exact .inl ⟨h, .inr (by simp [Autotune.waitsAt, hraises, htrial, halone])⟩
        · exact .inr (by simp [flashinferAutotune, hraises, htrial, halone])
  | tuned hend h =>
    by_cases halone : 0 < followers
    · exact .inl ⟨h, .inr (by simp [Autotune.waitsAt, halone, hend])⟩
    · exact .inr (by simp [flashinferAutotune, halone])
  | raised own h => exact .inl ⟨h, .inl rfl⟩

/-- In a stuck state no rank acts. -/
theorem stuck_act (hstuck : E.ranks.Stuck s) (torn : Bytes) (time : Time)
    (r : Fin (followers + 1)) :
    ¬ (E.flashinferAutotune r torn time (s.rank r) s.shared).isSome := by
  intro hact
  obtain ⟨⟨l, g⟩, hact⟩ := Option.isSome_iff_exists.1 hact
  exact hstuck _ (.act r ⟨torn, time, hact⟩)

/-- In a stuck state the ranks do not all wait at one collective. -/
theorem stuck_meet [Nonempty Time] (hstuck : E.ranks.Stuck s) (c : Collective) :
    ¬ ∀ r, E.waitsAt r (s.rank r) = some c := by
  obtain ⟨time⟩ := ‹Nonempty Time›
  exact fun hwait => hstuck _ (.meet ⟨c, hwait, fun _ => time, rfl⟩)

section stuck

variable [Nonempty Bytes] [Nonempty Time]

/-- The first phase is never stuck. -/
theorem Gathers.not_stuck (h : E.Gathers table cached s) : ¬ E.ranks.Stuck s := by
  obtain ⟨torn⟩ := ‹Nonempty Bytes›
  obtain ⟨time⟩ := ‹Nonempty Time›
  intro hstuck
  obtain ⟨-, hsent, -⟩ := ((h.rank 0).acts (.inl rfl) h.leader torn time).resolve_right
    (stuck_act hstuck torn time 0)
  have hwritten := fun r => ((h.rank r).acts (.inr hsent) h.leader torn time).resolve_right
    (stuck_act hstuck torn time r)
  refine stuck_meet hstuck .barrier fun r => ?_
  rw [(hwritten r).2.2]
  rfl

/-- The second phase is stuck only when a call has raised. -/
theorem Tunes.raised_of_stuck (h : E.Tunes table cached t s) (hstuck : E.ranks.Stuck s) :
    ∃ r, (s.rank r).stage = .raised := by
  obtain ⟨torn⟩ := ‹Nonempty Bytes›
  obtain ⟨time⟩ := ‹Nonempty Time›
  obtain ⟨hsent, -⟩ := ((h.rank 0).acts (.inl rfl) h.leader h.files torn time).resolve_right
    (stuck_act hstuck torn time 0)
  by_contra! hnone
  have hwait := fun r => ((h.rank r).acts (.inr hsent) h.leader h.files torn time).resolve_right
    (stuck_act hstuck torn time r)
  exact stuck_meet hstuck _ fun r => (hwait r).2.resolve_left (hnone r)

/-- The last phase is stuck only when all ranks are done and rank 0 has saved the table. -/
theorem Finishes.done_of_stuck (h : E.Finishes table cached t s) (hstuck : E.ranks.Stuck s) :
    (∀ r, s.rank r = ⟨.done, E.tuner.table t, false⟩) ∧
      s.shared.files (E.cachePath 0) = some (E.tuner.saveConfigs (E.tuner.table t)) := by
  obtain ⟨torn⟩ := ‹Nonempty Bytes›
  obtain ⟨time⟩ := ‹Nonempty Time›
  have hdone : ∀ r, s.rank r = ⟨.done, E.tuner.table t, false⟩ := by
    intro r
    have hrank := h.rank r
    have hact := stuck_act hstuck torn time r
    generalize s.rank r = st at hrank hact
    cases hrank with
    | save => exact absurd rfl hact
    | done => rfl
  have hrank := h.rank 0
  rw [hdone 0] at hrank
  cases hrank with
  | done hsaved => exact ⟨hdone, hsaved rfl⟩

end stuck

/-! ## the whole run -/

omit [DecidableEq Path] in
/-- Two ranks in the tuning have come equally far. -/
theorem Phase.tuning_eq (h : E.Phase table cached s) {r r' : Fin (followers + 1)}
    {t t' : E.tuner.Tuning} (hr : (s.rank r).stage = .tuning t)
    (hr' : (s.rank r').stage = .tuning t') : t = t' := by
  obtain ⟨t₀, hrank⟩ := h.exists_tuning
  have hpoint : ∀ r t, (s.rank r).stage = .tuning t → t = t₀ := by
    intro r t hr
    have hrank := hrank r
    generalize s.rank r = st at hr hrank
    obtain h | h | h := hrank
    · cases h <;> cases hr
    · cases h with
      | before ht hnone h => cases h <;> cases hr
      | tuning =>
        cases hr
        rfl
      | _ => cases hr
    · cases h <;> cases hr
  exact (hpoint r t hr).trans (hpoint r' t' hr').symm

omit [DecidableEq Path] in
/-- A tuner has its process group only within the tuning. -/
theorem Phase.grouped (h : E.Phase table cached s) {r : Fin (followers + 1)}
    (hr : (s.rank r).grouped = true) : ∃ t, (s.rank r).stage = .tuning t := by
  obtain ⟨t, hrank⟩ := h.exists_tuning
  have hrank := hrank r
  generalize s.rank r = st at hr hrank
  obtain h | h | h := hrank
  · cases h <;> cases hr
  · cases h with
    | before ht hnone h => cases h <;> cases hr
    | tuning => exact ⟨t, rfl⟩
    | _ => cases hr
  · cases h <;> cases hr

omit [DecidableEq Path] in
/-- A rank that loads the cache, or on which a call has raised, is in the second phase. -/
theorem Phase.tunes_of (h : E.Phase table cached s) {r : Fin (followers + 1)}
    (hr : (s.rank r).stage = .load ∨ (s.rank r).stage = .raised) :
    ∃ t, E.Tunes table cached t s := by
  cases h with
  | gathers h =>
    have hrank := h.rank r
    generalize s.rank r = st at hr hrank
    cases hrank <;> simp at hr
  | tunes t h => exact ⟨t, h⟩
  | finishes t h =>
    have hrank := h.rank r
    generalize s.rank r = st at hr hrank
    cases hrank <;> simp at hr

omit [DecidableEq Path] in
/-- Whoever loads the cache loads the one of rank 0. -/
theorem Phase.load (h : E.Phase table cached s) {r : Fin (followers + 1)}
    (hr : (s.rank r).stage = .load) : s.shared.files (E.cachePath r) = cached := by
  obtain ⟨t, h⟩ := h.tunes_of (.inl hr)
  have hrank := h.rank r
  generalize s.rank r = st at hr hrank
  cases hrank with
  | before ht hnone h => cases h <;> cases hr
  | load ht hsome => exact h.files hsome r
  | _ => cases hr

omit [DecidableEq Path] in
/-- When a call has raised, nobody ends the tuning and the cache is what it was. -/
theorem Phase.raised (h : E.Phase table cached s) {r : Fin (followers + 1)}
    (hr : (s.rank r).stage = .raised) :
    s.shared.files (E.cachePath 0) = cached ∧ ∀ r', (s.rank r').stage ≠ .done := by
  obtain ⟨t, h⟩ := h.tunes_of (.inr hr)
  refine ⟨h.leader, fun r' hdone => ?_⟩
  have hrank := h.rank r'
  generalize s.rank r' = st at hdone hrank
  cases hrank with
  | before ht hnone h => cases h <;> cases hdone
  | _ => cases hdone

/-- **The ranks tune in lockstep, and every run ends.**  In any interleaving, ranks that meet
at an average measure the same trial, each loads the cache of rank 0 and no torn file, and a
tuner has a process group only within the tuning.  A run has a bounded number of steps; where
it can go no further, all ranks are done with the same table, tuned from the cache of rank 0
and saved there, unless a call has raised, which leaves the cache as it was. -/
theorem autotune_lockstep [Nonempty Bytes] [Nonempty Time] {files : Path → Option Bytes} {k : Nat}
    (hrun : E.ranks.Run (E.start table files) k s) :
    let cached := files (E.cachePath 0)
    k ≤ (followers + 1) * (E.tuner.remaining (E.firstTuning table cached) + 11) ∧
    (∀ r r' t t', (s.rank r).stage = .tuning t → (s.rank r').stage = .tuning t' → t = t') ∧
    (∀ r, (s.rank r).stage = .load → s.shared.files (E.cachePath r) = cached) ∧
    (∀ r, (s.rank r).grouped = true → ∃ t, (s.rank r).stage = .tuning t) ∧
    (∀ r, (s.rank r).stage = .raised →
      s.shared.files (E.cachePath 0) = cached ∧ ∀ r', (s.rank r').stage ≠ .done) ∧
    (E.ranks.Stuck s → (∃ r, (s.rank r).stage = .raised) ∨
      ∃ t, E.Reached table cached t ∧ E.tuner.trial t = none ∧ E.Tuned s (E.tuner.table t)) := by
  intro cached
  have hstart : E.Phase table cached (E.start table files) := phase_start files
  have hphase := hrun.invariant hstart Phase.step
  refine ⟨?_, fun _ _ _ _ => hphase.tuning_eq, fun _ => hphase.load, fun _ => hphase.grouped,
    fun _ => hphase.raised, fun hstuck => ?_⟩
  · have hle := hrun.length_le hstart Phase.step Phase.work_lt
    have hwork : ∑ i, E.work (E.tuner.remaining (E.firstTuning table cached))
        ((E.start table files).rank i) =
          (followers + 1) * (E.tuner.remaining (E.firstTuning table cached) + 11) := by
      simp [start, work]
    omega
  · cases hphase with
    | gathers h => exact absurd hstuck h.not_stuck
    | tunes t h => exact .inl (h.raised_of_stuck hstuck)
    | finishes t h => exact .inr ⟨t, h.reached, h.ended, h.done_of_stuck hstuck⟩

/-- A group that is done can go no further. -/
theorem stuck_of_done (h : ∀ r, (s.rank r).stage = .done) : E.ranks.Stuck s := by
  intro s' hstep
  cases hstep with
  | act r hact =>
    obtain ⟨torn, time, hact⟩ := hact
    simp [flashinferAutotune, h r] at hact
  | meet hmeet =>
    obtain ⟨c, hwait, -⟩ := hmeet
    have hwait := hwait 0
    simp [waitsAt, h 0] at hwait

/-! ## two ranks on one machine -/

/-- A tuner with one trial for every call that its table has no time of. -/
def smallTuner : AutoTuner (List Nat) Nat where
  Table := List Nat
  Trial := Nat
  Tuning := List Nat × Nat
  loadConfigs bytes _ := bytes
  saveConfigs table := table
  autotune _ calls table := (table, calls.length - table.length)
  trial t := if t.2 = 0 then none else some t.2
  record t time := (time :: t.1, t.2 - 1)
  table t := t.1
  remaining t := t.2
  record_lt := by
    intro t x time htrial
    simp only [Option.ite_none_left_eq_some] at htrial
    show t.2 - 1 < t.2
    omega
  average times := times.sum / times.length

/-- Two ranks with one cache file. -/
def smallGroup : Autotune Unit (List Nat) Nat 1 where
  tuner := smallTuner
  runner := ⟨64, "flashinfer_cutedsl".toList, none, [(false, true)], false⟩
  cachePath _ := ()
  raises _ _ := false

/-- The cache has two times of an earlier tuning. -/
def smallFiles : Unit → Option (List Nat) := fun _ => some [7, 7]

def smallStart : smallGroup.World := smallGroup.start ([] : List Nat) smallFiles

/-- Rank 1 tears the file after rank 0 has written it.  Later the two measure 4 and 6. -/
def smallMoves : List (Move 1 (List Nat) Nat) :=
  [0, 1, 0, 0, 0, 0, 1, 1, 1].map (fun r => .act r [] 0) ++
    [.meet .barrier fun _ => 0] ++ [1, 0, 1, 0].map (fun r => .act r [] 0) ++
    [.meet .allReduce fun r => 4 + 2 * r] ++ [0, 1].map (fun r => .act r [] 0) ++
    [.meet .barrier fun _ => 0, .act 0 [] 0]

/-- The run ends with the cache of rank 0, and the mean time of the third call. -/
theorem autotune_lockstep_shared : ∃ s, smallGroup.ranks.Run smallStart 19 s ∧
    smallGroup.Tuned s ([5, 7, 7] : List Nat) ∧
    ∃ t, smallGroup.Reached ([] : List Nat) (some [7, 7]) t ∧
      smallGroup.Tuned s (smallGroup.tuner.table t) := by
  have hplay : (smallGroup.play smallMoves smallStart).map
      (fun s => (s.rank 0, s.rank 1, s.shared.files ())) =
        some (⟨.done, [5, 7, 7], false⟩, ⟨.done, [5, 7, 7], false⟩, some [5, 7, 7]) := rfl
  obtain ⟨s, hplay, hs⟩ := Option.map_eq_some_iff.1 hplay
  obtain ⟨hleader, hs⟩ := Prod.mk.inj hs
  obtain ⟨hother, hfile⟩ := Prod.mk.inj hs
  have hranks : ∀ r, s.rank r = ⟨.done, ([5, 7, 7] : List Nat), false⟩ :=
    Fin.forall_fin_two.2 ⟨hleader, hother⟩
  have hrun : smallGroup.ranks.Run smallStart 19 s := run_play .refl hplay
  obtain ⟨-, -, -, -, -, hend⟩ := autotune_lockstep hrun
  obtain ⟨r, hraised⟩ | ⟨t, hreached, -, htuned⟩ := hend (stuck_of_done fun r => by rw [hranks r])
  · rw [hranks r] at hraised
    cases hraised
  · exact ⟨s, hrun, ⟨hranks, hfile⟩, t, hreached, htuned⟩

end Autotune

end FlashNext
