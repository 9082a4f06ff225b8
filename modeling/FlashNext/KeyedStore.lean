import FlashNext.Scatter

/-!
# FlashNext.KeyedStore

Jobs over a keyed store.

A `Job` reads the one entry its key names, produces an output and a new entry.
`runAll` reads every entry first and writes every entry back afterwards, as a
batched kernel does; `runSeq` performs the jobs one after another, each reading
what the earlier ones left.  Jobs may share a key as long as none of them changes
the entry (`Separate`).  Under that condition

* `runSeq_eq_runAll` — both ways agree on every output and every entry;
* `runAll_append` — a batch may be cut anywhere into two batches;
* `runAll_at_key`, `runAll_at_idle` — an entry holds what its own job made of it,
  and an entry that no other job names is unchanged;
* `runAll_related` — a relation between two stores that every job keeps is kept by
  a batch.
-/

namespace FlashNext

variable {κ σ ο : Type*}

/-- A job reads and rewrites the entry its key names. -/
structure Job (κ σ ο : Type*) where
  key : κ
  run : σ → ο × σ

/-- The job leaves the entry as it finds it. -/
def Job.Idle (j : Job κ σ ο) : Prop := ∀ s, (j.run s).2 = s

/-- Jobs that share a key are idle. -/
def Separate (js : List (Job κ σ ο)) : Prop :=
  js.Pairwise fun a b => a.key = b.key → a.Idle ∧ b.Idle

theorem Separate.eq_or_idle {js : List (Job κ σ ο)} (h : Separate js) {a b : Job κ σ ο}
    (ha : a ∈ js) (hb : b ∈ js) (hk : a.key = b.key) : a = b ∨ (a.Idle ∧ b.Idle) := by
  by_cases hab : a = b
  · exact .inl hab
  · have : Std.Symm fun x y : Job κ σ ο => x.key = y.key → x.Idle ∧ y.Idle :=
      ⟨fun x y hxy hyx => (hxy hyx.symm).symm⟩
    exact .inr (List.Pairwise.forall h ha hb hab hk)

variable [DecidableEq κ]

/-- Read every entry, then write every entry back. -/
def runAll (js : List (Job κ σ ο)) (st : κ → σ) : List ο × (κ → σ) :=
  (js.map fun j => (j.run (st j.key)).1,
    scatter st (js.map fun j => (j.key, (j.run (st j.key)).2)))

/-- Perform the jobs one after another. -/
def runSeq : List (Job κ σ ο) → (κ → σ) → List ο × (κ → σ)
  | [], st => ([], st)
  | j :: js, st =>
    let r := j.run (st j.key)
    let rest := runSeq js (Function.update st j.key r.2)
    (r.1 :: rest.1, rest.2)

/-! ## what a batch leaves in an entry -/

/-- An entry that only idle jobs name is unchanged. -/
theorem runAll_at_idle {js : List (Job κ σ ο)} {st : κ → σ} {k : κ}
    (h : ∀ j ∈ js, j.key = k → j.Idle) : (runAll js st).2 k = st k := by
  apply scatter_eq_base
  intro v hv
  obtain ⟨j, hj, hjv⟩ := List.mem_map.mp hv
  obtain ⟨rfl, rfl⟩ := Prod.mk.inj hjv
  exact h j hj rfl _

/-- Idle jobs leave the whole store as it was. -/
theorem runAll_eq_self {js : List (Job κ σ ο)} {st : κ → σ} (h : ∀ j ∈ js, j.Idle) :
    (runAll js st).2 = st := by
  funext k
  exact runAll_at_idle fun j hj _ => h j hj

/-- The entry of a job holds what the job makes of it. -/
theorem runAll_at_key {js : List (Job κ σ ο)} (h : Separate js) (st : κ → σ) {j : Job κ σ ο}
    (hj : j ∈ js) : (runAll js st).2 j.key = (j.run (st j.key)).2 := by
  apply scatter_of_mem
  · exact List.mem_map.mpr ⟨j, hj, rfl⟩
  · intro v hv
    obtain ⟨i, hi, hiv⟩ := List.mem_map.mp hv
    obtain ⟨hk, rfl⟩ := Prod.mk.inj hiv
    rcases h.eq_or_idle hi hj hk with rfl | ⟨hidle, hidle'⟩
    · rfl
    · rw [hidle, hidle', hk]

/-- Every job contributes as many rows as it says. -/
theorem length_runAll_flatten {Q τ : Type*} {qs : List Q} {job : Q → Job κ σ (List τ)}
    (len : Q → Nat) (h : ∀ q s, ((job q).run s).1.length = len q) (st : κ → σ) :
    (runAll (qs.map job) st).1.flatten.length = (qs.map len).sum := by
  rw [List.length_flatten]
  simp only [runAll, List.map_map, Function.comp_def, h]

/-! ## two stores -/

/-- Jobs on the same keys that keep a relation between the entries of two stores keep it as
batches. -/
theorem runAll_related {Q τ ο' : Type*} {qs : List Q} {job : Q → Job κ σ ο}
    {job' : Q → Job κ τ ο'} {R : κ → σ → τ → Prop} (hsep : Separate (qs.map job))
    (hsep' : Separate (qs.map job')) (hkey : ∀ q, (job' q).key = (job q).key) {st : κ → σ}
    {st' : κ → τ} (hR : ∀ k, R k (st k) (st' k))
    (hstep : ∀ q ∈ qs, R (job q).key ((job q).run (st (job q).key)).2
      ((job' q).run (st' (job q).key)).2) (k : κ) :
    R k ((runAll (qs.map job) st).2 k) ((runAll (qs.map job') st').2 k) := by
  by_cases hk : ∃ q ∈ qs, (job q).key = k
  · obtain ⟨q, hq, rfl⟩ := hk
    have hq' := runAll_at_key hsep' st' (List.mem_map_of_mem hq)
    rw [hkey] at hq'
    rw [runAll_at_key hsep st (List.mem_map_of_mem hq), hq']
    exact hstep q hq
  · have hnone : ∀ q ∈ qs, (job q).key ≠ k := fun q hq h => hk ⟨q, hq, h⟩
    rw [runAll_at_idle, runAll_at_idle]
    · exact hR k
    · intro j hj h
      obtain ⟨q, hq, rfl⟩ := List.mem_map.mp hj
      exact absurd (hkey q ▸ h) (hnone q hq)
    · intro j hj h
      obtain ⟨q, hq, rfl⟩ := List.mem_map.mp hj
      exact absurd h (hnone q hq)

/-! ## cutting a batch -/

/-- A job of a later batch still finds the entry that the first batch started from. -/
theorem runAll_at_later_key {as bs : List (Job κ σ ο)} (h : Separate (as ++ bs)) {st : κ → σ}
    {j : Job κ σ ο} (hj : j ∈ bs) : (runAll as st).2 j.key = st j.key := by
  apply runAll_at_idle
  intro i hi hk
  exact ((List.pairwise_append.mp h).2.2 i hi j hj hk).1

/-- A batch may be cut anywhere into two batches that run one after the other. -/
theorem runAll_append {as bs : List (Job κ σ ο)} (h : Separate (as ++ bs)) (st : κ → σ) :
    runAll (as ++ bs) st =
      ((runAll as st).1 ++ (runAll bs (runAll as st).2).1, (runAll bs (runAll as st).2).2) := by
  have hread : ∀ j ∈ bs, j.run ((runAll as st).2 j.key) = j.run (st j.key) := fun j hj => by
    rw [runAll_at_later_key h hj]
  apply Prod.ext
  · have hout : (runAll bs (runAll as st).2).1 = bs.map fun j => (j.run (st j.key)).1 :=
      List.map_congr_left fun j hj => by rw [hread j hj]
    rw [hout]
    exact List.map_append
  · have hin : (bs.map fun j => (j.key, (j.run ((runAll as st).2 j.key)).2)) =
        bs.map fun j => (j.key, (j.run (st j.key)).2) :=
      List.map_congr_left fun j hj => by rw [hread j hj]
    change scatter st ((as ++ bs).map _) = scatter (runAll as st).2 (bs.map _)
    rw [List.map_append, scatter_append, hin]
    rfl

/-- Reading and writing one job at a time agrees with reading all entries first. -/
theorem runSeq_eq_runAll {js : List (Job κ σ ο)} (h : Separate js) (st : κ → σ) :
    runSeq js st = runAll js st := by
  induction js generalizing st with
  | nil => rfl
  | cons j js ih =>
      have htail : Separate js := (List.pairwise_cons.mp h).2
      have hcut := runAll_append (show Separate ([j] ++ js) from h) st
      rw [runSeq, ih htail]
      exact hcut.symm

end FlashNext
