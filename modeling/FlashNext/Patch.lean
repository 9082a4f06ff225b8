import Mathlib.Data.List.Induction
import Mathlib.Data.List.Perm.Basic

/-!
# FlashNext.Patch

Partial updates of a store.

A `Patch` gives new values to some keys of a store and leaves the others alone.
Two patches are disjoint when no key gets a value from both; patches that are
pairwise disjoint may be applied in any order:

* `applyAll_of_mem`, `applyAll_of_agree` — a key holds what the patch that covers it says, or
  the patches that do;
* `applyAll_frame` — a key that no patch covers is unchanged;
* `applyAll_perm` — the order does not matter;
* `runAll_holds` — calls that write disjoint patches leave what each of them writes.
-/

namespace FlashNext

variable {κ ν : Type*}

/-- New values for some of the keys. -/
abbrev Patch (κ ν : Type*) := κ → Option ν

namespace Patch

/-- The patch that changes nothing. -/
def empty : Patch κ ν := fun _ => none

/-- The store after the patch. -/
def apply (p : Patch κ ν) (st : κ → ν) : κ → ν := fun k => (p k).getD (st k)

/-- The store after the patches, the first one applied first. -/
def applyAll (ps : List (Patch κ ν)) (st : κ → ν) : κ → ν :=
  ps.foldl (fun st p => p.apply st) st

/-- No key is covered twice. -/
def Disjoint (p q : Patch κ ν) : Prop := ∀ k, p k = none ∨ q k = none

@[simp] theorem empty_apply (k : κ) : (empty : Patch κ ν) k = none := rfl

@[simp] theorem apply_empty (st : κ → ν) : empty.apply st = st := rfl

@[simp] theorem applyAll_nil (st : κ → ν) : applyAll [] st = st := rfl

@[simp] theorem applyAll_cons (p : Patch κ ν) (ps : List (Patch κ ν)) (st : κ → ν) :
    applyAll (p :: ps) st = applyAll ps (p.apply st) := rfl

theorem applyAll_append (ps qs : List (Patch κ ν)) (st : κ → ν) :
    applyAll (ps ++ qs) st = applyAll qs (applyAll ps st) :=
  List.foldl_append ..

theorem apply_of_none {p : Patch κ ν} {k : κ} (h : p k = none) (st : κ → ν) :
    p.apply st k = st k := by
  rw [apply, h, Option.getD_none]

theorem apply_of_some {p : Patch κ ν} {k : κ} {v : ν} (h : p k = some v) (st : κ → ν) :
    p.apply st k = v := by
  rw [apply, h, Option.getD_some]

theorem Disjoint.symm {p q : Patch κ ν} (h : p.Disjoint q) : q.Disjoint p :=
  fun k => (h k).symm

/-- Disjoint patches commute. -/
theorem Disjoint.comm {p q : Patch κ ν} (h : p.Disjoint q) (st : κ → ν) :
    q.apply (p.apply st) = p.apply (q.apply st) := by
  funext k
  cases h k with
  | inl hp => rw [apply_of_none hp, apply, apply_of_none hp, apply]
  | inr hq => rw [apply_of_none hq, apply, apply, apply_of_none hq]

/-- A key that no patch covers is unchanged. -/
theorem applyAll_frame {ps : List (Patch κ ν)} {k : κ} (h : ∀ p ∈ ps, p k = none) (st : κ → ν) :
    applyAll ps st k = st k := by
  induction ps generalizing st with
  | nil => rfl
  | cons p ps ih =>
    rw [applyAll_cons, ih (fun q hq => h q (List.mem_cons_of_mem _ hq)),
      apply_of_none (h p List.mem_cons_self)]

/-- A key holds what the patch that covers it says. -/
theorem applyAll_of_mem {ps : List (Patch κ ν)} (hd : ps.Pairwise Disjoint) {p : Patch κ ν}
    (hp : p ∈ ps) {k : κ} {v : ν} (hv : p k = some v) (st : κ → ν) : applyAll ps st k = v := by
  induction ps generalizing st with
  | nil => cases hp
  | cons q ps ih =>
    rw [List.pairwise_cons] at hd
    rw [applyAll_cons]
    cases hp with
    | head =>
      have hrest : ∀ r ∈ ps, r k = none := by
        intro r hr
        cases hd.1 r hr k with
        | inl h => rw [hv] at h; cases h
        | inr h => exact h
      rw [applyAll_frame hrest, apply_of_some hv]
    | tail _ hp => exact ih hd.2 hp (q.apply st)

/-- A key holds what the patches that cover it agree on. -/
theorem applyAll_of_agree {ps : List (Patch κ ν)} {k : κ} {v : ν}
    (hcovered : ∃ p ∈ ps, p k = some v)
    (hagree : ∀ p ∈ ps, ∀ w, p k = some w → w = v) (st : κ → ν) : applyAll ps st k = v := by
  -- from the last patch back: it decides, or leaves the key to the patches before it
  induction ps using List.reverseRecOn with
  | nil =>
    obtain ⟨p, hp, -⟩ := hcovered
    cases hp
  | append_singleton ps q ih =>
    rw [applyAll_append, applyAll_cons, applyAll_nil]
    cases hq : q k with
    | some w =>
      rw [apply_of_some hq]
      exact hagree q (List.mem_append_right _ List.mem_cons_self) w hq
    | none =>
      rw [apply_of_none hq]
      refine ih ?_ fun p hp => hagree p (List.mem_append_left _ hp)
      obtain ⟨p, hp, hv⟩ := hcovered
      cases List.mem_append.1 hp with
      | inl hp => exact ⟨p, hp, hv⟩
      | inr hp =>
        rw [List.mem_singleton.1 hp, hq] at hv
        cases hv

/-- **Pairwise disjoint patches may be applied in any order.** -/
theorem applyAll_perm {ps qs : List (Patch κ ν)} (hd : ps.Pairwise Disjoint) (h : ps.Perm qs)
    (st : κ → ν) : applyAll ps st = applyAll qs st := by
  have hsymm : ∀ {p q : Patch κ ν}, p.Disjoint q → q.Disjoint p := Disjoint.symm
  induction h generalizing st with
  | nil => rfl
  | cons p _ ih => exact ih hd.of_cons (p.apply st)
  | swap p q ps =>
    have hpq : q.Disjoint p := List.rel_of_pairwise_cons hd List.mem_cons_self
    rw [applyAll_cons, applyAll_cons, applyAll_cons, applyAll_cons, hpq.comm]
  | trans h₁ _ ih₁ ih₂ => rw [ih₁ hd, ih₂ (h₁.pairwise hd hsymm)]

/-- Patches that cover nothing change nothing. -/
theorem applyAll_of_empty {ps : List (Patch κ ν)} (h : ∀ p ∈ ps, p = empty) (st : κ → ν) :
    applyAll ps st = st := by
  funext k
  exact applyAll_frame (fun p hp => by rw [h p hp, empty_apply]) st

/-! ## calls that write -/

section calls

variable {γ ε : Type*} {call : γ → Except ε (Patch κ ν)} {patch : γ → Patch κ ν} {cs : List γ}

/-- Calls one after another, each of which writes a patch or fails. -/
def runAll (call : γ → Except ε (Patch κ ν)) : List γ → (κ → ν) → Except ε (κ → ν)
  | [], st => .ok st
  | c :: cs, st => do
    let p ← call c
    runAll call cs (p.apply st)

/-- Calls that succeed write their patches in turn. -/
theorem runAll_eq (h : ∀ c ∈ cs, call c = .ok (patch c)) (st : κ → ν) :
    runAll call cs st = .ok (applyAll (cs.map patch) st) := by
  induction cs generalizing st with
  | nil => rfl
  | cons c cs ih =>
    rw [runAll, h c List.mem_cons_self]
    exact ih (fun c' hc' => h c' (List.mem_cons_of_mem _ hc')) _

/-- **Different calls that write disjoint patches leave what each of them writes**, whatever their
order, and nothing else changes. -/
theorem runAll_holds (h : ∀ c ∈ cs, call c = .ok (patch c)) (hnodup : cs.Nodup)
    (hd : ∀ c ∈ cs, ∀ c' ∈ cs, c ≠ c' → (patch c).Disjoint (patch c')) (st : κ → ν) :
    ∃ st', runAll call cs st = .ok st' ∧ (∀ c ∈ cs, ∀ k v, patch c k = some v → st' k = v) ∧
      ∀ k, (∀ c ∈ cs, patch c k = none) → st' k = st k := by
  refine ⟨_, runAll_eq h st, fun c hc k v hv => ?_, fun k hk => applyAll_frame ?_ st⟩
  · refine applyAll_of_mem ?_ (List.mem_map_of_mem hc) hv st
    rw [List.pairwise_map]
    exact hnodup.imp_of_mem fun hc hc' hne => hd _ hc _ hc' hne
  · intro p hp
    obtain ⟨c, hc, rfl⟩ := List.mem_map.1 hp
    exact hk c hc

end calls

end Patch

end FlashNext
