import Mathlib

/-!
# FlashNext.Scatter

Indexed writes into a total map, in list order.

`scatter base ws` performs the writes `ws` one after another, so a later write
to an index replaces an earlier one.  A kernel that writes all rows at once
leaves the order of colliding writes open; `scatter_of_mem` therefore asks only
that the writes to one index agree, and then says what is read back whatever
their order was.
-/

namespace FlashNext

variable {κ ν : Type*} [DecidableEq κ]

/-- Perform the writes of `ws` in order on `base`. -/
def scatter (base : κ → ν) (ws : List (κ × ν)) : κ → ν :=
  ws.foldl (fun f w => Function.update f w.1 w.2) base

@[simp] theorem scatter_nil (base : κ → ν) : scatter base [] = base := rfl

@[simp] theorem scatter_cons (base : κ → ν) (w : κ × ν) (ws : List (κ × ν)) :
    scatter base (w :: ws) = scatter (Function.update base w.1 w.2) ws := rfl

theorem scatter_append (base : κ → ν) (ws ws' : List (κ × ν)) :
    scatter base (ws ++ ws') = scatter (scatter base ws) ws' := by
  simp [scatter]

/-- An index that no write names keeps its value. -/
theorem scatter_of_notMem {base : κ → ν} {ws : List (κ × ν)} {k : κ}
    (h : k ∉ ws.map Prod.fst) : scatter base ws k = base k := by
  induction ws generalizing base with
  | nil => rfl
  | cons w ws ih =>
      simp only [List.map_cons, List.mem_cons, not_or] at h
      rw [scatter_cons, ih h.2, Function.update_of_ne h.1]

/-- An index whose writes all carry `v`, or that starts at `v`, ends at `v`. -/
theorem scatter_of_agree {base : κ → ν} {ws : List (κ × ν)} {k : κ} {v : ν}
    (hws : ∀ v', (k, v') ∈ ws → v' = v) (hv : base k = v ∨ (k, v) ∈ ws) :
    scatter base ws k = v := by
  induction ws generalizing base with
  | nil => simpa using hv
  | cons w ws ih =>
      rw [scatter_cons]
      apply ih (fun v' hv' => hws v' (List.mem_cons_of_mem w hv'))
      obtain ⟨i, x⟩ := w
      by_cases hi : k = i
      · subst hi
        left
        rw [Function.update_self]
        exact hws x List.mem_cons_self
      · rw [Function.update_of_ne hi]
        rcases hv with hv | hv
        · exact .inl hv
        · right
          rcases List.mem_cons.mp hv with h | h
          · exact absurd (congrArg Prod.fst h) hi
          · exact h

/-- An index is read back from any of its writes, provided they agree. -/
theorem scatter_of_mem {base : κ → ν} {ws : List (κ × ν)} {k : κ} {v : ν}
    (hmem : (k, v) ∈ ws) (hws : ∀ v', (k, v') ∈ ws → v' = v) :
    scatter base ws k = v :=
  scatter_of_agree hws (.inr hmem)

/-- Writes to distinct indices are all read back. -/
theorem scatter_of_nodup {base : κ → ν} {ws : List (κ × ν)} {k : κ} {v : ν}
    (hnodup : (ws.map Prod.fst).Nodup) (hmem : (k, v) ∈ ws) : scatter base ws k = v := by
  apply scatter_of_mem hmem
  intro v' hmem'
  exact congrArg Prod.snd (List.inj_on_of_nodup_map hnodup hmem' hmem rfl)

/-- Writing back what is already there changes nothing. -/
theorem scatter_eq_base {base : κ → ν} {ws : List (κ × ν)} {k : κ}
    (hws : ∀ v, (k, v) ∈ ws → v = base k) : scatter base ws k = base k :=
  scatter_of_agree hws (.inl rfl)

/-- Renaming the indices of the writes injectively renames the index that is read. -/
theorem scatter_map_key {κ' : Type*} [DecidableEq κ'] {g : κ → κ'} (hg : Function.Injective g)
    (base : κ' → ν) (ws : List (κ × ν)) (k : κ) :
    scatter base (ws.map (Prod.map g id)) (g k) = scatter (base ∘ g) ws k := by
  induction ws generalizing base with
  | nil => rfl
  | cons w ws ih =>
      rw [List.map_cons, scatter_cons, scatter_cons, ih]
      congr 1
      exact Function.update_comp_eq_of_injective base hg w.1 w.2

/-- Only the value of the base at the index that is read matters. -/
theorem scatter_congr_base {base : κ → ν} (base' : κ → ν) (ws : List (κ × ν)) {k : κ}
    (h : base k = base' k) : scatter base ws k = scatter base' ws k := by
  induction ws generalizing base base' with
  | nil => exact h
  | cons w ws ih =>
      rw [scatter_cons, scatter_cons]
      apply ih
      by_cases hk : k = w.1
      · rw [hk, Function.update_self, Function.update_self]
      · rw [Function.update_of_ne hk, Function.update_of_ne hk, h]

/-- What was there before does not matter at an index that is written. -/
theorem scatter_congr_of_mem (base base' : κ → ν) {ws : List (κ × ν)} {k : κ}
    (h : k ∈ ws.map Prod.fst) : scatter base ws k = scatter base' ws k := by
  induction ws generalizing base base' with
  | nil => simp at h
  | cons w ws ih =>
      rw [scatter_cons, scatter_cons]
      by_cases hk : k = w.1
      · apply scatter_congr_base
        rw [hk, Function.update_self, Function.update_self]
      · exact ih _ _ ((List.mem_cons.mp h).resolve_left hk)

end FlashNext
