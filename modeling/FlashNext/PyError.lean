import Mathlib.Data.List.Perm.Basic

/-!
# FlashNext.PyError

The exceptions the modelled code raises, with the message where the source gives
one.  An exception the code raises is an `Except.error` of the model.  A loop that
collects the results of its rounds is a `mapM`; `mapM_eq_ok` and `mapM_perm` say what
the rounds of a finished loop have returned.
-/

namespace FlashNext

/-- A raised exception. -/
inductive PyError where
  | assertionError
  | attributeError (msg : String)
  | indexError
  | runtimeError (msg : String)
  | valueError (msg : String)
  | zeroDivisionError
deriving DecidableEq, Repr

universe u

variable {ε : Type*} {α β : Type u}

/-- `xs[i]` -/
def item (xs : List α) (i : Nat) : Except PyError α :=
  match xs[i]? with
  | some x => .ok x
  | none => .error .indexError

theorem mem_of_item {xs : List α} {i : Nat} {x : α} (h : item xs i = .ok x) : x ∈ xs := by
  rw [item] at h
  split at h
  · next hx =>
    cases h
    exact List.mem_of_getElem? hx
  · cases h

/-- `x // y` -/
def floorDiv (x y : Int) : Except PyError Int :=
  if y = 0 then .error .zeroDivisionError else .ok (x.fdiv y)

theorem floorDiv_eq_ok {x y z : Int} : floorDiv x y = .ok z ↔ y ≠ 0 ∧ x.fdiv y = z := by
  rw [floorDiv]
  split <;> simp_all

/-- A sequence of two steps succeeds when both do. -/
theorem bind_eq_ok {x : Except ε α} {f : α → Except ε β} {b : β} :
    (x >>= f) = .ok b ↔ ∃ a, x = .ok a ∧ f a = .ok b := by
  cases x with
  | error e =>
    constructor
    · intro h
      cases h
    · rintro ⟨a, ha, -⟩
      cases ha
  | ok a =>
    constructor
    · intro h
      exact ⟨a, rfl, h⟩
    · rintro ⟨a', ha, h⟩
      cases ha
      exact h

/-- The result of a step is converted. -/
theorem map_eq_ok {x : Except ε α} {f : α → β} {b : β} :
    f <$> x = .ok b ↔ ∃ a, x = .ok a ∧ f a = b := by
  cases x with
  | error e =>
    constructor
    · intro h
      cases h
    · rintro ⟨a, ha, -⟩
      cases ha
  | ok a =>
    constructor
    · intro h
      exact ⟨a, rfl, Except.ok.inj h⟩
    · rintro ⟨a', ha, h⟩
      cases ha
      exact congrArg Except.ok h

/-- A guarded step succeeds when the guard holds and the step does. -/
theorem guard_eq_ok {p : Prop} [Decidable p] {x : Except ε α} {e : ε} {b : α} :
    (if p then x else .error e) = .ok b ↔ p ∧ x = .ok b := by
  by_cases hp : p <;> simp only [hp, if_true, if_false, reduceCtorEq, true_and, false_and]

/-! ## loops -/

/-- A finished loop: each round has returned its result. -/
theorem mapM_eq_ok {f : α → Except ε β} {xs : List α} {ys : List β} :
    xs.mapM f = .ok ys ↔ List.Forall₂ (fun x y => f x = .ok y) xs ys := by
  induction xs generalizing ys with
  | nil =>
    rw [List.mapM_nil, List.forall₂_nil_left_iff]
    constructor
    · intro h
      cases h
      rfl
    · rintro rfl
      rfl
  | cons x xs ih =>
    rw [List.mapM_cons, bind_eq_ok, List.forall₂_cons_left_iff]
    constructor
    · rintro ⟨y, hy, h⟩
      obtain ⟨ys', hys, h⟩ := bind_eq_ok.1 h
      cases h
      exact ⟨y, ys', hy, ih.1 hys, rfl⟩
    · rintro ⟨y, ys', hy, hys, rfl⟩
      exact ⟨y, hy, bind_eq_ok.2 ⟨ys', ih.2 hys, rfl⟩⟩

section forall₂

variable {R : α → β → Prop} {xs : List α} {ys : List β}

theorem forall₂_of_mem (h : List.Forall₂ R xs ys) {x : α} (hx : x ∈ xs) : ∃ y ∈ ys, R x y := by
  induction h with
  | nil => cases hx
  | @cons x' y' _ ys' hy _ ih =>
    cases hx with
    | head => exact ⟨y', List.mem_cons_self, hy⟩
    | tail _ hx =>
      obtain ⟨y, hmem, hy⟩ := ih hx
      exact ⟨y, List.mem_cons_of_mem _ hmem, hy⟩

theorem exists_of_forall₂ (h : List.Forall₂ R xs ys) {y : β} (hy : y ∈ ys) : ∃ x ∈ xs, R x y :=
  forall₂_of_mem h.flip hy

/-- Pairs of results are related when the pairs they come from are. -/
theorem pairwise_of_forall₂ {P : α → α → Prop} {Q : β → β → Prop} (h : List.Forall₂ R xs ys)
    (hxs : xs.Pairwise P)
    (hPQ : ∀ x ∈ xs, ∀ x' ∈ xs, ∀ y y', R x y → R x' y' → P x x' → Q y y') : ys.Pairwise Q := by
  induction h with
  | nil => exact .nil
  | @cons x y xs ys hxy htail ih =>
    rw [List.pairwise_cons] at hxs ⊢
    constructor
    · intro y' hy'
      obtain ⟨x', hx', hxy'⟩ := exists_of_forall₂ htail hy'
      exact hPQ x List.mem_cons_self x' (List.mem_cons_of_mem _ hx') y y' hxy hxy' (hxs.1 x' hx')
    · refine ih hxs.2 fun x₁ h₁ x₂ h₂ => ?_
      exact hPQ x₁ (List.mem_cons_of_mem _ h₁) x₂ (List.mem_cons_of_mem _ h₂)

end forall₂

/-- A round of a finished loop. -/
theorem mapM_of_mem {f : α → Except ε β} {xs : List α} {ys : List β} (h : xs.mapM f = .ok ys)
    {x : α} (hx : x ∈ xs) : ∃ y ∈ ys, f x = .ok y :=
  forall₂_of_mem (mapM_eq_ok.1 h) hx

/-- Where a result of a finished loop comes from. -/
theorem exists_of_mapM {f : α → Except ε β} {xs : List α} {ys : List β} (h : xs.mapM f = .ok ys)
    {y : β} (hy : y ∈ ys) : ∃ x ∈ xs, f x = .ok y :=
  exists_of_forall₂ (mapM_eq_ok.1 h) hy

/-- A loop finishes when each of its rounds does. -/
theorem exists_mapM (f : α → Except ε β) (xs : List α) (h : ∀ x ∈ xs, ∃ y, f x = .ok y) :
    ∃ ys, xs.mapM f = .ok ys := by
  induction xs with
  | nil => exact ⟨[], rfl⟩
  | cons x xs ih =>
    obtain ⟨y, hy⟩ := h x List.mem_cons_self
    obtain ⟨ys, hys⟩ := ih fun x hx => h x (List.mem_cons_of_mem _ hx)
    exact ⟨y :: ys, mapM_eq_ok.2 (.cons hy (mapM_eq_ok.1 hys))⟩

/-- What the rounds of a loop preserve holds at its end, of all the items it went through. -/
theorem foldlM_inv {σ : Type u} {f : σ → α → Except ε σ} {xs : List α} {s s' : σ}
    {P : List α → σ → Prop} (h : xs.foldlM f s = .ok s') (hinit : P [] s)
    (hstep : ∀ done x rest, xs = done ++ x :: rest → ∀ s s', P done s → f s x = .ok s' →
      P (done ++ [x]) s') : P xs s' := by
  have key : ∀ rest done s, xs = done ++ rest → P done s → rest.foldlM f s = .ok s' → P xs s' := by
    intro rest
    induction rest with
    | nil =>
      intro done s hxs hP hrun
      rw [List.append_nil] at hxs
      cases hrun
      exact hxs ▸ hP
    | cons x rest ih =>
      intro done s hxs hP hrun
      rw [List.foldlM_cons] at hrun
      obtain ⟨s₁, hx, hrest⟩ := bind_eq_ok.1 hrun
      exact ih (done ++ [x]) s₁ (by simp [hxs]) (hstep done x rest hxs s s₁ hP hx) hrest
  exact key xs [] s rfl hinit h

/-- A loop over a state finishes when each of its rounds does. -/
theorem exists_foldlM {σ : Type u} {f : σ → α → Except ε σ} {xs : List α}
    (h : ∀ s, ∀ x ∈ xs, ∃ s', f s x = .ok s') (s : σ) : ∃ s', xs.foldlM f s = .ok s' := by
  induction xs generalizing s with
  | nil => exact ⟨s, rfl⟩
  | cons x xs ih =>
    obtain ⟨s₁, hx⟩ := h s x List.mem_cons_self
    obtain ⟨s', hs'⟩ := ih (fun s x hx => h s x (List.mem_cons_of_mem _ hx)) s₁
    exact ⟨s', by rw [List.foldlM_cons]; exact bind_eq_ok.2 ⟨s₁, hx, hs'⟩⟩

/-- A loop whose rounds all find what they look for. -/
theorem mapM_eq_some {f : α → Option β} {g : α → β} {xs : List α}
    (h : ∀ x ∈ xs, f x = some (g x)) : xs.mapM f = some (xs.map g) := by
  induction xs with
  | nil => rfl
  | cons x xs ih =>
    rw [List.mapM_cons, h x List.mem_cons_self, ih fun y hy => h y (List.mem_cons_of_mem x hy)]
    rfl

/-- Rounds in another order return the results in another order. -/
theorem mapM_perm {f : α → Except ε β} {xs xs' : List α} (h : xs.Perm xs') {ys : List β}
    (hys : xs'.mapM f = .ok ys) : ∃ ys', xs.mapM f = .ok ys' ∧ ys'.Perm ys := by
  obtain ⟨ys', hrun, hperm⟩ := List.perm_comp_forall₂ h (mapM_eq_ok.1 hys)
  exact ⟨ys', mapM_eq_ok.2 hrun, hperm⟩

end FlashNext
