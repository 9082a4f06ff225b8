import Mathlib.Logic.Basic

/-!
# FlashNext.Exits

Programs that may raise, and what holds when they end.

A program of `EStateM` returns or raises, and leaves a state in both cases.
`Ends x s Q E` says that `x` run in `s` returns as `Q` says or raises as `E` says.
The rules follow the program:

* `ends_bind` — one part after the other;
* `Ends.forM` — a loop, by what its rounds keep;
* `ends_tryFinally` — a block whose cleanup runs however it ends.
-/

namespace FlashNext

universe u

variable {ε σ τ α β κ : Type u}

/-- The state that is left, however the program has ended. -/
def exitState : EStateM.Result ε σ α → σ
  | .ok _ s => s
  | .error _ s => s

/-- Run in `s`, the program returns as `Q` says or raises as `E` says. -/
def Ends (x : EStateM ε σ α) (s : σ) (Q : α → σ → Prop) (E : σ → Prop) : Prop :=
  match x s with
  | .ok a s' => Q a s'
  | .error _ s' => E s'

/-- The program does not raise. -/
def Returns (x : EStateM ε σ α) (s : σ) : Prop := Ends x s (fun _ _ => True) fun _ => False

/-- `try: … finally: …`.  The block runs on a state that holds its local variables too; `enter`
sets them up, and the cleanup `leave` still sees them. -/
def tryFinally (enter : σ → τ) (block : EStateM ε τ α) (leave : τ → σ) : EStateM ε σ α := fun s =>
  match block (enter s) with
  | .ok a t => .ok a (leave t)
  | .error e t => .error e (leave t)

variable {x : EStateM ε σ α} {s s' : σ} {Q Q' : α → σ → Prop} {E E' : σ → Prop}

/-- What holds on both kinds of exit holds of the state that is left. -/
theorem ends_exitState {P : σ → Prop} : Ends x s (fun _ => P) P ↔ P (exitState (x s)) := by
  rw [Ends]
  cases x s <;> rfl

theorem ends_of_ok {a : α} (h : x s = .ok a s') : Ends x s Q E ↔ Q a s' := by
  rw [Ends, h]

theorem ends_of_error {e : ε} (h : x s = .error e s') : Ends x s Q E ↔ E s' := by
  rw [Ends, h]

theorem Ends.mono (h : Ends x s Q E) (hQ : ∀ a s', Q a s' → Q' a s') (hE : ∀ s', E s' → E' s') :
    Ends x s Q' E' := by
  unfold Ends at h ⊢
  split at h
  · exact hQ _ _ h
  · exact hE _ h

/-! ## the state that is left -/

theorem exitState_bind_ok {f : α → EStateM ε σ β} {a : α} (h : x s = .ok a s') :
    exitState ((x >>= f) s) = exitState (f a s') := by
  show exitState (EStateM.bind x f s) = _
  rw [EStateM.bind, h]

theorem exitState_bind_error {f : α → EStateM ε σ β} {e : ε} (h : x s = .error e s') :
    exitState ((x >>= f) s) = s' := by
  show exitState (EStateM.bind x f s) = _
  rw [EStateM.bind, h]
  rfl

/-- The cleanup has the last word. -/
theorem exitState_tryFinally {enter : σ → τ} {block : EStateM ε τ α} {leave : τ → σ} :
    exitState (tryFinally enter block leave s) = leave (exitState (block (enter s))) := by
  unfold tryFinally
  cases block (enter s) <;> rfl

/-! ## the rules -/

@[simp] theorem ends_pure {a : α} : Ends (pure a : EStateM ε σ α) s Q E ↔ Q a s := Iff.rfl

@[simp] theorem ends_throw {e : ε} : Ends (throw e : EStateM ε σ α) s Q E ↔ E s := Iff.rfl

@[simp] theorem ends_get {Q : σ → σ → Prop} :
    Ends (get : EStateM ε σ σ) s Q E ↔ Q s s := Iff.rfl

@[simp] theorem ends_modify {f : σ → σ} {Q : PUnit → σ → Prop} :
    Ends (modify f : EStateM ε σ PUnit) s Q E ↔ Q ⟨⟩ (f s) := Iff.rfl

@[simp] theorem ends_bind {f : α → EStateM ε σ β} {Q : β → σ → Prop} :
    Ends (x >>= f) s Q E ↔ Ends x s (fun a s' => Ends (f a) s' Q E) E := by
  show Ends (EStateM.bind x f) s Q E ↔ _
  unfold Ends EStateM.bind
  cases x s <;> rfl

@[simp] theorem ends_tryFinally {enter : σ → τ} {block : EStateM ε τ α} {leave : τ → σ} :
    Ends (tryFinally enter block leave) s Q E ↔
      Ends block (enter s) (fun a t => Q a (leave t)) fun t => E (leave t) := by
  unfold Ends tryFinally
  cases block (enter s) <;> rfl

/-- What the rounds of a loop keep, of the items gone through, holds at its end. -/
theorem Ends.forM {f : κ → EStateM ε σ PUnit} {xs : List κ} {I : List κ → σ → Prop}
    (hinit : I [] s)
    (hstep : ∀ done x rest, xs = done ++ x :: rest → ∀ s, I done s →
      Ends (f x) s (fun _ s' => I (done ++ [x]) s') E) :
    Ends (xs.forM f) s (fun _ s' => I xs s') E := by
  have key : ∀ rest done s, xs = done ++ rest → I done s →
      Ends (rest.forM f) s (fun _ s' => I xs s') E := by
    intro rest
    induction rest with
    | nil =>
      intro done s hxs hI
      rw [List.append_nil] at hxs
      exact hxs ▸ hI
    | cons x rest ih =>
      intro done s hxs hI
      rw [List.forM, ends_bind]
      refine (hstep done x rest hxs s hI).mono ?_ fun _ h => h
      intro _ s' hI'
      exact ih (done ++ [x]) s' (by simp [hxs]) hI'
  exact key xs [] s rfl hinit

end FlashNext
