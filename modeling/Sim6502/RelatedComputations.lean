import Sim6502.EventComputations

/-!
# Two computations side by side

A coupling relates states of two kinds and lists of events of two kinds. Computations are
related when from related states they end alike: both with related values or both with
the same error, in related states and with related events. The rules follow the ways in
which computations are put together, so that the proof goes through both texts at once.
-/
namespace EventComputation

/-- Events are compared piece by piece. -/
structure Coupling (σ τ ω θ : Type) where
  states : σ → τ → Prop
  events : List ω → List θ → Prop
  nil : events [] []
  append : ∀ {a a' b b'}, events a a' → events b b' → events (a ++ b) (a' ++ b')

namespace Coupling

variable {σ τ ε ω θ α β γ δ : Type} (coupling : Coupling σ τ ω θ)

inductive Ends (Q : α → β → Prop) : Outcome σ ε ω α → Outcome τ ε θ β → Prop where
  | ok {a : α} {b : β} {s : σ} {t : τ} {events : List ω} {events' : List θ} (value : Q a b)
      (states : coupling.states s t) (same : coupling.events events events') :
      Ends Q ⟨.ok a, s, events⟩ ⟨.ok b, t, events'⟩
  | error (e : ε) {s : σ} {t : τ} {events : List ω} {events' : List θ}
      (states : coupling.states s t) (same : coupling.events events events') :
      Ends Q ⟨.error e, s, events⟩ ⟨.error e, t, events'⟩

def Related (Q : α → β → Prop) (x : Routine σ ε ω α) (y : Routine τ ε θ β) : Prop :=
  ∀ s t, coupling.states s t → coupling.Ends Q (x.run s) (y.run t)

section Rules
variable {coupling}

theorem Ends.mono {Q Q' : α → β → Prop} {o : Outcome σ ε ω α} {o' : Outcome τ ε θ β}
    (h : coupling.Ends Q o o') (hQ : ∀ a b, Q a b → Q' a b) : coupling.Ends Q' o o' := by
  cases h with
  | ok value states same => exact .ok (hQ _ _ value) states same
  | error e states same => exact .error e states same

theorem Ends.after {Q : α → β → Prop} {o : Outcome σ ε ω α} {o' : Outcome τ ε θ β}
    {earlier : List ω} {earlier' : List θ} (hevents : coupling.events earlier earlier')
    (h : coupling.Ends Q o o') : coupling.Ends Q (o.after earlier) (o'.after earlier') := by
  cases h with
  | ok value states same => exact .ok value states (coupling.append hevents same)
  | error e states same => exact .error e states (coupling.append hevents same)

theorem Related.mono {Q Q' : α → β → Prop} {x : Routine σ ε ω α} {y : Routine τ ε θ β}
    (h : coupling.Related Q x y) (hQ : ∀ a b, Q a b → Q' a b) : coupling.Related Q' x y :=
  fun s t hst => (h s t hst).mono hQ

theorem Related.pure {Q : α → β → Prop} {a : α} {b : β} (h : Q a b) :
    coupling.Related Q (Pure.pure a : Routine σ ε ω α) (Pure.pure b : Routine τ ε θ β) :=
  fun _ _ hst => .ok h hst coupling.nil

/-- The states themselves are related values. -/
theorem Related.get : coupling.Related coupling.states
    (Routine.get : Routine σ ε ω σ) (Routine.get : Routine τ ε θ τ) :=
  fun _ _ hst => .ok hst hst coupling.nil

theorem Related.modify {f : σ → σ} {g : τ → τ}
    (h : ∀ s t, coupling.states s t → coupling.states (f s) (g t)) :
    coupling.Related Eq (Routine.modify f : Routine σ ε ω Unit)
      (Routine.modify g : Routine τ ε θ Unit) :=
  fun s t hst => .ok rfl (h s t hst) coupling.nil

theorem Related.emit {e : ω} {e' : θ} (h : coupling.events [e] [e']) :
    coupling.Related Eq (Routine.emit e : Routine σ ε ω Unit)
      (Routine.emit e' : Routine τ ε θ Unit) :=
  fun _ _ hst => .ok rfl hst h

theorem Related.bind {P : α → β → Prop} {Q : γ → δ → Prop} {x : Routine σ ε ω α}
    {y : Routine τ ε θ β} {f : α → Routine σ ε ω γ} {g : β → Routine τ ε θ δ}
    (h : coupling.Related P x y) (hrest : ∀ a b, P a b → coupling.Related Q (f a) (g b)) :
    coupling.Related Q (x >>= f) (y >>= g) := by
  intro s t hst
  have hends := h s t hst
  rcases hx : x.run s with ⟨r, u, events⟩
  rcases hy : y.run t with ⟨r', u', events'⟩
  rw [hx, hy] at hends
  cases hends with
  | ok value states same =>
    rw [Routine.run_bind_of_ok hx, Routine.run_bind_of_ok hy]
    exact (hrest _ _ value u u' states).after same
  | error e states same =>
    rw [Routine.run_bind_of_error hx, Routine.run_bind_of_error hy]
    exact .error e states same

/-- Values that are equal on both sides need one name. -/
theorem Related.bind_eq {Q : γ → δ → Prop} {x : Routine σ ε ω α} {y : Routine τ ε θ α}
    {f : α → Routine σ ε ω γ} {g : α → Routine τ ε θ δ} (h : coupling.Related Eq x y)
    (hrest : ∀ a, coupling.Related Q (f a) (g a)) : coupling.Related Q (x >>= f) (y >>= g) :=
  h.bind fun a _ hab => hab ▸ hrest a

theorem Related.ite {Q : α → β → Prop} {c c' : Prop} [Decidable c] [Decidable c']
    {x x' : Routine σ ε ω α} {y y' : Routine τ ε θ β} (hc : c ↔ c')
    (h : coupling.Related Q x y) (h' : coupling.Related Q x' y') :
    coupling.Related Q (if c then x else x') (if c' then y else y') := by
  by_cases hcase : c
  · rw [if_pos hcase, if_pos (hc.mp hcase)]
    exact h
  · rw [if_neg hcase, if_neg (fun hcase' => hcase (hc.mpr hcase'))]
    exact h'

end Rules

end Coupling

end EventComputation
