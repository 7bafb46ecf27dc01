import Sim6502.EventComputations
import Mathlib.Data.List.Basic

/-!
# Computations that look at the cells they record

A state consists of cells and a rest, and the events of a computation record which cells
it read and wrote. The cells that a list of events needs are those read before they are
written. A local computation is repeated, with the same events, at every state with the
same rest and the same needed cells: what the other cells hold is neither looked at nor
changed. Locality is kept by sequences and passes from a step to its runs.
-/
namespace EventComputation

/-- How a state is made of cells and a rest, and which events record an access. -/
structure CellView (σ ω ι ν ρ : Type) where
  cell : σ → ι → ν
  rest : σ → ρ
  reads : ω → Option ι
  writes : ω → Option ι

namespace CellView

variable {σ ε ω ι ν ρ α β : Type} (view : CellView σ ω ι ν ρ)

def written (events : List ω) : List ι := events.filterMap view.writes

@[simp] theorem written_nil : view.written [] = [] := rfl

@[simp] theorem written_append (events later : List ω) :
    view.written (events ++ later) = view.written events ++ view.written later :=
  List.filterMap_append

theorem mem_written_cons {e : ω} {events : List ω} {i : ι} :
    i ∈ view.written (e :: events) ↔ view.writes e = some i ∨ i ∈ view.written events := by
  simp [written]

/-- The same rest, and the same content of the cells listed. -/
structure AgreeOn (cells : List ι) (s s' : σ) : Prop where
  rest : view.rest s' = view.rest s
  cell : ∀ i ∈ cells, view.cell s' i = view.cell s i

/-- The outcome `o'` at `s'` repeats the outcome `o` at `s`: the cells written end alike,
and each of the others keeps what it held. -/
structure Repeats (s s' : σ) (o o' : Outcome σ ε ω α) : Prop where
  result : o'.result = o.result
  events : o'.events = o.events
  rest : view.rest o'.state = view.rest o.state
  written : ∀ i ∈ view.written o.events, view.cell o'.state i = view.cell o.state i
  kept : ∀ i ∉ view.written o.events,
    view.cell o.state i = view.cell s i ∧ view.cell o'.state i = view.cell s' i

section Rules
variable {view}

theorem AgreeOn.mono {cells fewer : List ι} {s s' : σ} (h : view.AgreeOn cells s s')
    (hsub : ∀ i ∈ fewer, i ∈ cells) : view.AgreeOn fewer s s' :=
  ⟨h.rest, fun i hi => h.cell i (hsub i hi)⟩

/-- Whatever agreed before agrees afterwards, and so do the cells written. -/
theorem Repeats.agreeOn {s s' : σ} {o o' : Outcome σ ε ω α} (h : view.Repeats s s' o o')
    {cells : List ι}
    (hcell : ∀ i ∈ cells, i ∉ view.written o.events → view.cell s' i = view.cell s i) :
    view.AgreeOn cells o.state o'.state := by
  classical
  refine ⟨h.rest, fun i hi => ?_⟩
  by_cases hw : i ∈ view.written o.events
  · exact h.written i hw
  · obtain ⟨hkept, hkept'⟩ := h.kept i hw
    rw [hkept, hkept', hcell i hi hw]

/-- An outcome repeated from where an earlier one was repeated. -/
theorem Repeats.after {s s' t t' : σ} {a : α} {events : List ω} {o o' : Outcome σ ε ω β}
    (hfirst : view.Repeats s s' ⟨.ok a, t, events⟩ ⟨(.ok a : Except ε α), t', events⟩)
    (hsecond : view.Repeats t t' o o') :
    view.Repeats s s' (o.after events) (o'.after events) := by
  classical
  refine ⟨hsecond.result, ?_, hsecond.rest, fun i hi => ?_, fun i hi => ?_⟩
  · rw [Outcome.events_after, Outcome.events_after, hsecond.events]
  · rw [Outcome.events_after, written_append, List.mem_append] at hi
    by_cases hlater : i ∈ view.written o.events
    · exact hsecond.written i hlater
    · obtain ⟨hsame, hsame'⟩ := hsecond.kept i hlater
      rw [Outcome.state_after, Outcome.state_after, hsame, hsame']
      exact hfirst.written i (hi.resolve_right hlater)
  · rw [Outcome.events_after, written_append, List.mem_append, not_or] at hi
    obtain ⟨hsame, hsame'⟩ := hsecond.kept i hi.2
    obtain ⟨hkept, hkept'⟩ := hfirst.kept i hi.1
    rw [Outcome.state_after, Outcome.state_after, hsame, hsame']
    exact ⟨hkept, hkept'⟩

end Rules

/-! ## Local computations -/

variable [DecidableEq ι]

/-- The cells that are read before they are written. -/
def needed : List ω → List ι
  | [] => []
  | e :: events =>
    (view.reads e).toList ++ (needed events).filter fun i => view.writes e ≠ some i

theorem mem_needed_cons {e : ω} {events : List ω} {i : ι} :
    i ∈ view.needed (e :: events) ↔
      view.reads e = some i ∨ i ∈ view.needed events ∧ view.writes e ≠ some i := by
  simp [needed]

/-- A later part needs a cell only if the earlier part has not written it. -/
theorem mem_needed_append {events later : List ω} {i : ι} :
    i ∈ view.needed (events ++ later) ↔
      i ∈ view.needed events ∨ i ∈ view.needed later ∧ i ∉ view.written events := by
  induction events with
  | nil => simp [needed]
  | cons e events ih =>
    rw [List.cons_append, mem_needed_cons, mem_needed_cons, mem_written_cons, ih]
    tauto

/-- Where an earlier part was repeated, what a later part needs agrees. -/
theorem Repeats.agreeOn_needed {view : CellView σ ω ι ν ρ} {s s' t t' : σ} {r : Except ε α}
    {events later : List ω} (hfirst : view.Repeats s s' ⟨r, t, events⟩ ⟨r, t', events⟩)
    (h : view.AgreeOn (view.needed (events ++ later)) s s') :
    view.AgreeOn (view.needed later) t t' :=
  hfirst.agreeOn fun i hi hw => h.cell i (view.mem_needed_append.mpr (.inr ⟨hi, hw⟩))

def Local (x : Routine σ ε ω α) : Prop :=
  ∀ s s', view.AgreeOn (view.needed (x.run s).events) s s' →
    view.Repeats s s' (x.run s) (x.run s')

section Local
variable {view}

theorem Local.pure (a : α) : view.Local (Pure.pure a : Routine σ ε ω α) :=
  fun _ _ h => ⟨rfl, rfl, h.rest, by simp, fun _ _ => ⟨rfl, rfl⟩⟩

/-- An event that records no access. -/
theorem Local.emit {e : ω} (hw : view.writes e = none) :
    view.Local (Routine.emit e : Routine σ ε ω Unit) := by
  intro s s' h
  refine ⟨rfl, rfl, h.rest, ?_, fun _ _ => ⟨rfl, rfl⟩⟩
  simp [written, hw]

/-- A change of the rest alone. -/
theorem Local.modify {f : σ → σ} (hcell : ∀ s, view.cell (f s) = view.cell s)
    (hrest : ∀ s s', view.rest s' = view.rest s → view.rest (f s') = view.rest (f s)) :
    view.Local (Routine.modify f : Routine σ ε ω Unit) := by
  intro s s' h
  refine ⟨rfl, rfl, hrest s s' h.rest, by simp, fun i _ => ?_⟩
  exact ⟨congrFun (hcell s) i, congrFun (hcell s') i⟩

/-- A run with a name and the run that repeats it. -/
theorem Local.exists_run {x : Routine σ ε ω α} (hx : view.Local x) {s s' t : σ}
    {r : Except ε α} {events : List ω} (hrun : x.run s = ⟨r, t, events⟩)
    (h : view.AgreeOn (view.needed events) s s') :
    ∃ t', x.run s' = ⟨r, t', events⟩ ∧ view.Repeats s s' ⟨r, t, events⟩ ⟨r, t', events⟩ := by
  have hrepeats := hx s s' (by rwa [hrun])
  rcases hrun' : x.run s' with ⟨r', t', events'⟩
  rw [hrun, hrun'] at hrepeats
  obtain rfl : r' = r := hrepeats.result
  obtain rfl : events' = events := hrepeats.events
  exact ⟨t', rfl, hrepeats⟩

theorem Local.bind {x : Routine σ ε ω α} {f : α → Routine σ ε ω β} (hx : view.Local x)
    (hf : ∀ a, view.Local (f a)) : view.Local (x >>= f) := by
  intro s s' h
  rcases hrun : x.run s with ⟨e | a, t, events⟩
  · have hbind := Routine.run_bind_of_error hrun f
    rw [hbind] at h ⊢
    obtain ⟨t', hrun', hfirst⟩ := hx.exists_run hrun h
    rw [Routine.run_bind_of_error hrun' f]
    exact ⟨rfl, rfl, hfirst.rest, hfirst.written, hfirst.kept⟩
  · have hbind := Routine.run_bind_of_ok hrun f
    rw [hbind] at h ⊢
    rw [Outcome.events_after] at h
    obtain ⟨t', hrun', hfirst⟩ := hx.exists_run hrun
      (h.mono fun i hi => view.mem_needed_append.mpr (.inl hi))
    rw [Routine.run_bind_of_ok hrun' f]
    exact hfirst.after (hf a t t' (hfirst.agreeOn_needed h))

/-- What follows may depend on the rest of the state, and on its cells only through
what it does. -/
theorem Local.get_bind {f : σ → Routine σ ε ω β}
    (hrest : ∀ s s', view.rest s' = view.rest s → f s' = f s) (hf : ∀ s, view.Local (f s)) :
    view.Local (Routine.get >>= f) := by
  intro s s' h
  have hbind (u : σ) : (Routine.get >>= f).run u = (f u).run u :=
    Routine.run_bind_of_ok (Routine.run_get u) f
  rw [hbind] at h
  rw [hbind, hbind, hrest s s' h.rest]
  exact hf s s s' h

theorem Local.ite {c : Prop} [Decidable c] {x y : Routine σ ε ω α} (hx : view.Local x)
    (hy : view.Local y) : view.Local (if c then x else y) := by
  split
  · exact hx
  · exact hy

section Component
variable {τ ρ' : Type} {inner : CellView τ ω ι ν ρ'}

/-- What is needed is a matter of the events. -/
theorem needed_congr {view : CellView σ ω ι ν ρ} (hreads : view.reads = inner.reads)
    (hwrites : view.writes = inner.writes) (events : List ω) :
    view.needed events = inner.needed events := by
  induction events with
  | nil => rfl
  | cons e events ih => rw [needed, needed, hreads, hwrites, ih]

/-- A computation on a component is local where the cells are those of the component. -/
theorem Local.zoom {component : σ → τ} {replace : σ → τ → σ}
    (hcell : ∀ s, view.cell s = inner.cell (component s))
    (hreplace : ∀ s t, component (replace s t) = t) (hreads : view.reads = inner.reads)
    (hwrites : view.writes = inner.writes)
    (hinner : ∀ s s', view.rest s' = view.rest s →
      inner.rest (component s') = inner.rest (component s))
    (hrest : ∀ s s' t t', view.rest s' = view.rest s → inner.rest t' = inner.rest t →
      view.rest (replace s' t') = view.rest (replace s t))
    {x : Routine τ ε ω α} (hx : inner.Local x) : view.Local (x.zoom component replace) := by
  intro s s' h
  have hwritten : ∀ events, view.written events = inner.written events := by
    intro events
    rw [written, written, hwrites]
  rw [Routine.run_zoom] at h ⊢
  rw [Routine.run_zoom]
  have hrun := hx (component s) (component s')
    ⟨hinner s s' h.rest, fun i hi => by
      rw [← hcell, ← hcell]
      exact h.cell i (by rwa [needed_congr hreads hwrites])⟩
  refine ⟨hrun.result, hrun.events, hrest _ _ _ _ h.rest hrun.rest, fun i hi => ?_,
    fun i hi => ?_⟩
  · rw [hcell, hcell, hreplace, hreplace]
    exact hrun.written i (by rwa [← hwritten])
  · rw [hcell, hcell s, hcell, hcell s', hreplace, hreplace]
    exact hrun.kept i (by rwa [← hwritten])

end Component

end Local

end CellView

end EventComputation
