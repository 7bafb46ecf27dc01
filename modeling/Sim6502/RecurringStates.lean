import Sim6502.CountedLoops
import Sim6502.OperationClosure
import Sim6502.RecurringRuns

/-!
# Programs that come back to a state

Nothing but the registers and the first 64K of the memory changes in a run. A program that
never ends therefore comes back to a state, and one that comes back to a state never ends.
-/
namespace Sim6502
open EventComputation CPU6502 TimedTriples

/-! ## What no run changes -/

/-- The modes, the place of the device, and the memory beyond the address space. -/
structure SameBeyond (s t : CPU6502) : Prop where
  debug : t.debug = s.debug
  verbose : t.verbose = s.verbose
  size : t.memory.size = s.memory.size
  device : t.memory.printDeviceAddr = s.memory.printDeviceAddr
  cell : ∀ index, maxMemory ≤ index → t.memory.cell index = s.memory.cell index

instance : Std.Refl SameBeyond := ⟨fun _ => ⟨rfl, rfl, rfl, rfl, fun _ _ => rfl⟩⟩

instance : IsTrans CPU6502 SameBeyond :=
  ⟨fun _ _ _ h h' => ⟨h'.debug.trans h.debug, h'.verbose.trans h.verbose, h'.size.trans h.size,
    h'.device.trans h.device, fun index hi => (h'.cell index hi).trans (h.cell index hi)⟩⟩

theorem sameBeyond_modify {f : CPU6502 → CPU6502} (hmemory : ∀ s, (f s).memory = s.memory)
    (hdebug : ∀ s, (f s).debug = s.debug) (hverbose : ∀ s, (f s).verbose = s.verbose) :
    Routine.Preserves SameBeyond (Routine.modify f : Cpu Unit) := fun s =>
  ⟨hdebug s, hverbose s, congrArg _ (hmemory s), congrArg _ (hmemory s), fun index _ => by
    change (f s).memory.cell index = _
    rw [hmemory]⟩

theorem sameBeyond_writeMemory (a : Address) (v : Byte) :
    Routine.Preserves SameBeyond (writeMemory a v) := by
  intro s
  by_cases h : a.toNat < s.memory.size
  · rw [writeMemory, onMemory, Routine.run_zoom, s.memory.run_write h]
    refine ⟨rfl, rfl, rfl, rfl, fun index hindex => ?_⟩
    apply GPMemory.cell_updated_of_ne
    have hlt := a.isLt
    rintro rfl
    exact absurd hindex (Nat.not_le_of_lt hlt)
  · rw [writeMemory, onMemory, Routine.run_zoom, s.memory.run_write_outside h]
    exact ⟨rfl, rfl, rfl, rfl, fun _ _ => rfl⟩

theorem sameBeyond_getter {α : Type} (f : CPU6502 → α) :
    Routine.Preserves SameBeyond (do return f (← Routine.get) : Cpu α) :=
  .bind .get fun _ => .pure _

theorem sameBeyond_emit (e : Event) : Routine.Preserves SameBeyond (Routine.emit e : Cpu Unit) :=
  fun s => refl s

/-- The operations of the processor change nothing of it. -/
def sameBeyond : ClosedProperty where
  holds := Routine.Preserves SameBeyond
  pure := .pure
  bind := .bind
  getA := sameBeyond_getter _
  getX := sameBeyond_getter _
  getY := sameBeyond_getter _
  getS := sameBeyond_getter _
  getPC := sameBeyond_getter _
  getPSR := sameBeyond_getter _
  setA _ := sameBeyond_modify (fun _ => rfl) (fun _ => rfl) fun _ => rfl
  setX _ := sameBeyond_modify (fun _ => rfl) (fun _ => rfl) fun _ => rfl
  setY _ := sameBeyond_modify (fun _ => rfl) (fun _ => rfl) fun _ => rfl
  setS _ := sameBeyond_modify (fun _ => rfl) (fun _ => rfl) fun _ => rfl
  setPC _ := sameBeyond_modify (fun _ => rfl) (fun _ => rfl) fun _ => rfl
  setPSR _ := sameBeyond_modify (fun _ => rfl) (fun _ => rfl) fun _ => rfl
  setBit _ _ := sameBeyond_modify (fun _ => rfl) (fun _ => rfl) fun _ => rfl
  stackCell _ := sameBeyond_emit _
  readIndex _ := fun s => refl s
  writeMemory := sameBeyond_writeMemory

theorem sameBeyond_step (isa : CPU6502ISA) : Routine.Preserves SameBeyond (step isa) :=
  sameBeyond.step (sameBeyond_getter _) (sameBeyond_getter _) (fun _ => sameBeyond_emit _)
    (fun _ _ _ => sameBeyond_emit _) isa

theorem SameBeyond.of_reaches {isa : CPU6502ISA} {n : ℕ} {s t : CPU6502}
    (h : Reaches (Moves isa) n s t) : SameBeyond s t := by
  induction h with
  | refl s => exact refl s
  | @head n s t u first rest ih =>
    obtain ⟨-, err, events, run, -⟩ := first
    have hstep := sameBeyond_step isa s
    rw [run] at hstep
    exact IsTrans.trans _ _ _ hstep ih

/-! ## What a run can change -/

/-- The registers and the first 64K. -/
abbrev StateImage : Type :=
  Fin (2 ^ 8) × Fin (2 ^ 8) × Fin (2 ^ 8) × Fin (2 ^ 8) × Fin (2 ^ 8) × Fin (2 ^ 16) ×
    (Fin maxMemory → Fin (2 ^ 8))

def stateImage (s : CPU6502) : StateImage :=
  (s.A.toFin, s.X.toFin, s.Y.toFin, s.S.toFin, s.P.get.toFin, s.PC.toFin,
    fun i => (s.memory.cell i).toFin)

theorem eq_of_stateImage {s t u : CPU6502} (h : SameBeyond s t) (h' : SameBeyond s u)
    (himage : stateImage t = stateImage u) : t = u := by
  simp only [stateImage, Prod.mk.injEq] at himage
  obtain ⟨hA, hX, hY, hS, hP, hPC, hcells⟩ := himage
  have hmemory : t.memory = u.memory := by
    apply GPMemory.ext
    · rw [h.size, h'.size]
    · funext index
      by_cases hindex : index < maxMemory
      · exact BitVec.toFin_inj.mp (congrFun hcells ⟨index, hindex⟩)
      · rw [h.cell index (Nat.le_of_not_lt hindex), h'.cell index (Nat.le_of_not_lt hindex)]
    · rw [h.device, h'.device]
  apply CPU6502.ext
  · exact BitVec.toFin_inj.mp hA
  · exact BitVec.toFin_inj.mp hX
  · exact BitVec.toFin_inj.mp hY
  · exact BitVec.toFin_inj.mp hS
  · exact PSR.ext (BitVec.toFin_inj.mp hP)
  · exact BitVec.toFin_inj.mp hPC
  · exact hmemory
  · rw [h.debug, h'.debug]
  · rw [h.verbose, h'.verbose]

/-! ## Endless runs -/

section Running
variable {isa : CPU6502ISA} {n : ℕ} {s t : CPU6502}

theorem deterministic_moves (isa : CPU6502ISA) : Deterministic (Moves isa) := by
  rintro s t u ⟨-, err, events, run, -⟩ ⟨-, err', events', run', -⟩
  rw [run] at run'
  exact (Outcome.mk.inj run').2.1

theorem reaches_of_continues {events : List Event} (h : Continues isa n s events t) :
    Reaches (Moves isa) n s t := by
  induction h with
  | refl s => exact .refl s
  | next guard head going tail ih => exact .head ⟨guard, _, _, head, going⟩ ih

/-- The loop of `execute` is still running after some iterations, at this state. -/
def RunningAt (isa : CPU6502ISA) (s : CPU6502) (n : ℕ) (t : CPU6502) : Prop :=
  ∃ events, (execute isa n).run s = ⟨.ok false, t, events⟩

theorem runningAt_iff : RunningAt isa s n t ↔ Reaches (Moves isa) n s t := by
  constructor
  · rintro ⟨events, run⟩
    exact reaches_of_continues (continues_of_running run)
  · intro h
    obtain ⟨events, hcontinues⟩ := continues_of_reaches h
    exact ⟨events, hcontinues.running⟩

end Running

/-- A run of `execute` goes on for ever exactly when it goes on for as many iterations as there
are states, and exactly when it comes back to a state, which it then does within that many.
From any state that it comes back to, it is periodic. -/
theorem runs_forever_iff_recurs (isa : CPU6502ISA) (s : CPU6502) :
    ((∀ n, ∃ t, RunningAt isa s n t) ↔ ∃ t, RunningAt isa s (Fintype.card StateImage) t) ∧
      ((∀ n, ∃ t, RunningAt isa s n t) ↔
        ∃ i j t, i < j ∧ RunningAt isa s i t ∧ RunningAt isa s j t) ∧
      ((∀ n, ∃ t, RunningAt isa s n t) ↔
        ∃ i j t, i < j ∧ j ≤ Fintype.card StateImage ∧ RunningAt isa s i t ∧
          RunningAt isa s j t ∧ ∀ k u, RunningAt isa s (i + k) u ↔ RunningAt isa s (j + k) u) ∧
      ∀ i j t, RunningAt isa s i t → RunningAt isa s j t →
        ∀ k u, RunningAt isa s (i + k) u ↔ RunningAt isa s (j + k) u := by
  simp only [runningAt_iff]
  have deterministic := deterministic_moves isa
  have tells (n m : ℕ) (t u : CPU6502) (ht : Reaches (Moves isa) n s t)
      (hu : Reaches (Moves isa) m s u) (heq : stateImage t = stateImage u) : t = u :=
    eq_of_stateImage (.of_reaches ht) (.of_reaches hu) heq
  refine ⟨⟨fun h => h _, fun ⟨u, h⟩ => ?_⟩, ⟨fun h => ?_, ?_⟩, ⟨fun h => ?_, ?_⟩, ?_⟩
  · obtain ⟨i, j, t, hlt, -, hi, hj⟩ := h.recurs stateImage tells
    exact hi.forever deterministic hj hlt
  · obtain ⟨u, hlong⟩ := h (Fintype.card StateImage)
    obtain ⟨i, j, t, hlt, -, hi, hj⟩ := hlong.recurs stateImage tells
    exact ⟨i, j, t, hlt, hi, hj⟩
  · rintro ⟨i, j, t, hlt, hi, hj⟩
    exact hi.forever deterministic hj hlt
  · obtain ⟨u, hlong⟩ := h (Fintype.card StateImage)
    obtain ⟨i, j, t, hlt, hle, hi, hj⟩ := hlong.recurs stateImage tells
    exact ⟨i, j, t, hlt, hle, hi, hj, fun k u => hi.periodic deterministic hj k⟩
  · rintro ⟨i, j, t, hlt, -, hi, hj, -⟩
    exact hi.forever deterministic hj hlt
  · intro i j t hi hj k u
    exact hi.periodic deterministic hj k

end Sim6502
