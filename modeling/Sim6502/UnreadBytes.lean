import Sim6502.ProgramStart
import Sim6502.ReadFootprints

/-!
# The bytes of a binary that the program does not read

From the command line on a whole run of the simulator is local: two binaries of the same
length that agree in the bytes which the run reads before it writes them cannot be told
apart by what the program prints, reads from its input and returns.
-/
namespace Sim6502
open EventComputation CPU6502 Debugger

theorem local_setDebug (value : Bool) : cpuCells.Local (setDebug value) :=
  local_setter (fun _ => rfl) fun s s' h => by simp [surroundings, registers, eq_fields h]
theorem local_setVerbose (value : Bool) : cpuCells.Local (setVerbose value) :=
  local_setter (fun _ => rfl) fun s s' h => by simp [surroundings, registers, eq_fields h]

/-- The address of the device is not part of the cells. -/
theorem local_setPrintDevice (addr : Address) : cpuCells.Local (setPrintDevice addr) :=
  .modify (fun _ => rfl) fun s s' h => by
    simp [cpuCells, surroundings, registers, eq_fields h]

theorem local_processArgument (argv : List (List Char)) (i : ℕ) :
    sessionCells.Local (processArgument argv i) := by
  rw [processArgument]
  refine .ite (.ite (.ite ?_ (.ite ?_ (.ite ?_ (.ite ?_ (.ite ?_ (.pure _)))))) (.pure _)) (.pure _)
  · exact .bind (local_onCpu (local_setDebug true)) fun _ => .pure _
  · exact .bind (local_onCpu (local_setVerbose true)) fun _ => .pure _
  · cases argv[i + 1]? with
    | none => exact .pure _
    | some addrStr =>
      cases hnumber : stoul addrStr with
      | ok printAddr =>
        simp only [hnumber]
        exact .bind (local_onCpu (local_setPrintDevice _)) fun _ => .pure _
      | error e =>
        cases e <;> simp only [hnumber] <;> exact .pure _
  · exact .bind (local_onCpu (local_setDebug true)) fun _ => .pure _
  · exact .bind (local_onCpu (local_setVerbose true)) fun _ => .pure _

theorem local_argumentLoop {α : Type} {run : Debugging α} (hrun : sessionCells.Local run)
    (argv : List (List Char)) (remaining i : ℕ) :
    sessionCells.Local (argumentLoop run argv remaining i) := by
  induction remaining generalizing i with
  | zero => exact .pure _
  | succ remaining ih =>
    refine .ite (ih (i + 1)) (.bind (local_processArgument argv i) fun abort => ?_)
    cases abort with
    | some abort => exact .pure _
    | none => exact .bind hrun fun _ => .pure _

/-- The constructor looks at the size of the memory and at the reset vector. -/
theorem local_reset : cpuCells.Local reset := by
  refine .get_bind (fun s s' h => ?_) fun s => ?_
  · simp only [eq_fields h]
  · have hrest : cpuCells.Local (do
        let low ← readIndex resetVectorLow
        let high ← readIndex resetVectorHigh
        if (low = fullByte ∧ high = fullByte) ∨ (low = zeroByte ∧ high = zeroByte) then
          announce .resetVectorNotSet
        setPC (.ofBytes low high)) := by
      refine .bind (local_readIndex _) fun low => .bind (local_readIndex _) fun high => ?_
      exact .ite (.bind (local_announce _) fun _ => local_setPC _) (local_setPC _)
    exact .ite (.bind (local_announce _) fun _ => hrest) hrest

/-! ## From the command line on -/

theorem cell?_ofImage (image : List Byte) (index : ℕ) :
    (GPMemory.ofImage image).cell? index = image[index]? := by
  by_cases h : index < image.length
  · simp [GPMemory.cell?, GPMemory.ofImage, h]
  · simp [GPMemory.cell?, GPMemory.ofImage, h]

theorem needed_session (events : List Event) :
    sessionCells.needed events = cpuCells.needed events := by
  apply CellView.needed_congr
  · rfl
  · rfl

/-- Processors that differ in the image only. -/
theorem agreeOn_initial {image image' : List Byte} (hlength : image'.length = image.length)
    {indices : List ℕ} (h : ∀ index ∈ indices, image'[index]? = image[index]?) :
    cpuCells.AgreeOn indices (initial (.ofImage image) false)
      (initial (.ofImage image') false) := by
  refine ⟨?_, fun index hi => ?_⟩
  · simp [cpuCells, surroundings, registers, initial, GPMemory.ofImage, hlength]
  · have hcell := h index hi
    rwa [← cell?_ofImage, ← cell?_ofImage] at hcell

/-- Whatever the command line, two binaries of one length that agree in every byte the
run reads before it writes it lead to the same result, the same output and the same use
of the input. -/
theorem main_ignores_unread_bytes (isa : CPU6502ISA) (n : ℕ)
    (files files' : List Char → Except (List Char) (List Byte)) (program path : List Char)
    (rest : List (List Char)) (input : StandardInput) (image image' : List Byte)
    (hfile : files path = .ok image) (hfile' : files' path = .ok image')
    (hlength : image'.length = image.length)
    (h : ∀ index ∈ cpuCells.needed
        ((main (Debugger.run isa n) files (program :: path :: rest)).run input).events,
      image'[index]? = image[index]?) :
    (main (Debugger.run isa n) files' (program :: path :: rest)).run input =
      (main (Debugger.run isa n) files (program :: path :: rest)).run input := by
  have hagree := agreeOn_initial hlength h
  rw [main] at hagree ⊢
  simp only [hfile, hfile', main] at hagree ⊢
  rcases hrun : construct (.ofImage image) false with ⟨_ | _, cpu, events⟩ <;>
    simp only [hrun] at hagree ⊢
  · obtain ⟨cpu', hrun', -⟩ := local_reset.exists_run hrun hagree
    have hconstruct : construct (.ofImage image') false = _ := hrun'
    rw [hconstruct]
  · obtain ⟨cpu', hrun', hreset⟩ := local_reset.exists_run hrun
      (hagree.mono fun i hi => cpuCells.mem_needed_append.mpr (.inl hi))
    have hconstruct : construct (.ofImage image') false = _ := hrun'
    have hcells := hreset.agreeOn_needed hagree
    have hloop := local_argumentLoop (local_run isa n) (program :: path :: rest)
      (program :: path :: rest).length 0 ⟨cpu, input⟩ ⟨cpu', input⟩
      ⟨Prod.ext hcells.rest rfl, fun i hi => hcells.cell i (by rwa [needed_session] at hi)⟩
    have hinput := congrArg Prod.snd hloop.rest
    rw [hconstruct]
    simp only [hloop.result, hloop.events, Outcome.mk.injEq, true_and, and_true]
    exact hinput

/-- Such a binary is read at the vector and at address 0. -/
theorem events_main_stopsAtOnce (unread : Byte) {zeroes : List Byte}
    (hlength : zeroes.length = maxMemory - 2) (hzero : ∀ index, zeroes.getD index 0 = 0) :
    ((main (Debugger.run isa 1) (fun _ => .ok (stopsAtOnce unread zeroes))
      ["6502sim".toList, "prog.bin".toList]).run ⟨[], true⟩).events =
      [.read resetVectorLow, .read resetVectorHigh, .announce .resetVectorNotSet, .read 0,
        .announce .stpReached] := by
  have hsize := length_stopsAtOnce unread hlength
  obtain ⟨t, hrun⟩ := run_execute_stopsAtOnce unread hlength hzero
  rw [← pathEffect_prog (started (stopsAtOnce unread zeroes))] at hrun
  rw [run_main_of_execute rfl (Nat.le_of_eq hsize.symm) (by decide) (by decide) hrun,
    constructEvents_stopsAtOnce unread hlength hzero]
  rfl

/-- Two binaries of 64K with different bytes behind the `STP`. -/
theorem main_ignores_unread_bytes_stop :
    (main (Debugger.run isa 1) (fun _ => .ok (stopsAtOnce 1 (List.replicate (maxMemory - 2) 0)))
        ["6502sim".toList, "prog.bin".toList]).run ⟨[], true⟩ =
      (main (Debugger.run isa 1) (fun _ => .ok (stopsAtOnce 0 (List.replicate (maxMemory - 2) 0)))
        ["6502sim".toList, "prog.bin".toList]).run ⟨[], true⟩ := by
  obtain ⟨hlength, hzero⟩ := zeroes_behind_stop
  generalize List.replicate (maxMemory - 2) (0 : Byte) = zeroes at *
  refine main_ignores_unread_bytes isa 1 _ _ _ _ _ _ _ _ rfl rfl ?_ ?_
  · rw [length_stopsAtOnce 1 hlength, length_stopsAtOnce 0 hlength]
  · rw [events_main_stopsAtOnce 0 hlength hzero]
    intro index hindex
    match index with
    | 0 => rfl
    | 1 => exact absurd hindex (by decide)
    | k + 2 => simp only [stopsAtOnce, List.getElem?_cons_succ]

end Sim6502
