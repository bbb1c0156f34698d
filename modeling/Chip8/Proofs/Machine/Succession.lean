import Chip8.Proofs.Machine.Footprint

namespace Chip8.Machine

variable {α : Type} {part : Machine → α} {m : Machine}

-- The part that each execution finds is the one that the execution before it left.
def HandsOn (part : Machine → α) : α → List Execution → α → Prop
  | first, [], last => last = first
  | first, e :: rest, last =>
    part e.machine = first ∧ HandsOn part (part (e.machine.execute e.opcode).machine) rest last

-- It reads nothing of a machine but the flags and the random bytes.
def Carried (part : Machine → α) : Prop :=
  ∀ m m' : Machine, m'.flags = m.flags → m'.random = m.random → part m' = part m

theorem carried_flags : Carried Machine.flags := fun _ _ h _ => h

theorem carried_random : Carried Machine.random := fun _ _ _ h => h

-- One instruction writes flags, and another one takes random bytes.
theorem flags_and_random_execute (m : Machine) (opcode : UInt16) :
    ((m.instruction? opcode).map Instruction.kind ≠ some .saveFlags →
      (m.execute opcode).machine.flags = m.flags) ∧
    ((m.instruction? opcode).map Instruction.kind ≠ some .random →
      (m.execute opcode).machine.random = m.random) := by
  cases hi : m.instruction? opcode with
  | none =>
    rw [execute_of_eq_none hi, machine_fail]
    exact ⟨fun _ => rfl, fun _ => rfl⟩
  | some i =>
    rw [execute_of_eq_some hi, Option.map_some, ne_eq, ne_eq, Option.some_inj, Option.some_inj]
    exact ⟨(m.footprint_perform i).flags, (m.footprint_perform i).random⟩

theorem handsOn_append_iff {first last : α} {es es' : List Execution} :
    HandsOn part first (es ++ es') last ↔
      ∃ between, HandsOn part first es between ∧ HandsOn part between es' last := by
  induction es generalizing first with
  | nil => simp [HandsOn]
  | cons e rest ih =>
    simp only [List.cons_append, HandsOn, ih]
    exact ⟨fun ⟨h, between, hrest⟩ => ⟨between, ⟨h, hrest.1⟩, hrest.2⟩,
      fun ⟨between, ⟨h, hrest⟩, hlast⟩ => ⟨h, between, hrest, hlast⟩⟩

namespace Carried

variable (hpart : Carried part)

include hpart

theorem handsOn_step (m : Machine) :
    HandsOn part (part m) m.stepExecutions (part m.step.machine) := by
  unfold stepExecutions
  by_cases hm : m.mode = .empty
  · rw [if_pos hm, step, if_pos hm]
    rfl
  · have hfetched : part m.fetched = part m := hpart _ _ rfl rfl
    obtain ⟨mode, previousMode, hstep⟩ := machine_step_eq hm
    rw [if_neg hm, hstep]
    exact ⟨hfetched, hpart _ _ rfl rfl⟩

theorem joined : Joined fun m es m' => HandsOn part (part m) es (part m') where
  mode _ _ _ := hpart _ _ rfl rfl
  step := hpart.handsOn_step
  trans h h' := handsOn_append_iff.mpr ⟨_, h, h'⟩

theorem part_pass (m : Machine) (elapsed : Nat) :
    part (m.passTime elapsed).playTone = part m := by
  obtain ⟨registers, display, beeper, timerTime, h⟩ := m.passTime_playTone_eq elapsed
  rw [h]
  exact hpart _ _ rfl rfl

theorem handsOn_advance (m : Machine) (elapsed : Nat) :
    HandsOn part (part m) (m.advanceExecutions elapsed) (part (m.advance elapsed).machine) :=
  hpart.joined.advance (fun _ _ => hpart _ _ rfl rfl) hpart.part_pass m elapsed

theorem part_load (m : Machine) (program : List UInt8) :
    part (m.orKeep (m.load program)).machine = part m := by
  unfold load
  split <;> exact hpart _ _ rfl rfl

theorem part_unload (m : Machine) : part m.unload = part m := by
  rw [unload_eq]
  exact hpart _ _ rfl rfl

theorem handsOn_apply {operation : Operation}
    (hkept : ∀ processor, operation = .setProcessor processor →
      part (m.setProcessor processor) = part m) :
    HandsOn part (part m) (m.executions operation) (part (m.apply operation).machine) := by
  cases operation with
  | load program => exact hpart.part_load m program
  | loadFile content =>
    cases content with
    | ok program => exact hpart.part_load m program
    | error cause => rfl
  | unload => exact hpart.part_unload m
  | step => exact hpart.handsOn_step m
  | advance elapsed => exact hpart.handsOn_advance m elapsed
  | update now =>
    have hclock : part { m with updatedAt := some now } = part m := hpart _ _ rfl rfl
    rw [← hclock]
    exact hpart.handsOn_advance _ _
  | execute opcode => exact ⟨rfl, rfl⟩
  | setMode mode => exact hpart.joined.setMode m mode
  | pause => exact hpart.joined.pause m
  | resume => exact hpart.joined.resume m
  | setProcessor processor => exact hkept processor rfl
  | control pressed =>
    obtain ⟨after, hkeys, hafter⟩ := hpart.joined.control m pressed
    have hback : part (m.control pressed) = part after := by
      rw [hafter]
      split
      · exact hpart _ _ rfl rfl
      · rfl
    change HandsOn part (part m) (m.controlExecutions pressed) (part (m.control pressed))
    rw [hback]
    exact hkeys
  | reset | setInstructionSet | setDialect | setSound | setGraphics | setKey | setBreakpoints =>
    exact hpart _ _ rfl rfl

theorem handsOn_history {operations : List Operation}
    (hkept : ∀ before processor, before ++ [.setProcessor processor] <+: operations →
      part ((m.run before).setProcessor processor) = part (m.run before)) :
    HandsOn part (part m) (m.history operations) (part (m.run operations)) := by
  induction operations generalizing m with
  | nil => rfl
  | cons operation rest ih =>
    have hfirst : HandsOn part (part m) (m.executions operation)
        (part (m.apply operation).machine) := by
      apply hpart.handsOn_apply
      rintro processor rfl
      exact hkept [] processor (List.prefix_append [Operation.setProcessor processor] rest)
    have hrest := ih (m := (m.apply operation).machine) fun before processor hbefore =>
      hkept (operation :: before) processor (List.cons_prefix_cons.mpr ⟨rfl, hbefore⟩)
    exact handsOn_append_iff.mpr ⟨_, hfirst, hrest⟩

end Carried

end Chip8.Machine
