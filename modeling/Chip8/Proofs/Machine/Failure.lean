import Chip8.Machine.Advance

namespace Chip8

theorem InstructionSet.supports_eq_false_iff (set : InstructionSet) (kind : Instruction.Kind) :
    set.supports kind = false ↔ kind ∈ Instruction.Kind.superChip ∧ set = .chip8 := by
  cases set with
  | chip8 => simp [← Bool.not_eq_true, supports_chip8]
  | superChip => simp [supports_superChip]

namespace Registers

theorem and_mask_eq_mod (n : UInt16) : n &&& 0xFFF = n % 4096 := by
  apply UInt16.toNat.inj
  rw [UInt16.toNat_and, UInt16.toNat_mod]
  exact Nat.and_two_pow_sub_one_eq_mod _ 12

theorem preceding_eq_mod (pc : UInt16) : preceding pc = (pc - 2) % 4096 :=
  and_mask_eq_mod (pc - 2)

theorem following_eq_mod (pc : UInt16) : following pc = (pc + 2) % 4096 :=
  and_mask_eq_mod (pc + 2)

theorem preceding_following (pc : UInt16) : preceding (following pc) = pc % 4096 := by
  have hpc := pc.toNat_lt
  apply UInt16.toNat.inj
  rw [preceding_eq_mod, following_eq_mod]
  simp only [UInt16.toNat_mod, UInt16.toNat_sub, UInt16.toNat_add, UInt16.reduceToNat]
  omega

end Registers

namespace Machine

-- The reasons for which a machine refuses an instruction that it knows.
inductive Refuses (m : Machine) : Instruction → Fault → Prop
  | overflow (target : UInt16) (h : Registers.stackCapacity ≤ m.registers.stack.length) :
    Refuses m (.call target) .stackOverflow
  | underflow (h : m.registers.stack = []) : Refuses m .ret .stackUnderflow
  | saveFlags (x : Register) (h : 7 < x.val) : Refuses m (.saveFlags x) (.noFlag x)
  | loadFlags (x : Register) (h : 7 < x.val) : Refuses m (.loadFlags x) (.noFlag x)

-- The reasons for which executing an opcode fails. The offset is where it was fetched from.
inductive Fails (m : Machine) (opcode : UInt16) : Fault → Prop
  | unknown (h : Opcode.decode opcode = none) :
    Fails m opcode (.invalidOpcode opcode ((m.registers.pc - 2) % 4096))
  | unsupported (i : Instruction) (h : Opcode.decode opcode = some i)
    (hk : i.kind ∈ Instruction.Kind.superChip) (hs : m.instructionSet = .chip8) :
    Fails m opcode (.invalidOpcode opcode ((m.registers.pc - 2) % 4096))
  | overflow (target : UInt16) (h : Opcode.decode opcode = some (.call target))
    (hs : 12 ≤ m.registers.stack.length) : Fails m opcode .stackOverflow
  | underflow (h : Opcode.decode opcode = some .ret) (hs : m.registers.stack = []) :
    Fails m opcode .stackUnderflow
  | noFlag (x : Register)
    (h : Opcode.decode opcode = some (.saveFlags x) ∨ Opcode.decode opcode = some (.loadFlags x))
    (hs : m.instructionSet = .superChip) (hx : 7 < x.val) : Fails m opcode (.noFlag x)

variable {m : Machine}

-- An instruction is refused before it does anything.
theorem perform_of_refuses {i : Instruction} {fault : Fault} (h : m.Refuses i fault) :
    m.perform i = m.fail fault := by
  cases h with
  | overflow target h => exact if_pos h
  | underflow h =>
    change m.ret = m.fail .stackUnderflow
    rw [ret, h]
  | saveFlags x h => exact if_neg (by omega)
  | loadFlags x h => exact if_neg (by omega)

-- All but four instructions just go through.
theorem perform_eq_done_or_refuses (m : Machine) (i : Instruction) :
    (∃ after : Machine, m.perform i = after.done) ∨ ∃ fault, m.Refuses i fault := by
  cases i with
  | call target =>
    by_cases h : Registers.stackCapacity ≤ m.registers.stack.length
    · exact .inr ⟨_, .overflow target h⟩
    · exact .inl ⟨_, if_neg h⟩
  | ret =>
    cases h : m.registers.stack with
    | nil => exact .inr ⟨_, .underflow h⟩
    | cons pc stack =>
      refine .inl ⟨{ m with registers := { m.registers with pc, stack } }, ?_⟩
      change m.ret = _
      rw [ret, h]
  | saveFlags x =>
    by_cases h : x.val < 8
    · exact .inl ⟨_, if_pos h⟩
    · exact .inr ⟨_, .saveFlags x (by omega)⟩
  | loadFlags x =>
    by_cases h : x.val < 8
    · exact .inl ⟨_, if_pos h⟩
    · exact .inr ⟨_, .loadFlags x (by omega)⟩
  | _ => exact .inl ⟨_, rfl⟩

theorem fault_perform_iff (m : Machine) (i : Instruction) (fault : Fault) :
    (m.perform i).fault = some fault ↔ m.Refuses i fault := by
  constructor
  · intro hfault
    rcases perform_eq_done_or_refuses m i with ⟨after, h⟩ | ⟨reason, h⟩
    · simp [h] at hfault
    · obtain rfl : reason = fault := by simpa [perform_of_refuses h] using hfault
      exact h
  · intro h
    rw [perform_of_refuses h, fault_fail]

theorem instruction?_eq_none_iff (m : Machine) (opcode : UInt16) :
    m.instruction? opcode = none ↔ Opcode.decode opcode = none ∨
      ∃ i, Opcode.decode opcode = some i ∧ i.kind ∈ Instruction.Kind.superChip ∧
        m.instructionSet = .chip8 := by
  rw [instruction?, Option.filter_eq_none_iff]
  simp only [Bool.not_eq_true, InstructionSet.supports_eq_false_iff]
  cases Opcode.decode opcode <;> simp

theorem instruction?_eq_some_iff (m : Machine) (opcode : UInt16) (i : Instruction) :
    m.instruction? opcode = some i ↔
      Opcode.decode opcode = some i ∧ m.instructionSet.supports i.kind = true :=
  Option.filter_eq_some_iff

theorem execute_of_eq_none {opcode : UInt16} (h : m.instruction? opcode = none) :
    m.execute opcode =
      m.fail (.invalidOpcode opcode (Registers.preceding m.registers.pc)) := by
  rw [execute, h]

theorem execute_of_eq_some {opcode : UInt16} {i : Instruction}
    (h : m.instruction? opcode = some i) : m.execute opcode = m.perform i := by
  rw [execute, h]

-- The instructions of CHIP-8 are known to every machine.
theorem execute_of_chip8 {opcode : UInt16} {i : Instruction} (h : Opcode.decode opcode = some i)
    (hk : i.kind ∈ Instruction.Kind.chip8) : m.execute opcode = m.perform i := by
  apply execute_of_eq_some
  refine (m.instruction?_eq_some_iff opcode i).mpr ⟨h, ?_⟩
  cases m.instructionSet with
  | chip8 =>
    rw [InstructionSet.supports_chip8]
    exact Instruction.Kind.not_mem_superChip hk
  | superChip => exact InstructionSet.supports_superChip i.kind

-- The flag registers belong to SUPER-CHIP alone.
theorem eq_superChip_of_supports {set : InstructionSet} {kind : Instruction.Kind}
    (h : set.supports kind = true) (hk : kind ∈ Instruction.Kind.superChip) :
    set = .superChip := by
  cases set with
  | chip8 => exact absurd hk ((InstructionSet.supports_chip8 kind).mp h)
  | superChip => rfl

theorem fails_of_refuses {opcode : UInt16} {i : Instruction} {fault : Fault}
    (hi : m.instruction? opcode = some i) (h : m.Refuses i fault) : m.Fails opcode fault := by
  obtain ⟨hdecode, hs⟩ := (m.instruction?_eq_some_iff opcode i).mp hi
  cases h with
  | overflow target h => exact .overflow target hdecode h
  | underflow h => exact .underflow hdecode h
  | saveFlags x h =>
    have hk : Instruction.Kind.saveFlags ∈ Instruction.Kind.superChip := by decide
    exact .noFlag x (.inl hdecode) (eq_superChip_of_supports hs hk) h
  | loadFlags x h =>
    have hk : Instruction.Kind.loadFlags ∈ Instruction.Kind.superChip := by decide
    exact .noFlag x (.inr hdecode) (eq_superChip_of_supports hs hk) h

theorem refuses_of_fails {opcode : UInt16} {i : Instruction} {fault : Fault}
    (hi : m.instruction? opcode = some i) (h : m.Fails opcode fault) : m.Refuses i fault := by
  obtain ⟨hdecode, hs⟩ := (m.instruction?_eq_some_iff opcode i).mp hi
  cases h with
  | unknown h => simp [h] at hdecode
  | unsupported known h hk hset =>
    have hnone := (m.instruction?_eq_none_iff opcode).mpr (.inr ⟨known, h, hk, hset⟩)
    simp [hnone] at hi
  | overflow target h hstack =>
    obtain rfl := Option.some.inj (h.symm.trans hdecode)
    exact .overflow target hstack
  | underflow h hstack =>
    obtain rfl := Option.some.inj (h.symm.trans hdecode)
    exact .underflow hstack
  | noFlag x h _ hx =>
    rcases h with h | h
    · obtain rfl := Option.some.inj (h.symm.trans hdecode)
      exact .saveFlags x hx
    · obtain rfl := Option.some.inj (h.symm.trans hdecode)
      exact .loadFlags x hx

theorem fails_iff_of_eq_none {opcode : UInt16} (h : m.instruction? opcode = none)
    (fault : Fault) :
    m.Fails opcode fault ↔ fault = .invalidOpcode opcode ((m.registers.pc - 2) % 4096) := by
  have hnone := (m.instruction?_eq_none_iff opcode).mp h
  constructor
  · intro hfails
    cases hfails with
    | unknown _ | unsupported _ _ _ _ => rfl
    | overflow _ hdecode _ | underflow hdecode _ =>
      simp [hdecode, Instruction.kind, Instruction.Kind.superChip] at hnone
    | noFlag x hdecode hs _ =>
      rcases hdecode with hdecode | hdecode <;> simp [hdecode, hs] at hnone
  · rintro rfl
    rcases hnone with hdecode | ⟨i, hdecode, hk, hs⟩
    · exact .unknown hdecode
    · exact .unsupported i hdecode hk hs

theorem fault_execute_iff (m : Machine) (opcode : UInt16) (fault : Fault) :
    (m.execute opcode).fault = some fault ↔ m.Fails opcode fault := by
  cases hi : m.instruction? opcode with
  | none =>
    rw [execute_of_eq_none hi, fails_iff_of_eq_none hi, fault_fail, Registers.preceding_eq_mod,
      Option.some.injEq, eq_comm]
  | some i =>
    rw [execute_of_eq_some hi, fault_perform_iff]
    exact ⟨fails_of_refuses hi, refuses_of_fails hi⟩

-- A failing instruction leaves the whole machine as it was.
theorem machine_execute_of_fault {opcode : UInt16} {fault : Fault}
    (h : (m.execute opcode).fault = some fault) : (m.execute opcode).machine = m := by
  cases hi : m.instruction? opcode with
  | none => rw [execute_of_eq_none hi, machine_fail]
  | some i =>
    rw [execute_of_eq_some hi] at h ⊢
    rw [perform_of_refuses ((m.fault_perform_iff i fault).mp h), machine_fail]

-- The machine that was fetched for.
def fetched (m : Machine) : Machine := m.jump (Registers.following m.registers.pc)

theorem step_eq_of_ne_empty (h : m.mode ≠ .empty) :
    m.step =
      let after := m.fetched.execute (m.memory.readWord m.registers.pc)
      match after.fault with
      | none => after
      | some fault => (after.machine.setMode .paused).fail fault := by
  rw [step, if_neg h]
  rfl

theorem fault_step_iff (h : m.mode ≠ .empty) (fault : Fault) :
    m.step.fault = some fault ↔
      m.fetched.Fails (m.memory.readWord m.registers.pc) fault := by
  rw [step_eq_of_ne_empty h, ← fault_execute_iff]
  simp only
  split
  case h_1 hnone => rw [hnone]
  case h_2 reason hsome => rw [hsome, fault_fail]

theorem machine_step_of_fault (h : m.mode ≠ .empty) {fault : Fault}
    (hfault : m.step.fault = some fault) : m.step.machine = m.fetched.setMode .paused := by
  rw [step_eq_of_ne_empty h] at hfault ⊢
  cases hexecute : (m.fetched.execute (m.memory.readWord m.registers.pc)).fault with
  | none => simp [hexecute] at hfault
  | some reason =>
    simp only
    rw [hexecute, machine_fail, machine_execute_of_fault hexecute]

theorem setMode_eq (m : Machine) (mode : Mode) :
    m.setMode mode =
      { m with mode, previousMode := if m.mode = mode then m.previousMode else m.mode } := by
  unfold setMode
  split
  case isTrue h =>
    subst h
    rfl
  case isFalse => rfl

theorem Fails.of_invalidOpcode {opcode unknown offset : UInt16}
    (h : m.Fails opcode (.invalidOpcode unknown offset)) :
    unknown = opcode ∧ offset = (m.registers.pc - 2) % 4096 := by
  cases h with
  | unknown _ | unsupported _ _ _ _ => exact ⟨rfl, rfl⟩

-- An instruction fails for just the reasons given and then changes nothing. A step that fails
-- has moved the program counter and pauses the machine, and an unknown opcode is reported with
-- where it lies.
theorem failure_exact_and_atomic (m : Machine) (opcode : UInt16) :
    (∀ fault, (m.execute opcode).fault = some fault ↔ m.Fails opcode fault) ∧
      (∀ fault, (m.execute opcode).fault = some fault → (m.execute opcode).machine = m) ∧
      (m.mode ≠ .empty → ∀ fault, m.step.fault = some fault →
        m.step.machine = { m with
          registers := { m.registers with pc := (m.registers.pc + 2) &&& 0xFFF }
          mode := .paused
          previousMode := if m.mode = .paused then m.previousMode else m.mode } ∧
        ∀ unknown offset, fault = .invalidOpcode unknown offset →
          unknown = m.memory.readWord m.registers.pc ∧ offset = m.registers.pc % 4096) := by
  refine ⟨m.fault_execute_iff opcode, fun _ => machine_execute_of_fault, ?_⟩
  intro hmode fault hfault
  refine ⟨?_, ?_⟩
  · rw [machine_step_of_fault hmode hfault, setMode_eq]
    rfl
  · rintro unknown offset rfl
    obtain ⟨hopcode, hoffset⟩ := ((fault_step_iff hmode _).mp hfault).of_invalidOpcode
    refine ⟨hopcode, hoffset.trans ?_⟩
    rw [← Registers.preceding_eq_mod]
    exact Registers.preceding_following m.registers.pc

-- A machine that runs without a program finds zeros, which encode nothing.
theorem paused_of_step_without_program :
    let m := (new (.standard 0)).setMode .run
    m.step.fault = some (.invalidOpcode 0 0x200) ∧ m.step.machine.mode = .paused ∧
      m.step.machine.registers.pc = 0x202 := by
  intro m
  have hword : m.memory.readWord m.registers.pc = 0 := by
    change Memory.powerOn.readWord 0x200 = 0
    rw [Memory.readWord, Memory.read_powerOn, Memory.read_powerOn]
    decide
  have hmode : m.mode ≠ .empty := by decide
  have hfault : m.step.fault = some (.invalidOpcode 0 0x200) := by
    rw [fault_step_iff hmode, hword]
    have hoffset : (m.fetched.registers.pc - 2) % 4096 = 0x200 := by decide
    rw [← hoffset]
    exact .unknown (by decide)
  obtain ⟨hmachine, -⟩ := (failure_exact_and_atomic m 0).2.2 hmode _ hfault
  have hpc : (m.registers.pc + 2) &&& 0xFFF = 0x202 := by decide
  exact ⟨hfault, by rw [hmachine], by rw [hmachine, ← hpc]⟩

end Machine

end Chip8
