import Chip8.Display.Lemmas
import Chip8.Proofs.Machine.Executions

namespace Chip8

-- All that an instruction can tell one dialect or instruction set from another by.
structure Toggles where
  dialect : Dialect
  -- the instruction set that the settings name
  named : InstructionSet
  -- the one in force
  instructionSet : InstructionSet
  -- the edges as the display has them
  horizontal : Edge
  vertical : Edge
deriving DecidableEq

-- The instructions that SUPER-CHIP adds, and the sprite without a height, which it draws tall.
def Instruction.VariesWithSet (i : Instruction) : Prop :=
  i.kind ∈ Kind.superChip ∨ ∃ x y, i = .draw x y 0

namespace Display

theorem foldl_touch_setEdges (ps : List Point) (d : Display) (horizontal vertical : Edge) :
    ps.foldl touch (d.setEdges horizontal vertical) =
      (ps.foldl touch d).setEdges horizontal vertical := by
  induction ps generalizing d with
  | nil => rfl
  | cons p ps ih => exact ih (d.touch p)

-- Only sprites see the edges.
theorem animate_setEdges (d : Display) (horizontal vertical : Edge) :
    (d.setEdges horizontal vertical).animate = d.animate.setEdges horizontal vertical := by
  have hfading : (d.setEdges horizontal vertical).isFading = d.isFading := rfl
  unfold animate
  rw [hfading]
  split
  case isTrue =>
    have hfold := foldl_touch_setEdges d.fading.keys d horizontal vertical
    simp only [setEdges] at hfold ⊢
    rw [hfold]
  case isFalse => rfl

theorem setGraphics_setEdges (d : Display) (g : Graphics) (horizontal vertical : Edge) :
    (d.setEdges horizontal vertical).setGraphics g =
      (d.setGraphics g).setEdges horizontal vertical := by
  simp only [setGraphics, setFade]
  cases g.fade <;> rfl

end Display

namespace Machine

def toggles (m : Machine) : Toggles where
  dialect := m.config.dialect
  named := m.config.instructionSet
  instructionSet := m.instructionSet
  horizontal := m.display.settings.horizontal
  vertical := m.display.settings.vertical

-- The machine that differs in its toggles alone.
def withToggles (m : Machine) (t : Toggles) : Machine :=
  { m with
    config := { m.config with dialect := t.dialect, instructionSet := t.named }
    instructionSet := t.instructionSet
    display := m.display.setEdges t.horizontal t.vertical }

-- The instructions to which it matters that a toggle of the machine is another one.
inductive Sensitive (m : Machine) (t : Toggles) : Instruction → Prop
  | jumpOffset (x : Register) (base : UInt16)
    (h : m.config.dialect.jumpFromV0 ≠ t.dialect.jumpFromV0) : Sensitive m t (.jumpOffset x base)
  | horizontal (x y : Register) (height : Fin 16)
    (h : m.display.settings.horizontal ≠ t.horizontal) : Sensitive m t (.draw x y height)
  | vertical (x y : Register) (height : Fin 16)
    (h : m.display.settings.vertical ≠ t.vertical) : Sensitive m t (.draw x y height)
  | logic (x y : Register) (i : Instruction) (hi : i = .or x y ∨ i = .and x y ∨ i = .xor x y)
    (h : m.config.dialect.logicClearsFlag ≠ t.dialect.logicClearsFlag) : Sensitive m t i
  | shift (x y : Register) (i : Instruction) (hi : i = .shiftRight x y ∨ i = .shiftLeft x y)
    (h : m.config.dialect.shiftCopiesY ≠ t.dialect.shiftCopiesY) : Sensitive m t i
  | transfer (x : Register) (i : Instruction)
    (hi : i = .saveRegisters x ∨ i = .loadRegisters x)
    (h : m.config.dialect.transferAdvances ≠ t.dialect.transferAdvances) : Sensitive m t i
  | tallSprite (x y : Register) (hresolution : m.display.resolution = .low)
    (hset : m.instructionSet = .superChip)
    (h : m.config.dialect.narrowTallSprite ≠ t.dialect.narrowTallSprite) :
    Sensitive m t (.draw x y 0)
  | instructionSet (i : Instruction) (hi : i.VariesWithSet)
    (h : m.instructionSet ≠ t.instructionSet) : Sensitive m t i

end Machine

-- Whether the opcode encodes an instruction that depends on a toggle in which the machine differs.
def Execution.Sensitive (e : Execution) (t : Toggles) : Prop :=
  ∃ i, Opcode.decode e.opcode = some i ∧ e.machine.Sensitive t i

def Outcome.withToggles (o : Outcome) (t : Toggles) : Outcome :=
  { o with machine := o.machine.withToggles t }

-- All operations but those that set toggles.
def Operation.KeepsToggles : Operation → Prop
  | .setDialect _ | .setInstructionSet _ => False
  | _ => True

namespace Machine

variable {m : Machine} {t : Toggles}

theorem withToggles_toggles (m : Machine) : m.withToggles m.toggles = m := rfl

theorem not_sensitive_toggles (m : Machine) (i : Instruction) : ¬m.Sensitive m.toggles i := by
  intro h
  cases h with
  | jumpOffset | horizontal | vertical | logic | shift | transfer | tallSprite | instructionSet =>
    contradiction

-- Only the instruction set differs.
theorem variesWithSet_of_sensitive {set : InstructionSet} {i : Instruction}
    (h : m.Sensitive { m.toggles with named := set, instructionSet := set } i) :
    i.VariesWithSet := by
  cases h with
  | instructionSet _ hi _ => exact hi
  | jumpOffset | horizontal | vertical | logic | shift | transfer | tallSprite => contradiction

-- The kinds of the instructions that can depend on a toggle.
def toggledKinds : List Instruction.Kind :=
  [.jumpOffset, .draw, .or, .and, .xor, .shiftRight, .shiftLeft, .saveRegisters, .loadRegisters]
    ++ Instruction.Kind.superChip

theorem kind_of_sensitive {i : Instruction} (h : m.Sensitive t i) : i.kind ∈ toggledKinds := by
  cases h with
  | jumpOffset | horizontal | vertical | tallSprite => simp [toggledKinds, Instruction.kind]
  | logic x y _ hi _ =>
    rcases hi with rfl | rfl | rfl <;> simp [toggledKinds, Instruction.kind]
  | shift x y _ hi _ | transfer x _ hi _ =>
    rcases hi with rfl | rfl <;> simp [toggledKinds, Instruction.kind]
  | instructionSet _ hi _ =>
    rcases hi with hi | ⟨x, y, rfl⟩
    · exact List.mem_append_right _ hi
    · simp [toggledKinds, Instruction.kind]

theorem setMode_withToggles (m : Machine) (t : Toggles) (mode : Mode) :
    (m.withToggles t).setMode mode = (m.setMode mode).withToggles t := by
  rw [setMode_eq, setMode_eq]
  rfl

theorem unload_withToggles (m : Machine) (t : Toggles) :
    (m.withToggles t).unload = m.unload.withToggles t := by
  unfold unload
  rw [setMode_eq, setMode_eq]
  rfl

theorem logic_withToggles (h : m.config.dialect.logicClearsFlag = t.dialect.logicClearsFlag)
    (f : UInt8 → UInt8 → UInt8) (x y : Register) :
    (m.withToggles t).logic f x y = (m.logic f x y).withToggles t := by
  have htoggle : (m.withToggles t).config.dialect.logicClearsFlag =
      m.config.dialect.logicClearsFlag := h.symm
  unfold logic
  rw [htoggle]
  split <;> rfl

theorem shiftSource_withToggles (h : m.config.dialect.shiftCopiesY = t.dialect.shiftCopiesY)
    (x y : Register) : (m.withToggles t).shiftSource x y = m.shiftSource x y := by
  have htoggle : (m.withToggles t).config.dialect.shiftCopiesY =
      m.config.dialect.shiftCopiesY := h.symm
  unfold shiftSource
  rw [htoggle]
  rfl

theorem shiftRight_withToggles (h : m.config.dialect.shiftCopiesY = t.dialect.shiftCopiesY)
    (x y : Register) : (m.withToggles t).shiftRight x y = (m.shiftRight x y).withToggles t := by
  simp only [shiftRight, shiftSource_withToggles h]
  rfl

theorem shiftLeft_withToggles (h : m.config.dialect.shiftCopiesY = t.dialect.shiftCopiesY)
    (x y : Register) : (m.withToggles t).shiftLeft x y = (m.shiftLeft x y).withToggles t := by
  simp only [shiftLeft, shiftSource_withToggles h]
  rfl

theorem advanceAddress_withToggles
    (h : m.config.dialect.transferAdvances = t.dialect.transferAdvances) (count : Nat) :
    (m.withToggles t).advanceAddress count = (m.advanceAddress count).withToggles t := by
  have htoggle : (m.withToggles t).config.dialect.transferAdvances =
      m.config.dialect.transferAdvances := h.symm
  unfold advanceAddress
  rw [htoggle]
  split <;> rfl

theorem readKey_withToggles (m : Machine) (t : Toggles) (x : Register) :
    (m.withToggles t).readKey x = (m.readKey x).withToggles t := by
  have hawaited : (m.withToggles t).awaited = m.awaited := rfl
  unfold readKey
  rw [hawaited]
  cases m.awaited with
  | none => rfl
  | some number =>
    simp only
    rw [apply_ite (withToggles · t)]
    rfl

-- Of the toggles a sprite depends on the instruction set and on the dialect, where it is tall.
theorem spriteAt_withToggles {height : Fin 16} (position : Point)
    (hset : height = 0 → m.instructionSet = t.instructionSet)
    (hnarrow : height = 0 → m.instructionSet = .superChip → m.display.resolution = .low →
      m.config.dialect.narrowTallSprite = t.dialect.narrowTallSprite) :
    (m.withToggles t).spriteAt position height = m.spriteAt position height := by
  have hinstructionSet : (m.withToggles t).instructionSet = t.instructionSet := rfl
  have hresolution : (m.withToggles t).display.resolution = m.display.resolution := rfl
  have hdialect : (m.withToggles t).config.dialect = t.dialect := rfl
  unfold spriteAt
  by_cases hheight : height = 0
  · rw [hinstructionSet, ← hset hheight, hresolution, hdialect]
    by_cases hsuper : m.instructionSet = .superChip
    · by_cases hlow : m.display.resolution = .low
      · rw [← hnarrow hheight hsuper hlow]
        rfl
      · simp only [hlow, false_and, if_false]
        rfl
    · simp only [hsuper, and_false, if_false]
      rfl
  · simp only [hheight, false_and, if_false]
    rfl

theorem draw_withToggles {x y : Register} {height : Fin 16}
    (h : ¬m.Sensitive t (.draw x y height)) :
    (m.withToggles t).draw x y height = (m.draw x y height).withToggles t := by
  have hhorizontal : m.display.settings.horizontal = t.horizontal :=
    Decidable.byContradiction fun hne => h (.horizontal x y height hne)
  have hvertical : m.display.settings.vertical = t.vertical :=
    Decidable.byContradiction fun hne => h (.vertical x y height hne)
  have hsame {d : Display} (hd : d.settings = m.display.settings) :
      d.setEdges t.horizontal t.vertical = d := by
    rw [← hhorizontal, ← hvertical, ← hd]
    rfl
  have hdisplay : (m.withToggles t).display = m.display := hsame rfl
  have hsprite (position : Point) :
      (m.withToggles t).spriteAt position height = m.spriteAt position height := by
    refine spriteAt_withToggles position (fun hheight => ?_) fun hheight hset hlow => ?_
    · subst hheight
      exact Decidable.byContradiction fun hne => h (.instructionSet _ (.inr ⟨x, y, rfl⟩) hne)
    · subst hheight
      exact Decidable.byContradiction fun hne => h (.tallSprite x y hlow hset hne)
  have hdrawn (s : Sprite) := hsame (m.display.settings_draw s)
  unfold draw
  simp only [hsprite, hdisplay]
  simp only [withToggles, hdrawn]
  rfl

theorem perform_withToggles {i : Instruction} (h : ¬m.Sensitive t i) :
    (m.withToggles t).perform i = (m.perform i).withToggles t := by
  cases i with
  | exit => exact congrArg done (m.unload_withToggles t)
  | ret =>
    have hstack : (m.withToggles t).registers.stack = m.registers.stack := rfl
    simp only [perform, ret, hstack]
    split <;> rfl
  | call target =>
    simp only [perform, call]
    rw [apply_ite (Outcome.withToggles · t)]
    rfl
  | or x y =>
    have hlogic := Decidable.byContradiction fun hne => h (.logic x y _ (.inl rfl) hne)
    exact congrArg done (logic_withToggles hlogic _ x y)
  | and x y =>
    have hlogic := Decidable.byContradiction fun hne => h (.logic x y _ (.inr (.inl rfl)) hne)
    exact congrArg done (logic_withToggles hlogic _ x y)
  | xor x y =>
    have hlogic := Decidable.byContradiction fun hne => h (.logic x y _ (.inr (.inr rfl)) hne)
    exact congrArg done (logic_withToggles hlogic _ x y)
  | shiftRight x y =>
    have hshift := Decidable.byContradiction fun hne => h (.shift x y _ (.inl rfl) hne)
    exact congrArg done (shiftRight_withToggles hshift x y)
  | shiftLeft x y =>
    have hshift := Decidable.byContradiction fun hne => h (.shift x y _ (.inr rfl) hne)
    exact congrArg done (shiftLeft_withToggles hshift x y)
  | jumpOffset x base =>
    have hjump := Decidable.byContradiction fun hne => h (.jumpOffset x base hne)
    have htoggle : (m.withToggles t).config.dialect.jumpFromV0 =
      m.config.dialect.jumpFromV0 := hjump.symm
    simp only [perform, htoggle]
    rfl
  | draw x y height => exact congrArg done (draw_withToggles h)
  | readKey x => exact congrArg done (m.readKey_withToggles t x)
  | saveRegisters x =>
    have htransfer := Decidable.byContradiction fun hne => h (.transfer x _ (.inl rfl) hne)
    exact congrArg done
      (advanceAddress_withToggles (m := m.writeAtAddress (m.firstRegisters x)) htransfer _)
  | loadRegisters x =>
    have htransfer := Decidable.byContradiction fun hne => h (.transfer x _ (.inr rfl) hne)
    exact congrArg done (advanceAddress_withToggles
      (m := m.setFirst (m.memory.readMany m.registers.address (x + 1))) htransfer _)
  | saveFlags x =>
    simp only [perform, saveFlags]
    rw [apply_ite (Outcome.withToggles · t)]
    rfl
  | loadFlags x =>
    simp only [perform, loadFlags]
    rw [apply_ite (Outcome.withToggles · t)]
    rfl
  | _ => rfl

theorem instruction?_withToggles {opcode : UInt16} (h : ¬(Execution.mk m opcode).Sensitive t) :
    (m.withToggles t).instruction? opcode = m.instruction? opcode := by
  have hset : (m.withToggles t).instructionSet = t.instructionSet := rfl
  rw [instruction?, instruction?, hset]
  cases hi : Opcode.decode opcode with
  | none => rfl
  | some i =>
    have hsupports : t.instructionSet.supports i.kind = m.instructionSet.supports i.kind := by
      by_cases hk : i.kind ∈ Instruction.Kind.superChip
      · rw [Decidable.byContradiction fun hne => h ⟨i, hi, .instructionSet i (.inl hk) hne⟩]
      · have hall (set : InstructionSet) : set.supports i.kind = true := by
          rw [← Bool.not_eq_false, InstructionSet.supports_eq_false_iff]
          exact fun hboth => hk hboth.1
        rw [hall, hall]
    simp only [Option.filter_some, hsupports]

theorem execute_withToggles {opcode : UInt16} (h : ¬(Execution.mk m opcode).Sensitive t) :
    (m.withToggles t).execute opcode = (m.execute opcode).withToggles t := by
  have hinstruction := instruction?_withToggles h
  cases hi : m.instruction? opcode with
  | none =>
    rw [execute_of_eq_none hi, execute_of_eq_none (hinstruction.trans hi)]
    rfl
  | some i =>
    rw [execute_of_eq_some hi, execute_of_eq_some (hinstruction.trans hi)]
    have hdecode := ((m.instruction?_eq_some_iff opcode i).mp hi).1
    exact perform_withToggles fun hi => h ⟨i, hdecode, hi⟩

theorem step_withToggles (h : ∀ e ∈ m.stepExecutions, ¬e.Sensitive t) :
    (m.withToggles t).step = m.step.withToggles t := by
  by_cases hm : m.mode = .empty
  · rw [step, step, if_pos hm]
    exact if_pos hm
  · rw [stepExecutions, if_neg hm, List.forall_mem_singleton] at h
    have hexecute : (m.withToggles t).fetched.execute (m.withToggles t).nextOpcode =
        (m.fetched.execute m.nextOpcode).withToggles t := execute_withToggles h
    have hfault := congrArg Outcome.fault hexecute
    cases hf : (m.fetched.execute m.nextOpcode).fault with
    | none =>
      rw [step_of_fault_eq_none hm hf,
        step_of_fault_eq_none (m := m.withToggles t) hm (hfault.trans hf), hexecute]
    | some fault =>
      rw [step_of_fault_eq_some hm hf,
        step_of_fault_eq_some (m := m.withToggles t) hm (hfault.trans hf)]
      exact congrArg (·.fail fault) (m.fetched.setMode_withToggles t .paused)

-- The timers and the clocks know nothing of toggles.

theorem ticks_withToggles (count : Nat) (m : Machine) (t : Toggles) :
    ticks count (m.withToggles t) = (ticks count m).withToggles t := by
  induction count generalizing m with
  | zero => rfl
  | succ count ih =>
    have htick : (m.withToggles t).tick = m.tick.withToggles t := by
      have hdisplay := m.display.animate_setEdges t.horizontal t.vertical
      simp only [tick, withToggles, hdisplay]
    rw [ticks_succ, ticks_succ, htick, ih]

theorem passTime_withToggles (m : Machine) (t : Toggles) (elapsed : Nat) :
    (m.withToggles t).passTime elapsed = (m.passTime elapsed).withToggles t := by
  unfold passTime
  exact ticks_withToggles _ { m with timerTime := (m.timerTime + elapsed) % tickPeriod } t

theorem playTone_withToggles (m : Machine) (t : Toggles) :
    (m.withToggles t).playTone = m.playTone.withToggles t := by
  unfold playTone
  rw [apply_ite (withToggles · t)]
  rfl

theorem cycle_withToggles {elapsed : Nat} (h : ∀ e ∈ m.cycleExecutions elapsed, ¬e.Sensitive t) :
    (m.withToggles t).cycle elapsed = (m.cycle elapsed).withToggles t := by
  unfold cycle
  by_cases hdue : { m with cycleTime := m.cycleTime + elapsed }.isCycleDue = true
  · have hdue' : { m.withToggles t with
        cycleTime := (m.withToggles t).cycleTime + elapsed }.isCycleDue = true := hdue
    rw [if_pos hdue, if_pos hdue']
    by_cases hbreak : m.breakpoints.has m.registers.pc = true
    · have hbreak' : (m.withToggles t).breakpoints.has (m.withToggles t).registers.pc = true :=
        hbreak
      rw [if_pos hbreak, if_pos hbreak']
      exact congrArg done (setMode_withToggles { m with cycleTime := 0 } t .step)
    · have hbreak' : ¬(m.withToggles t).breakpoints.has (m.withToggles t).registers.pc = true :=
        hbreak
      rw [if_neg hbreak, if_neg hbreak']
      rw [cycleExecutions, if_pos ⟨hdue, hbreak⟩] at h
      exact step_withToggles (m := { m with cycleTime := 0 }) h
  · have hdue' : ¬{ m.withToggles t with
        cycleTime := (m.withToggles t).cycleTime + elapsed }.isCycleDue = true := hdue
    rw [if_neg hdue, if_neg hdue']
    rfl

theorem advance_withToggles {elapsed : Nat}
    (h : ∀ e ∈ m.advanceExecutions elapsed, ¬e.Sensitive t) :
    (m.withToggles t).advance elapsed = (m.advance elapsed).withToggles t := by
  have hmode : (m.withToggles t).mode = m.mode := rfl
  unfold advance
  rw [hmode]
  cases hm : m.mode with
  | empty => rfl
  | run =>
    rw [advanceExecutions, if_pos hm] at h
    rw [cycle_withToggles h]
    obtain ⟨after, fault⟩ := m.cycle elapsed
    cases fault with
    | none =>
      simp only [Outcome.withToggles, passTime_withToggles, playTone_withToggles]
      rfl
    | some fault => rfl
  | step | paused =>
    simp only [passTime_withToggles, playTone_withToggles]
    rfl

theorem orKeep_withToggles {result result' : Except Fault Machine}
    (h : result' = result.map (·.withToggles t)) :
    (m.withToggles t).orKeep result' = (m.orKeep result).withToggles t := by
  subst h
  cases result <;> rfl

theorem load_withToggles (m : Machine) (t : Toggles) (program : List UInt8) :
    (m.withToggles t).load program = (m.load program).map (·.withToggles t) := by
  unfold load
  split <;> rfl

theorem pause_withToggles (m : Machine) (t : Toggles) :
    (m.withToggles t).pause = m.pause.withToggles t := by
  have hmode : (m.withToggles t).mode = m.mode := rfl
  unfold pause
  rw [hmode]
  cases m.mode with
  | run | step => exact m.setMode_withToggles t .paused
  | empty | paused => rfl

theorem resume_withToggles (m : Machine) (t : Toggles) :
    (m.withToggles t).resume = m.resume.withToggles t := by
  have hmode : (m.withToggles t).mode = m.mode := rfl
  unfold resume
  rw [hmode]
  split
  · exact m.setMode_withToggles t m.previousMode
  · rfl

theorem continueRunning_withToggles (h : ∀ e ∈ m.stepExecutions, ¬e.Sensitive t) :
    (m.withToggles t).continueRunning = m.continueRunning.withToggles t := by
  unfold continueRunning
  rw [step_withToggles h]
  simp only [Outcome.withToggles]
  cases m.step.fault with
  | some fault => rfl
  | none =>
    have hmode : (m.step.machine.withToggles t).mode = m.step.machine.mode := rfl
    simp only [hmode]
    split
    · exact m.step.machine.setMode_withToggles t .run
    · rfl

theorem pressSpace_withToggles (h : ∀ e ∈ m.spaceExecutions, ¬e.Sensitive t) :
    (m.withToggles t).pressSpace = m.pressSpace.withToggles t := by
  have hmode : (m.withToggles t).mode = m.mode := rfl
  unfold pressSpace
  rw [hmode]
  cases hm : m.mode with
  | run => exact m.pause_withToggles t
  | paused => exact m.resume_withToggles t
  | step =>
    rw [spaceExecutions, if_pos hm] at h
    exact continueRunning_withToggles h
  | empty => rfl

theorem pressTab_withToggles (h : ∀ e ∈ m.tabExecutions, ¬e.Sensitive t) :
    (m.withToggles t).pressTab = m.pressTab.withToggles t := by
  have hmode : (m.withToggles t).mode = m.mode := rfl
  unfold pressTab
  rw [hmode]
  cases hm : m.mode with
  | step | paused =>
    rw [tabExecutions, if_pos (by simp [hm])] at h
    exact congrArg Outcome.machine (step_withToggles h)
  | empty | run => rfl

theorem control_withToggles {pressed : List HostKey}
    (h : ∀ e ∈ m.controlExecutions pressed, ¬e.Sensitive t) :
    (m.withToggles t).control pressed = (m.control pressed).withToggles t := by
  simp only [controlExecutions, List.forall_mem_append] at h
  obtain ⟨hspace, htab⟩ := h
  have hspaced : (if "Space" ∈ pressed then (m.withToggles t).pressSpace else m.withToggles t) =
      (if "Space" ∈ pressed then m.pressSpace else m).withToggles t := by
    split
    case isTrue hpressed =>
      rw [if_pos hpressed] at hspace
      exact pressSpace_withToggles hspace
    case isFalse => rfl
  unfold control
  rw [hspaced]
  generalize (if "Space" ∈ pressed then m.pressSpace else m) = spaced at htab ⊢
  have htabbed : (if "Tab" ∈ pressed then (spaced.withToggles t).pressTab
      else spaced.withToggles t) =
        (if "Tab" ∈ pressed then spaced.pressTab else spaced).withToggles t := by
    split
    case isTrue hpressed =>
      rw [if_pos hpressed] at htab
      exact pressTab_withToggles htab
    case isFalse => rfl
  simp only [htabbed]
  split <;> rfl

theorem apply_withToggles {operation : Operation} (hkeeps : operation.KeepsToggles)
    (h : ∀ e ∈ m.executions operation, ¬e.Sensitive t) :
    (m.withToggles t).apply operation = (m.apply operation).withToggles t := by
  cases operation with
  | load program => exact orKeep_withToggles (m.load_withToggles t program)
  | loadFile content =>
    refine orKeep_withToggles ?_
    cases content with
    | ok program => exact m.load_withToggles t program
    | error cause => rfl
  | unload => exact congrArg done (m.unload_withToggles t)
  | step => exact step_withToggles h
  | advance elapsed => exact advance_withToggles h
  | update now => exact advance_withToggles (m := { m with updatedAt := some now }) h
  | execute opcode => exact execute_withToggles (h _ (List.mem_singleton_self _))
  | setMode mode => exact congrArg done (m.setMode_withToggles t mode)
  | pause => exact congrArg done (m.pause_withToggles t)
  | resume => exact congrArg done (m.resume_withToggles t)
  | setGraphics graphics =>
    have hdisplay := m.display.setGraphics_setEdges graphics.clamped t.horizontal t.vertical
    exact congrArg (fun display => done { (m.setGraphics graphics).withToggles t with display })
      hdisplay
  | control pressed => exact congrArg done (control_withToggles h)
  | setDialect _ | setInstructionSet _ => exact hkeeps.elim
  | reset | setProcessor _ | setSound _ | setKey _ _ | setBreakpoints _ => rfl

-- What is executed is executed under the toggles of the machine.

theorem toggles_of_mem_stepExecutions {e : Execution} (he : e ∈ m.stepExecutions) :
    e.machine.toggles = m.toggles := by
  unfold stepExecutions at he
  split at he
  · cases he
  · rw [List.mem_singleton.mp he]
    rfl

theorem toggles_of_mem_advanceExecutions {elapsed : Nat} {e : Execution}
    (he : e ∈ m.advanceExecutions elapsed) : e.machine.toggles = m.toggles := by
  unfold advanceExecutions cycleExecutions at he
  split at he
  · split at he
    · exact toggles_of_mem_stepExecutions (m := { m with cycleTime := 0 }) he
    · cases he
  · cases he

theorem toggles_of_mem_spaceExecutions {e : Execution} (he : e ∈ m.spaceExecutions) :
    e.machine.toggles = m.toggles := by
  unfold spaceExecutions at he
  split at he
  · exact toggles_of_mem_stepExecutions he
  · cases he

theorem toggles_of_mem_tabExecutions {e : Execution} (he : e ∈ m.tabExecutions) :
    e.machine.toggles = m.toggles := by
  unfold tabExecutions at he
  split at he
  · exact toggles_of_mem_stepExecutions he
  · cases he

theorem not_sensitive_of_toggles_eq {e : Execution} (h : e.machine.toggles = m.toggles) :
    ¬e.Sensitive m.toggles := by
  rintro ⟨i, -, hi⟩
  rw [← h] at hi
  exact e.machine.not_sensitive_toggles i hi

theorem toggles_pressSpace (m : Machine) : m.pressSpace.toggles = m.toggles := by
  have hspace := pressSpace_withToggles (m := m) (t := m.toggles) fun e he =>
    not_sensitive_of_toggles_eq (toggles_of_mem_spaceExecutions he)
  rw [withToggles_toggles] at hspace
  rw [hspace]
  rfl

theorem toggles_of_mem_controlExecutions {pressed : List HostKey} {e : Execution}
    (he : e ∈ m.controlExecutions pressed) : e.machine.toggles = m.toggles := by
  simp only [controlExecutions, List.mem_append] at he
  rcases he with he | he
  · split at he
    · exact toggles_of_mem_spaceExecutions he
    · cases he
  · split at he
    · rw [toggles_of_mem_tabExecutions he]
      split
      · exact m.toggles_pressSpace
      · rfl
    · cases he

theorem toggles_of_mem_executions {operation : Operation} {e : Execution}
    (he : e ∈ m.executions operation) : e.machine.toggles = m.toggles := by
  cases operation with
  | step => exact toggles_of_mem_stepExecutions he
  | advance elapsed => exact toggles_of_mem_advanceExecutions he
  | update now => exact toggles_of_mem_advanceExecutions (m := { m with updatedAt := some now }) he
  | execute opcode => rw [List.mem_singleton.mp he]
  | control pressed => exact toggles_of_mem_controlExecutions he
  | _ => cases he

-- No other operation sets a toggle.
theorem toggles_apply {operation : Operation} (hkeeps : operation.KeepsToggles) :
    (m.apply operation).machine.toggles = m.toggles := by
  have hsame := apply_withToggles (t := m.toggles) hkeeps fun e he =>
    not_sensitive_of_toggles_eq (toggles_of_mem_executions he)
  rw [withToggles_toggles] at hsame
  rw [hsame]
  rfl

theorem toggles_of_mem_trace {operations : List Operation}
    (hkeeps : ∀ operation ∈ operations, operation.KeepsToggles) {o : Outcome}
    (ho : o ∈ m.trace operations) : o.machine.toggles = m.toggles := by
  induction operations generalizing m with
  | nil => cases ho
  | cons operation rest ih =>
    rw [List.forall_mem_cons] at hkeeps
    have hfirst := toggles_apply (m := m) hkeeps.1
    rcases List.mem_cons.mp ho with rfl | ho
    · exact hfirst
    · exact (ih hkeeps.2 ho).trans hfirst

theorem toggles_of_mem_history {operations : List Operation}
    (hkeeps : ∀ operation ∈ operations, operation.KeepsToggles) {e : Execution}
    (he : e ∈ m.history operations) : e.machine.toggles = m.toggles := by
  induction operations generalizing m with
  | nil => cases he
  | cons operation rest ih =>
    rw [List.forall_mem_cons] at hkeeps
    rw [history, List.mem_append] at he
    rcases he with he | he
    · exact toggles_of_mem_executions he
    · exact (ih hkeeps.2 he).trans (toggles_apply hkeeps.1)

theorem trace_withToggles {operations : List Operation}
    (hkeeps : ∀ operation ∈ operations, operation.KeepsToggles)
    (h : ∀ e ∈ m.history operations, ¬e.Sensitive t) :
    (m.withToggles t).trace operations = (m.trace operations).map (·.withToggles t) := by
  induction operations generalizing m with
  | nil => rfl
  | cons operation rest ih =>
    rw [List.forall_mem_cons] at hkeeps
    rw [history, List.forall_mem_append] at h
    rw [trace, trace, List.map_cons, apply_withToggles hkeeps.1 h.1]
    exact congrArg (_ :: ·) (ih hkeeps.2 h.2)

-- A machine that differs in its toggles alone does the same and goes on to differ in them alone,
-- for as long as nothing is executed that depends on one in which it differs. So programs that
-- know nothing of SUPER-CHIP do not notice it.
theorem trace_differs_in_toggles_only (m : Machine) {operations : List Operation}
    (hkeeps : ∀ operation ∈ operations, operation.KeepsToggles) :
    (∀ o ∈ m.trace operations, o.machine.toggles = m.toggles) ∧
      (∀ t : Toggles, (∀ e ∈ m.history operations, ¬e.Sensitive t) →
        (m.withToggles t).trace operations = (m.trace operations).map (·.withToggles t)) ∧
      ((∀ e ∈ m.history operations, ∀ i, Opcode.decode e.opcode = some i → ¬i.VariesWithSet) →
        (m.setInstructionSet .superChip).trace operations =
          (m.trace operations).map fun o => ⟨o.machine.setInstructionSet .superChip, o.fault⟩) := by
  refine ⟨fun o => toggles_of_mem_trace hkeeps, fun t => trace_withToggles hkeeps, fun h => ?_⟩
  let t : Toggles := { m.toggles with named := .superChip, instructionSet := .superChip }
  have hinsensitive : ∀ e ∈ m.history operations, ¬e.Sensitive t := by
    rintro e he ⟨i, hi, hsensitive⟩
    simp only [t, ← toggles_of_mem_history hkeeps he] at hsensitive
    exact h e he i hi (variesWithSet_of_sensitive hsensitive)
  refine (trace_withToggles hkeeps hinsensitive).trans (List.map_congr_left fun o ho => ?_)
  simp only [t, ← toggles_of_mem_trace hkeeps ho]
  rfl

-- Two additions, a key and a tick, under toggles of which every one differs.
theorem additions_keep_to_toggles :
    let m := (new (.standard 0)).run [.load [0x71, 0x05], .setMode .step]
    let operations : List Operation :=
      [.setKey 5 true, .execute 0x8124, .pause, .advance 20000000, .resume, .step]
    let t : Toggles :=
      { dialect := ⟨false, .wrap, .wrap, true, false, false, true⟩
        named := .superChip
        instructionSet := .superChip
        horizontal := .wrap
        vertical := .wrap }
    (∀ operation ∈ operations, operation.KeepsToggles) ∧
      (∀ e ∈ m.history operations, ¬e.Sensitive t) ∧
      (m.history operations).map (·.opcode) = [0x8124, 0x7105] ∧
      (m.withToggles t).trace operations = (m.trace operations).map (·.withToggles t) := by
  intro m operations t
  have hkeeps : ∀ operation ∈ operations, operation.KeepsToggles := by
    simp [operations, Operation.KeepsToggles]
  have hword : (Memory.powerOn.install [0x71, 0x05]).readWord 0x200 = 0x7105 := by
    rw [Memory.readWord, Memory.read_install_of_le _ _ (by decide),
      Memory.read_install_of_le _ _ (by decide)]
    decide
  have hopcodes : (m.history operations).map (·.opcode) = [0x8124, 0x7105] := by
    simp only [m, operations]
    rw [← hword]
    rfl
  have hplain : ∀ e ∈ m.history operations, ¬e.Sensitive t := by
    rintro e he ⟨i, hi, hsensitive⟩
    have hkind := kind_of_sensitive hsensitive
    have hadd : Opcode.decode 0x8124 = some (.add 1 2) := by decide
    have haddByte : Opcode.decode 0x7105 = some (.addByte 1 5) := by decide
    have hopcode : e.opcode ∈ [0x8124, 0x7105] := hopcodes ▸ List.mem_map_of_mem he
    simp only [List.mem_cons, List.not_mem_nil, or_false] at hopcode
    rcases hopcode with hopcode | hopcode
    · rw [hopcode, hadd] at hi
      cases hi
      exact absurd hkind (by decide)
    · rw [hopcode, haddByte] at hi
      cases hi
      exact absurd hkind (by decide)
  exact ⟨hkeeps, hplain, hopcodes,
    (trace_differs_in_toggles_only m hkeeps).2.1 t hplain⟩

end Machine

end Chip8
