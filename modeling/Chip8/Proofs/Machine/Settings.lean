import Chip8.Proofs.Machine.Stability
import Chip8.Proofs.Machine.Surroundings

namespace Chip8

-- What an operation makes of the configuration.
def Config.edit (c : Config) : Operation → Config
  | .setInstructionSet instructionSet => { c with instructionSet }
  | .setDialect dialect => { c with dialect }
  | .setProcessor processor => { c with processor }
  | .setSound sound => { c with sound }
  | .setGraphics graphics => { c with graphics }
  | _ => c

-- The operations that replace a part of the configuration.
def Operation.EditsConfig : Operation → Prop
  | .setInstructionSet _ | .setDialect _ | .setProcessor _ | .setSound _ | .setGraphics _ => True
  | _ => False

namespace Machine

-- The configuration, and what the parts of a machine keep of it.
structure Settings where
  config : Config
  display : Display.Settings
  instructionSet : InstructionSet
  voice : Voice

-- What the parts of a machine are to keep of a configuration.
def Settings.of (config : Config) : Settings :=
  ⟨config, config.display, config.instructionSet, config.sound.voice⟩

def settings (m : Machine) : Settings :=
  ⟨m.config, m.display.settings, m.instructionSet, m.beeper.voice⟩

variable {m : Machine}

theorem settings_perform (i : Instruction) : (m.perform i).machine.settings = m.settings := by
  by_cases hi : i = .exit
  · rw [hi, perform, machine_done, unload_eq]
    rfl
  · obtain ⟨registers, awaited, display, flags, random, h, hdisplay, -⟩ := machine_perform_eq hi
    rw [h, settings, settings, hdisplay]

-- A program has no way to its settings.
theorem untouched_settings : Untouched settings where
  perform _ i := settings_perform i
  fetched _ := rfl
  mode _ _ _ := rfl
  restarted _ _ _ := rfl

theorem config_step : m.step.machine.config = m.config :=
  congrArg Settings.config (untouched_settings.step m)

theorem settings_tick : m.tick.settings = m.settings :=
  congrArg (Settings.mk m.config · m.instructionSet m.beeper.voice) m.display.settings_animate

theorem settings_playTone : m.playTone.settings = m.settings := by
  unfold playTone
  split <;> rfl

theorem stable_settings (settings : Settings) : Stable (·.settings = settings) where
  mode _ _ h := h
  step {m} h := (untouched_settings.step m).trans h
  tick h := settings_tick.trans h
  playTone h := settings_playTone.trans h
  reset h := h
  cycleTime _ h := h
  timerTime _ h := h
  updatedAt _ h := h

theorem settings_apply_of_not_editsConfig {operation : Operation} (h : ¬operation.EditsConfig) :
    (m.apply operation).machine.settings = m.settings := by
  have hstable := stable_settings m.settings
  cases operation with
  | load program => exact untouched_settings.load m program
  | loadFile content => exact untouched_settings.loadFile m content
  | unload => exact untouched_settings.unload m
  | step => exact untouched_settings.step m
  | advance elapsed => exact hstable.advance rfl elapsed
  | update now => exact hstable.update rfl now
  | execute opcode => exact untouched_settings.execute m opcode
  | setMode mode => exact untouched_settings.setMode m mode
  | pause => exact hstable.pause rfl
  | resume => exact hstable.resume rfl
  | control pressed => exact hstable.control rfl pressed
  | reset | setKey _ _ | setBreakpoints _ => rfl
  | setInstructionSet _ | setDialect _ | setProcessor _ | setSound _ | setGraphics _ =>
    exact absurd trivial h

theorem config_apply (m : Machine) (operation : Operation) :
    (m.apply operation).machine.config = m.config.edit operation := by
  have hkept (h : ¬operation.EditsConfig) : (m.apply operation).machine.config = m.config :=
    congrArg Settings.config (settings_apply_of_not_editsConfig h)
  cases operation with
  | setInstructionSet _ | setDialect _ | setProcessor _ | setSound _ | setGraphics _ => rfl
  | _ => exact hkept id

theorem voice_setSound (m : Machine) (sound : Sound) :
    (m.setSound sound).beeper.voice = sound.voice := by
  unfold setSound
  simp only
  split
  case isTrue h => exact congrArg (Voice.mk · sound.voice.level sound.voice.frequency) h
  case isFalse => rfl

-- The edges come from the dialect and the rest of a display's settings from the graphics. Each of
-- the two operations keeps what the other one set.
theorem settings_apply {config : Config} (h : m.settings = .of config) (operation : Operation) :
    (m.apply operation).machine.settings = .of (config.edit operation) := by
  obtain ⟨rfl, hdisplay, hset, hvoice⟩ := Settings.mk.inj h
  cases operation with
  | setInstructionSet instructionSet =>
    change Settings.mk _ m.display.settings instructionSet m.beeper.voice = _
    rw [hdisplay, hvoice]
    rfl
  | setDialect dialect =>
    let edges := (m.display.setEdges dialect.horizontal dialect.vertical).settings
    have hedges : edges = { m.config with dialect }.display :=
      congrArg (Display.Settings.mk ·.graphics dialect.horizontal dialect.vertical) hdisplay
    change Settings.mk _ edges m.instructionSet m.beeper.voice = _
    rw [hedges, hset, hvoice]
    rfl
  | setProcessor processor =>
    change Settings.mk _ m.display.settings m.instructionSet m.beeper.voice = _
    rw [hdisplay, hset, hvoice]
    rfl
  | setSound sound =>
    change Settings.mk _ m.display.settings m.instructionSet (m.setSound sound).beeper.voice = _
    rw [hdisplay, hset, voice_setSound]
    rfl
  | setGraphics graphics =>
    change Settings.mk _ (m.display.setGraphics graphics.clamped).settings m.instructionSet
      m.beeper.voice = _
    rw [Display.settings_setGraphics, Graphics.clamped_clamped, hdisplay, hset, hvoice]
    rfl
  | _ => exact (settings_apply_of_not_editsConfig id).trans h

theorem settings_run {config : Config} (h : m.settings = .of config)
    (operations : List Operation) :
    (m.run operations).settings = .of (operations.foldl Config.edit config) := by
  induction operations generalizing m config with
  | nil => exact h
  | cons operation rest ih => exact ih (settings_apply h operation)

-- All that such an operation reaches.
theorem apply_of_editsConfig (m : Machine) {operation : Operation} (h : operation.EditsConfig) :
    ∃ display instructionSet beeper random, m.apply operation = done
      { m with
        config := m.config.edit operation
        display, instructionSet, beeper, random } ∧
      display.resolution = m.display.resolution ∧ ∀ p, display.lit p = m.display.lit p := by
  cases operation with
  | setInstructionSet _ | setDialect _ | setProcessor _ | setSound _ =>
    exact ⟨_, _, _, _, rfl, rfl, fun _ => rfl⟩
  | setGraphics graphics =>
    exact ⟨_, _, _, _, rfl, m.display.resolution_setGraphics _, m.display.lit_setGraphics _⟩
  | _ => exact h.elim

-- After any run the configuration is the one that its edits make, and the display, the
-- instructions and the tone are what it says, with a scale and a fade speed of one where it asks
-- for none. An edit reaches no register, memory, clock, mode or flag, and every pixel stays as it
-- was.
theorem parts_follow_config :
    (∀ (config : Config) (operations : List Operation),
      let m := (new config).run operations
      m.config = operations.foldl Config.edit config ∧
        m.display.settings = m.config.display ∧
        1 ≤ m.display.settings.graphics.scale ∧ 1 ≤ m.display.settings.graphics.fadeSpeed ∧
        m.instructionSet = m.config.instructionSet ∧
        (∀ kind, m.instructionSet.supports kind = true ↔ kind ∈ m.config.instructionSet.kinds) ∧
        (∀ opcode i, m.instruction? opcode = some i ↔
          Opcode.decode opcode = some i ∧ i.kind ∈ m.config.instructionSet.kinds) ∧
        m.beeper.voice = m.config.sound.voice) ∧
      ∀ (m : Machine) (operation : Operation), operation.EditsConfig →
        ∃ display instructionSet beeper random, m.apply operation = done
          { m with
            config := m.config.edit operation
            display, instructionSet, beeper, random } ∧
          display.resolution = m.display.resolution ∧ ∀ p, display.lit p = m.display.lit p := by
  refine ⟨fun config operations => ?_, fun m operation h => m.apply_of_editsConfig h⟩
  intro m
  have hsettings : m.settings = .of (operations.foldl Config.edit config) := settings_run rfl _
  obtain ⟨hconfig, hdisplay, hset, hvoice⟩ := Settings.mk.inj hsettings
  rw [← hconfig] at hdisplay hset hvoice
  have hkinds (kind : Instruction.Kind) :
      m.instructionSet.supports kind = true ↔ kind ∈ m.config.instructionSet.kinds := by
    rw [hset]
    exact decide_eq_true_iff
  refine ⟨hconfig, hdisplay, ?_, ?_, hset, hkinds, fun opcode i => ?_, hvoice⟩
  · rw [hdisplay]
    exact m.config.graphics.one_le_scale_clamped
  · rw [hdisplay]
    exact m.config.graphics.one_le_fadeSpeed_clamped
  · rw [m.instruction?_eq_some_iff, hkinds]

-- Every part is set once, some of it to nothing at all, while a program runs.
theorem parts_follow_edits :
    let graphics : Graphics := { Graphics.standard with scale := 0, grid := true, fadeSpeed := 0 }
    let dialect : Dialect := { Dialect.standard with horizontal := .wrap }
    let operations : List Operation :=
      [.setDialect dialect, .load [0x60, 0x05], .setMode .run, .setGraphics graphics,
        .setSound ⟨true, ⟨.sine, -3.0, 220⟩⟩, .advance 20000000, .setInstructionSet .superChip]
    let m := (new (.standard 0)).run operations
    m.config.graphics.scale = 0 ∧
      m.display.settings = ⟨{ graphics with scale := 1, fadeSpeed := 1 }, .wrap, .clip⟩ ∧
      m.instruction? 0x00FD = some .exit ∧ m.beeper.voice = ⟨.sine, -3.0, 220⟩ ∧
      (Operation.setGraphics graphics).EditsConfig ∧
      ((new (.standard 0)).apply (.setGraphics graphics)).machine.registers = .powerOn := by
  intro graphics dialect operations m
  obtain ⟨hconfig, hdisplay, -, -, -, -, hinstruction, hvoice⟩ :=
    parts_follow_config.1 (.standard 0) operations
  obtain ⟨_, _, _, _, hedit, -⟩ :=
    parts_follow_config.2 (new (.standard 0)) (.setGraphics graphics) trivial
  refine ⟨?_, ?_, ?_, ?_, trivial, ?_⟩
  · rw [hconfig]
    rfl
  · rw [hdisplay, hconfig]
    rfl
  · rw [hinstruction, hconfig]
    exact ⟨by decide, by decide⟩
  · rw [hvoice, hconfig]
    rfl
  · rw [hedit]
    rfl

end Machine

end Chip8
