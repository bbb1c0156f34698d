import Chip8.Proofs.Display.Afterglow
import Chip8.Proofs.Display.Scrolling
import Chip8.Proofs.Machine.Clock
import Chip8.Proofs.Machine.Settings
import Chip8.Proofs.Machine.WellFormed

namespace Chip8

namespace Display

variable {d d' : Display}

theorem rows_clear (d : Display) :
    d.clear.rows = List.replicate d.rows.length ⟨0, ⟨0, d.width⟩⟩ := by
  have hrow : Row.touchAll d.width ∘ Row.clear = fun _ => ⟨0, ⟨0, d.width⟩⟩ := rfl
  rw [← List.map_const', ← hrow, ← List.map_map]
  rfl

-- Which rows wait can be told from the rows.
theorem Tracked.pending_eq (h : d.Tracked) (h' : d'.Tracked) (hrows : d'.rows = d.rows) :
    d'.pending = d.pending := by
  refine Std.ExtTreeSet.ext_mem fun y => ?_
  rw [h'.mem_pending_iff, h.mem_pending_iff, hrows]

theorem Cropped.fading_setResolution (h : d.Cropped) :
    (d.setResolution d.resolution).fading = d.fading := by
  refine Std.ExtTreeMap.ext_getElem? fun p => Option.ext fun color => ?_
  refine (d.glowAt_setResolution_eq_some_iff d.resolution p color).trans ?_
  refine and_iff_left_of_imp fun hglow => (d.contains_iff_resolution p).mp ?_
  exact h.contains_of_glowAt (Option.ne_none_iff_exists'.mpr ⟨color, hglow⟩)

-- Only what was lit begins to glow.
theorem Cropped.fading_clear_of_dark (h : d.Cropped) (hdark : ∀ p, d.lit p = false) :
    d.clear.fading = d.fading := by
  have hnone : d.litPoints = [] := by
    refine List.eq_nil_iff_forall_not_mem.mpr fun p hp => ?_
    obtain ⟨row, hrow, hlit⟩ := mem_litPoints hp
    have hp : d.lit p = true := by
      rw [h.lit_eq_any, hrow]
      exact hlit
    rw [hdark] at hp
    cases hp
  simp only [clear, hnone, List.foldl_nil, ite_self]
  rfl

-- What a reset makes of a display.
def restart (d : Display) : Display := (d.setResolution .low).clear

namespace WellFormed

variable (h : d.WellFormed)

include h

theorem restart : d.restart.WellFormed :=
  (wellFormed_setResolution h.fading_eq_empty .low).clear

-- It is a new one but for what still glows.
theorem restart_eq : d.restart = { new d.settings with fading := d.restart.fading } := by
  have hrows : d.restart.rows = (new d.settings).rows := by
    rw [Display.restart, rows_clear, length_rows_setResolution]
    rfl
  have hpending : d.restart.pending = (new d.settings).pending :=
    (wellFormed_new d.settings).toTracked.pending_eq h.restart.toTracked hrows
  calc d.restart
      = { d.restart with rows := (new d.settings).rows, pending := (new d.settings).pending } := by
        rw [← hrows, ← hpending]
    _ = { new d.settings with fading := d.restart.fading } := rfl

theorem fading_restart_of_dark (hlow : d.resolution = .low) (hdark : ∀ p, d.lit p = false) :
    d.restart.fading = d.fading := by
  have hcropped := wellFormed_setResolution h.fading_eq_empty .low
  have hstill (p : Point) : (d.setResolution .low).lit p = false := by
    refine Bool.eq_false_iff.mpr fun hlit => ?_
    have hlit := ((h.lit_setResolution_iff .low p).mp hlit).1
    rw [hdark] at hlit
    cases hlit
  calc d.restart.fading
      = (d.setResolution .low).fading := hcropped.fading_clear_of_dark hstill
    _ = d.fading := by rw [← hlow, h.fading_setResolution]

theorem restart_restart : d.restart.restart = d.restart := by
  have hglow : d.restart.restart.fading = d.restart.fading :=
    h.restart.fading_restart_of_dark rfl (lit_clear _)
  rw [h.restart.restart_eq, hglow]
  exact h.restart_eq.symm

end WellFormed

theorem restart_new (settings : Settings) : (new settings).restart = new settings := by
  have hnew := wellFormed_new settings
  have hdark (p : Point) : (new settings).lit p = false := by
    have hrestart : (new settings).restart.lit p = (new settings).lit p := by
      rw [hnew.restart_eq]
      rfl
    rw [← hrestart, restart, lit_clear]
  rw [hnew.restart_eq, hnew.fading_restart_of_dark rfl hdark]
  rfl

theorem dirtyLines_clear (h : d.Cropped) :
    d.clear.dirtyLines = (List.range d.height).map fun y => ⟨y, ⟨0, d.width⟩⟩ :=
  dirtyLines_touchAll ((List.length_map _).trans h.length_rows) h.pending_lt

end Display

namespace Machine

-- All that a machine is switched on with, whatever its settings are.
structure PoweredOn (m : Machine) : Prop where
  pc : m.registers.pc = 0x200
  address : m.registers.address = 0
  delay : m.registers.delay = 255
  sound : m.registers.sound = 0
  get : ∀ x, m.get x = 0
  stack : m.registers.stack = []
  released : ∀ key, m.isHeld key = false
  awaited : m.awaited = none
  resolution : m.display.resolution = .low
  dark : ∀ p, m.display.lit p = false
  dirtyLines : m.display.dirtyLines = (List.range 32).map fun y => ⟨y, ⟨0, 64⟩⟩
  isChanged : m.display.isChanged = true
  cycleTime : m.cycleTime = 0
  timerTime : m.timerTime = 0

-- The display is well-formed and is set as the configuration says.
structure InStep (m : Machine) : Prop where
  wellFormed : m.display.WellFormed
  settings_eq : m.display.settings = m.config.display

-- The machines agree in all that a reset keeps, apart from the clock.
structure SameKept (m m' : Machine) : Prop where
  memory : m'.memory = m.memory
  programSize : m'.programSize = m.programSize
  flags : m'.flags = m.flags
  random : m'.random = m.random
  breakpoints : m'.breakpoints = m.breakpoints
  beeper : m'.beeper = m.beeper
  config : m'.config = m.config
  instructionSet : m'.instructionSet = m.instructionSet
  mode : m'.mode = m.mode
  previousMode : m'.previousMode = m.previousMode

-- A new machine that was handed all that a reset keeps.
def renewed (m : Machine) : Machine :=
  { new m.config with
    memory := m.memory
    programSize := m.programSize
    flags := m.flags
    random := m.random
    breakpoints := m.breakpoints
    beeper := m.beeper
    instructionSet := m.instructionSet
    mode := m.mode
    previousMode := m.previousMode
    updatedAt := m.updatedAt }

-- What happens to a machine on show: an operation, or that its dirty rows are handed over.
inductive Event
  | operate (operation : Operation)
  | handOver

def meet (m : Machine) : Event → Machine
  | .operate operation => (m.apply operation).machine
  | .handOver => { m with display := m.display.settle }

def undergo (m : Machine) (events : List Event) : Machine := events.foldl meet m

variable {m m' : Machine}

theorem run_eq_undergo (m : Machine) (operations : List Operation) :
    m.run operations = m.undergo (operations.map .operate) := by
  rw [undergo, List.foldl_map]
  rfl

-- The machine is well-formed and all of its parts are in step with its configuration.
structure Consistent (m : Machine) : Prop where
  wellFormed : m.WellFormed
  settings_eq : m.settings = .of m.config

namespace Consistent

theorem new (config : Config) : (Machine.new config).Consistent :=
  ⟨wellFormed_new config, rfl⟩

-- Handing rows over reaches neither the size nor the settings of the display.
theorem meet (h : m.Consistent) (event : Event) : (m.meet event).Consistent := by
  cases event with
  | operate operation =>
    refine ⟨h.wellFormed.apply operation, ?_⟩
    change (m.apply operation).machine.settings = .of (m.apply operation).machine.config
    rw [config_apply]
    exact settings_apply h.settings_eq operation
  | handOver => exact ⟨h.wellFormed.showOn h.wellFormed.display.settle, h.settings_eq⟩

theorem undergo (h : m.Consistent) (events : List Event) : (m.undergo events).Consistent :=
  List.foldlRecOn (motive := Consistent) events Machine.meet h
    (fun _ hm event _ => hm.meet event)

theorem inStep (h : m.Consistent) : m.InStep :=
  ⟨h.wellFormed.display, congrArg Settings.display h.settings_eq⟩

end Consistent

theorem inStep_undergo (config : Config) (events : List Event) :
    ((new config).undergo events).InStep :=
  ((Consistent.new config).undergo events).inStep

theorem sameKept_reset (m : Machine) : m.SameKept m.reset :=
  ⟨rfl, rfl, rfl, rfl, rfl, rfl, rfl, rfl, rfl, rfl⟩

theorem poweredOn_reset (h : m.display.WellFormed) : m.reset.PoweredOn where
  pc := rfl
  address := rfl
  delay := rfl
  sound := rfl
  get _ := Vector.getElem_replicate _
  stack := rfl
  released _ := Vector.getElem_replicate _
  awaited := rfl
  resolution := rfl
  dark := Display.lit_clear _
  dirtyLines := Display.dirtyLines_clear
    (Display.wellFormed_setResolution h.fading_eq_empty .low).toCropped
  isChanged := rfl
  cycleTime := rfl
  timerTime := rfl

-- A machine that nothing has happened to has nothing to forget.
theorem reset_new (config : Config) : (new config).reset = new config :=
  congrArg (fun display => { new config with display }) (Display.restart_new config.display)

theorem reset_reset (h : m.display.WellFormed) : m.reset.reset = m.reset :=
  congrArg (fun display => { m.reset with display }) h.restart_restart

theorem InStep.reset_eq (h : m.InStep) :
    m.reset = { m.renewed with
      display := { m.renewed.display with fading := m.reset.display.fading } } := by
  have hdisplay : m.reset.display =
      { Display.new m.config.display with fading := m.reset.display.fading } := by
    rw [← h.settings_eq]
    exact h.wellFormed.restart_eq
  calc m.reset
      = { m.reset with display := m.reset.display } := rfl
    _ = { m.reset with
          display := { Display.new m.config.display with fading := m.reset.display.fading } } := by
        rw [← hdisplay]

theorem renewed_withClock_eq (h : m.SameKept m') (clock : Option Nat) :
    m'.renewed.withClock clock = m.renewed.withClock clock := by
  simp only [renewed, withClock, h.memory, h.programSize, h.flags, h.random, h.breakpoints,
    h.beeper, h.config, h.instructionSet, h.mode, h.previousMode]

-- Without fading nothing is left but what is kept.
theorem InStep.reset_eq_of_fade (h : m.InStep) (hfade : m.config.graphics.fade = false) :
    m.reset = { m.renewed with display := { m.renewed.display with fading := ∅ } } := by
  have hfading : m.reset.display.fading = ∅ := by
    apply h.wellFormed.restart.fading_eq_empty
    change m.display.settings.graphics.fade = false
    rw [h.settings_eq]
    exact hfade
  rw [← hfading]
  exact h.reset_eq

theorem InStep.reset_withClock_eq (h : m.InStep) (h' : m'.InStep) (hkept : m.SameKept m')
    (hfade : m.config.graphics.fade = false) (clock : Option Nat) :
    m'.reset.withClock clock = m.reset.withClock clock := by
  have hfade' : m'.config.graphics.fade = false := hkept.config ▸ hfade
  rw [h.reset_eq_of_fade hfade, h'.reset_eq_of_fade hfade']
  exact congrArg (fun m => { m with display := { m.display with fading := ∅ } })
    (renewed_withClock_eq hkept clock)

-- A reset leaves a machine as if it were just switched on, keeps the parts that it is to keep and
-- has nothing to do a second time. But for glows that is a new machine which was handed those
-- parts. So two machines that agree in them and do not fade are one after a reset, but for their
-- clocks: whatever follows, with the same time passing, does the same to both. All that this asks
-- of a machine holds of a new one, whatever happens to it.
theorem reset_forgets_all_but_kept :
    (∀ config, (new config).PoweredOn) ∧
    (∀ config events, ((new config).undergo events).InStep) ∧
    (∀ config operations, ((new config).run operations).InStep) ∧
    (∀ m : Machine, m.InStep →
      m.reset.PoweredOn ∧ m.SameKept m.reset ∧ m.reset.reset = m.reset ∧
        m.reset = { m.renewed with
          display := { m.renewed.display with fading := m.reset.display.fading } }) ∧
    ∀ m m' : Machine, m.InStep → m'.InStep → m.SameKept m' → m.config.graphics.fade = false →
      m'.reset.withClock none = m.reset.withClock none ∧
        ∀ later later', Operation.timedAll m'.updatedAt later' =
            Operation.timedAll m.updatedAt later →
          (m'.reset.trace later').map (·.withClock none) =
            (m.reset.trace later).map (·.withClock none) := by
  refine ⟨?_, inStep_undergo, ?_, ?_, ?_⟩
  · intro config
    rw [← reset_new]
    exact poweredOn_reset (wellFormed_new config).display
  · intro config operations
    rw [run_eq_undergo]
    exact inStep_undergo config (operations.map .operate)
  · intro m h
    exact ⟨poweredOn_reset h.wellFormed, m.sameKept_reset, reset_reset h.wellFormed, h.reset_eq⟩
  · intro m m' h h' hkept hfade
    have hreset := h.reset_withClock_eq h' hkept hfade none
    refine ⟨hreset, fun later later' htimed => ?_⟩
    calc (m'.reset.trace later').map (·.withClock none)
        = (m'.reset.withClock none).trace (Operation.timedAll m'.updatedAt later') :=
          (m'.reset.trace_timedAll none later').symm
      _ = (m.reset.withClock none).trace (Operation.timedAll m.updatedAt later) := by
          rw [hreset, htimed]
      _ = (m.reset.trace later).map (·.withClock none) := m.reset.trace_timedAll none later

-- One machine waits for the key that is held, and its picture was shown meanwhile. The other one
-- jumped away. After a reset both of them see another key held and wait for that one, although
-- their clocks are far apart.
theorem wait_forgotten_by_reset :
    let m := (new (.standard 0)).undergo [.operate (.setKey 3 true), .handOver,
      .operate (.execute 0xF00A), .operate (.update 100)]
    let m' := (new (.standard 0)).run [.execute 0x6A07, .execute 0x1300, .update 7000]
    let waiting : List Operation := [.setMode .run, .setKey 5 true, .execute 0xF00A]
    m.awaited = some 3 ∧ m'.awaited = none ∧ m'.registers.pc = 0x300 ∧
      m.display.isChanged = false ∧ m.reset.PoweredOn ∧
      (m'.reset.trace (waiting ++ [.update 7050])).map (·.withClock none) =
        (m.reset.trace (waiting ++ [.update 150])).map (·.withClock none) := by
  intro m m' waiting
  have hkept : m.SameKept m' := ⟨rfl, rfl, rfl, rfl, rfl, rfl, rfl, rfl, rfl, rfl⟩
  obtain ⟨-, hshown, hrun, hreset, hsame⟩ := reset_forgets_all_but_kept
  obtain ⟨-, htraces⟩ := hsame m m' (hshown _ _) (hrun _ _) hkept rfl
  exact ⟨rfl, rfl, rfl, rfl, (hreset m (hshown _ _)).1, htraces _ _ rfl⟩

end Machine

end Chip8
