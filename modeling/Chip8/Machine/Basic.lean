import Chip8.Breakpoints
import Chip8.Config
import Chip8.Fault
import Chip8.Memory
import Chip8.Random
import Chip8.Registers
import Chip8.Sound.Generator

namespace Chip8

inductive Mode
  -- no program is loaded
  | empty
  | run
  -- instructions are executed one at a time, on request
  | step
  | paused
deriving DecidableEq, Repr

-- What a program can reach, the devices around it and the settings it runs under.
structure Machine where
  registers : Registers
  memory : Memory
  programSize : Nat
  -- which keys are held
  keys : Vector Bool 16
  -- number of the key whose release a waiting instruction wants to see
  awaited : Option UInt8
  display : Display
  beeper : Beeper
  -- survive resets and programs
  flags : Vector UInt8 8
  random : Random
  -- the instructions that the machine accepts, as the settings say
  instructionSet : InstructionSet
  breakpoints : Breakpoints
  config : Config
  mode : Mode
  previousMode : Mode
  -- nanoseconds since the last instruction was due
  cycleTime : Nat
  -- nanoseconds since the last tick of the timers
  timerTime : Nat
  -- the clock at the last update
  updatedAt : Option Nat

namespace Machine

-- The bytes of a 64-bit number, lowest first.
def flagsOfWord (word : UInt64) : Vector UInt8 8 :=
  Vector.ofFn fun k => UInt8.ofNat (word.toNat >>> (8 * k.val))

-- The number whose lowest byte is flag 0.
def flagWord (m : Machine) : Nat :=
  m.flags.toList.foldr (fun flag word => flag.toNat + 256 * word) 0

def released : Vector Bool 16 := Vector.replicate 16 false

def new (config : Config) : Machine where
  registers := .powerOn
  memory := .powerOn
  programSize := 0
  keys := released
  awaited := none
  display := .new config.display
  beeper := .new config.sound.voice
  flags := flagsOfWord config.processor.flags
  random := .ofSeed config.processor.seed
  instructionSet := config.instructionSet
  breakpoints := .empty
  config
  mode := .empty
  previousMode := .empty
  cycleTime := 0
  timerTime := 0
  updatedAt := none

def setMode (m : Machine) (mode : Mode) : Machine :=
  if m.mode = mode then m else { m with mode, previousMode := m.mode }

-- Freezes a machine that runs or steps.
def pause (m : Machine) : Machine :=
  match m.mode with
  | .run | .step => m.setMode .paused
  | _ => m

-- Returns to the mode that the machine was paused from.
def resume (m : Machine) : Machine :=
  if m.mode = .paused then m.setMode m.previousMode else m

def setInstructionSet (m : Machine) (instructionSet : InstructionSet) : Machine :=
  { m with config := { m.config with instructionSet }, instructionSet }

def setDialect (m : Machine) (dialect : Dialect) : Machine :=
  { m with
    config := { m.config with dialect }
    display := m.display.setEdges dialect.horizontal dialect.vertical }

-- A changed seed starts its bytes from the first one. The flag registers stay as they are.
def setProcessor (m : Machine) (processor : Processor) : Machine :=
  { m with
    config := { m.config with processor }
    random :=
      if processor.seed = m.config.processor.seed then m.random else .ofSeed processor.seed }

-- A changed waveform starts from its beginning. Other changes take effect where the tone is.
def setSound (m : Machine) (sound : Sound) : Machine :=
  let beeper := (m.beeper.setLevel sound.voice.level).setFrequency sound.voice.frequency
  { m with
    config := { m.config with sound }
    beeper :=
      if beeper.voice.waveform = sound.voice.waveform then beeper
      else beeper.changeWaveform sound.voice.waveform }

def setGraphics (m : Machine) (graphics : Graphics) : Machine :=
  let config := { m.config with graphics }
  { m with config, display := m.display.setGraphics config.display.graphics }

def setKey (m : Machine) (key : Key) (held : Bool) : Machine :=
  { m with keys := m.keys.set key held key.isLt }

-- Power-on values for everything but the memory, the flags, the settings and the mode.
def reset (m : Machine) : Machine :=
  { m with
    registers := .powerOn
    keys := released
    awaited := none
    display := (m.display.setResolution .low).clear
    cycleTime := 0
    timerTime := 0 }

-- Copies a program into memory and resets the machine. One that does not fit changes nothing.
def load (m : Machine) (program : List UInt8) : Except Fault Machine :=
  if Memory.programCapacity < program.length then .error (.tooLarge program.length)
  else .ok
    { m with memory := m.memory.install program, programSize := program.length }.reset

-- Loads what was read from a file.
def loadFile (m : Machine) (content : Except Files.Error (List UInt8)) : Except Fault Machine :=
  match content with
  | .ok program => m.load program
  | .error cause => .error (.unreadable cause)

-- Removes the program and leaves the machine empty.
def unload (m : Machine) : Machine :=
  { m with memory := m.memory.install [], programSize := 0 }.reset.setMode .empty

-- The bytes of the loaded program.
def program (m : Machine) : List UInt8 :=
  m.memory.readMany (UInt16.ofNat Memory.programStart) m.programSize

end Machine

end Chip8
