import Chip8.CommandLine.Level
import Chip8.Config
import Chip8.Files.Path
import Chip8.Text.Integer

namespace Chip8.CommandLine

-- How much is written to the log.
inductive Verbosity
  | info
  | debug
  | trace
  | warn
  | error
deriving DecidableEq, Repr

-- What `run` is told. The seed is drawn from the clock if none is given.
structure RunSettings where
  path : Option String
  config : Config
  seed : Option UInt64
  verbosity : Option Verbosity

structure DisassembleSettings where
  path : Option String
  output : Option String
  verbosity : Option Verbosity

inductive Command
  | run (path : Files.Path) (settings : RunSettings)
  | disassemble (path : Files.Path) (output : Option Files.Path)

def RunSettings.standard : RunSettings := ⟨none, .standard 0, none, none⟩

-- The configuration, where the clock stands in for a seed that was not given.
def RunSettings.configAt (s : RunSettings) (clock : UInt64) : Config :=
  let processor := { s.config.processor with seed := s.seed.getD clock }
  { s.config with processor }

def DisassembleSettings.standard : DisassembleSettings := ⟨none, none, none⟩

def readPath (text : String) : Except UsageError String :=
  if text.isEmpty then .error .invalidValue else .ok text

def readOneOf {α : Type} (table : List (String × α)) (text : String) : Except UsageError α :=
  match table.lookup text with
  | some value => .ok value
  | none => .error .invalidValue

def readNumber (low high : Nat) (text : String) : Except UsageError Nat :=
  match Text.Integer.readBetween? low high text.toList with
  | some n => .ok n
  | none => .error .unreadableValue

def readSeed (text : String) : Except UsageError UInt64 :=
  match Text.Integer.readNat? text.toList with
  | some n => if n < UInt64.size then .ok (UInt64.ofNat n) else .error .unreadableValue
  | none => .error .unreadableValue

def readColor (text : String) : Except UsageError Color :=
  match Color.ofText? text with
  | some color => .ok color
  | none => .error .unreadableValue

def verbosities : List (String × Verbosity) :=
  [("info", .info), ("debug", .debug), ("trace", .trace), ("warn", .warn), ("error", .error)]

def layouts : List (String × Layout) := [("original", .literal), ("modern", .modern)]

section Parameters

variable {σ α : Type}

-- An option whose value is read and then put into the settings.
def valued (name : String) (letter : Option Char) (read : String → Except UsageError α)
    (put : α → σ → σ) : Parameter σ :=
  ⟨name, letter, .value fun text settings => do return put (← read text) settings⟩

def helpParameter : Parameter σ := ⟨"help", some 'h', .answer .help⟩

def verbosityParameter (put : Verbosity → σ → σ) : Parameter σ :=
  valued "debug" (some 'd') (readOneOf verbosities) put

end Parameters

namespace RunSettings

def editProcessor (f : Processor → Processor) (s : RunSettings) : RunSettings :=
  { s with config := { s.config with processor := f s.config.processor } }

def editGraphics (f : Graphics → Graphics) (s : RunSettings) : RunSettings :=
  { s with config := { s.config with graphics := f s.config.graphics } }

def editDialect (f : Dialect → Dialect) (s : RunSettings) : RunSettings :=
  { s with config := { s.config with dialect := f s.config.dialect } }

def processorFlag (name : String) (f : Processor → Processor) : Parameter RunSettings :=
  ⟨name, none, .flag (editProcessor f)⟩

def graphicsFlag (name : String) (f : Graphics → Graphics) : Parameter RunSettings :=
  ⟨name, none, .flag (editGraphics f)⟩

def dialectFlag (name : String) (f : Dialect → Dialect) : Parameter RunSettings :=
  ⟨name, none, .flag (editDialect f)⟩

def parameters : List (Parameter RunSettings) := [
  valued "ips" none (readNumber 0 (UInt32.size - 1)) fun n =>
    editProcessor ({ · with cyclesPerSecond := UInt32.ofNat n }),
  processorFlag "uncap" ({ · with uncapped := true }),
  valued "seed" none readSeed fun seed s => { s with seed := some seed },
  ⟨"schip", none, .flag fun s =>
    { s with config := { s.config with instructionSet := .superChip } }⟩,
  dialectFlag "jump-vx" ({ · with jumpFromV0 := false }),
  dialectFlag "wrap-x" ({ · with horizontal := .wrap }),
  dialectFlag "wrap-y" ({ · with vertical := .wrap }),
  dialectFlag "vf-reset" ({ · with logicClearsFlag := true }),
  dialectFlag "shift-vx" ({ · with shiftCopiesY := false }),
  dialectFlag "keep-i" ({ · with transferAdvances := false }),
  dialectFlag "lores-8x16" ({ · with narrowTallSprite := true }),
  valued "on-color" none readColor fun color => editGraphics ({ · with on := color }),
  valued "off-color" none readColor fun color => editGraphics ({ · with off := color }),
  valued "scale" none (readNumber 1 255) fun n => editGraphics ({ · with scale := n }),
  graphicsFlag "grid" ({ · with grid := true }),
  graphicsFlag "fade" ({ · with fade := true }),
  valued "fade-speed" none (readNumber 0 255) fun n =>
    editGraphics ({ · with fadeSpeed := UInt8.ofNat n }),
  ⟨"mute", none, .flag fun s =>
    { s with config := { s.config with sound := { s.config.sound with enabled := false } } }⟩,
  valued "layout" none (readOneOf layouts) fun layout s =>
    { s with config := { s.config with layout } },
  verbosityParameter fun verbosity s => { s with verbosity := some verbosity },
  helpParameter]

def level : Level RunSettings where
  parameters := parameters
  positional := some fun text s => do return { s with path := some (← readPath text) }
  subcommands := []

end RunSettings

namespace DisassembleSettings

def parameters : List (Parameter DisassembleSettings) := [
  valued "output-file" (some 'o') readPath fun output s => { s with output := some output },
  verbosityParameter fun verbosity s => { s with verbosity := some verbosity },
  helpParameter]

def level : Level DisassembleSettings where
  parameters := parameters
  positional := some fun text s => do return { s with path := some (← readPath text) }
  subcommands := []

end DisassembleSettings

namespace Command

def names : List String := ["run", "disassemble", "help"]

def topLevel : Level (Option Verbosity) where
  parameters := [
    verbosityParameter fun verbosity _ => some verbosity,
    helpParameter,
    ⟨"version", some 'V', .answer .version⟩]
  positional := none
  subcommands := names

-- `help` may name one command.
def readHelp (words : List String) : UsageError :=
  match words with
  | [] => .help
  | [name] => if name ∈ names then .help else .invalidSubcommand
  | _ => .invalidSubcommand

def readRun (words : List String) : Except UsageError Command := do
  let settings ← RunSettings.level.readAll words .standard
  match settings.path with
  | some path => return .run ⟨path⟩ settings
  | none => throw .missingArgument

def readDisassemble (words : List String) : Except UsageError Command := do
  let settings ← DisassembleSettings.level.readAll words .standard
  match settings.path with
  | some path => return .disassemble ⟨path⟩ (settings.output.map .mk)
  | none => throw .missingArgument

-- The words of a subcommand are judged before what is still pending in front of it.
def read (words : List String) : Except UsageError Command := do
  let (p, subcommand) ← topLevel.read words (.start none)
  match subcommand with
  | some ("run", rest) => do
    let command ← readRun rest
    let _ ← p.resolve
    return command
  | some ("disassemble", rest) => do
    let command ← readDisassemble rest
    let _ ← p.resolve
    return command
  | some (_, rest) => throw (readHelp rest)
  | none => do
    let p ← p.resolve
    throw (if p.given.isEmpty then .helpOnMissing else .missingSubcommand)

end Command

end Chip8.CommandLine
