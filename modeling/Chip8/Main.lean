import Chip8.CommandLine.Program
import Chip8.Machine.Advance

namespace Chip8.CommandLine

def usage : String :=
  "usage: chip8 [-d LEVEL] run PATH [OPTIONS]\n" ++
  "       chip8 [-d LEVEL] disassemble PATH [-o FILE]\n" ++
  "       chip8 help [COMMAND]"

def version : String := "chip8 0.1.0"

-- Some functions of the system give error codes with a minus sign.
def codeOf (code : UInt32) : Nat := code.toInt32.toInt.natAbs

def errorOf : IO.Error → Files.Error
  | .noFileOrDirectory .. => .notFound
  | .alreadyExists .. => .alreadyExists
  | .inappropriateType _ code _ => if codeOf code = 20 then .notDirectory else .isDirectory
  | .invalidArgument _ code _ => if codeOf code = 36 then .tooLong else .nullCharacter
  | .permissionDenied _ code _ => .other "Permission denied" (codeOf code)
  | e => .other (toString e) 0

def guarded {α : Type} (action : IO α) : IO (Except Files.Error α) := do
  try return .ok (← action)
  catch e => return .error (errorOf e)

instance : Files.Store IO where
  read p := guarded do return (← IO.FS.readBinFile p.text).toList
  write p content := guarded (IO.FS.writeBinFile p.text ⟨content.toArray⟩)
  makeDirectory p := guarded (IO.FS.createDir p.text)
  isDirectory p := do
    try (← IO.FS.realPath p.text).isDir
    catch _ => return false

-- One line a row, a block for a lit pixel.
def picture (d : Display) : String :=
  let row (y : Nat) := String.ofList
    ((List.range d.width).map fun x => if d.lit ⟨x, y⟩ then '█' else ' ')
  "\n".intercalate ((List.range d.height).map row)

-- Runs a machine in real time until it stops, and shows its picture whenever it changes.
def live (machine : Machine) : IO Unit := do
  let mut m := machine
  while m.mode == .run do
    let after := m.update (← IO.monoNanosNow)
    m := after.machine
    if let some fault := after.fault then IO.eprintln fault.message
    if m.display.isChanged then
      IO.println (picture m.display)
      m := { m with display := m.display.settle }
    IO.sleep 1

def runCommand (command : Command) : IO UInt32 := do
  let clock ← IO.monoNanosNow
  match ← (command.carryOut (UInt64.ofNat clock)).run with
  | .ok none => return 0
  | .ok (some machine) =>
    live machine
    return 0
  | .error failure =>
    IO.eprintln failure.message
    return 1

end Chip8.CommandLine

def main (words : List String) : IO UInt32 := do
  match Chip8.CommandLine.Command.read words with
  | .ok command => Chip8.CommandLine.runCommand command
  | .error e =>
    match e with
    | .help => IO.println Chip8.CommandLine.usage
    | .version => IO.println Chip8.CommandLine.version
    | _ => IO.eprintln Chip8.CommandLine.usage
    return UInt32.ofNat e.exitCode
