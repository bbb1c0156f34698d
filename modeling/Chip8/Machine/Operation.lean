import Chip8.Machine.Controls

namespace Chip8

inductive Operation
  | load (program : List UInt8)
  | loadFile (content : Except Files.Error (List UInt8))
  | unload
  | reset
  | step
  | advance (elapsed : Nat)
  | update (now : Nat)
  | execute (opcode : UInt16)
  | setMode (mode : Mode)
  | pause
  | resume
  | setInstructionSet (instructionSet : InstructionSet)
  | setDialect (dialect : Dialect)
  | setProcessor (processor : Processor)
  | setSound (sound : Sound)
  | setGraphics (graphics : Graphics)
  | setKey (key : Key) (held : Bool)
  | setBreakpoints (breakpoints : Breakpoints)
  | control (pressed : List HostKey)

namespace Machine

-- A result that keeps the machine where it failed.
def orKeep (m : Machine) (result : Except Fault Machine) : Outcome :=
  match result with
  | .ok after => after.done
  | .error fault => m.fail fault

def apply (m : Machine) : Operation → Outcome
  | .load program => m.orKeep (m.load program)
  | .loadFile content => m.orKeep (m.loadFile content)
  | .unload => m.unload.done
  | .reset => m.reset.done
  | .step => m.step
  | .advance elapsed => m.advance elapsed
  | .update now => m.update now
  | .execute opcode => m.execute opcode
  | .setMode mode => done (m.setMode mode)
  | .pause => m.pause.done
  | .resume => m.resume.done
  | .setInstructionSet instructionSet => done (m.setInstructionSet instructionSet)
  | .setDialect dialect => done (m.setDialect dialect)
  | .setProcessor processor => done (m.setProcessor processor)
  | .setSound sound => done (m.setSound sound)
  | .setGraphics graphics => done (m.setGraphics graphics)
  | .setKey key held => done (m.setKey key held)
  | .setBreakpoints breakpoints => { m with breakpoints }.done
  | .control pressed => done (m.control pressed)

-- The machine after a run of operations, failing ones included.
def run (m : Machine) (operations : List Operation) : Machine :=
  operations.foldl (fun m operation => (m.apply operation).machine) m

-- Applies an operation up to `count` times and stops at the first failure. The machines after
-- each time come with it, the failing one included.
def applyTimes (operation : Operation) : Nat → Machine → List Machine × Outcome
  | 0, m => ([], m.done)
  | count + 1, m =>
    let after := m.apply operation
    match after.fault with
    | some _ => ([after.machine], after)
    | none =>
      let (machines, last) := applyTimes operation count after.machine
      (after.machine :: machines, last)

-- Executes opcodes until one fails. The number of those that succeeded comes with it.
def executeAll : List UInt16 → Machine → Nat × Outcome
  | [], m => (0, m.done)
  | opcode :: rest, m =>
    let after := m.execute opcode
    match after.fault with
    | some _ => (0, after)
    | none =>
      let (succeeded, last) := executeAll rest after.machine
      (succeeded + 1, last)

end Machine

end Chip8
