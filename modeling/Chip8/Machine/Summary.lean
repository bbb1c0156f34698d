import Chip8.Machine.Basic

namespace Chip8

def Mode.name : Mode → String
  | empty => "Empty"
  | run => "Run"
  | step => "Step"
  | paused => "Paused"

def InstructionSet.name : InstructionSet → String
  | chip8 => "None"
  | superChip => "Schip"

namespace Machine

def listText (numbers : List Nat) : String :=
  "[" ++ ", ".intercalate (numbers.map toString) ++ "]"

-- One line, for whoever debugs a program. The stack is listed from its oldest entry.
def summary (m : Machine) : String :=
  let r := m.registers
  "Vm \x7b pc: " ++ Text.Hex.marked 4 r.pc.toNat
    ++ ", i: " ++ Text.Hex.marked 4 r.address.toNat
    ++ ", regs: RegisterArray(" ++ listText (r.v.toList.map UInt8.toNat)
    ++ "), stack: " ++ listText (r.stack.reverse.map UInt16.toNat)
    ++ ", mode: " ++ m.mode.name
    ++ ", ext: " ++ m.instructionSet.name
    ++ ", .. \x7d"

end Machine

end Chip8
