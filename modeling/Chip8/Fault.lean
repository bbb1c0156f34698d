import Chip8.Files.Store
import Chip8.Memory
import Chip8.Registers
import Chip8.Text.Hex

namespace Chip8

-- What stops a machine, or keeps a program out of it.
inductive Fault
  | invalidOpcode (opcode offset : UInt16)
  | stackOverflow
  | stackUnderflow
  | noFlag (x : Register)
  | tooLarge (size : Nat)
  | unreadable (cause : Files.Error)
deriving DecidableEq, Repr

def Fault.message : Fault → String
  | invalidOpcode opcode offset =>
    "invalid opcode " ++ Text.Hex.marked 4 opcode.toNat ++ " at "
      ++ Text.Hex.marked 4 offset.toNat
  | stackOverflow =>
    "the maximum number of values in the stack (" ++ toString Registers.stackCapacity
      ++ ") has been exceeded"
  | stackUnderflow => "cannot return from a subroutine: the stack is empty"
  | noFlag x =>
    "flag register V" ++ Text.Hex.numeral .upper 1 x
      ++ " does not exist (only V0..=V7 can be saved)"
  | tooLarge size =>
    "size of program must be <= " ++ toString Memory.programCapacity ++ " bytes, got "
      ++ toString size
  | unreadable cause => "cannot read program: " ++ cause.message

end Chip8
