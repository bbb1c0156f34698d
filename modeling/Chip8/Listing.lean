import Chip8.Instruction.Text
import Chip8.Opcode

namespace Chip8

-- The text of an opcode, if it encodes an instruction.
def Opcode.text? (dialect : Dialect) (opcode : UInt16) : Option String :=
  (decode opcode).map (Instruction.text dialect)

namespace Listing

-- The big-endian words of a program. An odd byte at the end is the high half of the last word.
def words : List UInt8 → List UInt16
  | [] => []
  | [high] => [high.toUInt16 <<< 8]
  | high :: low :: rest => (high.toUInt16 <<< 8 ||| low.toUInt16) :: words rest

def line (dialect : Dialect) (offset opcode : UInt16) : String :=
  Text.Hex.marked 4 offset.toNat ++ ": " ++ Text.Hex.numeral .lower 4 opcode.toNat ++ "  "
    ++ (Opcode.text? dialect opcode).getD (".word " ++ Text.Hex.marked 4 opcode.toNat)

-- One line a word. Offsets wrap at the end of 16 bits.
def lines (dialect : Dialect) (origin : UInt16) (program : List UInt8) : List String :=
  (words program).mapIdx fun k opcode => line dialect (origin + 2 * UInt16.ofNat k) opcode

theorem length_words (program : List UInt8) :
    (words program).length = (program.length + 1) / 2 := by
  fun_induction words program with
  | case1 => rfl
  | case2 => simp
  | case3 high low rest ih =>
    simp only [List.length_cons, ih]
    omega

theorem length_lines (dialect : Dialect) (origin : UInt16) (program : List UInt8) :
    (lines dialect origin program).length = (program.length + 1) / 2 := by
  simp [lines, length_words]

end Listing

end Chip8
