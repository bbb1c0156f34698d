import Chip8.Instruction.Basic
import Chip8.Text.Hex

namespace Chip8.Opcode

-- Opcodes are read as four digits `f x y n`. The digits `y n` form a byte and `x y n` an address.
def digit (opcode : UInt16) (place : Nat) : Fin 16 :=
  Fin.ofNat 16 (opcode.toNat >>> (4 * place))

def family (opcode : UInt16) : Fin 16 := digit opcode 3

def x (opcode : UInt16) : Register := digit opcode 2

def y (opcode : UInt16) : Register := digit opcode 1

def n (opcode : UInt16) : Fin 16 := digit opcode 0

def byte (opcode : UInt16) : UInt8 := opcode.toUInt8

def address (opcode : UInt16) : UInt16 := opcode &&& 0xFFF

-- The operand fields, whether the instruction uses them or not.
def operandText (opcode : UInt16) : String :=
  let field (places n : Nat) := Text.Hex.numeral .upper places n
  s!"x: {field 1 (x opcode)} y: {field 1 (y opcode)} nnn: {field 3 (address opcode).toNat} "
    ++ s!"nn: {field 2 (byte opcode).toNat} n: {field 1 (n opcode)}"

-- `0xyn`: system calls carry no register, so they are fixed but for the distance of `00Cn`.
def decodeSystem (opcode : UInt16) : Option Instruction :=
  match opcode.toNat with
  | 0x00E0 => some .clearScreen
  | 0x00EE => some .ret
  | 0x00FB => some .scrollRight
  | 0x00FC => some .scrollLeft
  | 0x00FD => some .exit
  | 0x00FE => some .lowResolution
  | 0x00FF => some .highResolution
  | word => if word / 16 = 0x00C then some (.scrollDown (n opcode)) else none

-- `8xyn`
def decodeArithmetic (opcode : UInt16) : Option Instruction :=
  let x := x opcode
  let y := y opcode
  match (n opcode).val with
  | 0x0 => some (.copy x y)
  | 0x1 => some (.or x y)
  | 0x2 => some (.and x y)
  | 0x3 => some (.xor x y)
  | 0x4 => some (.add x y)
  | 0x5 => some (.sub x y)
  | 0x6 => some (.shiftRight x y)
  | 0x7 => some (.subFrom x y)
  | 0xE => some (.shiftLeft x y)
  | _ => none

-- `Exyn`
def decodeKeySkip (opcode : UInt16) : Option Instruction :=
  match (byte opcode).toNat with
  | 0x9E => some (.skipPressed (x opcode))
  | 0xA1 => some (.skipNotPressed (x opcode))
  | _ => none

-- `Fxyn`
def decodeTransfer (opcode : UInt16) : Option Instruction :=
  let x := x opcode
  match (byte opcode).toNat with
  | 0x07 => some (.readDelay x)
  | 0x0A => some (.readKey x)
  | 0x15 => some (.setDelay x)
  | 0x18 => some (.setSound x)
  | 0x1E => some (.addAddress x)
  | 0x29 => some (.glyph x)
  | 0x30 => some (.bigGlyph x)
  | 0x33 => some (.decimal x)
  | 0x55 => some (.saveRegisters x)
  | 0x65 => some (.loadRegisters x)
  | 0x75 => some (.saveFlags x)
  | 0x85 => some (.loadFlags x)
  | _ => none

-- The instruction that an opcode encodes, if any. The last digit of `5xyn` and `9xyn` is free.
def decode (opcode : UInt16) : Option Instruction :=
  let x := x opcode
  let y := y opcode
  match (family opcode).val with
  | 0x0 => decodeSystem opcode
  | 0x1 => some (.jump (address opcode))
  | 0x2 => some (.call (address opcode))
  | 0x3 => some (.skipEqual x (byte opcode))
  | 0x4 => some (.skipNotEqual x (byte opcode))
  | 0x5 => some (.skipSame x y)
  | 0x6 => some (.loadByte x (byte opcode))
  | 0x7 => some (.addByte x (byte opcode))
  | 0x8 => decodeArithmetic opcode
  | 0x9 => some (.skipDifferent x y)
  | 0xA => some (.loadAddress (address opcode))
  | 0xB => some (.jumpOffset x (address opcode))
  | 0xC => some (.random x (byte opcode))
  | 0xD => some (.draw x y (n opcode))
  | 0xE => decodeKeySkip opcode
  | _ => decodeTransfer opcode

theorem address_le (opcode : UInt16) : address opcode ≤ 0xFFF := by
  rw [UInt16.le_iff_toNat_le]
  simpa [address] using Nat.and_le_right

end Chip8.Opcode
