import Chip8.Digit

namespace Chip8

-- One of V0, …, VF. VF doubles as the flag of arithmetic and drawing.
abbrev Register := Digit

-- Thirty-four instructions of CHIP-8, and nine that SUPER-CHIP adds.
inductive Instruction
  | clearScreen
  | ret
  | jump (target : UInt16)
  | call (target : UInt16)
  | skipEqual (x : Register) (value : UInt8)
  | skipNotEqual (x : Register) (value : UInt8)
  | skipSame (x y : Register)
  | loadByte (x : Register) (value : UInt8)
  | addByte (x : Register) (value : UInt8)
  | copy (x y : Register)
  | or (x y : Register)
  | and (x y : Register)
  | xor (x y : Register)
  | add (x y : Register)
  | sub (x y : Register)
  | shiftRight (x y : Register)
  | subFrom (x y : Register)
  | shiftLeft (x y : Register)
  | skipDifferent (x y : Register)
  | loadAddress (target : UInt16)
  | jumpOffset (x : Register) (base : UInt16)
  | random (x : Register) (mask : UInt8)
  | draw (x y : Register) (height : Fin 16)
  | skipPressed (x : Register)
  | skipNotPressed (x : Register)
  | readDelay (x : Register)
  | readKey (x : Register)
  | setDelay (x : Register)
  | setSound (x : Register)
  | addAddress (x : Register)
  | glyph (x : Register)
  | decimal (x : Register)
  | saveRegisters (x : Register)
  | loadRegisters (x : Register)
  | highResolution
  | lowResolution
  | scrollDown (distance : Fin 16)
  | scrollRight
  | scrollLeft
  | bigGlyph (x : Register)
  | saveFlags (x : Register)
  | loadFlags (x : Register)
  | exit
deriving DecidableEq, Repr

namespace Instruction

-- An instruction less its operands. CHIP-8 comes first and SUPER-CHIP after.
inductive Kind
  | clearScreen | ret | jump | call | skipEqual | skipNotEqual | skipSame | loadByte | addByte
  | copy | or | and | xor | add | sub | shiftRight | subFrom | shiftLeft | skipDifferent
  | loadAddress | jumpOffset | random | draw | skipPressed | skipNotPressed | readDelay | readKey
  | setDelay | setSound | addAddress | glyph | decimal | saveRegisters | loadRegisters
  | highResolution | lowResolution | scrollDown | scrollRight | scrollLeft | bigGlyph | saveFlags
  | loadFlags | exit
deriving DecidableEq, Repr

def kind : Instruction → Kind
  | clearScreen => .clearScreen
  | ret => .ret
  | jump _ => .jump
  | call _ => .call
  | skipEqual _ _ => .skipEqual
  | skipNotEqual _ _ => .skipNotEqual
  | skipSame _ _ => .skipSame
  | loadByte _ _ => .loadByte
  | addByte _ _ => .addByte
  | copy _ _ => .copy
  | or _ _ => .or
  | and _ _ => .and
  | xor _ _ => .xor
  | add _ _ => .add
  | sub _ _ => .sub
  | shiftRight _ _ => .shiftRight
  | subFrom _ _ => .subFrom
  | shiftLeft _ _ => .shiftLeft
  | skipDifferent _ _ => .skipDifferent
  | loadAddress _ => .loadAddress
  | jumpOffset _ _ => .jumpOffset
  | random _ _ => .random
  | draw _ _ _ => .draw
  | skipPressed _ => .skipPressed
  | skipNotPressed _ => .skipNotPressed
  | readDelay _ => .readDelay
  | readKey _ => .readKey
  | setDelay _ => .setDelay
  | setSound _ => .setSound
  | addAddress _ => .addAddress
  | glyph _ => .glyph
  | decimal _ => .decimal
  | saveRegisters _ => .saveRegisters
  | loadRegisters _ => .loadRegisters
  | highResolution => .highResolution
  | lowResolution => .lowResolution
  | scrollDown _ => .scrollDown
  | scrollRight => .scrollRight
  | scrollLeft => .scrollLeft
  | bigGlyph _ => .bigGlyph
  | saveFlags _ => .saveFlags
  | loadFlags _ => .loadFlags
  | exit => .exit

namespace Kind

def chip8 : List Kind :=
  [clearScreen, ret, jump, call, skipEqual, skipNotEqual, skipSame, loadByte, addByte, copy, or,
    and, xor, add, sub, shiftRight, subFrom, shiftLeft, skipDifferent, loadAddress, jumpOffset,
    random, draw, skipPressed, skipNotPressed, readDelay, readKey, setDelay, setSound, addAddress,
    glyph, decimal, saveRegisters, loadRegisters]

def superChip : List Kind :=
  [highResolution, lowResolution, scrollDown, scrollRight, scrollLeft, bigGlyph, saveFlags,
    loadFlags, exit]

def all : List Kind := chip8 ++ superChip

-- The place of a kind in `all`.
def index (kind : Kind) : Nat := kind.ctorIdx

theorem mem_all (kind : Kind) : kind ∈ all := by cases kind <;> decide

theorem getElem?_all_index (kind : Kind) : all[kind.index]? = some kind := by cases kind <;> rfl

theorem mem_chip8_or_superChip (kind : Kind) : kind ∈ chip8 ∨ kind ∈ superChip :=
  List.mem_append.mp kind.mem_all

theorem not_mem_superChip {kind : Kind} (h : kind ∈ chip8) : kind ∉ superChip := by
  cases kind <;> revert h <;> decide

end Kind

end Instruction

-- The instructions that a machine accepts.
inductive InstructionSet
  | chip8
  | superChip
deriving DecidableEq, Repr

namespace InstructionSet

-- The kinds that a set holds. SUPER-CHIP adds to CHIP-8.
def kinds : InstructionSet → List Instruction.Kind
  | chip8 => Instruction.Kind.chip8
  | superChip => Instruction.Kind.chip8 ++ Instruction.Kind.superChip

def supports (set : InstructionSet) (kind : Instruction.Kind) : Bool :=
  decide (kind ∈ set.kinds)

theorem supports_chip8 (kind : Instruction.Kind) :
    chip8.supports kind = true ↔ kind ∉ Instruction.Kind.superChip := by
  cases kind <;> decide

theorem supports_superChip (kind : Instruction.Kind) : superChip.supports kind = true :=
  decide_eq_true kind.mem_all

end InstructionSet

end Chip8
