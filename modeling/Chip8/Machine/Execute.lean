import Chip8.Display.Scroll
import Chip8.Display.Sprite
import Chip8.Opcode
import Chip8.Machine.Basic

namespace Chip8

-- What an operation leaves behind: a machine and, if it failed, the reason.
structure Outcome where
  machine : Machine
  fault : Option Fault

namespace Machine

def done (m : Machine) : Outcome := ⟨m, none⟩

def fail (m : Machine) (fault : Fault) : Outcome := ⟨m, some fault⟩

@[simp] theorem machine_done (m : Machine) : m.done.machine = m := rfl

@[simp] theorem fault_done (m : Machine) : m.done.fault = none := rfl

@[simp] theorem machine_fail (m : Machine) (fault : Fault) : (m.fail fault).machine = m := rfl

@[simp] theorem fault_fail (m : Machine) (fault : Fault) : (m.fail fault).fault = some fault := rfl

def get (m : Machine) (x : Register) : UInt8 := m.registers.get x

def setRegister (m : Machine) (x : Register) (value : UInt8) : Machine :=
  { m with registers := m.registers.set x value }

def setWithFlag (m : Machine) (x : Register) (value : UInt8) (raised : Bool) : Machine :=
  { m with registers := m.registers.setWithFlag x value raised }

def setAddress (m : Machine) (address : UInt16) : Machine :=
  { m with registers := { m.registers with address } }

def jump (m : Machine) (pc : UInt16) : Machine :=
  { m with registers := { m.registers with pc } }

def skipIf (m : Machine) (condition : Bool) : Machine :=
  { m with registers := m.registers.skipIf condition }

def call (m : Machine) (target : UInt16) : Outcome :=
  if Registers.stackCapacity ≤ m.registers.stack.length then m.fail .stackOverflow
  else done
    { m with registers := { m.registers with
        pc := target, stack := m.registers.pc :: m.registers.stack } }

def ret (m : Machine) : Outcome :=
  match m.registers.stack with
  | [] => m.fail .stackUnderflow
  | pc :: stack => done { m with registers := { m.registers with pc, stack } }

-- Bitwise operations see the flag as the dialect left it.
def logic (m : Machine) (f : UInt8 → UInt8 → UInt8) (x y : Register) : Machine :=
  let m := if m.config.dialect.logicClearsFlag then m.setRegister Registers.flag 0 else m
  m.setRegister x (f (m.get x) (m.get y))

-- The value that a shift works on.
def shiftSource (m : Machine) (x y : Register) : UInt8 :=
  if m.config.dialect.shiftCopiesY then m.get y else m.get x

def addRegisters (m : Machine) (x y : Register) : Machine :=
  m.setWithFlag x (m.get x + m.get y) (decide (256 ≤ (m.get x).toNat + (m.get y).toNat))

-- `left - right` into Vx. The flag is raised where nothing is borrowed.
def subtract (m : Machine) (x : Register) (left right : UInt8) : Machine :=
  m.setWithFlag x (left - right) (decide (right ≤ left))

def shiftRight (m : Machine) (x y : Register) : Machine :=
  let source := m.shiftSource x y
  m.setWithFlag x (source >>> 1) (source &&& 1 == 1)

def shiftLeft (m : Machine) (x y : Register) : Machine :=
  let source := m.shiftSource x y
  m.setWithFlag x (source <<< 1) (source >>> 7 == 1)

def isHeld (m : Machine) (key : Key) : Bool := m.keys.get key

-- No key has a number from 16 on, so none of those is held.
def isNumberHeld (m : Machine) (number : UInt8) : Bool := m.keys[number.toNat]?.getD false

-- The key that a register names by its low digit.
def keyOf (m : Machine) (x : Register) : Key := Fin.ofNat 16 (m.get x).toNat

-- The lowest of the held keys.
def firstHeld (m : Machine) : Option Key := (List.finRange 16).find? m.isHeld

-- Waits for a key to be pressed and released. Until then the instruction comes again. The first
-- key seen held is the one awaited, whatever other keys do meanwhile.
def readKey (m : Machine) (x : Register) : Machine :=
  let again := m.jump (Registers.preceding m.registers.pc)
  match m.awaited with
  | none => { again with awaited := m.firstHeld.map fun key : Key => UInt8.ofNat key.val }
  | some number =>
    if m.isNumberHeld number then again
    else { m.setRegister x number with awaited := none }

def randomByte (m : Machine) (x : Register) (mask : UInt8) : Machine :=
  let (byte, random) := m.random.next
  { m.setRegister x (byte &&& mask) with random }

-- The sprite at I. With height 0 SUPER-CHIP draws 16 rows, of 16 columns unless the dialect
-- keeps to 8 in low resolution.
def spriteAt (m : Machine) (position : Point) (height : Fin 16) : Sprite :=
  let i := m.registers.address
  let bytes (count : Nat) := (m.memory.readMany i count).map UInt8.toUInt16
  if height = 0 ∧ m.instructionSet = .superChip then
    if m.display.resolution = .low ∧ m.config.dialect.narrowTallSprite then
      ⟨position, false, bytes 16⟩
    else ⟨position, true, m.memory.readWords i 16⟩
  else ⟨position, false, bytes height⟩

def draw (m : Machine) (x y : Register) (height : Fin 16) : Machine :=
  let position : Point :=
    ⟨(m.get x).toNat % m.display.width, (m.get y).toNat % m.display.height⟩
  let (display, collision) := m.display.draw (m.spriteAt position height)
  { m.setRegister Registers.flag (if collision then 1 else 0) with display }

-- Hundreds, tens and units.
def decimalDigits (value : UInt8) : List UInt8 := [value / 100, value / 10 % 10, value % 10]

def writeAtAddress (m : Machine) (bytes : List UInt8) : Machine :=
  { m with memory := m.memory.writeAll m.registers.address bytes }

-- Moves I behind `count` bytes, where the dialect says so.
def advanceAddress (m : Machine) (count : Nat) : Machine :=
  if m.config.dialect.transferAdvances then
    m.setAddress (m.registers.address + UInt16.ofNat count)
  else m

-- Replaces V0 and its successors.
def setFirst (m : Machine) (values : List UInt8) : Machine :=
  { m with registers := { m.registers with
      v := Vector.ofFn fun k => values.getD k (m.registers.get k) } }

-- V0 to Vx.
def firstRegisters (m : Machine) (x : Register) : List UInt8 :=
  m.registers.v.toList.take (x + 1)

def saveRegisters (m : Machine) (x : Register) : Machine :=
  (m.writeAtAddress (m.firstRegisters x)).advanceAddress (x + 1)

def loadRegisters (m : Machine) (x : Register) : Machine :=
  (m.setFirst (m.memory.readMany m.registers.address (x + 1))).advanceAddress (x + 1)

-- There are eight flag registers.
def saveFlags (m : Machine) (x : Register) : Outcome :=
  if x.val < 8 then
    let saved := m.firstRegisters x
    done { m with flags := Vector.ofFn fun k => saved.getD k (m.flags.get k) }
  else m.fail (.noFlag x)

def loadFlags (m : Machine) (x : Register) : Outcome :=
  if x.val < 8 then done (m.setFirst (m.flags.toList.take (x + 1)))
  else m.fail (.noFlag x)

def showOn (m : Machine) (display : Display) : Machine := { m with display }

-- Executes one instruction, whose successor pc points at.
def perform (m : Machine) : Instruction → Outcome
  | .clearScreen => done (m.showOn m.display.clear)
  | .ret => m.ret
  | .jump target => done (m.jump target)
  | .call target => m.call target
  | .skipEqual x value => done (m.skipIf (m.get x == value))
  | .skipNotEqual x value => done (m.skipIf (m.get x != value))
  | .skipSame x y => done (m.skipIf (m.get x == m.get y))
  | .loadByte x value => done (m.setRegister x value)
  | .addByte x value => done (m.setRegister x (m.get x + value))
  | .copy x y => done (m.setRegister x (m.get y))
  | .or x y => done (m.logic (· ||| ·) x y)
  | .and x y => done (m.logic (· &&& ·) x y)
  | .xor x y => done (m.logic (· ^^^ ·) x y)
  | .add x y => done (m.addRegisters x y)
  | .sub x y => done (m.subtract x (m.get x) (m.get y))
  | .shiftRight x y => done (m.shiftRight x y)
  | .subFrom x y => done (m.subtract x (m.get y) (m.get x))
  | .shiftLeft x y => done (m.shiftLeft x y)
  | .skipDifferent x y => done (m.skipIf (m.get x != m.get y))
  | .loadAddress target => done (m.setAddress target)
  | .jumpOffset x base =>
    let offset := m.get (if m.config.dialect.jumpFromV0 then 0 else x)
    done (m.jump ((base + offset.toUInt16) &&& 0xFFF))
  | .random x mask => done (m.randomByte x mask)
  | .draw x y height => done (m.draw x y height)
  | .skipPressed x => done (m.skipIf (m.isHeld (m.keyOf x)))
  | .skipNotPressed x => done (m.skipIf (!m.isHeld (m.keyOf x)))
  | .readDelay x => done (m.setRegister x m.registers.delay)
  | .readKey x => done (m.readKey x)
  | .setDelay x => done { m with registers := { m.registers with delay := m.get x } }
  | .setSound x => done { m with registers := { m.registers with sound := m.get x } }
  | .addAddress x => done (m.setAddress (m.registers.address + (m.get x).toUInt16))
  | .glyph x => done (m.setAddress (UInt16.ofNat ((m.get x).toNat * Memory.glyphHeight)))
  | .decimal x => done (m.writeAtAddress (decimalDigits (m.get x)))
  | .saveRegisters x => done (m.saveRegisters x)
  | .loadRegisters x => done (m.loadRegisters x)
  | .highResolution => done (m.showOn (m.display.setResolution .high))
  | .lowResolution => done (m.showOn (m.display.setResolution .low))
  | .scrollDown distance => done (m.showOn (m.display.scroll .down distance))
  | .scrollRight => done (m.showOn (m.display.scroll .right 4))
  | .scrollLeft => done (m.showOn (m.display.scroll .left 4))
  | .bigGlyph x =>
    done (m.setAddress
      (UInt16.ofNat (Memory.bigFontStart + (m.keyOf x).val * Memory.bigGlyphHeight)))
  | .saveFlags x => m.saveFlags x
  | .loadFlags x => m.loadFlags x
  | .exit => done m.unload

-- The instruction that an opcode means to this machine. Those of another instruction set are as
-- unknown as opcodes that encode none.
def instruction? (m : Machine) (opcode : UInt16) : Option Instruction :=
  (Opcode.decode opcode).filter fun i => m.instructionSet.supports i.kind

-- Executes an opcode as if it had just been fetched.
def execute (m : Machine) (opcode : UInt16) : Outcome :=
  match m.instruction? opcode with
  | some i => m.perform i
  | none => m.fail (.invalidOpcode opcode (Registers.preceding m.registers.pc))

end Machine

end Chip8
