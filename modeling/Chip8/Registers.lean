import Chip8.Instruction.Basic

namespace Chip8

structure Registers where
  pc : UInt16
  address : UInt16
  delay : UInt8
  sound : UInt8
  v : Vector UInt8 16
  -- newest first
  stack : List UInt16
deriving DecidableEq

namespace Registers

def stackCapacity : Nat := 12

def powerOn : Registers where
  pc := 0x200
  address := 0
  delay := 255
  sound := 0
  v := Vector.replicate 16 0
  stack := []

-- The next word in the 12-bit address space.
def following (pc : UInt16) : UInt16 := (pc + 2) &&& 0xFFF

-- The word before, in the 12-bit address space.
def preceding (pc : UInt16) : UInt16 := (pc - 2) &&& 0xFFF

def flag : Register := 15

def get (r : Registers) (x : Register) : UInt8 := r.v[x]

def set (r : Registers) (x : Register) (value : UInt8) : Registers :=
  { r with v := r.v.set x value x.isLt }

-- Writes a result and then the flag, so that the flag wins in VF.
def setWithFlag (r : Registers) (x : Register) (value : UInt8) (raised : Bool) : Registers :=
  (r.set x value).set flag (if raised then 1 else 0)

def skipIf (r : Registers) (condition : Bool) : Registers :=
  if condition then { r with pc := following r.pc } else r

-- Both timers count down to zero.
def tick (r : Registers) : Registers :=
  { r with
    delay := if r.delay = 0 then 0 else r.delay - 1
    sound := if r.sound = 0 then 0 else r.sound - 1 }

theorem get_set (r : Registers) (x y : Register) (value : UInt8) :
    (r.set x value).get y = if x = y then value else r.get y := by
  simp only [get, set, Fin.getElem_fin, Vector.getElem_set, Fin.ext_iff]

theorem and_mask_le (n : UInt16) : n &&& 0xFFF ≤ 0xFFF := by
  rw [UInt16.le_iff_toNat_le, UInt16.toNat_and]
  exact Nat.and_le_right

theorem following_le (pc : UInt16) : following pc ≤ 0xFFF := and_mask_le (pc + 2)

theorem preceding_le (pc : UInt16) : preceding pc ≤ 0xFFF := and_mask_le (pc - 2)

end Registers

end Chip8
