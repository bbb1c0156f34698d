namespace Chip8

-- The address space. Programs are loaded at 0x200. Below lie the glyphs of the sixteen hexadecimal
-- digits in two sizes.
structure Memory where
  bytes : Vector UInt8 4096
deriving DecidableEq

namespace Memory

def size : Nat := 4096

def programStart : Nat := 0x200

def programCapacity : Nat := size - programStart

-- Bytes of one small glyph, 4 columns wide.
def glyphHeight : Nat := 5

-- Bytes of one big glyph, 8 columns wide.
def bigGlyphHeight : Nat := 10

def smallFont : List UInt8 := [
  0xF0, 0x90, 0x90, 0x90, 0xF0,
  0x20, 0x60, 0x20, 0x20, 0x70,
  0xF0, 0x10, 0xF0, 0x80, 0xF0,
  0xF0, 0x10, 0xF0, 0x10, 0xF0,
  0x90, 0x90, 0xF0, 0x10, 0x10,
  0xF0, 0x80, 0xF0, 0x10, 0xF0,
  0xF0, 0x80, 0xF0, 0x90, 0xF0,
  0xF0, 0x10, 0x20, 0x40, 0x40,
  0xF0, 0x90, 0xF0, 0x90, 0xF0,
  0xF0, 0x90, 0xF0, 0x10, 0xF0,
  0xF0, 0x90, 0xF0, 0x90, 0x90,
  0xE0, 0x90, 0xE0, 0x90, 0xE0,
  0xF0, 0x80, 0x80, 0x80, 0xF0,
  0xE0, 0x90, 0x90, 0x90, 0xE0,
  0xF0, 0x80, 0xF0, 0x80, 0xF0,
  0xF0, 0x80, 0xF0, 0x80, 0x80]

def bigFont : List UInt8 := [
  0xFF, 0xFF, 0xC3, 0xC3, 0xC3, 0xC3, 0xC3, 0xC3, 0xFF, 0xFF,
  0x18, 0x78, 0x78, 0x18, 0x18, 0x18, 0x18, 0x18, 0xFF, 0xFF,
  0xFF, 0xFF, 0x03, 0x03, 0xFF, 0xFF, 0xC0, 0xC0, 0xFF, 0xFF,
  0xFF, 0xFF, 0x03, 0x03, 0xFF, 0xFF, 0x03, 0x03, 0xFF, 0xFF,
  0xC3, 0xC3, 0xC3, 0xC3, 0xFF, 0xFF, 0x03, 0x03, 0x03, 0x03,
  0xFF, 0xFF, 0xC0, 0xC0, 0xFF, 0xFF, 0x03, 0x03, 0xFF, 0xFF,
  0xFF, 0xFF, 0xC0, 0xC0, 0xFF, 0xFF, 0xC3, 0xC3, 0xFF, 0xFF,
  0xFF, 0xFF, 0x03, 0x03, 0x06, 0x0C, 0x18, 0x18, 0x18, 0x18,
  0xFF, 0xFF, 0xC3, 0xC3, 0xFF, 0xFF, 0xC3, 0xC3, 0xFF, 0xFF,
  0xFF, 0xFF, 0xC3, 0xC3, 0xFF, 0xFF, 0x03, 0x03, 0xFF, 0xFF,
  0x7E, 0xFF, 0xC3, 0xC3, 0xC3, 0xFF, 0xFF, 0xC3, 0xC3, 0xC3,
  0xFC, 0xFC, 0xC3, 0xC3, 0xFC, 0xFC, 0xC3, 0xC3, 0xFC, 0xFC,
  0x3C, 0xFF, 0xC3, 0xC0, 0xC0, 0xC0, 0xC0, 0xC3, 0xFF, 0x3C,
  0xFC, 0xFE, 0xC3, 0xC3, 0xC3, 0xC3, 0xC3, 0xC3, 0xFE, 0xFC,
  0xFF, 0xFF, 0xC0, 0xC0, 0xFF, 0xFF, 0xC0, 0xC0, 0xFF, 0xFF,
  0xFF, 0xFF, 0xC0, 0xC0, 0xFF, 0xFF, 0xC0, 0xC0, 0xC0, 0xC0]

-- The small glyphs start the memory and the big ones follow them.
def font : List UInt8 := smallFont ++ bigFont

def bigFontStart : Nat := smallFont.length

-- Memory before any program: the glyphs, then zeros.
def powerOn : Memory :=
  let image := font.toArray
  ⟨Vector.ofFn fun k => image.getD k 0⟩

-- Addresses are taken modulo the size.
def index (a : UInt16) : Fin 4096 := Fin.ofNat 4096 a.toNat

def read (m : Memory) (a : UInt16) : UInt8 := m.bytes[index a]

def write (m : Memory) (a : UInt16) (value : UInt8) : Memory :=
  ⟨m.bytes.set (index a) value (index a).isLt⟩

-- Words are big-endian.
def readWord (m : Memory) (a : UInt16) : UInt16 :=
  (m.read a).toUInt16 <<< 8 ||| (m.read (a + 1)).toUInt16

-- Writes consecutive bytes, wrapping at the end.
def writeAll (m : Memory) (a : UInt16) : List UInt8 → Memory
  | [] => m
  | value :: rest => (m.write a value).writeAll (a + 1) rest

def readMany (m : Memory) (a : UInt16) (count : Nat) : List UInt8 :=
  (List.range count).map fun k => m.read (a + UInt16.ofNat k)

def readWords (m : Memory) (a : UInt16) (count : Nat) : List UInt16 :=
  (List.range count).map fun k => m.readWord (a + UInt16.ofNat (2 * k))

-- Puts a program at its start and zeros behind it. All below the start stays as it is.
def install (m : Memory) (program : List UInt8) : Memory :=
  let image := program.toArray
  ⟨Vector.ofFn fun k =>
    if k.val < programStart then m.bytes[k] else image.getD (k.val - programStart) 0⟩

theorem length_font : font.length = 240 := by rfl

theorem read_powerOn (a : UInt16) : powerOn.read a = font.getD (index a).val 0 := by
  simp [read, powerOn, List.getD]

theorem ext_read {m m' : Memory} (h : ∀ a, m.read a = m'.read a) : m = m' := by
  obtain ⟨bytes⟩ := m
  obtain ⟨bytes'⟩ := m'
  congr 1
  apply Vector.ext
  intro k hk
  have hh := h (UInt16.ofNat k)
  have hi : index (UInt16.ofNat k) = ⟨k, hk⟩ := by
    apply Fin.ext
    simp only [index, Fin.ofNat, UInt16.toNat_ofNat']
    omega
  simpa [read, hi] using hh

theorem read_write (m : Memory) (a b : UInt16) (value : UInt8) :
    (m.write a value).read b = if index a = index b then value else m.read b := by
  simp only [read, write, Fin.getElem_fin, Vector.getElem_set, Fin.ext_iff]

theorem read_write_same (m : Memory) (a : UInt16) (value : UInt8) :
    (m.write a value).read a = value := by
  simp [read_write]

theorem read_write_of_ne (m : Memory) {a b : UInt16} (h : index a ≠ index b) (value : UInt8) :
    (m.write a value).read b = m.read b := by
  simp [read_write, h]

theorem read_install_of_lt (m : Memory) (program : List UInt8) {a : UInt16}
    (h : (index a).val < programStart) : (m.install program).read a = m.read a := by
  simp [read, install, h]

theorem read_install_of_le (m : Memory) (program : List UInt8) {a : UInt16}
    (h : programStart ≤ (index a).val) :
    (m.install program).read a = program.getD ((index a).val - programStart) 0 := by
  simp [read, install, Nat.not_lt.mpr h, List.getD]

end Memory

end Chip8
