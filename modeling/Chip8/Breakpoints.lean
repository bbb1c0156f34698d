import Std.Data.ExtTreeMap

namespace Chip8

-- A name for an address at which a running machine stops.
structure Breakpoint where
  name : String
  offset : UInt16
deriving DecidableEq, Repr

-- No two share a name or an address. They are kept by address, and the address of each by its name.
structure Breakpoints where
  byOffset : Std.ExtTreeMap UInt16 Breakpoint
  byName : Std.ExtTreeMap String UInt16

namespace Breakpoints

def empty : Breakpoints := ⟨∅, ∅⟩

def find? (bs : Breakpoints) (offset : UInt16) : Option Breakpoint := bs.byOffset[offset]?

def findName? (bs : Breakpoints) (name : String) : Option Breakpoint :=
  bs.byName[name]?.bind bs.find?

def has (bs : Breakpoints) (offset : UInt16) : Bool := bs.byOffset.contains offset

def hasName (bs : Breakpoints) (name : String) : Bool := bs.byName.contains name

def size (bs : Breakpoints) : Nat := bs.byOffset.size

def isEmpty (bs : Breakpoints) : Bool := bs.byOffset.isEmpty

-- All of them, by address.
def entries (bs : Breakpoints) : List Breakpoint := bs.byOffset.toList.map Prod.snd

-- Ignored where the name or the address is taken.
def add (bs : Breakpoints) (b : Breakpoint) : Breakpoints :=
  if bs.has b.offset || bs.hasName b.name then bs
  else ⟨bs.byOffset.insert b.offset b, bs.byName.insert b.name b.offset⟩

-- What was removed, if anything, and what is left.
def remove (bs : Breakpoints) (offset : UInt16) : Option Breakpoint × Breakpoints :=
  match bs.byOffset[offset]? with
  | none => (none, bs)
  | some b => (some b, ⟨bs.byOffset.erase offset, bs.byName.erase b.name⟩)

def removeName (bs : Breakpoints) (name : String) : Option Breakpoint × Breakpoints :=
  match bs.byName[name]? with
  | none => (none, bs)
  | some offset =>
    (bs.byOffset[offset]?, ⟨bs.byOffset.erase offset, bs.byName.erase name⟩)

def erase (bs : Breakpoints) (offset : UInt16) : Breakpoints := (bs.remove offset).2

def eraseName (bs : Breakpoints) (name : String) : Breakpoints := (bs.removeName name).2

theorem fst_remove (bs : Breakpoints) (offset : UInt16) :
    (bs.remove offset).1 = bs.find? offset := by
  unfold remove find?
  cases bs.byOffset[offset]? <;> rfl

theorem fst_removeName (bs : Breakpoints) (name : String) :
    (bs.removeName name).1 = bs.findName? name := by
  unfold removeName findName?
  cases bs.byName[name]? <;> rfl

theorem has_eq_isSome (bs : Breakpoints) (offset : UInt16) :
    bs.has offset = (bs.find? offset).isSome :=
  Std.ExtTreeMap.contains_eq_isSome_getElem?

end Breakpoints

end Chip8
