namespace Chip8.Files

-- Names with slashes between them, read by the text alone. Repeated slashes count once, and a dot
-- that is not the first name counts for nothing.
structure Path where
  text : String
deriving DecidableEq, Repr

namespace Path

-- Bytes that one name may have.
def nameLimit : Nat := 255

-- Bytes that the text of a path may have.
def textLimit : Nat := 4095

-- What stands between the slashes, from the left. A text without slashes is one piece.
def split (cs : List Char) : List (List Char) :=
  cs.foldr (fun c pieces =>
    match pieces with
    | first :: rest => if c = '/' then [] :: first :: rest else (c :: first) :: rest
    | [] => [[c]]) [[]]

def pieces (p : Path) : List String := (split p.text.toList).map String.ofList

def isAbsolute (p : Path) : Bool := p.text.toList.head? == some '/'

def hasTrailingSlash (p : Path) : Bool := p.text.toList.getLast? == some '/'

-- The names to follow one after another, dots among them.
def steps (p : Path) : List String := p.pieces.filter (· != "")

-- Whether a piece behind the first one counts for nothing.
def isRedundant (piece : String) : Bool := piece == "" || piece == "."

-- The path that pieces spell, innermost piece first, and the paths around it.
def outward : List String → List Path
  | [] => []
  | [first] => [⟨if first == "" then "/" else first⟩]
  | piece :: outer =>
    if isRedundant piece then outward outer
    else ⟨"/".intercalate (piece :: outer).reverse⟩ :: outward outer

-- The path and all paths around it, from the innermost. They keep its spelling.
def ancestors (p : Path) : List Path :=
  if p.text.isEmpty then [] else outward p.pieces.reverse

-- The path less its last name. It is empty if there is no other name.
def parent (p : Path) : Path :=
  match p.ancestors with
  | _ :: outer :: _ => outer
  | _ => ⟨""⟩

-- The last name, unless it climbs to an outer directory.
def fileName? (p : Path) : Option String :=
  (p.pieces.reverse.find? (!isRedundant ·)).filter (· != "..")

-- What stands behind the last dot of the file's name. A dot that starts the name does not count.
def extension? (p : Path) : Option String := do
  let name ← p.fileName?
  let cs := name.toList.reverse
  let after := cs.takeWhile (· != '.')
  let before := (cs.dropWhile (· != '.')).drop 1
  if before.isEmpty then none else some (String.ofList after.reverse)

theorem split_ne_nil (cs : List Char) : split cs ≠ [] := by
  cases cs with
  | nil => simp [split]
  | cons c rest =>
    simp only [split, List.foldr_cons]
    split
    · split <;> simp
    · simp

-- The pieces make up the text, and none of them holds a slash.
theorem intercalate_split (cs : List Char) : ['/'].intercalate (split cs) = cs := by
  induction cs with
  | nil => rfl
  | cons c rest ih =>
    obtain ⟨first, more, h⟩ := List.exists_cons_of_ne_nil (split_ne_nil rest)
    have hc : split (c :: rest)
        = if c = '/' then [] :: first :: more else (c :: first) :: more := by
      simp only [split, List.foldr_cons] at h ⊢
      rw [h]
    rw [h] at ih
    rw [hc]
    split
    case isTrue hs =>
      rw [hs, ← ih]
      simp [List.intercalate]
    case isFalse =>
      rw [← ih]
      cases more <;> simp [List.intercalate]

end Path

end Chip8.Files
