import Chip8.Files.Store

namespace Chip8.Files

inductive Entry
  | file (content : List UInt8)
  | directory
deriving DecidableEq, Repr

-- The names that lead from the root to an entry.
abbrev Location := List String

-- Files and directories below one root. Relative paths start at a current directory in it.
structure Tree where
  entries : List (Location × Entry)
  current : Location
deriving DecidableEq, Repr

namespace Tree

-- A tree of nothing but the current directory and those around it.
def around (current : Location) : Tree where
  entries := (List.range current.length).map fun n => (current.take (n + 1), .directory)
  current

def lookup (t : Tree) (l : Location) : Option Entry :=
  if l = [] then some .directory else t.entries.lookup l

-- Replaces what is at a location, or adds it there.
def put (t : Tree) (l : Location) (e : Entry) : Tree :=
  { t with entries := t.entries.filter (·.1 != l) ++ [(l, e)] }

-- The entries below the current directory, located from there.
def contents (t : Tree) : List (Location × Entry) :=
  t.entries.filterMap fun (l, e) =>
    if t.current.isPrefixOf l && t.current.length < l.length then
      some (l.drop t.current.length, e)
    else none

-- The location of a name in a directory, whether or not anything is there.
def child (directory : Location) (name : String) : Except Error Location :=
  if Path.nameLimit < name.utf8ByteSize then .error .tooLong else .ok (directory ++ [name])

-- The directory that names lead to from another one.
def enter (t : Tree) (start : Location) : List String → Except Error Location
  | [] => .ok start
  | "." :: rest => t.enter start rest
  | ".." :: rest => t.enter start.dropLast rest
  | name :: rest => do
    let l ← child start name
    match t.lookup l with
    | none => throw .notFound
    | some (.file _) => throw .notDirectory
    | some .directory => t.enter l rest

-- What a path leads to.
inductive Target
  -- a directory that is there
  | directory (l : Location)
  -- a name in a directory that is there
  | name (directory : Location) (name : String)

-- Follows a path up to its last name, which may be missing or too long.
def locate (t : Tree) (p : Path) : Except Error Target := do
  if p.text.toList.contains '\x00' then throw .nullCharacter
  if Path.textLimit < p.text.utf8ByteSize then throw .tooLong
  let start := if p.isAbsolute then [] else t.current
  match p.steps.getLast? with
  | none => if p.isAbsolute then return .directory [] else throw .notFound
  | some name =>
    if name == "." || name == ".." then return .directory (← t.enter start p.steps)
    else return .name (← t.enter start p.steps.dropLast) name

def isDirectory (t : Tree) (p : Path) : Bool :=
  match t.locate p with
  | .ok (.directory _) => true
  | .ok (.name directory name) => t.lookup (directory ++ [name]) == some .directory
  | .error _ => false

def read (t : Tree) (p : Path) : Except Error (List UInt8) := do
  match ← t.locate p with
  | .directory _ => throw .isDirectory
  | .name directory name =>
    match t.lookup (← child directory name) with
    | none => throw .notFound
    | some .directory => throw .isDirectory
    | some (.file content) => if p.hasTrailingSlash then throw .notDirectory else return content

-- Creates a file or replaces its content. A trailing slash asks for a directory.
def write (t : Tree) (p : Path) (content : List UInt8) : Except Error Tree := do
  match ← t.locate p with
  | .directory _ => throw .isDirectory
  | .name directory name =>
    if p.hasTrailingSlash then throw .isDirectory
    let l ← child directory name
    if t.lookup l == some .directory then throw .isDirectory
    return t.put l (.file content)

def makeDirectory (t : Tree) (p : Path) : Except Error Tree := do
  match ← t.locate p with
  | .directory _ => throw .alreadyExists
  | .name directory name =>
    let l ← child directory name
    if (t.lookup l).isSome then throw .alreadyExists
    return t.put l .directory

-- Putting an entry changes what is at its location alone.
theorem lookup_put (t : Tree) (l : Location) (e : Entry) (k : Location) (hl : l ≠ []) :
    (t.put l e).lookup k = if k = l then some e else t.lookup k := by
  by_cases hk : k = []
  · simp [lookup, hk, Ne.symm hl]
  · simp only [lookup, hk, if_false, put]
    induction t.entries with
    | nil =>
      by_cases h : k = l
      · simp [h]
      · have hb : (k == l) = false := beq_eq_false_iff_ne.mpr h
        simp [List.lookup_cons, h, hb]
    | cons first rest ih =>
      obtain ⟨m, f⟩ := first
      by_cases hm : m = l
      · subst hm
        by_cases h : k = m
        · simpa [h] using ih
        · have hb : (k == m) = false := beq_eq_false_iff_ne.mpr h
          simpa [List.lookup_cons, h, hb] using ih
      · by_cases h : k = m
        · subst h
          simp [hm]
        · have hb : (k == m) = false := beq_eq_false_iff_ne.mpr h
          simpa [List.lookup_cons, hm, hb] using ih

end Tree

-- A result that keeps the tree where it failed.
def Tree.orKeep (t : Tree) (result : Except Error Tree) : Except Error Unit × Tree :=
  match result with
  | .ok t => (.ok (), t)
  | .error e => (.error e, t)

instance : Store (StateM Tree) where
  read p := fun t => (t.read p, t)
  write p content := fun t => t.orKeep (t.write p content)
  makeDirectory p := fun t => t.orKeep (t.makeDirectory p)
  isDirectory p := fun t => (t.isDirectory p, t)

-- Adds a file and the directories of its name.
def Tree.add (t : Tree) (p : Path) (content : List UInt8) : Tree :=
  let action : StateM Tree Unit := do
    let _ ← Store.makeDirectories p.parent
    let _ ← Store.write p content
  (action.run t).2

def Tree.ofFiles (current : Location) (files : List (Path × List UInt8)) : Tree :=
  files.foldl (fun t (p, content) => t.add p content) (.around current)

end Chip8.Files
