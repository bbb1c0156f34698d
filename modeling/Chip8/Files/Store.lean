import Chip8.Files.Path

namespace Chip8.Files

-- Why an operation on files was refused.
inductive Error
  | notFound
  | alreadyExists
  | notDirectory
  | isDirectory
  -- a name or a whole path
  | tooLong
  -- the path holds a character that no name may have
  | nullCharacter
  | other (description : String) (code : Nat)
deriving DecidableEq, Repr

namespace Error

def description : Error → String
  | notFound => "No such file or directory"
  | alreadyExists => "File exists"
  | notDirectory => "Not a directory"
  | isDirectory => "Is a directory"
  | tooLong => "File name too long"
  | nullCharacter => "file name contained an unexpected NUL byte"
  | other description _ => description

-- The number by which the system knows the refusal. A null character never gets that far.
def code? : Error → Option Nat
  | notFound => some 2
  | alreadyExists => some 17
  | notDirectory => some 20
  | isDirectory => some 21
  | tooLong => some 36
  | nullCharacter => none
  | other _ code => some code

def message (e : Error) : String :=
  match e.code? with
  | some code => e.description ++ " (os error " ++ toString code ++ ")"
  | none => e.description

end Error

-- Where a program finds its files.
class Store (m : Type → Type) where
  read : Path → m (Except Error (List UInt8))
  -- creates a file or replaces its content
  write : Path → List UInt8 → m (Except Error Unit)
  -- makes a directory whose outer ones are there
  makeDirectory : Path → m (Except Error Unit)
  isDirectory : Path → m Bool

namespace Store

variable {m : Type → Type} [Monad m] [Store m]

-- Makes a directory. One that is there already will do.
def ensureDirectory (p : Path) : m (Except Error Unit) := do
  match ← makeDirectory p with
  | .ok () => return .ok ()
  | .error e => return if ← isDirectory p then .ok () else .error e

-- Makes the first of the directories, each of which lies in the next, and those of the others
-- that are missing. What was made before a failure stays.
def ensureDirectories : List Path → m (Except Error Unit)
  | [] => return .ok ()
  | p :: outer => do
    match ← ensureDirectory p with
    | .error .notFound =>
      match ← ensureDirectories outer with
      | .error e => return .error e
      | .ok () => ensureDirectory p
    | result => return result

def makeDirectories (p : Path) : m (Except Error Unit) := ensureDirectories p.ancestors

end Store

end Chip8.Files
