import Chip8.CommandLine.Command
import Chip8.Files.Tree
import Chip8.Listing
import Chip8.Machine.Basic

namespace Chip8.CommandLine

-- Why a command failed.
inductive Failure
  | notAFile (path : Files.Path)
  | files (cause : Files.Error)
  | machine (fault : Fault)
deriving DecidableEq, Repr

def Failure.message : Failure → String
  | notAFile path => path.text ++ " is not a file"
  | files cause => cause.message
  | machine fault => fault.message

-- The listing of a program as a file: a title and then one line a word.
def listingText (path : Files.Path) (program : List UInt8) : String :=
  let title := "== " ++ path.text ++ " =="
  let lines := Listing.lines .standard (UInt16.ofNat Memory.programStart) program
  String.join ((title :: lines).map (· ++ "\n"))

section Commands

variable {m : Type → Type} [Monad m] [Files.Store m]

def orFail {α : Type} (action : m (Except Files.Error α)) : ExceptT Failure m α := do
  match ← (action : m _) with
  | .ok a => return a
  | .error cause => throw (.files cause)

-- Writes the listing of a program. The directories of the output are made first, and stay if
-- the program cannot be read.
def writeListing (path : Files.Path) (output : Option Files.Path) : ExceptT Failure m Unit := do
  match output with
  | some out =>
    if out.extension?.isNone then throw (.notAFile out)
    unless out.parent.text.isEmpty do orFail (Files.Store.makeDirectories out.parent)
  | none => pure ()
  let program ← orFail (Files.Store.read path)
  orFail (Files.Store.write (output.getD ⟨"output.txt"⟩)
    (listingText path program).toUTF8.toList)

-- A machine that runs the program of a file.
def prepare (config : Config) (path : Files.Path) : ExceptT Failure m Machine := do
  let content ← (Files.Store.read path : m _)
  match (Machine.new config).loadFile content with
  | .ok machine => return machine.setMode .run
  | .error fault => throw (.machine fault)

-- Carries a command out. What `run` yields is the machine that is to run.
def Command.carryOut (clock : UInt64) : Command → ExceptT Failure m (Option Machine)
  | .run path settings => do return some (← prepare (settings.configAt clock) path)
  | .disassemble path output => do
    writeListing path output
    return none

-- The exit code of a command line whose machine, if it yields one, is run elsewhere.
def exitCode (clock : UInt64) (words : List String) : m Nat :=
  match Command.read words with
  | .error e => pure e.exitCode
  | .ok command => do
    match ← (command.carryOut clock).run with
    | .ok _ => return 0
    | .error _ => return 1

end Commands

-- Writing a listing in a tree of files.
def writeListingIn (t : Files.Tree) (path : Files.Path) (output : Option Files.Path) :
    Except Failure Unit × Files.Tree :=
  let action : ExceptT Failure (StateM Files.Tree) Unit := writeListing path output
  action.run t

-- The exit code of a command line in a tree of files.
def exitCodeIn (t : Files.Tree) (clock : UInt64) (words : List String) : Nat × Files.Tree :=
  let action : StateM Files.Tree Nat := exitCode clock words
  action.run t

end Chip8.CommandLine
