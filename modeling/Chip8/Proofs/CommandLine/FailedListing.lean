import Chip8.CommandLine.Program
import Chip8.Proofs.Files.Directories
import Chip8.Proofs.Files.Path

namespace Chip8.CommandLine

open Files

variable {t t' : Tree} {path : Path} {output : Option Path}

-- Commands in a tree, step by step.

-- Reads a program and then writes its listing.
def fill (t : Tree) (path out : Path) : Except Failure Unit × Tree :=
  match t.read path with
  | .error cause => (.error (.files cause), t)
  | .ok program =>
    match t.write out (listingText path program).toUTF8.toList with
    | .error cause => (.error (.files cause), t)
    | .ok t₁ => (.ok (), t₁)

end Chip8.CommandLine
