import Chip8.CommandLine.Program
import Chip8.Listing
import Chip8.Machine.Operation
import Chip8.Machine.Summary
import Chip8.Main
import Chip8.Proofs.Display.Repaint
import Chip8.Proofs.Machine.Checked
import Chip8.Proofs.Machine.Breakpoints
import Chip8.Proofs.Machine.Ticking
import Chip8.Proofs.Machine.Leftovers
import Chip8.Proofs.Machine.Meaning
import Chip8.Proofs.Machine.Toggles
import Chip8.Proofs.Machine.KeyWait
import Chip8.Proofs.Display.Afterglow
import Chip8.Proofs.Machine.Subroutines
import Chip8.Proofs.Machine.Pausing
import Chip8.Proofs.Listing
import Chip8.Proofs.Machine.CycleRate
import Chip8.Proofs.Breakpoints
import Chip8.Proofs.Machine.Addressing
import Chip8.Proofs.Machine.Flags
import Chip8.Proofs.Machine.RandomBytes
import Chip8.Proofs.Display.Sprite
import Chip8.Proofs.Machine.Drawing
import Chip8.Proofs.Sound.Stream
import Chip8.Proofs.Machine.Halting
import Chip8.Proofs.Display.FadeOut
import Chip8.Proofs.Display.Scrolling
import Chip8.Proofs.Display.Overlay
import Chip8.Proofs.Display.Resolution
import Chip8.Proofs.Machine.Footprint
import Chip8.Proofs.CommandLine.ColorOptions
import Chip8.Proofs.CommandLine.FailedListing
import Chip8.Proofs.Machine.Scrolling
import Chip8.Proofs.Machine.Arithmetic
import Chip8.Proofs.Machine.Clock
import Chip8.Proofs.Machine.Transfer
import Chip8.Proofs.Machine.Reset
import Chip8.Proofs.CommandLine.RunOptions
