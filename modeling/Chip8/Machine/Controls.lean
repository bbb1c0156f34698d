import Chip8.Machine.Advance

namespace Chip8.Machine

-- Executes the instruction under a breakpoint and runs on, unless that stopped the program.
def continueRunning (m : Machine) : Machine :=
  let after := m.step
  match after.fault with
  | none => if after.machine.mode = .step then after.machine.setMode .run else after.machine
  | some _ => after.machine

def pressSpace (m : Machine) : Machine :=
  match m.mode with
  | .run => m.pause
  | .paused => m.resume
  | .step => m.continueRunning
  | .empty => m

def pressTab (m : Machine) : Machine :=
  match m.mode with
  | .step | .paused => m.step.machine
  | _ => m

-- Answers the keys that went down in one frame: Space pauses, resumes and continues, Tab steps and
-- Back resets.
def control (m : Machine) (pressed : List HostKey) : Machine :=
  let m := if "Space" ∈ pressed then m.pressSpace else m
  let m := if "Tab" ∈ pressed then m.pressTab else m
  if "Back" ∈ pressed then m.reset else m

end Chip8.Machine
