import Quill.Proofs.Simulation.Shapes

/-! Calls in two runs of one program, of which only the second lets a call take the place of its
caller. Where it does, the first has one more call, which is about to return what it gets. -/
namespace Quill

def Fault.Overflow : Fault → Prop
  | .callDepth _ | .stackLimit _ => True
  | _ => False

def Setup.plain (setup : Setup) : Setup := { setup with reusesFrames := false }

variable {setup : Setup}

namespace Machine

end Machine

end Quill
