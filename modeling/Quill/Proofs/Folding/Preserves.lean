import Quill.Proofs.Folding.Places

/-! Optimized code runs as the code it comes from. -/
namespace Quill

section
variable {setup : Setup} {unit other : Nat} {root : Code}

end

end Quill
