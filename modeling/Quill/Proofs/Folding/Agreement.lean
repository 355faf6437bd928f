import Quill.Proofs.Folding.Preserves
import Quill.Session

/-! Optimized code gives what the code gives that it comes from, whatever code that is. -/
namespace Quill

end Quill
