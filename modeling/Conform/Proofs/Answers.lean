import Mathlib
import Conform.Proofs.Answering
import Conform.Proofs.Calm
import Conform.Proofs.Schema.Laws
import Conform.Proofs.Unreferenced
import Conform.Proofs.Validation.Entry

/-!
# Validation answers

Where no function of the caller takes part, a validation has an answer, and wrong data are part of it, unless one
of few causes is met. What it keeps in the tables lets later validations answer in the same way.
-/

namespace Conform

variable {s t : Schema} {given : Value → Prop} {h : Hooks}

namespace Bounds

end Bounds

/-- No hook, and no warning that fails without a cause. -/
def Effects.sound (s : Schema) (given : Value → Prop) : Effects := ⟨fun _ => False, fun r => r.Sound s given, True⟩

namespace Bounds

end Bounds

/-! ## Validation -/

namespace Validation

end Validation

def huge : Int := 10 ^ 200 * 10 ^ 200

end Conform
