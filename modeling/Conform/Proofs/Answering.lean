import Conform.Proofs.Causes
import Conform.Proofs.Validation.Scalars

/-!
# Nodes that answer

What a node without functions of its caller reads and does stays among the data that can come up, and fails for
a cause alone: its references, conversions, rules, value sets and defaults, and the base check of its type.
-/

namespace Conform

namespace Bounds

variable {s t : Schema} {given : Value → Prop} {h : Hooks}

/-! ## References -/

theorem itemAt?_mem {xs : List Value} {j : Int} {x : Value} (found : itemAt? xs j = some x) : x ∈ xs := by
  unfold itemAt? at found
  generalize (if j < 0 then j + xs.length else j) = m at found
  simp only at found
  split at found
  · cases found
  · exact List.mem_of_getElem? found

theorem meets_bind {α β : Type} {B : Bounds} {Q : α → Prop} {R : β → Prop} {x : Except Fault α}
    {g : α → Except Fault β} (first : B.Meets Q x) (then_ : ∀ a, Q a → B.Meets R (g a)) : B.Meets R (x >>= g) := by
  cases x with
  | error f => exact first
  | ok a => exact then_ a first

end Bounds

end Conform
