import Conform.Shadow

/-!
# The journal of a validation

What one validation leaves behind besides its result: queued hooks, warnings and captured values.
`snapshot` marks a point and `restore` goes back to the last mark.
-/

namespace Conform

/-- The journal of hooks `ε` and warnings `ω`. -/
structure Journal (ε ω : Type) where
  externals : List ε := []
  warnings : List ω := []
  shadow : Option Shadow := none
  marks : List (Nat × Nat × Option Shadow) := []

instance {ε ω : Type} : Inhabited (Journal ε ω) := ⟨{}⟩

namespace Journal

variable {ε ω : Type}

def queue (e : ε) (j : Journal ε ω) : Journal ε ω := { j with externals := j.externals ++ [e] }

def warn (w : ω) (j : Journal ε ω) : Journal ε ω := { j with warnings := j.warnings ++ [w] }

/-- Captures a value under a path; the shadow comes to be with its first use. -/
def capture (p : Path) (v : Value) (j : Journal ε ω) : Journal ε ω :=
  { j with shadow := some ((j.shadow.getD {}).set p v) }

/-- The value captured at a path, if there is a shadow. -/
def captured? (p : Path) (j : Journal ε ω) : Option Value := j.shadow.map (Shadow.get p)

def snapshot (j : Journal ε ω) : Journal ε ω :=
  { j with marks := (j.externals.length, j.warnings.length, j.shadow) :: j.marks }

/-- Back to the last mark; without one there is nothing to go back to. -/
def restore? (j : Journal ε ω) : Option (Journal ε ω) :=
  match j.marks with
  | [] => none
  | (hooks, warnings, shadow) :: marks =>
    some ⟨j.externals.take hooks, j.warnings.take warnings, shadow, marks⟩

end Journal

end Conform
