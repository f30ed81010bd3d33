import Conform.Proofs.Schema.Growing

/-!
# Probes leave no trace

A probe marks the journal, evaluates a schema and goes back to the mark.
-/

namespace Conform

variable {h : Hooks}

/-- A probe of any schema leaves hooks, warnings, captured values and marks as it found them, whether it
accepts, rejects or faults. -/
theorem probe_traceless (growing : h.Growing freely) (s : Schema) (v : Value) (site : Site) (p : Preferences)
    (r : Run) : ((Node.accepts (s.eval h) v site p).exec r).2.journal = r.journal :=
  Node.accepts_traceless (s.eval_grows fun t _ => growing.callsGrow t.core) v site p r

/-! ## A probe that meets everything -/

/-- An object with a hook, a warning and a stripped value at its key. -/
def noisyObject : Schema := .node {} none (.object (some [(.str "a", .node {
  externals := [⟨0, "f", [], none⟩], result := some .strip
  rules := [{ name := .warning, args := [("code", .str "noise")] }] } none .any)]))

/-- The object behind a test that itself asks whether its input is empty. -/
def noisyBranches : Schema := .node {} none (.alternatives
  [.conditional none [.mk (.node { presence := some .required } (some noisyObject) .string) none (some noisyObject)] false]
  .otherwiseOnly none)

/-- A run with a hook and a captured value from before. -/
def busyRun : Run :=
  { journal := { externals := [⟨⟨1, "g", [], none⟩, [], "value"⟩]
                 shadow := some (({} : Shadow).set [.str "a"] (.int 0)) } }

/-- What an evaluation adds to the journal a probe of the same schema takes back. -/
theorem noisy_probe_traceless :
    (((noisyBranches.eval Hooks.idle (.dict [(.str "a", .int 1)]) {} {}).exec busyRun).2.journal.externals.length = 2 ∧
      ((noisyBranches.eval Hooks.idle (.dict [(.str "a", .int 1)]) {} {}).exec busyRun).2.journal.warnings.length = 1) ∧
    ((Node.accepts (noisyBranches.eval Hooks.idle) (.dict [(.str "a", .int 1)]) {} {}).exec busyRun).2.journal =
      busyRun.journal :=
  ⟨by decide +kernel, probe_traceless idle_growing noisyBranches _ {} {} busyRun⟩

end Conform
