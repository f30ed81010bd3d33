import Conform.Proofs.Schema.Steady

/-!
# Schemas without references

A schema that collected no reference sees nothing of the values around it and of the context: references are
the only way to them that does not lead through a function of the caller.
-/

namespace Conform

/-- Runs that made the same number of copies, whatever is around the value. -/
abbrev Bounds.apart : Bounds := free (fun _ _ => True) False True

/-- A schema without references, functions and caches gives one outcome and writes the same at a path,
whatever the enclosing values, the context and the journal are. -/
theorem Schema.apart_alike (h : Hooks) (s : Schema) (unreferenced : s.refs = [])
    (plain : s.all fun core _ => core.isPlain) (path : Path) (p : Preferences) :
    Bounds.apart.EvaluatorsAt .all path p.plain (s.eval h) (s.eval h) :=
  plain_alike h plain (.inr unreferenced) (.inl trivial) path p

/-- A schema whose list of references is empty, without functions and caches, has the same outcome and
leaves the same journal under any enclosing values and any context. -/
theorem unreferenced_independent (h : Hooks) (s : Schema) (unreferenced : s.refs = [])
    (plain : s.all fun core _ => core.isPlain) (v : Value) (path : Path) (around around' : List Value)
    (p : Preferences) (c c' : Option Dict) (r r' : Run) (journal : r.journal = r'.journal)
    (copies : r.copies = r'.copies) :
    ((s.eval h v ⟨path, around⟩ { p with context := c }).exec r).1 =
        ((s.eval h v ⟨path, around'⟩ { p with context := c' }).exec r').1 ∧
      ((s.eval h v ⟨path, around⟩ { p with context := c }).exec r).2.journal =
        ((s.eval h v ⟨path, around'⟩ { p with context := c' }).exec r').2.journal := by
  have sites : Bounds.apart.Sites ⟨path, around⟩ ⟨path, around'⟩ := ⟨rfl, nofun, Bounds.free_site _⟩
  have prefs : Bounds.apart.Prefs { p with context := c } { p with context := c' } :=
    ⟨⟨c', rfl⟩, nofun, trivial⟩
  have linked : Bounds.apart.Linked r r' := Bounds.free_linked _ _ _ r r' trivial copies nofun
  obtain ⟨outcome, -, -, w, -, left, right⟩ :=
    s.apart_alike h unreferenced plain path p v _ _ _ _ trivial sites prefs rfl rfl r r' linked
  exact ⟨outcome, by rw [left, right, journal]⟩

/-- Children with a default, an allowed value, an empty value and a branch on the input itself. -/
def secluded : Schema := .node {} none (.object (some
  [(.str "a", .node { default := some (.static (.list [.int 1])), rules := [{ name := .min, args := [("limit", .int 3)] }] }
      (some (.node { allowed := some { literals := [.literal (.str "")] }, only := true } none .any)) .number),
    (.str "b", .node {} none (.alternatives
      [.conditional none [.mk (.node {} none .string) (some (.node { result := some .strip } none .any)) none] false]
      .thenOnly none))]))

theorem secluded_independent :
    (((secluded.eval .idle (.dict [(.str "a", .str "2"), (.str "b", .str "x")])
        ⟨[.str "k"], [.dict [(.str "limit", .int 0)]]⟩ { context := none }).exec {}).1 =
      ((secluded.eval .idle (.dict [(.str "a", .str "2"), (.str "b", .str "x")])
        ⟨[.str "k"], []⟩ { context := some [(.str "limit", .int 9)] }).exec {}).1) ∧
    ((secluded.eval .idle (.dict [(.str "a", .str "2"), (.str "b", .str "x")])
        ⟨[.str "k"], [.dict [(.str "limit", .int 0)]]⟩ { context := none }).exec {}).2.journal =
      ((secluded.eval .idle (.dict [(.str "a", .str "2"), (.str "b", .str "x")])
        ⟨[.str "k"], []⟩ { context := some [(.str "limit", .int 9)] }).exec {}).2.journal :=
  unreferenced_independent .idle secluded rfl (by decide) _ _ _ _ {} none (some [(.str "limit", .int 9)]) {} {}
    rfl rfl

end Conform
