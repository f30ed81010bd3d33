import Conform.Proofs.Chains
import Conform.Proofs.Run.Exec
import Conform.Proofs.Schema.Free

/-!
# Closed chains

A subject is asked about by the tests of branches in order, and leads to the first schema that a branch has for what its
test finds. A branch with a schema for either outcome lets no subject pass, so alternatives with such a branch end with a
schema below them and never report a failure of their own.
-/

namespace Conform

/-- The schema that a branch has for what its test finds. -/
def Branch.leads (b : Branch) (passes : Bool) : Option Schema := if passes then b.onMatch else b.onMiss

theorem Branch.Total.leads {b : Branch} (total : b.Total) (passes : Bool) : (b.leads passes).isSome := by
  cases passes with
  | true => exact total.1
  | false => exact total.2

namespace Alternatives

variable {h : Hooks} {f : Frame} {v x : Value} {r r' : Run} {bs : List Branch} {es : List Alternative}

/-! ## Branches -/

theorem choose_cons (b : Branch) (bs : List Branch) :
    choose f x (Schema.evalBranches h (b :: bs)) = Node.accepts (b.test.eval h) x f.site f.prefs >>= fun passes =>
      match b.leads passes with
      | some s => pure (some (s.eval h))
      | none => choose f x (Schema.evalBranches h bs) := by
  obtain ⟨test, yes, no⟩ := b
  rw [Schema.evalBranches, choose]
  refine congrArg (Bind.bind _) (funext fun passes => ?_)
  cases passes with
  | true => cases yes <;> rfl
  | false => cases no <;> rfl

/-- From a run a subject leads to `s`: the first branch with a schema for what its test finds has `s` for it. -/
inductive Picks (h : Hooks) (f : Frame) (x : Value) : List Branch → Run → Schema → Run → Prop
  | here {b : Branch} {bs : List Branch} {passes : Bool} {s : Schema} {r r' : Run}
      (tested : (Node.accepts (b.test.eval h) x f.site f.prefs).exec r = (.ok passes, r')) (leads : b.leads passes = some s) :
      Picks h f x (b :: bs) r s r'
  | later {b : Branch} {bs : List Branch} {passes : Bool} {s : Schema} {r r₁ r' : Run}
      (tested : (Node.accepts (b.test.eval h) x f.site f.prefs).exec r = (.ok passes, r₁)) (leads : b.leads passes = none)
      (picks : Picks h f x bs r₁ s r') : Picks h f x (b :: bs) r s r'

theorem choose_picks {e : Evaluator} (chosen : (choose f x (Schema.evalBranches h bs)).exec r = (.ok (some e), r')) :
    ∃ s, e = s.eval h ∧ Picks h f x bs r s r' := by
  induction bs generalizing r with
  | nil => cases chosen
  | cons b bs ih =>
      rw [choose_cons] at chosen
      obtain ⟨passes, r₁, tested, given⟩ := Eval.bind_ok chosen
      cases leads : b.leads passes with
      | some s =>
          rw [leads] at given
          cases given
          exact ⟨s, rfl, .here tested leads⟩
      | none =>
          rw [leads] at given
          obtain ⟨s, same, picks⟩ := ih given
          exact ⟨s, same, .later tested leads picks⟩

/-- A subject that leads nowhere has met no branch with a schema for either outcome. -/
theorem choose_partial (chosen : (choose f x (Schema.evalBranches h bs)).exec r = (.ok none, r')) :
    ∀ b ∈ bs, ¬ b.Total := by
  induction bs generalizing r with
  | nil => exact List.forall_mem_nil _
  | cons b bs ih =>
      rw [choose_cons] at chosen
      obtain ⟨passes, r₁, tested, given⟩ := Eval.bind_ok chosen
      cases leads : b.leads passes with
      | some s =>
          rw [leads] at given
          cases given
      | none =>
          rw [leads] at given
          refine List.forall_mem_cons.mpr ⟨fun total => ?_, ih given⟩
          simpa [leads] using total.leads passes

/-! ## Entries -/

/-- From a run the entries come to others: those before have been tried and have rejected the value, or have asked about
a subject that led nowhere. -/
inductive Comes (h : Hooks) (f : Frame) (v : Value) : List Alternative → Run → List Alternative → Run → Prop
  | here {es : List Alternative} {r : Run} : Comes h f v es r es r
  | rejected {s : Schema} {es rest : List Alternative} {r r₁ r' : Run} {a : Result}
      (evaluated : (s.eval h v f.site f.prefs).exec r = (.ok a, r₁)) (fails : a.errors ≠ [])
      (comes : Comes h f v es r₁ rest r') : Comes h f v (.attempt s :: es) r rest r'
  | passed {subject : Option Reference} {bs : List Branch} {fromSwitch : Bool} {es rest : List Alternative} {x : Value}
      {r r₁ r₂ r' : Run} (asked : (subjectOf h f v subject).exec r = (.ok x, r₁))
      (chosen : (choose f x (Schema.evalBranches h bs)).exec r₁ = (.ok none, r₂)) (comes : Comes h f v es r₂ rest r') :
      Comes h f v (.conditional subject bs fromSwitch :: es) r rest r'

/-- What an entry evaluates raises: the schema that it tries, its subject, a test, or the schema that it leads to. -/
inductive Raises (h : Hooks) (f : Frame) (v : Value) : Alternative → Run → Fault → Run → Prop
  | attempt {s : Schema} {r r' : Run} {fault : Fault}
      (evaluated : (s.eval h v f.site f.prefs).exec r = (.error fault, r')) : Raises h f v (.attempt s) r fault r'
  | subject {subject : Option Reference} {bs : List Branch} {fromSwitch : Bool} {r r' : Run} {fault : Fault}
      (asked : (subjectOf h f v subject).exec r = (.error fault, r')) :
      Raises h f v (.conditional subject bs fromSwitch) r fault r'
  | test {subject : Option Reference} {bs : List Branch} {fromSwitch : Bool} {x : Value} {r r₁ r' : Run} {fault : Fault}
      (asked : (subjectOf h f v subject).exec r = (.ok x, r₁))
      (chosen : (choose f x (Schema.evalBranches h bs)).exec r₁ = (.error fault, r')) :
      Raises h f v (.conditional subject bs fromSwitch) r fault r'
  | branch {subject : Option Reference} {bs : List Branch} {fromSwitch : Bool} {x : Value} {s : Schema} {r r₁ r₂ r' : Run}
      {fault : Fault} (asked : (subjectOf h f v subject).exec r = (.ok x, r₁)) (picks : Picks h f x bs r₁ s r₂)
      (evaluated : (s.eval h v f.site f.prefs).exec r₂ = (.error fault, r')) :
      Raises h f v (.conditional subject bs fromSwitch) r fault r'

/-- How entries end with what a schema below them gives: one that is tried accepts, or the one that a subject leads to
has a result, whatever it is. Else something that they evaluate raises. -/
inductive Ends (h : Hooks) (f : Frame) (v : Value) (es : List Alternative) (r : Run) : Except Fault Outcome → Run → Prop
  | accepts {s : Schema} {rest : List Alternative} {r₁ r' : Run} {u : Value}
      (comes : Comes h f v es r (.attempt s :: rest) r₁)
      (evaluated : (s.eval h v f.site f.prefs).exec r₁ = (.ok ⟨u, []⟩, r')) : Ends h f v es r (.ok ⟨u, []⟩) r'
  | dispatches {subject : Option Reference} {bs : List Branch} {fromSwitch : Bool} {rest : List Alternative} {x : Value}
      {s : Schema} {r₁ r₂ r₃ r' : Run} {a : Result} (comes : Comes h f v es r (.conditional subject bs fromSwitch :: rest) r₁)
      (asked : (subjectOf h f v subject).exec r₁ = (.ok x, r₂)) (picks : Picks h f x bs r₂ s r₃)
      (evaluated : (s.eval h v f.site f.prefs).exec r₃ = (.ok a, r')) : Ends h f v es r (.ok ⟨a.value, a.errors⟩) r'
  | raises {e : Alternative} {rest : List Alternative} {r₁ r' : Run} {fault : Fault} (comes : Comes h f v es r (e :: rest) r₁)
      (raises : Raises h f v e r₁ fault r') : Ends h f v es r (.error fault) r'

/-- What entries come to ends as they do. -/
theorem Ends.after {rest : List Alternative} {r₁ r' : Run} {o : Except Fault Outcome}
    (step : ∀ {rest' : List Alternative} {r₂ : Run}, Comes h f v rest r₁ rest' r₂ → Comes h f v es r rest' r₂)
    (ends : Ends h f v rest r₁ o r') : Ends h f v es r o r' := by
  cases ends with
  | accepts comes evaluated => exact .accepts (step comes) evaluated
  | dispatches comes asked picks evaluated => exact .dispatches (step comes) asked picks evaluated
  | raises comes raises => exact .raises (step comes) raises

theorem first_ends (covered : ∃ e ∈ es, ∃ b ∈ e.branches, b.Total) (issues : List Issue) (r : Run) :
    ∃ o r', (first h f v (Schema.evalAlternatives h es) issues).exec r = (o, r') ∧ Ends h f v es r o r' := by
  induction es generalizing issues r with
  | nil =>
      obtain ⟨e, member, -⟩ := covered
      cases member
  | cons e es ih =>
      cases e with
      | attempt s =>
          have rest : ∃ e ∈ es, ∃ b ∈ e.branches, b.Total := by simpa [Alternative.branches] using covered
          rw [Schema.evalAlternatives, first, Eval.exec_bind]
          rcases evaluated : (s.eval h v f.site f.prefs).exec r with ⟨fault | ⟨u, errors⟩, r₁⟩
          · exact ⟨_, r₁, rfl, .raises .here (.attempt evaluated)⟩
          · cases errors with
            | nil => exact ⟨_, r₁, rfl, .accepts .here evaluated⟩
            | cons i is =>
                obtain ⟨o, r', ran, ends⟩ := ih rest (issues ++ i :: is) r₁
                exact ⟨o, r', ran, ends.after fun comes => .rejected evaluated (List.cons_ne_nil i is) comes⟩
      | conditional subject bs fromSwitch =>
          rw [Schema.evalAlternatives, first, Eval.exec_bind]
          rcases asked : (subjectOf h f v subject).exec r with ⟨fault | x, r₁⟩
          · exact ⟨_, r₁, rfl, .raises .here (.subject asked)⟩
          · rw [Eval.andThen_ok, Eval.exec_bind]
            rcases chosen : (choose f x (Schema.evalBranches h bs)).exec r₁ with ⟨fault | _ | e, r₂⟩
            · exact ⟨_, r₂, rfl, .raises .here (.test asked chosen)⟩
            · -- The branch for both outcomes lets no subject pass, so it stands further on.
              have rest : ∃ e ∈ es, ∃ b ∈ e.branches, b.Total := by
                obtain ⟨e, member, b, inside, total⟩ := covered
                rcases List.mem_cons.mp member with rfl | later
                · exact absurd total (choose_partial chosen b inside)
                · exact ⟨e, later, b, inside, total⟩
              obtain ⟨o, r', ran, ends⟩ := ih rest issues r₂
              exact ⟨o, r', ran, ends.after fun comes => .passed asked chosen comes⟩
            · obtain ⟨s, rfl, picks⟩ := choose_picks chosen
              rw [Eval.andThen_ok]
              simp only [Eval.exec_bind]
              rcases evaluated : (s.eval h v f.site f.prefs).exec r₂ with ⟨fault | a, r₃⟩
              · exact ⟨_, r₃, rfl, .raises .here (.branch asked picks evaluated)⟩
              · exact ⟨_, r₃, rfl, .dispatches .here asked picks evaluated⟩

end Alternatives

/-! ## Closed chains -/

/-- Alternatives of a built schema whose chain is closed end with an attempt that accepts or with the one branch that they
dispatch to, whatever the value is, unless something that they evaluate raises. The run ends there, and the failures of the
attempts before it are dropped. -/
theorem closed_chain_dispatches {s t : Schema} (built : s.Built) (below : s.Below t) {es : List Alternative}
    {mode : Option MatchMode} (content : t.content = .alternatives es .closed mode) (h : Hooks) (f : Frame) (v : Value)
    (r : Run) :
    ∃ o r', ((t.toNode h).base f v).exec r = (o.map some, r') ∧ Alternatives.Ends h f v es r o r' := by
  have chained : Alternative.Chained es .closed mode := Layout.Made.chained (content ▸ (built.made t below).2)
  obtain ⟨e, member, b, inside, total⟩ := chained.closed.mp rfl
  have unmoded : mode = none := by
    cases mode with
    | none => rfl
    | some m =>
        have attempt := chained.counted rfl e member
        cases e with
        | attempt s => cases inside
        | conditional => cases attempt
  subst unmoded
  obtain ⟨o, r', ran, ends⟩ := Alternatives.first_ends ⟨e, member, b, inside, total⟩ [] r
  refine ⟨o, r', ?_, ends⟩
  have base : (t.toNode h).base = Alternatives.base h none (Schema.evalAlternatives h es) := by
    rw [Schema.toNode, content]
    rfl
  rw [base, Alternatives.base, Eval.exec_bind, ran]
  cases o <;> rfl

/-- The schema for a truth value rejects a text, and the text is no number: it is dispatched to the schema for texts. -/
theorem labelledChoice_dispatches : labelledChoice.Built ∧ labelledChoice.Below labelledChoice ∧
    ∃ es, labelledChoice.content = .alternatives es .closed none ∧
      Alternatives.Ends .idle ⟨.alternatives, none, {}, {}, .str "x", .str "x"⟩ (.str "x") es {} (.ok ⟨.str "x", []⟩) {} := by
  refine ⟨labelledChoice_built, .self _, _, rfl, ?_⟩
  obtain ⟨o, r', ran, ends⟩ := closed_chain_dispatches labelledChoice_built (.self _) rfl .idle
    ⟨.alternatives, none, {}, {}, .str "x", .str "x"⟩ (.str "x") {}
  have evaluated : ((labelledChoice.toNode .idle).base ⟨.alternatives, none, {}, {}, .str "x", .str "x"⟩ (.str "x")).exec {} =
    (.ok (some ⟨.str "x", []⟩), {}) := rfl
  rw [evaluated] at ran
  obtain ⟨given, rfl⟩ := Prod.mk.inj ran
  cases o with
  | error fault => cases given
  | ok o =>
      cases given
      exact ends

end Conform
