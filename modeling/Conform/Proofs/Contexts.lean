import Conform.Proofs.Schema.Laws
import Conform.Proofs.Requests
import Conform.Validation.Entry
import Conform.Proofs.Resolution

/-!
# The context of a call

No builder puts a context into the preferences of a node, so every node checks with the context of the call, except
in a schema for empty values, which is asked under preferences of its own and finds an empty context.
-/

namespace Conform

namespace Preferences

theorem context_setOption (p : Preferences) {name : String} (v : Value) (other : name ≠ "context") :
    (p.setOption name v).context = p.context := by
  unfold setOption
  split
  case h_4 | h_5 => exact absurd rfl other
  all_goals rfl

theorem context_setEntries {o : Dict} (admits : ∀ e ∈ o, Admits e) (p : Preferences) :
    (o.foldl setEntry p).context = p.context := by
  induction o generalizing p with
  | nil => rfl
  | cons e o ih =>
      obtain ⟨⟨name, type, key, other, -⟩, rest⟩ := List.forall_mem_cons.mp admits
      rw [List.foldl_cons, ih rest, setEntry, key]
      exact context_setOption p e.2 other

end Preferences

theorem Schema.Formed.merges {s : Schema} (formed : s.Formed) (p : Preferences) :
    ∃ q, s.merged p = .ok q ∧ q.context = p.context := by
  unfold Schema.merged
  cases prefs : s.core.prefs with
  | none => exact ⟨p, rfl, rfl⟩
  | some o =>
      have admits := formed.core.prefs o prefs
      exact ⟨_, Preferences.merge_of_admits admits p, Preferences.context_setEntries admits p⟩

/-- References into the context, resolved or looked up on behalf of a frame, read the given context. -/
structure Frame.Consults (h : Hooks) (context : Dict) (f : Frame) : Prop where
  resolves : ∀ r : Reference, r.target = .context → ∀ v run,
    (Node.resolve h f v r).exec run = (reach (.dict context) r.pathValues >>= r.finish h.adjust, run)
  finds : ∀ insensitive v (set : ValueSet) run, (Node.find h f insensitive v set).exec run =
    (set.lookup (fun r => match r.target with
      | .context => reach (.dict context) r.pathValues >>= r.finish h.adjust
      | _ => r.resolve h.adjust run.journal.shadow f.prefs.context v f.site) insensitive v, run)

theorem Frame.consults (h : Hooks) (f : Frame) : f.Consults h (f.prefs.context.getD []) where
  resolves r target v run := by
    change (r.resolve h.adjust run.journal.shadow f.prefs.context v f.site, run) = _
    rw [Reference.resolve_context h.adjust _ _ target]
  finds insensitive v set run := by
    have reads : (fun r : Reference => r.resolve h.adjust run.journal.shadow f.prefs.context v f.site) =
        fun r => match r.target with
          | .context => reach (.dict (f.prefs.context.getD [])) r.pathValues >>= r.finish h.adjust
          | _ => r.resolve h.adjust run.journal.shadow f.prefs.context v f.site := by
      funext r
      split
      · exact Reference.resolve_context h.adjust _ _ ‹_› v f.site
      · rfl
    change (set.lookup (fun r => r.resolve h.adjust run.journal.shadow f.prefs.context v f.site) insensitive v, run) = _
    rw [reads]

namespace Request

variable {h : Hooks} {on : Request → Role → Request → Prop} {c d : Request} {role : Role}

/-- A request checks its node under preferences with which references into the context read the given one. -/
def Reads (h : Hooks) (context : Dict) (c : Request) : Prop :=
  ∃ q, c.schema.merged c.prefs = .ok q ∧ ∀ f : Frame, f.prefs = q → f.Consults h context

theorem reads (formed : c.schema.Formed) : c.Reads h (c.prefs.context.getD []) := by
  obtain ⟨q, merged, context⟩ := formed.merges c.prefs
  refine ⟨q, merged, ?_⟩
  rintro f rfl
  exact context ▸ f.consults h

theorem Leads.context (formed : c.schema.Formed) (leads : c.Leads h role d) :
    (role = .empty → d.prefs.context = none) ∧ (role ≠ .empty → d.prefs.context = c.prefs.context) := by
  obtain ⟨q, merged, prefs⟩ := leads.prefs
  obtain ⟨q', merged', context⟩ := formed.merges c.prefs
  obtain rfl := Except.ok.inj (merged.symm.trans merged')
  rw [prefs, ← context]
  cases role <;> simp [Role.prefs, Preferences.forMatching]

/-- Apart from schemas for empty values all requests have the context of the first one. -/
theorem Reaches.context (formed : ∀ t, c.schema.Below t → t.Formed)
    (reached : c.Reaches h (fun _ role _ => role ≠ .empty) d) : d.prefs.context = c.prefs.context := by
  induction reached with
  | refl => rfl
  | tail steps step ih =>
      obtain ⟨role, leads, other⟩ := step
      exact ((leads.context (formed _ (below steps))).2 other).trans ih

theorem Reaches.no_context (formed : ∀ t, c.schema.Below t → t.Formed) (reached : c.Reaches h on d)
    (none_ : c.prefs.context = none) : d.prefs.context = none := by
  induction reached with
  | refl => exact none_
  | tail steps step ih =>
      obtain ⟨role, leads, -⟩ := step
      obtain ⟨emptied, kept⟩ := leads.context (formed _ (below steps))
      by_cases same : role = .empty
      · exact emptied same
      · exact (kept same).trans ih

end Request

open Request

/-- In a run under given preferences every reference into the context reads the context of the call, outside of the
schemas for empty values. What is asked for on behalf of such a schema reads an empty context. -/
theorem context_of_call {h : Hooks} {s : Schema} (built : s.Built) (v : Value) (p : Preferences) :
    (∀ c, Reaches h (fun _ role _ => role ≠ .empty) ⟨s, v, {}, p⟩ c → c.Reads h (p.context.getD [])) ∧
      ∀ b e c, Reaches h (fun _ _ _ => True) ⟨s, v, {}, p⟩ b → b.Leads h .empty e →
        Reaches h (fun _ _ _ => True) e c → c.Reads h [] := by
  have formed : ∀ t, s.Below t → t.Formed := built.formed
  refine ⟨fun c reached => ?_, fun b e c before leads after => ?_⟩
  · have context := reached.context formed
    have reads := c.reads (h := h) (formed _ reached.below)
    rwa [context] at reads
  · have below := before.below.tail ⟨_, leads.part⟩
    have context := after.no_context (fun t under => formed t (below.trans under))
      ((leads.context (formed _ before.below)).1 rfl)
    have reads := c.reads (h := h) (formed _ (below.trans after.below))
    rwa [context] at reads

/-! ## A value that counts as empty -/

/-- The key `x` of the context. -/
def contextX : Reference := { serial := 0, key := "$x", target := .context, holdsCache := false, path := ["x"] }

/-- Only what the context has under the key. -/
def onlyX : Schema := .node { allowed := some { refs := [contextX] }, only := true } none .any

/-- Anything, where what the context has under the key counts as empty. -/
def unlessX : Schema := .node {} (some onlyX) .any

def oneUnderX : Preferences := { context := some [(.str "x", .int 1)] }

theorem onlyX_built : onlyX.Built := by
  have runs : Script.run [{ name := "any" }, { name := "valid", args := [.leaf (.reference contextX)] }] =
      .ok onlyX := rfl
  exact .of_run runs rfl (List.forall_mem_nil _)

theorem unlessX_built : unlessX.Built := by
  have runs : Script.run [{ name := "any" }, { name := "empty", args := [.leaf (.schema 1 onlyX)] }] =
      .ok unlessX := rfl
  refine .of_run runs rfl ?_
  show ∀ u ∈ [onlyX], u.Built
  exact List.forall_mem_singleton.mpr onlyX_built

/-- A node of the call itself reads the one under the key. -/
theorem onlyX_reads :
    onlyX.Built ∧ (⟨onlyX, .int 1, {}, oneUnderX⟩ : Request).Reads Hooks.idle [(.str "x", .int 1)] :=
  ⟨onlyX_built, (context_of_call onlyX_built (.int 1) oneUnderX).1 _ .refl⟩

/-- The request for the schema for empty values. -/
def emptyAsked : Request := ⟨onlyX, .int 1, {}, ({} : Preferences).forMatching⟩

/-- It does not: the reference finds nothing, and the value does not count as empty. -/
theorem unlessX_keeps_one :
    Reaches Hooks.idle (fun _ _ _ => True) ⟨unlessX, .int 1, {}, oneUnderX⟩ emptyAsked ∧
      ((Node.resolve Hooks.idle (emptyAsked.frame Hooks.idle emptyAsked.prefs) (.int 1) contextX).exec {}).1 =
        .ok .undefined ∧
      ((Validation.pass Hooks.idle unlessX (.int 1) oneUnderX).exec {}).1 = .ok (⟨.int 1, []⟩, none) := by
  have leads : Leads Hooks.idle ⟨unlessX, .int 1, {}, oneUnderX⟩ .empty emptyAsked := .empty (w := .int 1) .empty rfl rfl
  exact ⟨.single ⟨_, leads, trivial⟩, rfl, rfl⟩

end Conform
