import Mathlib.Data.List.Forall2
import Mathlib.Data.List.Infix
import Conform.Schema.Compile
import Conform.Proofs.Overrides
import Conform.Proofs.RuleArgs
import Conform.Proofs.Schema.Parts

/-!
# Nodes as the builders check them

The builders check the arguments of rules and the overrides of preferences, take keys from dictionaries and count
attempts alone.
-/

namespace Conform

/-- Whatever comes out has the property. -/
def Delivers {α : Type} (P : α → Prop) (x : Except Fault α) : Prop := ∀ a, x = .ok a → P a

namespace Delivers

variable {α β : Type} {P : α → Prop} {Q : β → Prop}

theorem pure {a : α} (holds : P a) : Delivers P (.ok a) := fun _ same => Except.ok.inj same ▸ holds

theorem error (f : Fault) : Delivers P (.error f) := nofun

theorem any (x : Except Fault α) : Delivers (fun _ => True) x := fun _ _ => trivial

theorem bind {x : Except Fault α} {g : α → Except Fault β} (first : Delivers P x) (then_ : ∀ a, P a → Delivers Q (g a)) :
    Delivers Q (x >>= g) := by
  cases x with
  | error f => exact error f
  | ok a => exact then_ a (first a rfl)

theorem require {c : Bool} {text : String} {g : Unit → Except Fault β} (then_ : c = true → Delivers Q (g ())) :
    Delivers Q (Conform.require c text >>= g) := by
  cases c with
  | false => exact error _
  | true => exact then_ rfl

theorem ensure {c : Bool} {parts : List Value} {g : Unit → Except Fault β} (then_ : c = true → Delivers Q (g ())) :
    Delivers Q (Conform.ensure c parts >>= g) := by
  cases c with
  | false => exact error _
  | true => exact then_ rfl

theorem mono {R : α → Prop} {x : Except Fault α} (yields : Delivers P x) (weaker : ∀ a, P a → R a) : Delivers R x :=
  fun a same => weaker a (yields a same)

theorem mapM {R : α → β → Prop} {f : α → Except Fault β} {xs : List α} (each : ∀ x ∈ xs, Delivers (R x) (f x)) :
    Delivers (List.Forall₂ R xs) (xs.mapM f) := by
  induction xs with
  | nil => exact pure .nil
  | cons x xs ih =>
      rw [List.mapM_cons]
      refine (each x (by simp)).bind fun y holds => (ih fun z member => each z (by simp [member])).bind fun ys others => ?_
      exact pure (.cons holds others)

theorem mapM_each {f : α → Except Fault β} {xs : List α} (each : ∀ x ∈ xs, Delivers Q (f x)) :
    Delivers (fun ys => ∀ y ∈ ys, Q y) (xs.mapM f) := by
  refine (mapM (R := fun _ => Q) each).mono fun ys paired => ?_
  induction paired with
  | nil => exact List.forall_mem_nil _
  | cons head _ ih => exact List.forall_mem_cons.mpr ⟨head, ih fun x member => each x (by simp [member])⟩

theorem foldlM {f : α → β → Except Fault α} {xs : List β} (each : ∀ a, P a → ∀ x ∈ xs, Delivers P (f a x)) {a : α}
    (start : P a) : Delivers P (xs.foldlM f a) := by
  induction xs generalizing a with
  | nil => exact pure start
  | cons x xs ih =>
      rw [List.foldlM_cons]
      exact (each a start x (by simp)).bind fun b holds => ih (fun c isIn y member => each c isIn y (by simp [member])) holds

end Delivers

/-! ## Nodes -/

/-- Settings with checked rules and with a valid override of preferences. -/
structure Core.Formed (kind : Kind) (core : Core) : Prop where
  rules : ∀ e ∈ core.rules, e.Formed kind
  prefs : ∀ o, core.prefs = some o → ∀ e ∈ o, Preferences.Admits e

/-- Keys that can be keys, and a match mode of attempts alone. -/
def Content.Formed : Content → Prop
  | .object (some ks) => ∀ e ∈ ks, e.1.isHashable
  | .alternatives es _ (some _) => ∀ e ∈ es, e.isAttempt
  | _ => True

namespace Schema

/-- A node as the builders make it. -/
structure Formed (s : Schema) : Prop where
  core : s.core.Formed s.kind
  content : s.content.Formed

/-- A schema of nodes as the builders make them. -/
def FormedBelow (s : Schema) : Prop := ∀ t, s.Below t → t.Formed

end Schema

/-! ## Rules -/

theorem RuleSpec.names_distinct (kind : Kind) : ∀ spec ∈ kind.rules, (spec.args.map ArgSpec.name).Nodup := by
  cases kind <;> decide

theorem RuleSpec.arg_of_mem {spec : RuleSpec} (distinct : (spec.args.map ArgSpec.name).Nodup) {a : ArgSpec}
    (member : a ∈ spec.args) : spec.arg a.name = a := by
  unfold RuleSpec.arg
  generalize spec.args = args at *
  induction args with
  | nil => cases member
  | cons b args ih =>
      rw [List.map_cons, List.nodup_cons] at distinct
      rw [List.find?_cons]
      rcases List.mem_cons.mp member with rfl | below
      · simp
      · have different : (b.name == a.name) = false :=
          beq_eq_false_iff_ne.mpr fun same => distinct.1 (same ▸ List.mem_map_of_mem below)
        simp only [different]
        exact ih distinct.2 below

/-- What is entered for one argument: a reference where one may stand, or a checked value. -/
inductive Entered (a : ArgSpec) (given : List (String × Term)) :
    List (String × Value) × List (String × Reference) → Prop
  | reference {r : Reference} (admits : a.admitsRef) : Entered a given ([(a.name, .leaf (.pointer r.toPointer))], [(a.name, r)])
  | value {v : Value} (is : v = a.normalize (((given.lookup a.name).map Term.toValue).getD .null))
      (checked : a.check v = .ok true) : Entered a given ([(a.name, v)], [])

theorem Schema.checkArg_entered (rule : RuleName) (a : ArgSpec) (given : List (String × Term)) :
    Delivers (Entered a given) (checkArg rule a given) := by
  unfold checkArg
  split
  · exact .ensure fun admits => .ensure fun _ => .pure (.reference admits)
  · intro entered same
    cases checked : a.check (a.normalize (((given.lookup a.name).map Term.toValue).getD .null)) with
    | error f => simp [checked, bind, Except.bind] at same
    | ok accepted =>
        cases accepted with
        | false => simp [checked, bind, Except.bind, Conform.ensure] at same
        | true =>
            simp only [checked, bind, Except.bind, Conform.ensure, if_true, pure, Except.pure] at same
            exact Except.ok.inj same ▸ .value rfl checked

section

variable {given : List (String × Term)} {as : List ArgSpec}
  {checked : List (List (String × Value) × List (String × Reference))}

theorem Entered.names (entered : List.Forall₂ (Entered · given) as checked) :
    (checked.flatMap Prod.fst).map Prod.fst = as.map ArgSpec.name := by
  induction entered with
  | nil => rfl
  | cons head _ ih => cases head <;> simp [ih]

theorem Entered.refs (entered : List.Forall₂ (Entered · given) as checked) :
    ∀ x ∈ checked.flatMap Prod.snd, ∃ a ∈ as, a.name = x.1 ∧ a.admitsRef := by
  induction entered with
  | nil => exact nofun
  | @cons a p as checked head _ ih =>
      intro x member
      rw [List.flatMap_cons] at member
      rcases List.mem_append.mp member with here | later
      · cases head with
        | reference admits =>
            obtain rfl := List.mem_singleton.mp here
            exact ⟨a, by simp, rfl, admits⟩
        | value => cases here
      · obtain ⟨b, inside, found⟩ := ih x later
        exact ⟨b, by simp [inside], found⟩

/-- For every argument there is a reference or a checked value. -/
theorem Entered.each (entered : List.Forall₂ (Entered · given) as checked) (distinct : (as.map ArgSpec.name).Nodup) :
    ∀ a ∈ as, a.name ∈ (checked.flatMap Prod.snd).map Prod.fst ∨
      a.check (RuleEntry.arg a.name (checked.flatMap Prod.fst)) = .ok true ∧
        RuleEntry.arg a.name (checked.flatMap Prod.fst) =
          a.normalize (((given.lookup a.name).map Term.toValue).getD .null) := by
  induction entered with
  | nil => exact nofun
  | @cons a p as checked head _ ih =>
      rw [List.map_cons, List.nodup_cons] at distinct
      intro b member
      rcases List.mem_cons.mp member with rfl | below
      · cases head with
        | reference => exact .inl (by simp)
        | @value v is passed =>
            have found : RuleEntry.arg b.name ((([(b.name, v)], []) :: checked).flatMap Prod.fst) = v := by
              rw [List.flatMap_cons, List.cons_append, RuleEntry.arg_cons, if_pos rfl]
            rw [found]
            exact .inr ⟨passed, is⟩
      · have different : a.name ≠ b.name := fun same => distinct.1 (same ▸ List.mem_map_of_mem below)
        rcases ih distinct.2 b below with left | found
        · exact .inl (by
            rw [List.flatMap_cons, List.map_append]
            exact List.mem_append_right _ left)
        · have same : RuleEntry.arg b.name ((p :: checked).flatMap Prod.fst) =
              RuleEntry.arg b.name (checked.flatMap Prod.fst) := by
            cases head <;> rw [List.flatMap_cons, List.cons_append, RuleEntry.arg_cons, if_neg different] <;> rfl
          rw [same]
          exact .inr found

end

theorem RuleName.needs_mem {kind : Kind} {name : RuleName} {spec : RuleSpec} (known : kind.rule? name = some spec) :
    (∀ args, Rule.Ready name args) ∨ ∃ a ∈ spec.args, a.name = name.needs := by
  have listed : (∀ args, Rule.Ready name args) ∨ name.needs ∈ ((kind.rule? name).map fun r => r.args.map ArgSpec.name).getD [] := by
    cases name with
    | custom | integer | trim | case => exact .inl fun _ => trivial
    | _ =>
        right
        revert known
        cases kind <;> first
          | (intro known; cases known; done)
          | (intro _; decide)
  rw [known] at listed
  exact listed.imp_right fun inside => List.mem_map.mp inside

theorem RuleSpec.pattern_normalize {kind : Kind} {spec : RuleSpec} (known : kind.rule? .pattern = some spec) :
    ∀ a ∈ spec.args, ∀ v, a.normalize v = v := by
  cases kind <;> first
    | (cases known; done)
    | (obtain rfl := Option.some.inj known
       simp [RuleSpec.pattern])

/-- A term that can be read if it is a pattern. -/
def Term.Readable (t : Term) : Prop := ∀ source, Term.toValue t = .leaf (.pattern source) → (Pattern.read? source).isSome

theorem Schema.ruleEntry_formed {kind : Kind} {name : RuleName} {spec : RuleSpec} (known : kind.rule? name = some spec)
    {given : List (String × Term)} (readable : ∀ g ∈ given, g.2.Readable) :
    Delivers (fun e => e.name = name ∧ e.Formed kind) (ruleEntry spec given) := by
  obtain ⟨member, named⟩ : spec ∈ kind.rules ∧ spec.name = name := by
    refine ⟨List.mem_of_find?_eq_some known, ?_⟩
    simpa using List.find?_some known
  have distinct := RuleSpec.names_distinct kind spec member
  refine (Delivers.mapM fun a _ => checkArg_entered spec.name a given).bind fun checked entered => .pure ⟨named, ?_⟩
  have own : ∀ e : RuleEntry, e.name = spec.name → e.spec kind = spec := by
    intro e same
    rw [RuleEntry.spec, same, named, known]
    rfl
  refine ⟨?_, fun x isRef => ?_, ?_⟩
  · rw [named, known]
    rfl
  · obtain ⟨a, inside, same, admits⟩ := Entered.refs entered x isRef
    rw [own _ rfl, ← same, RuleSpec.arg_of_mem distinct inside, Entered.names entered]
    exact ⟨admits, List.mem_map_of_mem inside⟩
  · rcases RuleName.needs_mem known with always | ⟨a, inside, needed⟩
    · exact .inr (named ▸ always _)
    · subst named
      rcases Entered.each entered distinct a inside with left | ⟨passed, is⟩
      · exact .inl (needed ▸ left)
      · have read : spec.name = .pattern → ∀ source, RuleEntry.arg spec.name.needs (checked.flatMap Prod.fst) =
            .leaf (.pattern source) → (Pattern.read? source).isSome := by
          intro isPattern source regex
          rw [← needed, is, RuleSpec.pattern_normalize (isPattern ▸ known) a inside] at regex
          cases term : given.lookup a.name with
          | none => simp [term] at regex
          | some t =>
              obtain ⟨before, after, split, -⟩ := List.lookup_eq_some_iff.mp term
              exact readable (a.name, t) (by simp [split]) source (by simpa [term] using regex)
        have same : spec.arg spec.name.needs = a := needed ▸ RuleSpec.arg_of_mem distinct inside
        refine .inr (Rule.ready_of_check (Option.isSome_iff_exists.mpr ⟨spec, known⟩) read ?_ rfl)
        rw [own _ rfl, same, ← needed]
        exact passed

theorem Schema.mem_putRule {spec : RuleSpec} {e d : RuleEntry} {rules : List RuleEntry}
    (member : d ∈ putRule spec e rules) : d ∈ rules ∨ d = e := by
  rcases List.mem_append.mp member with old | last
  · split at old
    · exact .inl old
    · exact .inl (List.mem_filter.mp old).1
  · exact .inr (List.mem_singleton.mp last)

theorem Schema.mem_mergeRules {kind : Kind} {own added : List RuleEntry} {d : RuleEntry}
    (member : d ∈ mergeRules kind own added) : d ∈ own ∨ d ∈ added := by
  unfold mergeRules at member
  induction added generalizing own with
  | nil => exact .inl member
  | cons e added ih =>
      rcases ih member with earlier | later
      · rcases mem_putRule earlier with old | rfl
        · exact .inl old
        · exact .inr List.mem_cons_self
      · exact .inr (List.mem_cons_of_mem _ later)

theorem RuleEntry.Formed.amend {kind : Kind} {e : RuleEntry} (formed : e.Formed kind) (warn message : Value) :
    { e with warn := warn, message := message }.Formed kind :=
  ⟨formed.known, formed.refs, formed.ready⟩

theorem Kind.rule?_of_any (kind : Kind) {name : RuleName} {spec : RuleSpec} (known : Kind.any.rule? name = some spec) :
    kind.rule? name = some spec := by
  rw [← known]
  cases name with
  | custom | warning => cases kind <;> rfl
  | _ => cases known

theorem RuleEntry.Formed.ofAny {e : RuleEntry} (formed : e.Formed .any) (kind : Kind) : e.Formed kind := by
  obtain ⟨rule, known⟩ := Option.isSome_iff_exists.mp formed.known
  have spec : e.spec kind = e.spec .any := by
    rw [RuleEntry.spec, kind.rule?_of_any known, RuleEntry.spec, known]
  refine ⟨?_, fun a member => spec ▸ formed.refs a member, formed.ready⟩
  rw [kind.rule?_of_any known]
  rfl

/-! ## Settings -/

namespace Core.Formed

variable {kind : Kind} {core core' : Core}

/-- Only the rules and the preferences of a node are checked. -/
theorem congr (formed : core.Formed kind) (rules : core'.rules = core.rules) (prefs : core'.prefs = core.prefs) :
    core'.Formed kind where
  rules := rules ▸ formed.rules
  prefs := prefs ▸ formed.prefs

theorem renewed (formed : core.Formed kind) : Delivers (Core.Formed kind) core.renewed := by
  unfold Core.renewed
  split
  · exact .pure formed
  · exact (Delivers.any _).bind fun _ _ => .pure (formed.congr rfl rfl)

theorem allow (formed : core.Formed kind) (terms : List Term) : Delivers (Core.Formed kind) (core.allow terms) :=
  (Delivers.any _).bind fun _ _ => .pure (formed.congr rfl rfl)

theorem deny (formed : core.Formed kind) (terms : List Term) : Delivers (Core.Formed kind) (core.deny terms) :=
  (Delivers.any _).bind fun _ _ => .pure (formed.congr rfl rfl)

end Core.Formed

namespace Schema

theorem mergeCore_formed {kind other : Kind} {own source : Core} (first : own.Formed kind)
    (second : source.Formed other) (fits : kind = other ∨ other = .any) :
    Delivers (Core.Formed kind) (mergeCore kind own source) := by
  have added : ∀ e ∈ source.rules, e.Formed kind := by
    rcases fits with rfl | rfl
    · exact second.rules
    · exact fun e member => (second.rules e member).ofAny kind
  refine first.renewed.bind fun c renewed => (Delivers.any _).bind fun _ _ => (Delivers.any _).bind fun _ _ => .pure ?_
  refine ⟨fun e member => (mem_mergeRules member).elim (renewed.rules e) (added e), fun o is => ?_⟩
  simp only at is
  split at is
  · exact renewed.prefs o is
  · exact renewed.prefs o is
  · rename_i p _ same
    obtain rfl := Option.some.inj is
    refine Preferences.admits_merge ?_ (second.prefs p same)
    cases has : c.prefs with
    | none => exact List.forall_mem_nil _
    | some q => exact renewed.prefs q has

end Schema

end Conform
