import Conform.Proofs.Early.Containers
import Conform.Proofs.Unreferenced

/-!
# Aborting early

Whether a validation aborts early changes how much it reports, and not what it decides: the same data are
accepted, with the same values.
-/

namespace Conform

/-- Whether the allowed and denied values and the keys of a node hold no copies from the `k`-th on. -/
def Core.hasOldLiterals (k : Nat) (core : Core) (content : Content) : Bool :=
  (core.allowed.map fun s => s.literalValues.all (Datum.isOld k)).getD true &&
    (core.denied.map fun s => s.literalValues.all (Datum.isOld k)).getD true &&
    match content with
    | .object (some ks) => ks.all fun e => e.1.isOld k
    | _ => true

/-- Whether a node is of another type than alternatives. -/
def Content.isSingle : Content → Bool
  | .alternatives .. => false
  | _ => true

/-- Settings without functions, caches and error overrides. -/
def Core.isBare (core : Core) : Bool := core.isPlain && core.error.isNone

/-! ## Scalars -/

section

variable {k : Nat} {flat : Prop}

theorem baseBoolean_concurs : BaseCheck.Concurs k flat fun f v => pure (baseBoolean f v) := by
  intro same f f' beside v w like
  refine .pure ?_
  cases like.likeness with
  | same v =>
      unfold baseBoolean
      split
      · exact .none
      · exact .some (beside.failure _ _ _ _ _)
  | _ => exact .some (beside.failure _ _ _ _ _)

theorem baseString_concurs : BaseCheck.Concurs k flat fun f v => pure (baseString f v) := by
  intro same f f' beside v w like
  refine .pure ?_
  cases like.likeness with
  | same v =>
      unfold baseString
      split
      · exact .some (beside.failure _ _ _ _ _)
      · exact .none
      · exact .some (beside.failure _ _ _ _ _)
  | _ => exact .some (beside.failure _ _ _ _ _)

theorem baseProbe_concurs : BaseCheck.Concurs k flat fun f v => pure (baseProbe f v) := by
  intro same f f' beside v w like
  refine .pure ?_
  cases like.likeness with
  | same v =>
      unfold baseProbe
      split
      · exact .none
      · exact .some (beside.failure _ _ _ _ _)
  | _ => exact .some (beside.failure _ _ _ _ _)

theorem baseNumber_concurs : BaseCheck.Concurs k flat fun f v => baseNumber f v := by
  intro same f f' beside v w like
  refine .lift fun o o' left right => ?_
  cases like.likeness with
  | same v =>
      unfold baseNumber at left right
      cases number : Datum.isNumber v with
      | error fault => simp [number, bind, Except.bind] at left
      | ok isNumber =>
          simp only [number, bind, Except.bind, pure, Except.pure] at left right
          split at left
          · rename_i other
            rw [if_pos other] at right
            cases left
            cases right
            exact .some (beside.failure _ _ _ _ _)
          · rename_i numeric
            rw [if_neg numeric] at right
            split at left
            · cases left
              cases right
              exact .some (beside.failure _ _ _ _ _)
            · cases left
              split at right
              · exact absurd rfl (‹∀ negative, _ = Datum.float (.infinity negative) → False› _)
              · cases right
                exact .none
  | _ =>
      cases left
      cases right
      exact .some (beside.failure _ _ _ _ _)

end

namespace Schema

variable {k : Nat} {flat : Prop} {h : Hooks} {s : Schema}

theorem even (unreferenced : s.refs = []) (plain : s.core.Plain) (old : s.core.hasOldLiterals k s.content) :
    s.core.Even k := by
  simp only [Core.hasOldLiterals, Bool.and_eq_true] at old
  refine ⟨plain, List.subset_nil.mp (unreferenced ▸ s.core_refs_subset), fun t same => ?_⟩
  rcases same with same | same
  · simpa [same] using old.1.1
  · simpa [same] using old.1.2

theorem keys_concur {core : Core} {empty : Option Schema} {keys : Option (List (Value × Schema))}
    (parts : ∀ role t, (node core empty (.object keys)).Part role t → (t.eval h).Concurs k flat ∧ (t.eval h).Grows)
    (old : core.hasOldLiterals k (.object keys)) : BaseCheck.Concurs k flat (Keys.base core.unknown (evalKeys h keys)) := by
  have declared : ∀ cs, evalKeys h keys = some cs → ∀ c ∈ cs, ∃ e : Value × Schema,
      c = ⟨e.1, e.2.strips, e.2.eval h⟩ ∧ (node core empty (.object keys)).Part (.key e.1) e.2 ∧ e.1.isOld k := by
    intro cs same c member
    cases keys with
    | none => cases same
    | some ks =>
        obtain rfl := Option.some.inj same
        obtain ⟨e, below, rfl⟩ := mem_evalKeyList member
        simp only [Core.hasOldLiterals, Bool.and_eq_true, List.all_eq_true] at old
        exact ⟨e, rfl, .key below, old.2 e below⟩
  refine Keys.base_concurs (fun cs same c member => ?_) (fun cs same c member => ?_) fun cs same c member => ?_
  · obtain ⟨e, rfl, part, -⟩ := declared cs same c member
    exact (parts _ _ part).1
  · obtain ⟨e, rfl, part, -⟩ := declared cs same c member
    exact (parts _ _ part).2
  · obtain ⟨e, rfl, -, isOld⟩ := declared cs same c member
    exact isOld

theorem entries_concur {core : Core} {empty : Option Schema} {es : List Alternative} {chain : ChainState}
    {mode : Option MatchMode}
    (parts : ∀ role t, (node core empty (.alternatives es chain mode)).Part role t → (t.eval h).Concurs k flat)
    (unreferenced : (node core empty (.alternatives es chain mode)).refs = []) :
    ∀ a ∈ evalAlternatives h es, Alternatives.EntryConcurs k flat a := by
  intro a member
  rcases mem_evalAlternatives member with ⟨t, below, rfl⟩ | ⟨subject, bs, fromSwitch, entry, rfl⟩
  · exact parts .entry t (.attempt below)
  · refine ⟨Option.eq_none_iff_forall_ne_some.mpr fun r same => ?_, fun c chosen => ?_⟩
    · have isRef := subjects_subset (node core empty (.alternatives es chain mode))
        (List.mem_filterMap.mpr ⟨_, entry, same⟩)
      rw [unreferenced] at isRef
      cases isRef
    · obtain ⟨test, yes, no, branch, rfl⟩ := mem_evalBranches chosen
      refine ⟨parts .test test (.test entry branch), fun e same => ?_, fun e same => ?_⟩
      · obtain ⟨t, rfl, rfl⟩ := evalOption_eq_some same
        exact parts .entry t (.onMatch entry branch)
      · obtain ⟨t, rfl, rfl⟩ := evalOption_eq_some same
        exact parts .entry t (.onMiss entry branch)

theorem evalContent_concurs {core : Core} {empty : Option Schema} {content : Content}
    (parts : ∀ role t, (node core empty content).Part role t → (t.eval h).Concurs k flat ∧ (t.eval h).Grows)
    (unreferenced : (node core empty content).refs = []) (old : core.hasOldLiterals k content)
    (single : flat → content.isSingle) : BaseCheck.Concurs k flat (evalContent h core content) := by
  cases content with
  | array items =>
      refine Items.base_concurs (fun e member => ?_) fun e member => ?_
      · obtain ⟨t, below, rfl⟩ := mem_evalEach member
        exact (parts (.item 0) t (.item 0 below)).1
      · obtain ⟨t, below, rfl⟩ := mem_evalEach member
        exact (parts (.item 0) t (.item 0 below)).2
  | object keys => exact keys_concur parts old
  | alternatives es chain mode =>
      have never : ¬ flat := fun whole => Bool.false_ne_true (single whole)
      exact Alternatives.base_concurs never (entries_concur (fun role t part => (parts role t part).1) unreferenced)
  | any => exact fun _ _ _ _ _ _ _ => .pure .none
  | boolean => exact baseBoolean_concurs
  | number => exact baseNumber_concurs
  | string => exact baseString_concurs
  | probe => exact baseProbe_concurs

/-- Every schema without references, functions and caches decides alike in two runs. -/
theorem plain_concurs (s : Schema) (unreferenced : s.refs = []) (plain : ∀ t, s.Below t → t.core.Plain)
    (old : s.all (Core.hasOldLiterals k)) (single : flat → s.all fun _ content => content.isSingle) :
    (s.eval h).Concurs k flat := by
  induction s using parts_induction with
  | step s ih =>
  have parts : ∀ role t, s.Part role t → (t.eval h).Concurs k flat ∧ (t.eval h).Grows := by
    intro role t part
    have none : t.refs = [] := List.subset_nil.mp (unreferenced ▸ refs_part part)
    have plain : ∀ u, t.Below u → u.core.Plain := fun u below => plain u (.head ⟨role, part⟩ below)
    exact ⟨ih role t part none plain (all_part old part) fun whole => all_part (single whole) part,
      t.eval_grows fun u below => (plain u below).callsGrow⟩
  have even := even unreferenced (plain s .refl) (all_here old)
  obtain ⟨core, empty, content⟩ := s
  rw [eval_eq]
  refine Node.evaluate_concurs ⟨even, fun e same => ?_, ?_, fun f v => ?_⟩
  · obtain ⟨t, rfl, rfl⟩ := evalOption_eq_some same
    exact parts .empty t .empty
  · exact evalContent_concurs parts unreferenced (all_here old) fun whole => all_here (single whole)
  · have kept : ∀ role t, (node core empty content).Part role t → (t.eval h).Grows ∧ (t.eval h).Keeps freely True :=
      fun role t part => ⟨(parts role t part).2, (parts role t part).2.keeps⟩
    exact evalContent_grows kept f v fun _ => spares_freely _

theorem eval_concurs (s : Schema) (unreferenced : s.refs = []) (bare : s.all fun core _ => core.isBare)
    (old : s.all (Core.hasOldLiterals k)) (single : flat → s.all fun _ content => content.isSingle) :
    (s.eval h).Concurs k flat := by
  refine s.plain_concurs unreferenced (fun t below => ?_) old single
  have bare := all_below bare below
  rw [Core.isBare, Bool.and_eq_true] at bare
  exact Core.isPlain.plain bare.1

end Schema

/-! ## Verdicts -/

/-- A validation that aborts early accepts what one that goes on accepts, with a value that is alike and so the
same where nothing was copied into it. Without alternatives what it reports begins what the other reports.

The literals of the schema are older than the run: none is a copy that the run is yet to make. -/
theorem abort_early_verdict (h : Hooks) (s : Schema) (unreferenced : s.refs = [])
    (bare : s.all fun core _ => core.isBare) (v : Value) (site : Site) (p : Preferences) (r : Run)
    (old : s.all (Core.hasOldLiterals r.copies)) {a b : Result}
    (early : ((s.eval h v site { p with abortEarly := true }).exec r).1 = .ok a)
    (late : ((s.eval h v site { p with abortEarly := false }).exec r).1 = .ok b) :
    (a.errors = [] ↔ b.errors = []) ∧
      (a.errors = [] → Datum.Like r.copies a.value b.value ∧ (a.value.isOld r.copies → a.value = b.value)) ∧
      ((s.all fun _ content => content.isSingle) →
        a.errors.map (Issue.mark r.copies) <+: b.errors.map (Issue.mark r.copies)) := by
  have concur := (Schema.eval_concurs (h := h) s unreferenced bare old id false _ _ (.sooner p) v v (.refl v) site site rfl
    r r (Nat.le_refl _) (Nat.le_refl _) a b _ _ (Prod.ext early rfl) (Prod.ext late rfl)).1
  obtain ⟨x, es⟩ := a
  obtain ⟨y, ds⟩ := b
  cases concur with
  | accept like => exact ⟨Iff.rfl, fun _ => ⟨like, like.eq_of_old⟩, fun _ => List.prefix_refl _⟩
  | reject left right begins_ =>
      exact ⟨⟨fun none => absurd none left, fun none => absurd none right⟩, fun none => absurd none left, begins_⟩

/-- An object with three keys, one of them with an array. -/
def strictObject : Schema := .node {} none (.object (some [
  (.str "a", .node {} none .number),
  (.str "b", .node { result := some .strip } none (.array [.node {} none .string])),
  (.str "c", .node { default := some .deep } none .any)]))

/-- What is said of an object with faults everywhere, early or late. -/
def strictOutcome (early : Bool) : Except Fault Result :=
  ((strictObject.eval Hooks.idle
    (.dict [(.str "a", .bool true), (.str "b", .list [.int 1, .str "", .int 2]), (.str "d", .null)]) {}
    { abortEarly := early }).exec {}).1

theorem strictObject_verdict : ∃ a b, strictOutcome true = .ok a ∧ strictOutcome false = .ok b ∧
    a.errors.length = 1 ∧ b.errors.length = 5 ∧
    a.errors.map (Issue.mark 0) <+: b.errors.map (Issue.mark 0) := by
  have counted : ∀ early, (strictOutcome early).toOption.map (fun a => a.errors.length) =
      some (if early then 1 else 5) := by decide +kernel
  cases early : strictOutcome true with
  | error => have := counted true; rw [early] at this; cases this
  | ok a =>
  cases late : strictOutcome false with
  | error => have := counted false; rw [late] at this; cases this
  | ok b =>
  refine ⟨a, b, rfl, rfl, ?_, ?_, ?_⟩
  · have := counted true; rw [early] at this; exact Option.some.inj this
  · have := counted false; rw [late] at this; exact Option.some.inj this
  · exact (abort_early_verdict Hooks.idle strictObject rfl (by decide +kernel) _ {} {} {} (by decide +kernel)
      early late).2.2 (by decide +kernel)

end Conform
