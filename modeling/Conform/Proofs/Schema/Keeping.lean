import Mathlib.Data.List.Forall2
import Conform.Validation.Evaluate
import Conform.Proofs.Schema.Parts

/-!
# A schema with or without its caches

`keeping false` takes the result caches out of every node. Evaluation reads the lists in a schema one
element after the other, so the evaluators of a list are those of its elements.
-/

namespace Conform

def Core.keeping (keep : Bool) (c : Core) : Core := if keep then c else { c with cache := none }

namespace Schema

mutual

/-- The schema itself, or the schema without caches. -/
def keeping (keep : Bool) : Schema → Schema
  | .node core empty content => .node (core.keeping keep) (keepingOption keep empty) (keepingContent keep content)

def keepingContent (keep : Bool) : Content → Content
  | .array items => .array (keepingEach keep items)
  | .object keys => .object (keepingKeys keep keys)
  | .alternatives es chain mode => .alternatives (keepingAlternatives keep es) chain mode
  | c => c

def keepingOption (keep : Bool) : Option Schema → Option Schema
  | none => none
  | some s => some (keeping keep s)

def keepingEach (keep : Bool) : List Schema → List Schema
  | [] => []
  | s :: ss => keeping keep s :: keepingEach keep ss

def keepingKeys (keep : Bool) : Option (List (Value × Schema)) → Option (List (Value × Schema))
  | none => none
  | some ks => some (keepingKeyList keep ks)

def keepingKeyList (keep : Bool) : List (Value × Schema) → List (Value × Schema)
  | [] => []
  | (k, s) :: ks => (k, keeping keep s) :: keepingKeyList keep ks

def keepingAlternatives (keep : Bool) : List Alternative → List Alternative
  | [] => []
  | .attempt s :: es => .attempt (keeping keep s) :: keepingAlternatives keep es
  | .conditional subject bs fromSwitch :: es =>
    .conditional subject (keepingBranches keep bs) fromSwitch :: keepingAlternatives keep es

def keepingBranches (keep : Bool) : List Branch → List Branch
  | [] => []
  | .mk test yes no :: bs =>
    .mk (keeping keep test) (keepingOption keep yes) (keepingOption keep no) :: keepingBranches keep bs

end

/-- The schema with every cache removed. -/
def uncached (s : Schema) : Schema := s.keeping false

mutual

theorem keeping_true (s : Schema) : s.keeping true = s := by
  cases s with
  | node core empty content =>
      rw [keeping, keepingOption_true, keepingContent_true]
      rfl

theorem keepingContent_true (c : Content) : keepingContent true c = c := by
  cases c with
  | array items => rw [keepingContent, keepingEach_true]
  | object keys => rw [keepingContent, keepingKeys_true]
  | alternatives es chain mode => rw [keepingContent, keepingAlternatives_true]
  | any => rfl
  | boolean => rfl
  | number => rfl
  | string => rfl
  | probe => rfl

theorem keepingOption_true (o : Option Schema) : keepingOption true o = o := by
  cases o with
  | none => rfl
  | some s => rw [keepingOption, keeping_true]

theorem keepingEach_true (ss : List Schema) : keepingEach true ss = ss := by
  cases ss with
  | nil => rfl
  | cons s ss => rw [keepingEach, keeping_true, keepingEach_true]

theorem keepingKeys_true (o : Option (List (Value × Schema))) : keepingKeys true o = o := by
  cases o with
  | none => rfl
  | some ks => rw [keepingKeys, keepingKeyList_true]

theorem keepingKeyList_true (ks : List (Value × Schema)) : keepingKeyList true ks = ks := by
  cases ks with
  | nil => rfl
  | cons e ks =>
      obtain ⟨k, s⟩ := e
      rw [keepingKeyList, keeping_true, keepingKeyList_true]

theorem keepingAlternatives_true (es : List Alternative) : keepingAlternatives true es = es := by
  cases es with
  | nil => rfl
  | cons e es =>
      cases e with
      | attempt s => rw [keepingAlternatives, keeping_true, keepingAlternatives_true]
      | conditional subject bs fromSwitch =>
          rw [keepingAlternatives, keepingBranches_true, keepingAlternatives_true]

theorem keepingBranches_true (bs : List Branch) : keepingBranches true bs = bs := by
  cases bs with
  | nil => rfl
  | cons b bs =>
      obtain ⟨test, yes, no⟩ := b
      rw [keepingBranches, keeping_true, keepingOption_true, keepingOption_true, keepingBranches_true]

end

theorem strips_keeping (keep : Bool) (s : Schema) : (s.keeping keep).strips = s.strips := by
  cases s
  cases keep <;> rfl

/-! ## The parts of a schema without caches -/

variable {keep : Bool}

theorem mem_keepingEach {t : Schema} {ss : List Schema} (member : t ∈ keepingEach keep ss) :
    ∃ s ∈ ss, t = s.keeping keep := by
  induction ss with
  | nil => exact absurd member List.not_mem_nil
  | cons s ss ih =>
      rcases List.mem_cons.mp member with rfl | rest
      · exact ⟨s, by simp, rfl⟩
      · obtain ⟨u, below, same⟩ := ih rest
        exact ⟨u, by simp [below], same⟩

theorem mem_keepingKeyList {k : Value} {t : Schema} {ks : List (Value × Schema)}
    (member : (k, t) ∈ keepingKeyList keep ks) : ∃ s, (k, s) ∈ ks ∧ t = s.keeping keep := by
  induction ks with
  | nil => exact absurd member List.not_mem_nil
  | cons e ks ih =>
      rcases List.mem_cons.mp member with same | rest
      · obtain ⟨rfl, rfl⟩ := Prod.mk.inj same
        exact ⟨e.2, by simp, rfl⟩
      · obtain ⟨s, below, same⟩ := ih rest
        exact ⟨s, by simp [below], same⟩

theorem mem_keepingAlternatives {d : Alternative} {es : List Alternative}
    (member : d ∈ keepingAlternatives keep es) :
    (∃ s, .attempt s ∈ es ∧ d = .attempt (s.keeping keep)) ∨
    ∃ subject bs fromSwitch, .conditional subject bs fromSwitch ∈ es ∧
      d = .conditional subject (keepingBranches keep bs) fromSwitch := by
  induction es with
  | nil => exact absurd member List.not_mem_nil
  | cons e es ih =>
      cases e with
      | attempt s =>
          rcases List.mem_cons.mp member with same | rest
          · exact .inl ⟨s, by simp, same⟩
          · rcases ih rest with ⟨t, below, same⟩ | ⟨subject, bs, fromSwitch, below, same⟩
            · exact .inl ⟨t, by simp [below], same⟩
            · exact .inr ⟨subject, bs, fromSwitch, by simp [below], same⟩
      | conditional subject bs fromSwitch =>
          rcases List.mem_cons.mp member with same | rest
          · exact .inr ⟨subject, bs, fromSwitch, by simp, same⟩
          · rcases ih rest with ⟨t, below, same⟩ | ⟨subject, bs, fromSwitch, below, same⟩
            · exact .inl ⟨t, by simp [below], same⟩
            · exact .inr ⟨subject, bs, fromSwitch, by simp [below], same⟩

theorem mem_keepingBranches {b : Branch} {bs : List Branch} (member : b ∈ keepingBranches keep bs) :
    ∃ test yes no, .mk test yes no ∈ bs ∧
      b = .mk (test.keeping keep) (keepingOption keep yes) (keepingOption keep no) := by
  induction bs with
  | nil => exact absurd member List.not_mem_nil
  | cons c bs ih =>
      obtain ⟨test, yes, no⟩ := c
      rcases List.mem_cons.mp member with same | rest
      · exact ⟨test, yes, no, by simp, same⟩
      · obtain ⟨t, y, n, below, same⟩ := ih rest
        exact ⟨t, y, n, by simp [below], same⟩

theorem mem_keepingConditional {es : List Alternative} {subject : Option Reference} {bs : List Branch}
    {fromSwitch : Bool} {test : Schema} {yes no : Option Schema}
    (entry : .conditional subject bs fromSwitch ∈ keepingAlternatives keep es) (member : .mk test yes no ∈ bs) :
    ∃ cs t y n, .conditional subject cs fromSwitch ∈ es ∧ .mk t y n ∈ cs ∧ test = t.keeping keep ∧
      yes = keepingOption keep y ∧ no = keepingOption keep n := by
  rcases mem_keepingAlternatives entry with ⟨_, _, same⟩ | ⟨_, cs, _, below, same⟩
  · cases same
  · cases same
    obtain ⟨t, y, n, branch, same⟩ := mem_keepingBranches member
    obtain ⟨tested, taken, missed⟩ := Branch.mk.inj same
    exact ⟨cs, t, y, n, below, branch, tested, taken, missed⟩

theorem keepingOption_eq_some {o : Option Schema} {t : Schema} (same : keepingOption keep o = some t) :
    ∃ s, o = some s ∧ t = s.keeping keep := by
  cases o with
  | none => simp [keepingOption] at same
  | some s => exact ⟨s, rfl, by simpa [keepingOption] using same.symm⟩

theorem Part.of_keeping {s t : Schema} {role : Role} (part : (s.keeping keep).Part role t) :
    ∃ u, t = u.keeping keep ∧ s.Part role u := by
  obtain ⟨core, empty, content⟩ := s
  rw [keeping] at part
  generalize shapeEmpty : keepingOption keep empty = e at part
  generalize shape : keepingContent keep content = c at part
  cases part with
  | empty =>
      obtain ⟨u, rfl, same⟩ := keepingOption_eq_some shapeEmpty
      exact ⟨u, same, .empty⟩
  | item i member =>
      cases content <;> simp [keepingContent] at shape
      obtain ⟨u, below, same⟩ := mem_keepingEach (shape ▸ member)
      exact ⟨u, same, .item i below⟩
  | key member =>
      cases content <;> simp [keepingContent] at shape
      rename_i keys
      cases keys with
      | none => simp [keepingKeys] at shape
      | some ks =>
          obtain ⟨u, below, same⟩ := mem_keepingKeyList (Option.some.inj shape ▸ member)
          exact ⟨u, same, .key below⟩
  | attempt member =>
      cases content <;> simp [keepingContent] at shape
      obtain ⟨u, below, same⟩ | ⟨_, _, _, _, same⟩ := mem_keepingAlternatives (shape.1 ▸ member)
      · exact ⟨u, by simpa using same, .attempt below⟩
      · cases same
  | test entry member =>
      cases content <;> simp [keepingContent] at shape
      obtain ⟨_, u, _, _, below, branch, same, -, -⟩ := mem_keepingConditional (shape.1 ▸ entry) member
      exact ⟨u, same, .test below branch⟩
  | onMatch entry member =>
      cases content <;> simp [keepingContent] at shape
      obtain ⟨_, _, _, _, below, branch, -, taken, -⟩ := mem_keepingConditional (shape.1 ▸ entry) member
      obtain ⟨u, rfl, same⟩ := keepingOption_eq_some taken.symm
      exact ⟨u, same, .onMatch below branch⟩
  | onMiss entry member =>
      cases content <;> simp [keepingContent] at shape
      obtain ⟨_, _, _, _, below, branch, -, -, missed⟩ := mem_keepingConditional (shape.1 ▸ entry) member
      obtain ⟨u, rfl, same⟩ := keepingOption_eq_some missed.symm
      exact ⟨u, same, .onMiss below branch⟩

theorem subjects_keeping (es : List Alternative) :
    Alternative.subjects (keepingAlternatives keep es) = Alternative.subjects es := by
  induction es with
  | nil => rfl
  | cons e es ih =>
      unfold Alternative.subjects at ih ⊢
      cases e with
      | attempt s => simpa [keepingAlternatives] using ih
      | conditional subject bs fromSwitch => simp [keepingAlternatives, List.filterMap_cons, ih]

theorem merged_keeping (s : Schema) (p : Preferences) : (s.keeping keep).merged p = s.merged p := by
  cases s
  cases keep <;> rfl

end Schema

namespace Place

/-- The place with the caches of its schema kept or taken out. -/
def keeping (keep : Bool) (p : Place) : Place := { p with schema := p.schema.keeping keep }

/-- An evaluation without caches comes to the places that the one with caches comes to. -/
theorem Everywhere.keeping {P : Place → Prop} {start : Place} {keep : Bool} (all : Everywhere P start) :
    Everywhere (fun p => ∃ q, p = q.keeping keep ∧ P q) (start.keeping keep) := by
  intro place path
  have reached : ∃ q, place = q.keeping keep ∧ Relation.ReflTransGen Child start q := by
    induction path with
    | refl => exact ⟨start, rfl, .refl⟩
    | tail _ child ih =>
        obtain ⟨q, rfl, reached⟩ := ih
        obtain ⟨tests, s, path, p⟩ := q
        cases child with
        | part part merged =>
            obtain ⟨u, rfl, below⟩ := Schema.Part.of_keeping part
            rw [Schema.merged_keeping] at merged
            exact ⟨_, rfl, .tail reached (.part below merged)⟩
  obtain ⟨q, rfl, reached⟩ := reached
  exact ⟨q, rfl, all q reached⟩

end Place

namespace Schema

/-! ## Lists element by element -/

theorem evalEach_forall₂ {R : Evaluator → Evaluator → Prop} {h : Hooks} (keep : Bool) {ss : List Schema}
    (each : ∀ s ∈ ss, R (s.eval h) ((s.keeping keep).eval h)) :
    List.Forall₂ R (evalEach h ss) (evalEach h (keepingEach keep ss)) := by
  induction ss with
  | nil => exact .nil
  | cons s ss ih => exact .cons (each s (by simp)) (ih fun t member => each t (by simp [member]))

theorem evalKeyList_forall₂ {R : KeyCheck → KeyCheck → Prop} {h : Hooks} (keep : Bool)
    {ks : List (Value × Schema)}
    (each : ∀ k s, (k, s) ∈ ks → R ⟨k, s.strips, s.eval h⟩ ⟨k, s.strips, (s.keeping keep).eval h⟩) :
    List.Forall₂ R (evalKeyList h ks) (evalKeyList h (keepingKeyList keep ks)) := by
  induction ks with
  | nil => exact .nil
  | cons e ks ih =>
      obtain ⟨k, s⟩ := e
      refine .cons ?_ (ih fun j t member => each j t (by simp [member]))
      rw [strips_keeping]
      exact each k s (by simp)

theorem evalBranches_forall₂ {R : BranchCheck → BranchCheck → Prop} {h : Hooks} (keep : Bool)
    {bs : List Branch}
    (each : ∀ test yes no, .mk test yes no ∈ bs →
      R ⟨test.eval h, evalOption h yes, evalOption h no⟩
        ⟨(test.keeping keep).eval h, evalOption h (keepingOption keep yes),
          evalOption h (keepingOption keep no)⟩) :
    List.Forall₂ R (evalBranches h bs) (evalBranches h (keepingBranches keep bs)) := by
  induction bs with
  | nil => exact .nil
  | cons b bs ih =>
      obtain ⟨test, yes, no⟩ := b
      exact .cons (each test yes no (by simp)) (ih fun t y n member => each t y n (by simp [member]))

theorem evalAlternatives_forall₂ {R : AlternativeCheck → AlternativeCheck → Prop} {h : Hooks}
    (keep : Bool) {es : List Alternative}
    (attempts : ∀ s, .attempt s ∈ es → R (.attempt (s.eval h)) (.attempt ((s.keeping keep).eval h)))
    (conditionals : ∀ subject bs fromSwitch, .conditional subject bs fromSwitch ∈ es →
      R (.conditional subject (evalBranches h bs))
        (.conditional subject (evalBranches h (keepingBranches keep bs)))) :
    List.Forall₂ R (evalAlternatives h es) (evalAlternatives h (keepingAlternatives keep es)) := by
  induction es with
  | nil => exact .nil
  | cons e es ih =>
      have rest := ih (fun s member => attempts s (by simp [member]))
        (fun subject bs fromSwitch member => conditionals subject bs fromSwitch (by simp [member]))
      cases e with
      | attempt s => exact .cons (attempts s (by simp)) rest
      | conditional subject bs fromSwitch => exact .cons (conditionals subject bs fromSwitch (by simp)) rest

/-! ## Evaluators and their schemas -/

section

variable {h : Hooks}

theorem evalEach_eq (ss : List Schema) : evalEach h ss = ss.map (eval h) := by
  induction ss with
  | nil => rfl
  | cons s ss ih => rw [evalEach, ih, List.map_cons]

theorem evalKeyList_eq (ks : List (Value × Schema)) :
    evalKeyList h ks = ks.map fun e => ⟨e.1, e.2.strips, e.2.eval h⟩ := by
  induction ks with
  | nil => rfl
  | cons e ks ih => rw [evalKeyList, ih, List.map_cons]

theorem mem_evalEach {e : Evaluator} {ss : List Schema} (member : e ∈ evalEach h ss) : ∃ s ∈ ss, e = s.eval h := by
  rw [evalEach_eq] at member
  obtain ⟨s, below, rfl⟩ := List.mem_map.mp member
  exact ⟨s, below, rfl⟩

theorem mem_evalKeyList {c : KeyCheck} {ks : List (Value × Schema)} (member : c ∈ evalKeyList h ks) :
    ∃ e ∈ ks, c = ⟨e.1, e.2.strips, e.2.eval h⟩ := by
  rw [evalKeyList_eq] at member
  obtain ⟨e, below, rfl⟩ := List.mem_map.mp member
  exact ⟨e, below, rfl⟩

theorem evalOption_eq_some {e : Evaluator} {o : Option Schema} (same : evalOption h o = some e) :
    ∃ s, o = some s ∧ e = s.eval h := by
  cases o with
  | none => cases same
  | some s => exact ⟨s, rfl, (Option.some.inj same).symm⟩

theorem mem_evalBranches {c : BranchCheck} {bs : List Branch} (member : c ∈ evalBranches h bs) :
    ∃ test yes no, .mk test yes no ∈ bs ∧ c = ⟨test.eval h, evalOption h yes, evalOption h no⟩ := by
  induction bs with
  | nil => cases member
  | cons b bs ih =>
      obtain ⟨test, yes, no⟩ := b
      rcases List.mem_cons.mp member with rfl | rest
      · exact ⟨test, yes, no, by simp, rfl⟩
      · obtain ⟨t, y, n, below, same⟩ := ih rest
        exact ⟨t, y, n, by simp [below], same⟩

theorem mem_evalAlternatives {a : AlternativeCheck} {es : List Alternative} (member : a ∈ evalAlternatives h es) :
    (∃ s, .attempt s ∈ es ∧ a = .attempt (s.eval h)) ∨
      ∃ subject bs fromSwitch, .conditional subject bs fromSwitch ∈ es ∧ a = .conditional subject (evalBranches h bs) := by
  induction es with
  | nil => cases member
  | cons e es ih =>
      have below : a ∈ evalAlternatives h es →
          (∃ s, .attempt s ∈ e :: es ∧ a = .attempt (s.eval h)) ∨ ∃ subject bs fromSwitch,
            .conditional subject bs fromSwitch ∈ e :: es ∧ a = .conditional subject (evalBranches h bs) := by
        intro rest
        rcases ih rest with ⟨s, entry, same⟩ | ⟨subject, bs, fromSwitch, entry, same⟩
        · exact .inl ⟨s, by simp [entry], same⟩
        · exact .inr ⟨subject, bs, fromSwitch, by simp [entry], same⟩
      cases e with
      | attempt s =>
          rcases List.mem_cons.mp member with rfl | rest
          · exact .inl ⟨s, by simp, rfl⟩
          · exact below rest
      | conditional subject bs fromSwitch =>
          rcases List.mem_cons.mp member with rfl | rest
          · exact .inr ⟨subject, bs, fromSwitch, by simp, rfl⟩
          · exact below rest

end

end Schema

end Conform
