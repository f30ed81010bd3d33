import Conform.Proofs.Schema.Parts

/-!
# What is checked of every node

A check of the settings and the content of a node goes through a whole schema, and what it accepts holds of
every part. The references of a schema are those of its nodes.
-/

namespace Conform

def Fallback.isCall : Option Fallback → Bool
  | some (.call _) => true
  | _ => false

def ErrorOverride.isCall : Option ErrorOverride → Bool
  | some (.call _) => true
  | _ => false

theorem Fallback.ne_call {o : Option Fallback} (uncalled : Fallback.isCall o = false) (fn : Fn) : o ≠ some (.call fn) := by
  rintro rfl
  cases uncalled

theorem ErrorOverride.ne_call {o : Option ErrorOverride} (uncalled : ErrorOverride.isCall o = false) (fn : Fn) :
    o ≠ some (.call fn) := by
  rintro rfl
  cases uncalled

/-- Whether settings name no function of the caller and no cache. -/
def Core.isPlain (core : Core) : Bool :=
  core.rules.all (fun e => e.name != .custom) && core.externals.isEmpty && !Fallback.isCall core.default
    && !Fallback.isCall core.failover && !ErrorOverride.isCall core.error && core.cache.isNone

/-- Settings without functions of the caller and without a cache. -/
structure Core.Plain (core : Core) : Prop where
  custom : ∀ e ∈ core.rules, e.name ≠ .custom
  externals : core.externals = []
  fallback : ∀ fn, ¬ (core.default = some (.call fn) ∨ core.failover = some (.call fn))
  error : ∀ fn, core.error ≠ some (.call fn)
  cache : core.cache = none

theorem Core.isPlain.plain {core : Core} (plain : core.isPlain) : core.Plain := by
  simp only [isPlain, Bool.and_eq_true, List.all_eq_true, List.isEmpty_iff, Option.isNone_iff_eq_none,
    Bool.not_eq_true', bne_iff_ne] at plain
  obtain ⟨⟨⟨⟨⟨custom, externals⟩, default⟩, failover⟩, error⟩, cache⟩ := plain
  refine ⟨custom, externals, fun fn => ?_, ErrorOverride.ne_call error, cache⟩
  exact not_or.mpr ⟨Fallback.ne_call default fn, Fallback.ne_call failover fn⟩

section

variable {core : Core} (unreferenced : core.refs = [])

include unreferenced

theorem Core.rule_refs {e : RuleEntry} (member : e ∈ core.rules) : e.refs = [] := by
  apply List.eq_nil_iff_forall_not_mem.mpr
  intro a below
  have : a.2 ∈ core.refs := by
    simp only [Core.refs, List.mem_append, List.mem_flatMap, List.mem_map]
    exact .inl (.inl (.inl (.inl ⟨e, member, a, below, rfl⟩)))
  rw [unreferenced] at this
  cases this

theorem Core.set_refs {s : ValueSet} (same : core.allowed = some s ∨ core.denied = some s) : s.refs = [] := by
  apply List.eq_nil_iff_forall_not_mem.mpr
  intro r member
  have : r ∈ core.refs := by
    rcases same with same | same <;> simp [Core.refs, Core.setRefs, same, member]
  rw [unreferenced] at this
  cases this

end

namespace Schema

variable (p : Core → Content → Bool)

mutual

/-- Whether every node at or below this one passes a check. -/
def all : Schema → Bool
  | .node core empty content => p core content && allOption empty && allContent content

def allContent : Content → Bool
  | .array items => allEach items
  | .object keys => allKeys keys
  | .alternatives es _ _ => allAlternatives es
  | _ => true

def allOption : Option Schema → Bool
  | none => true
  | some s => s.all

def allEach : List Schema → Bool
  | [] => true
  | s :: ss => s.all && allEach ss

def allKeys : Option (List (Value × Schema)) → Bool
  | none => true
  | some ks => allKeyList ks

def allKeyList : List (Value × Schema) → Bool
  | [] => true
  | (_, s) :: ks => s.all && allKeyList ks

def allAlternatives : List Alternative → Bool
  | [] => true
  | .attempt s :: es => s.all && allAlternatives es
  | .conditional _ bs _ :: es => allBranches bs && allAlternatives es

def allBranches : List Branch → Bool
  | [] => true
  | .mk test yes no :: bs => test.all && allOption yes && allOption no && allBranches bs

end

variable {p} {s t : Schema}

theorem allEach_mem {ss : List Schema} (whole : allEach p ss) (member : s ∈ ss) : s.all p := by
  induction ss with
  | nil => cases member
  | cons r ss ih =>
      rw [allEach, Bool.and_eq_true] at whole
      rcases List.mem_cons.mp member with rfl | below
      · exact whole.1
      · exact ih whole.2 below

theorem allKeyList_mem {k : Value} {ks : List (Value × Schema)} (whole : allKeyList p ks) (member : (k, s) ∈ ks) :
    s.all p := by
  induction ks with
  | nil => cases member
  | cons e ks ih =>
      rw [allKeyList, Bool.and_eq_true] at whole
      rcases List.mem_cons.mp member with rfl | below
      · exact whole.1
      · exact ih whole.2 below

theorem allBranches_mem {test : Schema} {yes no : Option Schema} {bs : List Branch} (whole : allBranches p bs)
    (member : .mk test yes no ∈ bs) : test.all p ∧ allOption p yes ∧ allOption p no := by
  induction bs with
  | nil => cases member
  | cons b bs ih =>
      obtain ⟨t, y, n⟩ := b
      simp only [allBranches, Bool.and_eq_true] at whole
      obtain ⟨⟨⟨tests, matches_⟩, misses⟩, rest⟩ := whole
      rcases List.mem_cons.mp member with same | below
      · cases same
        exact ⟨tests, matches_, misses⟩
      · exact ih rest below

theorem allAlternatives_attempt {es : List Alternative} (whole : allAlternatives p es) (member : .attempt s ∈ es) :
    s.all p := by
  induction es with
  | nil => cases member
  | cons e es ih =>
      cases e with
      | attempt r =>
          rw [allAlternatives, Bool.and_eq_true] at whole
          rcases List.mem_cons.mp member with same | below
          · cases same
            exact whole.1
          · exact ih whole.2 below
      | conditional subject bs fromSwitch =>
          rw [allAlternatives, Bool.and_eq_true] at whole
          exact ih whole.2 (by simpa using member)

theorem allAlternatives_conditional {subject : Option Reference} {bs : List Branch} {fromSwitch : Bool}
    {es : List Alternative} (whole : allAlternatives p es) (member : .conditional subject bs fromSwitch ∈ es) :
    allBranches p bs := by
  induction es with
  | nil => cases member
  | cons e es ih =>
      cases e with
      | attempt r =>
          rw [allAlternatives, Bool.and_eq_true] at whole
          exact ih whole.2 (by simpa using member)
      | conditional other cs fromOther =>
          rw [allAlternatives, Bool.and_eq_true] at whole
          rcases List.mem_cons.mp member with same | below
          · cases same
            exact whole.1
          · exact ih whole.2 below

theorem all_here (whole : s.all p) : p s.core s.content := by
  obtain ⟨core, empty, content⟩ := s
  rw [all, Bool.and_eq_true, Bool.and_eq_true] at whole
  exact whole.1.1

theorem all_part (whole : s.all p) {role : Role} (part : s.Part role t) : t.all p := by
  obtain ⟨core, empty, content⟩ := s
  rw [all, Bool.and_eq_true, Bool.and_eq_true] at whole
  obtain ⟨⟨-, empties⟩, contents⟩ := whole
  cases part with
  | empty => exact empties
  | item i member => exact allEach_mem contents member
  | key member => exact allKeyList_mem contents member
  | attempt member => exact allAlternatives_attempt contents member
  | test entry member => exact (allBranches_mem (allAlternatives_conditional contents entry) member).1
  | onMatch entry member => exact (allBranches_mem (allAlternatives_conditional contents entry) member).2.1
  | onMiss entry member => exact (allBranches_mem (allAlternatives_conditional contents entry) member).2.2

theorem all_below (whole : s.all p) (below : s.Below t) : p t.core t.content := by
  induction below using Relation.ReflTransGen.head_induction_on with
  | refl => exact all_here whole
  | head step _ ih =>
      obtain ⟨role, part⟩ := step
      exact ih (all_part whole part)

/-! ## References -/

theorem listRefs_mem {ss : List Schema} (member : s ∈ ss) : s.refs ⊆ listRefs ss := by
  induction ss with
  | nil => cases member
  | cons r ss ih =>
      intro x isRef
      rw [listRefs, List.mem_append]
      rcases List.mem_cons.mp member with rfl | below
      · exact .inl isRef
      · exact .inr (ih below isRef)

theorem keyListRefs_mem {k : Value} {ks : List (Value × Schema)} (member : (k, s) ∈ ks) :
    s.refs ⊆ keyListRefs ks := by
  induction ks with
  | nil => cases member
  | cons e ks ih =>
      intro x isRef
      rw [keyListRefs, List.mem_append]
      rcases List.mem_cons.mp member with rfl | below
      · exact .inl isRef
      · exact .inr (ih below isRef)

theorem branchRefs_mem {test : Schema} {yes no : Option Schema} {bs : List Branch}
    (member : .mk test yes no ∈ bs) : test.refs ++ optionRefs yes ++ optionRefs no ⊆ branchRefs bs := by
  induction bs with
  | nil => cases member
  | cons b bs ih =>
      intro x isRef
      obtain ⟨t, y, n⟩ := b
      rw [branchRefs, List.mem_append]
      rcases List.mem_cons.mp member with same | below
      · cases same
        exact .inl isRef
      · exact .inr (ih below isRef)

theorem alternativeRefs_attempt {es : List Alternative} (member : .attempt s ∈ es) :
    s.refs ⊆ alternativeRefs es := by
  induction es with
  | nil => cases member
  | cons e es ih =>
      intro x isRef
      rcases List.mem_cons.mp member with rfl | below
      · exact List.mem_append_left _ isRef
      · cases e <;> exact List.mem_append_right _ (ih below isRef)

theorem alternativeRefs_conditional {subject : Option Reference} {bs : List Branch} {fromSwitch : Bool}
    {es : List Alternative} (member : .conditional subject bs fromSwitch ∈ es) :
    branchRefs bs ⊆ alternativeRefs es := by
  induction es with
  | nil => cases member
  | cons e es ih =>
      intro x isRef
      rcases List.mem_cons.mp member with rfl | below
      · exact List.mem_append_left _ isRef
      · cases e <;> exact List.mem_append_right _ (ih below isRef)

theorem refs_part {role : Role} (part : s.Part role t) : t.refs ⊆ s.refs := by
  intro x isRef
  cases part with
  | empty => simp [refs, optionRefs, isRef]
  | item i member => simp [refs, contentRefs, listRefs_mem member isRef]
  | key member => simp [refs, contentRefs, keyRefs, keyListRefs_mem member isRef]
  | attempt member => simp [refs, contentRefs, alternativeRefs_attempt member isRef]
  | test entry member | onMatch entry member | onMiss entry member =>
      have ofBranch : x ∈ alternativeRefs _ :=
        alternativeRefs_conditional entry (branchRefs_mem member (by simp [optionRefs, isRef]))
      simp [refs, contentRefs, ofBranch]

theorem refs_below (below : s.Below t) : t.refs ⊆ s.refs := by
  induction below using Relation.ReflTransGen.head_induction_on with
  | refl => exact List.Subset.refl _
  | head step _ ih =>
      obtain ⟨role, part⟩ := step
      exact fun r isRef => refs_part part (ih isRef)

end Schema
end Conform
