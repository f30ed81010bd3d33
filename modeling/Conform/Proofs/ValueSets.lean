import Conform.Proofs.Datum.Tidy
import Conform.Proofs.Schema.Laws

/-!
# Allowed and denied values

Whatever builders make a node, no value or reference is entered both as allowed and as denied, and none twice. Entering
a member into one set takes it out of the other, and a merge of two nodes takes the members of the one out of the
opposite sets of the other.
-/

namespace Conform

open Datum

/-! ## Members -/

/-- Whether entering the second member leaves the first one in its place: values that are deeply equal, or one
reference. -/
def Member.same : Member → Member → Bool
  | .literal v, .literal w => deepEqual v w
  | .ref q, .ref r => q.serial == r.serial
  | _, _ => false

namespace ValueSet

variable {s t : ValueSet} {m n : Member} {ms : List Member}

/-- A set to which values were entered as values, and no member twice. -/
structure Distinct (s : ValueSet) : Prop where
  literal : ∀ m ∈ s.literals, ∃ v, m = .literal v
  apart : s.members.Pairwise fun m n => m.same n = false

theorem distinct_empty (replaces : Bool) : Distinct { replaces := replaces } :=
  ⟨List.forall_mem_nil _, List.Pairwise.nil⟩

theorem mem_members_ref {r : Reference} (literal : ∀ m ∈ s.literals, ∃ v, m = .literal v) :
    .ref r ∈ s.members ↔ r ∈ s.refs := by
  have none : Member.ref r ∉ s.literals := by
    intro member
    obtain ⟨v, same⟩ := literal _ member
    cases same
  simp [members, none]

/-! ## Entering and taking out -/

theorem add_literals (v : Value) (s : ValueSet) : s.add (.literal v) = s ∨
    (∀ m ∈ s.literals, deepEqual m.value v = false) ∧
      s.add (.literal v) = { s with literals := s.literals ++ [.literal v] } := by
  by_cases present : s.literalValues.any fun w => deepEqual w v
  · exact .inl (if_pos present)
  · refine .inr ⟨fun m member => ?_, if_neg present⟩
    simp only [literalValues, List.any_map, List.any_eq_true, not_exists, not_and] at present
    exact Bool.eq_false_iff.mpr (present m member)

theorem add_refs (r : Reference) (s : ValueSet) : s.add (.ref r) = s ∨
    (∀ q ∈ s.refs, q.serial ≠ r.serial) ∧ s.add (.ref r) = { s with refs := s.refs ++ [r] } := by
  by_cases present : s.refs.any fun q => q.serial == r.serial
  · exact .inl (if_pos present)
  · refine .inr ⟨fun q member same => present ?_, if_neg present⟩
    exact List.any_eq_true.mpr ⟨q, member, beq_iff_eq.mpr same⟩

theorem mem_of_mem_add (member : n ∈ (s.add m).members) : n ∈ s.members ∨ n = m := by
  cases m with
  | literal v =>
      rcases add_literals v s with same | ⟨-, added⟩
      · exact .inl (same ▸ member)
      · rw [added] at member
        simp only [members, List.mem_append, List.mem_singleton] at member ⊢
        tauto
  | ref r =>
      rcases add_refs r s with same | ⟨-, added⟩
      · exact .inl (same ▸ member)
      · rw [added] at member
        simp only [members, List.map_append, List.map_cons, List.map_nil, List.mem_append, List.mem_singleton] at member ⊢
        tauto

theorem Distinct.add (distinct : s.Distinct) (m : Member) : (s.add m).Distinct := by
  obtain ⟨literal, apart⟩ := distinct
  cases m with
  | literal v =>
      rcases add_literals v s with same | ⟨fresh, added⟩
      · rw [same]
        exact ⟨literal, apart⟩
      · rw [added]
        refine ⟨List.forall_mem_append.mpr ⟨literal, List.forall_mem_singleton.mpr ⟨v, rfl⟩⟩, ?_⟩
        obtain ⟨values, refs, -⟩ := List.pairwise_append.mp apart
        refine List.pairwise_append.mpr ⟨List.pairwise_append.mpr ⟨values, List.pairwise_singleton _ _, ?_⟩, refs, ?_⟩
        · intro m member n last
          obtain rfl := List.mem_singleton.mp last
          obtain ⟨w, rfl⟩ := literal m member
          exact fresh _ member
        · intro m member n isRef
          obtain ⟨r, -, rfl⟩ := List.mem_map.mp isRef
          obtain ⟨w, rfl⟩ : ∃ w, m = .literal w :=
            List.forall_mem_append.mpr ⟨literal, List.forall_mem_singleton.mpr ⟨v, rfl⟩⟩ m member
          rfl
  | ref r =>
      rcases add_refs r s with same | ⟨fresh, added⟩
      · rw [same]
        exact ⟨literal, apart⟩
      · rw [added]
        refine ⟨literal, ?_⟩
        have all : members { s with refs := s.refs ++ [r] } = s.members ++ [.ref r] := by simp [members]
        rw [all]
        refine List.pairwise_append.mpr ⟨apart, List.pairwise_singleton _ _, fun m member n last => ?_⟩
        obtain rfl := List.mem_singleton.mp last
        cases m with
        | literal => rfl
        | ref q => exact beq_eq_false_iff_ne.mpr (fresh q ((mem_members_ref literal).mp member))

theorem members_remove (literal : ∀ m ∈ s.literals, ∃ v, m = .literal v) (m : Member) :
    (s.remove m).members = s.members.filter fun n => !n.same m := by
  rw [members, members, List.filter_append, List.filter_map]
  cases m with
  | literal v =>
      have refs : s.refs.filter ((fun n => !Member.same n (.literal v)) ∘ Member.ref) = s.refs :=
        List.filter_eq_self.mpr fun r _ => rfl
      rw [refs]
      refine congrArg (· ++ s.refs.map Member.ref) (List.filter_congr fun m member => ?_)
      obtain ⟨w, rfl⟩ := literal m member
      rfl
  | ref r =>
      have literals : s.literals.filter (fun n => !Member.same n (.ref r)) = s.literals := by
        refine List.filter_eq_self.mpr fun m member => ?_
        obtain ⟨w, rfl⟩ := literal m member
        rfl
      rw [literals]
      rfl

theorem Distinct.remove (distinct : s.Distinct) (m : Member) : (s.remove m).Distinct := by
  constructor
  · intro n member
    cases m with
    | literal => exact distinct.literal n (List.mem_filter.mp member).1
    | ref => exact distinct.literal n member
  · rw [members_remove distinct.literal]
    exact distinct.apart.filter _

/-! ## Entering and taking out several -/

theorem Distinct.addAll (distinct : s.Distinct) (ms : List Member) :
    (ms.foldl (fun t m => t.add m) s).Distinct ∧
      ∀ n ∈ (ms.foldl (fun t m => t.add m) s).members, n ∈ s.members ∨ n ∈ ms := by
  induction ms generalizing s with
  | nil => exact ⟨distinct, fun n => .inl⟩
  | cons m ms ih =>
      obtain ⟨kept, from_⟩ := ih (distinct.add m)
      refine ⟨kept, fun n member => ?_⟩
      rcases from_ n member with early | late
      · rcases mem_of_mem_add early with old | rfl
        · exact .inl old
        · exact .inr (List.mem_cons_self ..)
      · exact .inr (List.mem_cons_of_mem _ late)

theorem Distinct.removeAll (distinct : s.Distinct) (ms : List Member) :
    (ms.foldl (fun t m => t.remove m) s).Distinct ∧
      ∀ n ∈ (ms.foldl (fun t m => t.remove m) s).members, n ∈ s.members ∧ ∀ m ∈ ms, n.same m = false := by
  induction ms generalizing s with
  | nil => exact ⟨distinct, fun n member => ⟨member, List.forall_mem_nil _⟩⟩
  | cons m ms ih =>
      obtain ⟨kept, from_⟩ := ih (distinct.remove m)
      refine ⟨kept, fun n member => ?_⟩
      obtain ⟨before, others⟩ := from_ n member
      rw [members_remove distinct.literal, List.mem_filter, Bool.not_eq_true'] at before
      exact ⟨before.1, List.forall_mem_cons.mpr ⟨before.2, others⟩⟩

/-- Both sets together are the first one with the members of both entered. -/
theorem concat_eq (first : ∀ m ∈ s.literals, ∃ v, m = .literal v) (second : ∀ m ∈ t.literals, ∃ v, m = .literal v)
    {u : ValueSet} (runs : s.concat t = .ok u) :
    u = { (s.literals ++ t.members).foldl (fun u m => add m u) { refs := s.refs } with replaces := s.replaces } := by
  obtain ⟨_, -, runs⟩ := bind_eq_ok.mp runs
  have entered : ∀ {ms : List Member}, (∀ m ∈ ms, ∃ v, m = .literal v) → ∀ a : ValueSet,
      ms.foldl (fun t m => t.addLiteral m) a = ms.foldl (fun t m => t.add m) a := by
    intro ms each a
    refine List.foldl_ext _ _ a fun b m member => ?_
    obtain ⟨v, rfl⟩ := each m member
    rfl
  rw [← Except.ok.inj runs, ofLists, entered first, entered second, members, List.foldl_append, List.foldl_append,
    List.foldl_map]
  rfl

theorem Distinct.concat (first : s.Distinct) (second : t.Distinct) {u : ValueSet} (runs : s.concat t = .ok u) :
    u.Distinct ∧ ∀ n ∈ u.members, n ∈ s.members ∨ n ∈ t.members := by
  have start : Distinct { refs := s.refs } :=
    ⟨List.forall_mem_nil _, first.apart.sublist (List.sublist_append_right _ _)⟩
  obtain ⟨⟨literal, apart⟩, from_⟩ := start.addAll (s.literals ++ t.members)
  rw [concat_eq first.literal second.literal runs]
  refine ⟨⟨literal, apart⟩, fun n member => ?_⟩
  have origin := from_ n member
  simp only [members, List.nil_append, List.mem_append] at origin ⊢
  tauto

end ValueSet

/-! ## Nodes -/

/-- What a set has if there is one. -/
def ValueSet.orEmpty (s : Option ValueSet) : ValueSet := s.getD {}

/-- Two sets without doubles that have no member in common, seen from one side at least. -/
structure ValueSet.Separate (own other : Option ValueSet) : Prop where
  first : (orEmpty own).Distinct
  second : (orEmpty other).Distinct
  apart : ∀ m ∈ (orEmpty own).members, ∀ n ∈ (orEmpty other).members, m.same n = false ∨ n.same m = false

namespace ValueSet.Separate

variable {own other : Option ValueSet}

theorem symm (separate : Separate own other) : Separate other own :=
  ⟨separate.second, separate.first, fun m inOwn n inOther => (separate.apart n inOther m inOwn).symm⟩

theorem enter (separate : Separate own other) (m : Member) :
    Separate (Core.enter m own other).1 (Core.enter m own other).2 := by
  have removed : orEmpty (other.map (ValueSet.remove m)) = (orEmpty other).remove m := by
    cases other with
    | none => cases m <;> rfl
    | some d => rfl
  refine ⟨separate.first.add m, ?_, ?_⟩
  · show (orEmpty (other.map (ValueSet.remove m))).Distinct
    rw [removed]
    exact separate.second.remove m
  · intro n inOwn k inOther
    change n ∈ ((orEmpty own).add m).members at inOwn
    change k ∈ (orEmpty (other.map (ValueSet.remove m))).members at inOther
    rw [removed, members_remove separate.second.literal, List.mem_filter, Bool.not_eq_true'] at inOther
    rcases mem_of_mem_add inOwn with old | rfl
    · exact separate.apart n old k inOther.1
    · exact .inr inOther.2

theorem enterAll (separate : Separate own other) (terms : List Term) (only : Bool) :
    Delivers (fun r => Separate r.1 r.2.1) (Core.enterAll terms own other only) := by
  unfold Core.enterAll
  simp only
  have step : ∀ (ts : List Term) (sets : Option ValueSet × Option ValueSet), Separate sets.1 sets.2 →
      Delivers (fun r => Separate r.1 r.2) (ts.foldlM (fun sets t => do
        require (!Term.isOverride t) "Override must be the first value"
        return Core.enter (Term.member t) sets.1 sets.2) sets) := by
    intro ts
    induction ts with
    | nil => exact fun sets start => .pure start
    | cons t ts ih =>
        intro sets start
        have entered : Delivers (fun r => Separate r.1 r.2) (do
            require (!Term.isOverride t) "Override must be the first value"
            return Core.enter (Term.member t) sets.1 sets.2) :=
          .require fun _ => .pure (start.enter t.member)
        rw [List.foldlM_cons]
        exact entered.bind ih
  refine (step _ _ ?_).bind fun sets entered => .pure entered
  split
  · exact ⟨distinct_empty true, distinct_empty false, List.forall_mem_nil _⟩
  · exact separate

end ValueSet.Separate

namespace Schema

open ValueSet

/-- A merged set has the members of both, less those of the removed set if they come from the target. -/
theorem mergeSets_members {target added removed : Option ValueSet} (first : (orEmpty target).Distinct)
    (second : (orEmpty added).Distinct) {r : Option ValueSet} (runs : mergeSets target added removed = .ok r) :
    (orEmpty r).Distinct ∧ ∀ n ∈ (orEmpty r).members, n ∈ (orEmpty added).members ∨
      n ∈ (orEmpty target).members ∧ ∀ m ∈ (orEmpty removed).members, n.same m = false := by
  have taken : ∀ {s : ValueSet}, s.Distinct → (s.merge none removed).Distinct ∧
      ∀ n ∈ (s.merge none removed).members, n ∈ s.members ∧ ∀ m ∈ (orEmpty removed).members, n.same m = false := by
    intro s distinct
    cases removed with
    | none => exact ⟨distinct, fun n member => ⟨member, List.forall_mem_nil _⟩⟩
    | some d => exact distinct.removeAll d.members
  unfold mergeSets at runs
  cases added with
  | none =>
      obtain rfl := Except.ok.inj runs
      cases target with
      | none => exact ⟨first, List.forall_mem_nil _⟩
      | some t =>
          obtain ⟨distinct, left⟩ := taken first
          exact ⟨distinct, fun n member => .inr (left n member)⟩
  | some a =>
      dsimp only at runs
      by_cases replaces : a.replaces
      · rw [if_pos replaces] at runs
        obtain rfl := Except.ok.inj runs
        exact ⟨second, fun n member => .inl member⟩
      · rw [if_neg replaces] at runs
        cases target with
        | none =>
            obtain rfl := Except.ok.inj runs
            exact ⟨second, fun n member => .inl member⟩
        | some t =>
            obtain ⟨u, joined, runs⟩ := bind_eq_ok.mp runs
            obtain rfl := Except.ok.inj runs
            obtain ⟨both, from_⟩ := Distinct.concat first second joined
            obtain ⟨distinct, left⟩ := taken both
            refine ⟨distinct, fun n member => ?_⟩
            obtain ⟨inBoth, unremoved⟩ := left n member
            rcases from_ n inBoth with old | new
            · exact .inr ⟨old, unremoved⟩
            · exact .inl new

end Schema

namespace Core.Made

open ValueSet

variable {kind : Kind} {core : Core}

theorem separate (made : core.Made kind) : Separate core.allowed core.denied := by
  induction made with
  | bare => exact ⟨distinct_empty false, distinct_empty false, List.forall_mem_nil _⟩
  | setting _ agrees ih =>
      rw [agrees.allowed, agrees.denied]
      exact ih
  | allow _ runs ih =>
      obtain ⟨sets, entered, runs⟩ := bind_eq_ok.mp runs
      obtain rfl := Except.ok.inj runs
      exact ih.enterAll _ _ _ entered
  | deny _ runs ih =>
      obtain ⟨sets, entered, runs⟩ := bind_eq_ok.mp runs
      obtain rfl := Except.ok.inj runs
      exact (ih.symm.enterAll _ _ _ entered).symm
  | prefs _ _ _ _ _ ih => exact ih
  | rule _ _ _ _ ih => exact ih
  | amend _ _ _ _ ih => exact ih
  | @merge kind other own source core _ _ _ runs ih ih' =>
      obtain ⟨renewed, ran, runs⟩ := bind_eq_ok.mp runs
      obtain ⟨allowed, allows, runs⟩ := bind_eq_ok.mp runs
      obtain ⟨denied, denies, runs⟩ := bind_eq_ok.mp runs
      obtain rfl := Except.ok.inj runs
      have agrees := Core.renewed_agrees own renewed ran
      rw [agrees.allowed] at allows
      rw [agrees.denied] at denies
      obtain ⟨distinct, allowing⟩ := Schema.mergeSets_members ih.first ih'.first allows
      obtain ⟨distinct', denying⟩ := Schema.mergeSets_members ih.second ih'.second denies
      refine ⟨distinct, distinct', fun m isAllowed n isDenied => ?_⟩
      -- Members of one node are apart there already. Of two nodes the newer member has taken the older one out.
      rcases allowing m isAllowed with new | ⟨old, left⟩
      · rcases denying n isDenied with new' | ⟨-, left'⟩
        · exact ih'.apart m new n new'
        · exact .inr (left' m new)
      · rcases denying n isDenied with new' | ⟨old', -⟩
        · exact .inl (left n new')
        · exact ih.apart m old n old'

end Core.Made

/-! ## Equality from both sides -/

/-- The values entered as allowed or denied. -/
def Core.entered (c : Core) : List Value :=
  (ValueSet.orEmpty c.allowed).literalValues ++ (ValueSet.orEmpty c.denied).literalValues

/-- Data of which neither is deeply equal to the other. -/
def Datum.Unlike (v w : Value) : Prop := deepEqual v w = false ∧ deepEqual w v = false

theorem Datum.unlike_of_tidy {v w : Value} (tidy : v.isTidy) (tidy' : w.isTidy)
    (different : deepEqual v w = false ∨ deepEqual w v = false) : Datum.Unlike v w := by
  rcases different with one | other
  · exact ⟨one, Bool.eq_false_iff.mpr fun equal => Bool.false_ne_true (one.symm.trans (deepEqual_symm tidy' tidy equal))⟩
  · exact ⟨Bool.eq_false_iff.mpr fun equal => Bool.false_ne_true (other.symm.trans (deepEqual_symm tidy tidy' equal)), other⟩

namespace ValueSet

variable {s : ValueSet}

theorem Distinct.mem_literal (distinct : s.Distinct) {v : Value} (member : v ∈ s.literalValues) :
    .literal v ∈ s.members := by
  obtain ⟨m, isIn, rfl⟩ := List.mem_map.mp member
  obtain ⟨w, rfl⟩ := distinct.literal m isIn
  exact List.mem_append_left _ isIn

theorem mem_ref {r : Reference} (member : r ∈ s.refs) : .ref r ∈ s.members :=
  List.mem_append_right _ (List.mem_map_of_mem member)

theorem Distinct.pairwise (distinct : s.Distinct) (tidy : ∀ v ∈ s.literalValues, v.isTidy) :
    s.literalValues.Pairwise Datum.Unlike ∧ s.refs.Pairwise fun q r => q.serial ≠ r.serial := by
  obtain ⟨literals, refs, -⟩ := List.pairwise_append.mp distinct.apart
  refine ⟨List.pairwise_map.mpr (literals.imp_of_mem fun {m n} first second apart => ?_), ?_⟩
  · obtain ⟨v, rfl⟩ := distinct.literal m first
    obtain ⟨w, rfl⟩ := distinct.literal n second
    exact unlike_of_tidy (tidy v (List.mem_map_of_mem first)) (tidy w (List.mem_map_of_mem second)) (.inl apart)
  · exact (List.pairwise_map.mp refs).imp fun apart => beq_eq_false_iff_ne.mp apart

end ValueSet

/-- In every node of a built schema no value that is entered as allowed is deeply equal to one entered as denied, no
reference is entered as both, and no two values or references of one set are the same. -/
theorem allowed_apart_from_denied {s t : Schema} (built : s.Built) (below : s.Below t)
    (tidy : ∀ v ∈ t.core.entered, v.isTidy) :
    let allowed := ValueSet.orEmpty t.core.allowed
    let denied := ValueSet.orEmpty t.core.denied
    (∀ v ∈ allowed.literalValues, ∀ w ∈ denied.literalValues, Datum.Unlike v w) ∧
      (∀ q ∈ allowed.refs, ∀ r ∈ denied.refs, q.serial ≠ r.serial) ∧
      ∀ set ∈ [allowed, denied],
        set.literalValues.Pairwise Datum.Unlike ∧ set.refs.Pairwise fun q r => q.serial ≠ r.serial := by
  obtain ⟨first, second, apart⟩ := (built.made t below).1.separate
  obtain ⟨left, right⟩ := List.forall_mem_append.mp tidy
  refine ⟨fun v isAllowed w isDenied => ?_, fun q isAllowed r isDenied same => ?_, ?_⟩
  · have different := apart _ (first.mem_literal isAllowed) _ (second.mem_literal isDenied)
    exact unlike_of_tidy (left v isAllowed) (right w isDenied) different
  · have different := apart _ (ValueSet.mem_ref isAllowed) _ (ValueSet.mem_ref isDenied)
    simp [Member.same, same] at different
  · exact List.forall_mem_cons.mpr ⟨first.pairwise left, List.forall_mem_singleton.mpr (second.pairwise right)⟩

/-! ## A merge -/

def siblingReference : Reference := { serial := 1, key := "k", target := .ancestor 1, path := ["k"] }

/-- A denied number and text, in place of all that was denied before. -/
def deniedOne : ValueSet := { literals := [.literal (.float (.finite false 1 0)), .literal (.str "b")], replaces := true }

def denying : Schema := .node { denied := some deniedOne } none .any

/-- A node restricted to the number one, a dictionary and what a reference finds, after a merge with a node that denies
the number, written as a float. -/
def restricted : Schema :=
  .node { only := true, allowed := some { literals := [.literal (.dict [(.str "k", .int 2)])], refs := [siblingReference] },
          denied := some deniedOne } none .any

theorem restricted_built : restricted.Built := by
  have before : denying.Built := by
    have runs : Script.run [{ name := "any" }, { name := "invalid", args :=
        [.leaf (.entity .override), .float (.finite false 1 0), .str "b"] }] = .ok denying := rfl
    exact .of_run runs rfl (List.forall_mem_nil _)
  have runs : Script.run [{ name := "any" },
      { name := "valid", args := [.int 1, .dict [(.str "k", .int 2)], .leaf (.reference siblingReference)] },
      { name := "concat", args := [.leaf (.schema 1 denying)] }] = .ok restricted := rfl
  refine .of_run runs rfl ?_
  show ∀ u ∈ [denying], u.Built
  exact List.forall_mem_singleton.mpr before

/-- The float that was denied has taken the number out of the allowed values. -/
theorem restricted_apart :
    restricted.Built ∧ restricted.Below restricted ∧ (∀ v ∈ restricted.core.entered, v.isTidy) ∧
      ∀ w ∈ deniedOne.literalValues, Datum.Unlike (.dict [(.str "k", .int 2)]) w := by
  have tidy : ∀ v ∈ restricted.core.entered, v.isTidy := by
    show ∀ v ∈ ([.dict [(.str "k", .int 2)], .float (.finite false 1 0), .str "b"] : List Value), v.isTidy
    simp [isTidy, allEntriesTidy, isProper]
  obtain ⟨apart, -⟩ := allowed_apart_from_denied restricted_built (.self _) tidy
  exact ⟨restricted_built, .self _, tidy, apart _ (List.mem_singleton_self _)⟩

end Conform
