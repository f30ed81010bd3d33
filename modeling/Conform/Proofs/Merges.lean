import Conform.Proofs.Schema.Laws
import Conform.Proofs.Sight

/-!
# Declared keys and merged objects

A key that is declared again replaces its earlier child, but a merge of two objects keeps the children of both. A
value under a key that both declare is checked by one child after the other, the second on what the first one left.
-/

namespace Conform

open Datum

/-! ## Distinct keys -/

/-- Keys of which none is declared twice; NaN differs from every key. -/
def Distinct (ks : List Value) : Prop := ks.Pairwise fun k l => sameKey k l → k.isNan

/-- No key of the first list is declared in the second one. -/
def KeysApart (own source : List Value) : Prop := ∀ k ∈ own, ∀ l ∈ source, sameKey k l → k.isNan

theorem Distinct.declare {ks : List Value} (distinct : Distinct ks) (key : Value) : Distinct (Layout.declare key ks) := by
  refine List.pairwise_append.mpr ⟨List.Pairwise.filter _ distinct, List.pairwise_singleton _ _, fun k old l last same => ?_⟩
  obtain rfl := List.mem_singleton.mp last
  have stays := (List.mem_filter.mp old).2
  simpa [Schema.redeclares, same] using stays

theorem distinct_append {ks ls : List Value} : Distinct (ks ++ ls) ↔ Distinct ks ∧ Distinct ls ∧ KeysApart ks ls :=
  List.pairwise_append

theorem Layout.Made.distinct {layout : Layout} (made : layout.Made KeysApart) :
    ∀ ks, layout = .keys (some ks) → Distinct ks := by
  induction made with
  | keyless =>
      rintro _ ⟨⟩
      exact List.Pairwise.nil
  | @declare key declared _ _ ih =>
      rintro _ ⟨⟩
      exact (ih declared rfl).declare key
  | merged _ _ joined first second =>
      rintro _ ⟨⟩
      exact distinct_append.mpr ⟨first _ rfl, second _ rfl, joined⟩
  | _ => nofun

theorem Schema.merged_content {a b c : Schema} {serial : Nat} {ks ls : List (Value × Schema)}
    (own : a.content = .object (some ks)) (source : b.content = .object (some ls))
    (merges : a.concat (.leaf (.schema serial b)) = .ok c) : c.content = .object (some (ks ++ ls)) := by
  simp only [concat, Term.schema?, own, source, mergeContent] at merges
  obtain ⟨chain, -, merges⟩ := bind_eq_ok.mp merges
  obtain ⟨-, -, merges⟩ := bind_eq_ok.mp merges
  obtain ⟨core, -, merges⟩ := bind_eq_ok.mp merges
  obtain ⟨content, joined, merges⟩ := bind_eq_ok.mp merges
  obtain ⟨renewed, -, merges⟩ := bind_eq_ok.mp merges
  obtain rfl := Except.ok.inj joined
  obtain rfl := Except.ok.inj merges
  rfl

/-! ## Visits under one key -/

/-- The children declared under a key. -/
def childrenAt (k : Value) (ks : List (Value × Schema)) : List Schema :=
  (ks.filter fun e => sameKey e.1 k).map Prod.snd

variable {h : Hooks}

/-- The visits under a key. -/
def visitsAt (k : Value) (cs : List (Value × Visit h)) : List (Visit h) :=
  (cs.filter fun c => sameKey c.1 k).map Prod.snd

/-- What stands under the key after a visit: a rejected value stays. -/
def Visit.leaves (c : Visit h) : Value := if c.accepts then c.kept else c.given

/-- A value is handed from child to child. Only where the first failure ends the run are some left out. -/
inductive Handed (aborts : Bool) : Value → List Schema → List (Visit h) → Prop
  | done {v : Value} : Handed aborts v [] []
  | cut {v : Value} {ss : List Schema} (early : aborts) : Handed aborts v ss []
  | visit {v : Value} {s : Schema} {ss : List Schema} {c : Visit h} {cs : List (Visit h)} (schema : c.schema = s)
      (given : c.given = v) (later : Handed aborts c.leaves ss cs) : Handed aborts v (s :: ss) (c :: cs)

theorem visitsAt_cons {k j : Value} {c : Visit h} {cs : List (Value × Visit h)} :
    visitsAt k ((j, c) :: cs) = if sameKey j k then c :: visitsAt k cs else visitsAt k cs := by
  unfold visitsAt
  rw [List.filter_cons]
  split <;> rfl

theorem childrenAt_cons {k j : Value} {s : Schema} {ks : List (Value × Schema)} :
    childrenAt k ((j, s) :: ks) = if sameKey j k then s :: childrenAt k ks else childrenAt k ks := by
  unfold childrenAt
  rw [List.filter_cons]
  split <;> rfl

/-- What is found under a key after the visit of a child. -/
theorem Visit.find?_settle {k j : Value} {es : Dict} {c : Visit h} (proper : ∀ i ∈ es.map Prod.fst, i.isProper)
    (declared : j.isProper) (given : c.given = (Datum.find? j es).getD .undefined) (accepts : c.accepts) :
    (Datum.find? k (c.settle j es)).getD .undefined =
      if sameKey j k then c.leaves else (Datum.find? k es).getD .undefined := by
  split
  · rename_i same
    -- A key that is the same as another is the same as itself, so what is inserted under it is found again.
    have itself := sameKey_trans same (sameKey_symm declared same)
    rw [find?_same declared same, leaves, if_pos accepts]
    exact Keys.find?_settle_self (c := ⟨j, c.schema.strips, c.schema.eval h⟩) (fun _ _ => itself) given
  · rename_i different
    rw [Bool.not_eq_true] at different
    have elsewhere : Datum.find? k (c.settle j es) = Datum.find? k es :=
      Keys.find?_settle_apart (c := ⟨j, _, _⟩) (proper_parted proper different) fun _ _ => different
    rw [elsewhere]

/-- The children declared under one key check the value there one after the other, each what the one before left. -/
theorem KeysRan.handed {f : Frame} {ks : List (Value × Schema)} {es : Dict} {r r' : Run} {cs : List (Value × Visit h)}
    (ran : KeysRan f ks es r cs r') (k : Value) (declared : ∀ e ∈ ks, e.1.isProper)
    (proper : ∀ i ∈ es.map Prod.fst, i.isProper) :
    Handed f.prefs.abortEarly ((Datum.find? k es).getD .undefined) (childrenAt k ks) (visitsAt k cs) := by
  -- Along the run: what is found under the key changes with the children that are declared under it.
  induction ran with
  | done => exact .done
  | @key j s ks es r r' c cs visit accepts _ ih =>
      obtain ⟨here, rest⟩ := List.forall_mem_cons.mp declared
      have later := ih rest fun i member => by
        rcases Keys.settle_keys member with rfl | old
        · exact here
        · exact proper i old
      rw [Visit.find?_settle proper here visit.given accepts] at later
      rw [visitsAt_cons, childrenAt_cons]
      split
      · rename_i same
        rw [if_pos same] at later
        exact .visit visit.schema (by rw [visit.given, find?_same here same]) later
      · rename_i different
        rw [if_neg different] at later
        exact later
  | @stop j s ks es r c visit fails aborts =>
      obtain ⟨here, -⟩ := List.forall_mem_cons.mp declared
      rw [visitsAt_cons, childrenAt_cons]
      split
      · rename_i same
        exact .visit visit.schema (by rw [visit.given, find?_same here same]) (.cut aborts)
      · exact .cut aborts
  | @skip j s ks es r r' c cs visit fails _ _ ih =>
      obtain ⟨here, rest⟩ := List.forall_mem_cons.mp declared
      have later := ih rest proper
      rw [visitsAt_cons, childrenAt_cons]
      split
      · rename_i same
        have left : (Datum.find? k es).getD .undefined = c.leaves := by
          rw [Visit.leaves, fails, visit.given, find?_same here same]
          rfl
        exact .visit visit.schema (by rw [visit.given, find?_same here same]) (left ▸ later)
      · exact later

/-- An object declares one child under a key, and no set in its keys lists a member twice. -/
structure Declares (ks : List (Value × Schema)) (k : Value) (s : Schema) : Prop where
  proper : ∀ e ∈ ks, e.1.isProper
  child : childrenAt k ks = [s]

/-- Of two children the second decides alone what comes of a value if and only if the first one accepts the value
and hands it on as it is. -/
theorem Handed.alone {aborts : Bool} {v : Value} {s t : Schema} {x y : Visit h} (handed : Handed aborts v [s, t] [x, y]) :
    y.given = v ∧ x.result.errors ++ y.result.errors = y.result.errors ↔ x.accepts ∧ x.kept = v := by
  cases handed with
  | visit _ _ later =>
      cases later with
      | visit _ given _ =>
          have accepted : x.result.errors = [] ↔ x.accepts := List.isEmpty_iff.symm
          rw [given, List.append_left_eq_self, accepted, Visit.leaves]
          constructor
          · rintro ⟨left, accepts⟩
            exact ⟨accepts, by rwa [if_pos accepts] at left⟩
          · rintro ⟨accepts, left⟩
            exact ⟨by rwa [if_pos accepts], accepts⟩

/-! ## Merged objects -/

/-- In a schema whose merges join objects without a common key no key is declared twice. A merge declares the keys
of both objects, none twice just where they have none in common, and under a common key the value is handed from
the child of the first to that of the second, so that the second alone decides just where the first one accepts the
value and leaves it. -/
theorem merged_keys (h : Hooks) :
    (∀ s : Schema, s.BuiltBy KeysApart → ∀ t, s.Below t → ∀ ks, t.content = .object (some ks) →
      Distinct (ks.map Prod.fst)) ∧
    ∀ {a b c : Schema} {serial : Nat} {ks ls : List (Value × Schema)}, a.content = .object (some ks) →
      b.content = .object (some ls) → a.concat (.leaf (.schema serial b)) = .ok c →
      c.content = .object (some (ks ++ ls)) ∧
      (Distinct (ks.map Prod.fst) → Distinct (ls.map Prod.fst) →
        (Distinct ((ks ++ ls).map Prod.fst) ↔ KeysApart (ks.map Prod.fst) (ls.map Prod.fst))) ∧
      ∀ {k : Value} {s t : Schema}, Declares ks k s → Declares ls k t →
        ∀ (e : Visit h) (cs : List (Value × Visit h)) (built : Value), e.schema = c → e.Children cs built →
          ∃ q es r, e.Base q (.dict es) r ∧ ((∀ j ∈ es.map Prod.fst, j.isProper) →
            Handed q.abortEarly ((find? k es).getD .undefined) [s, t] (visitsAt k cs) ∧
            ∀ x y, visitsAt k cs = [x, y] →
              (y.given = (find? k es).getD .undefined ∧ x.result.errors ++ y.result.errors = y.result.errors ↔
                x.accepts ∧ x.kept = (find? k es).getD .undefined)) := by
  refine ⟨fun s built t below ks content => ?_, ?_⟩
  · have layout := (built.made t below).2
    rw [content] at layout
    exact layout.distinct _ rfl
  intro a b c serial ks ls own source merges
  have content := Schema.merged_content own source merges
  refine ⟨content, fun first second => ?_, ?_⟩
  · rw [List.map_append, distinct_append]
    exact ⟨fun all => all.2.2, fun apart => ⟨first, second, apart⟩⟩
  intro k s t first second e cs built isMerged children
  cases children with
  | items isArray => simp [isMerged, content] at isArray
  | @keys ks' es q r₀ r₁ cs isObject base ran =>
      obtain rfl := Option.some.inj (Content.object.inj (isObject.symm.trans (isMerged ▸ content)))
      have handed := ran.handed k (List.forall_mem_append.mpr ⟨first.proper, second.proper⟩)
      have both : childrenAt k (ks ++ ls) = [s, t] := by
        rw [childrenAt, List.filter_append, List.map_append]
        exact congrArg₂ (· ++ ·) first.child second.child
      rw [both] at handed
      exact ⟨q, es, r₀, base, fun proper => ⟨handed proper, fun x y visits => Handed.alone (visits ▸ handed proper)⟩⟩

/-! ## One key in two objects -/

/-- An object with one child, under the key `k`. -/
def underK (s : Schema) : Schema := .node {} none (.object (some [(.str "k", s)]))

/-- What a merge of two such objects is. -/
def bothUnderK (s t : Schema) : Schema := .node {} none (.object (some [(.str "k", s), (.str "k", t)]))

theorem underK_builtBy {joins : List Value → List Value → Prop} {s : Schema} (built : s.BuiltBy joins) :
    (underK s).BuiltBy joins := by
  have runs : Script.run [{ name := "object", args := [.dict [(.str "k", .leaf (.schema 0 s))]] }] = .ok (underK s) := rfl
  refine .of_run runs (.of_names rfl) rfl ?_
  show ∀ u ∈ [s], u.BuiltBy joins
  exact List.forall_mem_singleton.mpr built

theorem underK_declares (s : Schema) : Declares [(.str "k", s)] (.str "k") s where
  proper := List.forall_mem_singleton.mpr rfl
  child := rfl

def textInK : Dict := [(.str "k", .str "5")]

def mergedVisit : Visit Hooks.idle :=
  ⟨bothUnderK .any .number, .dict textInK, {}, {}, {}, ⟨.dict [(.str "k", .int 5)], []⟩, {}, rfl⟩

def anyVisit : Visit Hooks.idle :=
  ⟨.any, .str "5", ⟨[.str "k"], [.dict textInK]⟩, {}, {}, ⟨.str "5", []⟩, {}, rfl⟩

def convertingVisit : Visit Hooks.idle :=
  ⟨.number, .str "5", ⟨[.str "k"], [.dict textInK]⟩, {}, {}, ⟨.int 5, []⟩, {}, rfl⟩

/-- A child that accepts everything leaves the value to the number. -/
theorem anyThenNumber_handed :
    (underK .number).BuiltBy KeysApart ∧ Distinct [(.str "k" : Value)] ∧
      (underK .any).concat (.leaf (.schema 0 (underK .number))) = .ok (bothUnderK .any .number) ∧
      (∃ built, mergedVisit.Children [(.str "k", anyVisit), (.str "k", convertingVisit)] built) ∧
      convertingVisit.given = .str "5" := by
  have number_builtBy : Schema.number.BuiltBy KeysApart := by
    have runs : Script.run [{ name := "number" }] = .ok .number := rfl
    exact .of_run runs (.of_names rfl) rfl (List.forall_mem_nil _)
  have built := underK_builtBy number_builtBy
  have children : mergedVisit.Children [(.str "k", anyVisit), (.str "k", convertingVisit)] _ :=
    .keys rfl ⟨rfl, {}, [], rfl, rfl⟩ (.key ⟨rfl, rfl, rfl, rfl, rfl⟩ rfl (.key ⟨rfl, rfl, rfl, rfl, rfl⟩ rfl .done))
  have merges : (underK .any).concat (.leaf (.schema 0 (underK .number))) = .ok (bothUnderK .any .number) := rfl
  have distinct := (merged_keys Hooks.idle).1 _ built _ (.self _) _ rfl
  obtain ⟨-, -, handed⟩ := (merged_keys Hooks.idle).2 rfl rfl merges
  obtain ⟨q, es, r, base, handed⟩ :=
    handed (underK_declares .any) (underK_declares .number) mergedVisit _ _ rfl children
  have given : es = textInK := by
    obtain rfl : ({} : Preferences) = q := Except.ok.inj base.merged
    obtain ⟨_, issues, consulted, came⟩ := base.came
    obtain ⟨-, rfl⟩ := Prod.mk.inj consulted
    have same : ((.ok (.goOn (.dict textInK) []), {}) : Except Fault Node.Verdict × Run) = (.ok (.goOn (.dict es) issues), r) := came
    cases same
    rfl
  subst given
  obtain ⟨-, alone⟩ := handed (List.forall_mem_singleton.mpr rfl)
  exact ⟨built, distinct, merges, ⟨_, children⟩, ((alone anyVisit convertingVisit rfl).mpr ⟨rfl, rfl⟩).1⟩

/-- How many errors an object has on a text under the key. -/
def textErrors (s : Schema) : Except Fault Nat :=
  ((s.eval Hooks.idle (.dict textInK) {} {}).exec {}).1.map fun r => r.errors.length

/-- Where the first object has a number under the key, the merged object has two children there, and it rejects a
text of digits that the second object accepts alone. -/
theorem number_rejects_for_text :
    (bothUnderK .number .string).Built ∧
      (underK .number).concat (.leaf (.schema 0 (underK .string))) = .ok (bothUnderK .number .string) ∧
      ¬ Distinct [(.str "k" : Value), .str "k"] ∧
      textErrors (underK .string) = .ok 0 ∧ textErrors (bothUnderK .number .string) = .ok 1 := by
  have built : (bothUnderK .number .string).Built := by
    have runs : Script.run [{ name := "object", args := [.dict [(.str "k", .leaf (.schema 0 .number))]] },
        { name := "concat", args := [.leaf (.schema 1 (underK .string))] }] = .ok (bothUnderK .number .string) := rfl
    refine .of_run runs rfl ?_
    show ∀ u ∈ [Schema.number, underK .string], u.Built
    simp [number_built, (underK_builtBy string_built.builtBy).built]
  refine ⟨built, rfl, ?_, rfl, rfl⟩
  simp [Distinct, sameKey, isNan]

end Conform
