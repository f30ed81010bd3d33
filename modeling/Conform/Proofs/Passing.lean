import Conform.Proofs.Schema.Growing
import Conform.Proofs.Schema.Nodes
import Conform.Proofs.Standing

/-!
# From visit to visit

A visit is determined by where it starts. Between two visits the run only grows, and what is captured at a
place stays while the visits that come to pass lead elsewhere.
-/

namespace Conform

open Datum

variable {h : Hooks} {K : Path → Prop}

/-- The paths that begin with a path. -/
abbrev Within (p : Path) : Path → Prop := fun x => p <+: x

theorem sparesBelow_apart {p q : Path} {j k : Value} (keys : ∀ i ∈ p, sameKey i i) (itself : sameKey j j)
    (apart : Apart j k) : SparesBelow (Within (p ++ k :: q)) (p ++ [j]) := by
  rintro rest v t _ ⟨x, rfl⟩
  simp only [List.append_assoc, List.cons_append, List.nil_append]
  exact ShadowTree.at?_capture_apart keys itself apart v t rest (q ++ x)

/-! ## Nodes -/

namespace Node

variable {f : Frame} {n : Node}

theorem vetted_grows (v : Value) : Grows K (vetted h n f v) := by
  refine (checkAllowed_grows v).bind fun verdict => ?_
  cases verdict with
  | finished => exact Grows.pure _
  | goOn w es => exact checkDenied_grows w es

theorem approach_grows (empty : ∀ e, n.empty = some e → e.Grows) : Grows K (approach h n f) := by
  unfold approach
  split
  · exact Grows.pure _
  · refine (emptied_grows empty _).bind fun w => ?_
    unfold approachPresence
    split
    · split
      · exact Grows.pure _
      · exact Grows.pure _
      · split
        · exact vetted_grows _
        · exact Grows.pure _
      · exact vetted_grows _
    · split
      · exact Grows.pure _
      · exact vetted_grows _

end Node

/-! ## Visits -/

namespace Visit

theorem At.unique {c d : Visit h} {t : Schema} {v : Value} {s : Site} {p : Preferences} {r : Run}
    (one : c.At t v s p r) (other : d.At t v s p r) : c = d := by
  obtain ⟨_, _, _, _, _, result, after, ran⟩ := c
  obtain ⟨_, _, _, _, _, result', after', ran'⟩ := d
  obtain ⟨rfl, rfl, rfl, rfl, rfl⟩ := one
  obtain ⟨rfl, rfl, rfl, rfl, rfl⟩ := other
  obtain ⟨same, rfl⟩ := Prod.mk.inj (ran.symm.trans ran')
  obtain rfl := Except.ok.inj same
  rfl

theorem grows (growing : h.Growing K) (c : Visit h) (spares : SparesBelow K c.site.path) :
    c.before.Extends K c.after := by
  have keeps := c.schema.eval_keeps (fun t _ => growing.callsGrow t.core) fun _ _ _ => trivial
  have extends_ := keeps c.given c.site c.prefs (fun _ => spares) c.before
  rwa [c.ran] at extends_

/-- A visit to a schema without raw and stripped nodes captures nothing. -/
theorem unmarked_grows (growing : h.Growing K) (c : Visit h)
    (unmarked : c.schema.all fun core _ => core.result.isNone) : c.before.Extends K c.after := by
  have marks : ∀ t, c.schema.Below t → t.core.result.isSome → False := by
    intro t below isMarked
    have none := Schema.all_below unmarked below
    rw [Option.isNone_iff_eq_none.mp none] at isMarked
    cases isMarked
  have extends_ := c.schema.eval_keeps (fun t _ => growing.callsGrow t.core) marks c.given c.site c.prefs
    False.elim c.before
  rwa [c.ran] at extends_

theorem Base.grows (growing : ∀ K, h.Growing K) {e : Visit h} {q : Preferences} {w : Value} {r₀ : Run}
    (base : e.Base q w r₀) : e.before.Extends K r₀ := by
  obtain ⟨r, es, consulted, approached⟩ := base.came
  have empty : ∀ d, (e.schema.toNode h).empty = some d → d.Grows := by
    intro d same
    obtain ⟨t, -, rfl⟩ := Schema.evalOption_eq_some same
    exact t.eval_grows fun u _ => (growing freely).callsGrow u.core
  have first := Node.consult_grows (K := K) (n := e.schema.toNode h) (f := e.frame q) e.before
  have then_ := Node.approach_grows (K := K) (h := h) (f := e.frame q) empty r
  rw [consulted] at first
  rw [approached] at then_
  exact first.trans then_

/-- After its base check a visit captures nothing, unless its node is raw or stripped. -/
theorem Base.rest {e : Visit h} {q : Preferences} {w : Value} {r₀ : Run} (base : e.Base q w r₀) :
    ∃ o r₁, ((e.schema.toNode h).base { e.frame q with current := w } w).exec r₀ = (.ok o, r₁) ∧
      ∀ {K : Path → Prop}, h.Growing K → (e.schema.core.result.isSome → Spares K e.site.path) →
        r₁.Extends K e.after := by
  obtain ⟨r, es, consulted, approached⟩ := base.came
  have ran := e.ran
  rw [Schema.eval_eq, Node.evaluate_eq] at ran
  obtain ⟨q', s, merged, ran⟩ := Eval.bind_ok ran
  obtain ⟨isMerged, rfl⟩ : (e.schema.toNode h).merged e.prefs = .ok q' ∧ e.before = s := Prod.mk.inj merged
  obtain rfl := Except.ok.inj (isMerged.symm.trans base.merged)
  obtain ⟨found, r', consulted', ran⟩ := Eval.bind_ok ran
  obtain ⟨same, rfl⟩ := Prod.mk.inj (consulted'.symm.trans consulted)
  obtain rfl := Except.ok.inj same
  obtain ⟨result, r₂, settled, ran⟩ := Eval.bind_ok ran
  obtain ⟨_, r₃, retained, ran⟩ := Eval.bind_ok ran
  obtain rfl : r₃ = e.after := congrArg Prod.snd ran
  obtain ⟨⟨u, errors⟩, r₄, body, finished⟩ := Eval.bind_ok settled
  rw [Node.body_eq] at body
  obtain ⟨verdict, r₅, approached', body⟩ := Eval.bind_ok body
  obtain ⟨same, rfl⟩ := Prod.mk.inj (approached'.symm.trans approached)
  obtain rfl := Except.ok.inj same
  obtain ⟨o, r₁, checked, body⟩ := Eval.bind_ok body
  refine ⟨o, r₁, checked, fun {K} growing spares => ?_⟩
  have calls := growing.callsGrow e.schema.core
  have judged := Node.judged_grows (f := e.frame q') calls w es o r₁
  have finishing := Node.finishing_grows (f := e.frame q') calls spares u errors r₄
  have retaining := Node.retain_grows (K := K) (n := e.schema.toNode h) (f := e.frame q') result r₂
  change (Node.judged h e.schema.core (e.frame q') w es o).exec r₁ = _ at body
  change (Node.finishing h e.schema.core (e.frame q') u errors).exec r₄ = _ at finished
  change ((e.schema.toNode h).retain (e.frame q') result).exec r₂ = _ at retained
  rw [body] at judged
  rw [finished] at finishing
  rw [retained] at retaining
  exact (judged.trans finishing).trans retaining

end Visit

/-! ## Sequences of visits -/

namespace Sequence

variable {p : Path} {k : Value} {c : Visit h} {a b cs : List (Value × Visit h)} {r r' : Run}

theorem split (sequence : Sequence p r (a ++ (k, c) :: b) r') :
    Sequence p r a c.before ∧ c.site.path = p ++ [k] ∧ Sequence p c.after b r' := by
  induction a generalizing r with
  | nil =>
      cases sequence with
      | cons path later => exact ⟨.nil, path, later⟩
  | cons d a ih =>
      cases sequence with
      | cons path later =>
          obtain ⟨first, at_, last⟩ := ih later
          exact ⟨.cons path first, at_, last⟩

theorem grows (growing : h.Growing K) (sequence : Sequence p r cs r')
    (spares : ∀ c ∈ cs, SparesBelow K (p ++ [c.1])) : r.Extends K r' := by
  induction sequence with
  | nil => exact .refl _
  | @cons k c cs r' path later ih =>
      have here : SparesBelow K c.site.path := path ▸ spares (k, c) (by simp)
      exact (c.grows growing here).trans (ih fun d member => spares d (by simp [member]))

end Sequence

/-! ## The keys of an object -/

namespace KeysRan

variable {f : Frame} {ks : List (Value × Schema)} {es : Dict} {r r' : Run} {k : Value} {c : Visit h}
  {a b cs : List (Value × Visit h)}

theorem unique {ds : List (Value × Visit h)} {r'' : Run} (one : KeysRan f ks es r cs r')
    (other : KeysRan f ks es r ds r'') : cs = ds ∧ r' = r'' := by
  induction one generalizing ds with
  | done =>
      cases other
      exact ⟨rfl, rfl⟩
  | key visit accepts _ ih =>
      cases other with
      | key visit' _ later =>
          obtain rfl := visit.unique visit'
          obtain ⟨rfl, rfl⟩ := ih later
          exact ⟨rfl, rfl⟩
      | stop visit' fails =>
          obtain rfl := visit.unique visit'
          simp [accepts] at fails
      | skip visit' fails =>
          obtain rfl := visit.unique visit'
          simp [accepts] at fails
  | stop visit fails aborts =>
      cases other with
      | key visit' accepts =>
          obtain rfl := visit.unique visit'
          simp [accepts] at fails
      | stop visit' =>
          obtain rfl := visit.unique visit'
          exact ⟨rfl, rfl⟩
      | skip visit' _ goesOn => simp [aborts] at goesOn
  | skip visit fails goesOn _ ih =>
      cases other with
      | key visit' accepts =>
          obtain rfl := visit.unique visit'
          simp [accepts] at fails
      | stop visit' _ aborts => simp [goesOn] at aborts
      | skip visit' _ _ later =>
          obtain rfl := visit.unique visit'
          obtain ⟨rfl, rfl⟩ := ih later
          exact ⟨rfl, rfl⟩

/-- Where the visits come to a key, and how they go on once it is accepted. -/
theorem split (ran : KeysRan f ks es r (a ++ (k, c) :: b) r') : ∃ es₁ ks₁ ks₂ s, ks = ks₁ ++ (k, s) :: ks₂ ∧
    c.At s ((find? k es₁).getD .undefined) (f.site.child (.dict es₁) k) f.prefs c.before ∧
    (c.accepts → KeysRan f ks₂ (c.settle k es₁) c.after b r') := by
  induction a generalizing ks es r with
  | nil =>
      cases ran with
      | key visit _ later => exact ⟨es, [], _, _, rfl, visit.before ▸ visit, fun _ => later⟩
      | stop visit fails => exact ⟨es, [], _, _, rfl, visit.before ▸ visit, fun accepts => by simp [fails] at accepts⟩
      | skip visit fails => exact ⟨es, [], _, _, rfl, visit.before ▸ visit, fun accepts => by simp [fails] at accepts⟩
  | cons d a ih =>
      have under : ∀ {j s ks es r}, KeysRan f ks es r (a ++ (k, c) :: b) r' → ∃ es₁ ks₁ ks₂ s',
          (j, s) :: ks = ks₁ ++ (k, s') :: ks₂ ∧
          c.At s' ((find? k es₁).getD .undefined) (f.site.child (.dict es₁) k) f.prefs c.before ∧
          (c.accepts → KeysRan f ks₂ (c.settle k es₁) c.after b r') := by
        intro j s ks es r later
        obtain ⟨es₁, ks₁, ks₂, s', rfl, others⟩ := ih later
        exact ⟨es₁, (j, s) :: ks₁, ks₂, s', rfl, others⟩
      rw [List.cons_append] at ran
      generalize shape : a ++ (k, c) :: b = rest at ran
      cases ran with
      | key _ _ later => exact under (shape ▸ later)
      | skip _ _ _ later => exact under (shape ▸ later)
      | stop => simp at shape

/-- The visits of other keys leave the entry of a key alone. -/
theorem entry (ran : KeysRan f ks es r cs r') (keys : ∀ e ∈ ks, e.1.IsKey) (apart : ∀ e ∈ ks, Apart e.1 k)
    {j : Value} {d : Visit h} (member : (j, d) ∈ cs) :
    ∃ es', d.site = f.site.child (.dict es') j ∧ find? k es' = find? k es := by
  induction ran with
  | done => cases member
  | @key i s ks es r r' c cs visit _ _ ih =>
      rcases List.mem_cons.mp member with same | rest
      · obtain ⟨rfl, rfl⟩ := Prod.mk.inj same
        exact ⟨es, visit.site, rfl⟩
      · obtain ⟨es', site, found⟩ := ih (fun e below => keys e (by simp [below]))
          (fun e below => apart e (by simp [below])) rest
        exact ⟨es', site, found.trans (find?_settle_apart (keys (i, s) (by simp)) (apart (i, s) (by simp)) c es)⟩
  | @stop i s ks es r c visit =>
      obtain ⟨rfl, rfl⟩ := Prod.mk.inj (List.mem_singleton.mp member)
      exact ⟨es, visit.site, rfl⟩
  | @skip i s ks es r r' c cs visit _ _ _ ih =>
      rcases List.mem_cons.mp member with same | rest
      · obtain ⟨rfl, rfl⟩ := Prod.mk.inj same
        exact ⟨es, visit.site, rfl⟩
      · exact ih (fun e below => keys e (by simp [below])) (fun e below => apart e (by simp [below])) rest

end KeysRan

/-! ## Children -/

namespace Visit.Children

variable {e c : Visit h} {k built : Value} {a b cs : List (Value × Visit h)}

theorem runs (children : e.Children cs built) : ∃ q w r₀ r₁, e.Base q w r₀ ∧ Sequence e.site.path r₀ cs r₁ ∧
    ∀ c ∈ cs, ∃ parent, c.2.site = e.site.child parent c.1 := by
  cases children with
  | items _ base ran =>
      refine ⟨_, _, _, _, base, ran.sequence, fun c member => ?_⟩
      obtain ⟨_, parent, _, visit⟩ := ran.visit c member
      exact ⟨parent, visit.site⟩
  | keys _ base ran =>
      refine ⟨_, _, _, _, base, ran.sequence, fun c member => ?_⟩
      obtain ⟨_, _, parent, _, visit⟩ := ran.visit c member
      exact ⟨parent, visit.site⟩

theorem starts (growing : ∀ K, h.Growing K) (children : e.Children (a ++ (k, c) :: b) built)
    (spares : ∀ d ∈ a, SparesBelow K (e.site.path ++ [d.1])) : e.before.Extends K c.before := by
  obtain ⟨q, w, r₀, r₁, base, sequence, -⟩ := children.runs
  exact (base.grows growing).trans (sequence.split.1.grows (growing K) spares)

/-- From the end of a key to the end of the object. -/
theorem ends (growing : ∀ K, h.Growing K) {ks : List (Value × Schema)}
    (children : e.Children (a ++ (k, c) :: b) built) (content : e.schema.content = .object (some ks))
    (unmarked : e.schema.core.result = none) (spares : ∀ d ∈ b, SparesBelow K (e.site.path ++ [d.1])) :
    c.after.Extends K e.after := by
  cases children with
  | items isArray => simp [content] at isArray
  | @keys ks' es q r₀ r₁ _ isObject base ran =>
      obtain ⟨o, r₂, checked, rest⟩ := base.rest
      have visits : ∃ ds : List (Value × Visit h), KeysRan { e.frame q with current := .dict es } ks' es r₀ ds r₂ := by
        change (Schema.evalContent h e.schema.core e.schema.content _ _).exec r₀ = _ at checked
        rw [isObject] at checked
        obtain ⟨⟨left, errors, aborted⟩, r₃, declared, done⟩ := Eval.bind_ok checked
        obtain rfl : r₃ = r₂ := by cases aborted <;> exact congrArg Prod.snd done
        exact keys_ran declared
      obtain ⟨ds, again⟩ := visits
      obtain ⟨rfl, rfl⟩ := ran.unique again
      have later := ran.sequence.split.2.2.grows (growing K) spares
      exact later.trans (rest (growing K) fun isMarked => by simp [unmarked] at isMarked)

end Visit.Children

/-- A visit below another one starts from a run that keeps what the other one keeps, at a site below. -/
theorem Visit.Visits.starts (growing : ∀ K, h.Growing K) {e d : Visit h} {q : Path} (visits : e.Visits q d)
    (spares : SparesBelow K e.site.path) : e.before.Extends K d.before ∧
      ∃ around, d.site = ⟨e.site.path ++ q, around ++ e.site.ancestors⟩ ∧ around.length = q.length := by
  induction visits with
  | self => exact ⟨.refl _, [], by simp, rfl⟩
  | @child e c d cs built k q children member below ih =>
      obtain ⟨a, b, rfl⟩ := List.append_of_mem member
      obtain ⟨-, -, -, -, -, -, sites⟩ := children.runs
      obtain ⟨parent, site⟩ : ∃ parent, c.site = e.site.child parent k := sites (k, c) (by simp)
      have path : c.site.path = e.site.path ++ [k] := by rw [site, Site.child]
      obtain ⟨later, around, place, length⟩ := ih (path ▸ spares.child k)
      refine ⟨(children.starts growing fun x _ => spares.child x.1).trans later, around ++ [parent], ?_, by simp [length]⟩
      rw [place, site]
      simp [Site.child]

end Conform
