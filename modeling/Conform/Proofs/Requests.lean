import Mathlib.Logic.Relation
import Conform.Proofs.Schema.Growing
import Conform.Proofs.Validation.Stages

/-!
# What an evaluation asks for

The evaluation of a schema on a value asks for evaluations of its parts, each on a value of its own, at a site and
under preferences. What it does with the parts depends on those evaluations alone.
-/

namespace Conform

/-- An evaluation that is asked for. -/
structure Request where
  schema : Schema
  given : Value
  site : Site
  prefs : Preferences

/-- What the checks of some keys can leave of the entries, whatever the children give. -/
inductive Keys.Leaves : List (Value × Schema) → Dict → Dict → Prop
  | done {es : Dict} : Leaves [] es es
  | accepted {k : Value} {s : Schema} {ks : List (Value × Schema)} {es es' : Dict} {e : Evaluator} (w : Value)
      (later : Leaves ks (settle ⟨k, s.strips, e⟩ ((Datum.find? k es).getD .undefined) w es) es') :
      Leaves ((k, s) :: ks) es es'
  | rejected {k : Value} {s : Schema} {ks : List (Value × Schema)} {es es' : Dict} (later : Leaves ks es es') :
      Leaves ((k, s) :: ks) es es'

namespace Request

variable (h : Hooks)

def frame (c : Request) (q : Preferences) : Frame := (c.schema.toNode h).frame c.given c.site q

/-- In some run the node of a request comes to its base check of a value, with the merged preferences. -/
structure Comes (c : Request) (q : Preferences) (w : Value) : Prop where
  merged : c.schema.merged c.prefs = .ok q
  approaches : ∃ r r' es, (Node.approach h (c.schema.toNode h) (c.frame h q)).exec r = (.ok (.goOn w es), r')

/-- The requests that one request leads to. The schema for empty values is asked with preferences of its own, and a test
may be asked about any value, since its subject may be what a reference finds. -/
inductive Leads : Request → Role → Request → Prop
  | empty {c : Request} {e : Schema} {q : Preferences} {w : Value} {es : List Issue} (part : c.schema.Part .empty e)
      (merged : c.schema.merged c.prefs = .ok q)
      (converts : (c.schema.toNode h).convert (c.frame h q) c.given = .goOn w es) :
      Leads c .empty ⟨e, trimmed c.schema.core w, c.site, Role.empty.prefs q⟩
  | item {c : Request} {items : List Schema} {t : Schema} {q : Preferences} {before after done : List Value} {v : Value}
      (content : c.schema.content = .array items) (member : t ∈ items) (comes : c.Comes h q (.list (before ++ v :: after)))
      (length : done.length = before.length) :
      Leads c (.item done.length) ⟨t, v, c.site.child (.list (done ++ v :: after)) (.int done.length), q⟩
  | key {c : Request} {front back : List (Value × Schema)} {k : Value} {t : Schema} {q : Preferences} {es es' : Dict}
      (content : c.schema.content = .object (some (front ++ (k, t) :: back))) (comes : c.Comes h q (.dict es))
      (leaves : Keys.Leaves front es es') :
      Leads c (.key k) ⟨t, (Datum.find? k es').getD .undefined, c.site.child (.dict es') k, q⟩
  | entry {c : Request} {t : Schema} {q : Preferences} {w : Value} (part : c.schema.Part .entry t) (comes : c.Comes h q w) :
      Leads c .entry ⟨t, w, c.site, q⟩
  | test {c : Request} {t : Schema} {q : Preferences} {w : Value} (part : c.schema.Part .test t) (comes : c.Comes h q w)
      (subject : Value) : Leads c .test ⟨t, subject, c.site, Role.test.prefs q⟩

variable {h} {c d : Request} {role : Role}

theorem Leads.part (leads : c.Leads h role d) : c.schema.Part role d.schema := by
  obtain ⟨⟨core, empty, content⟩, given, site, prefs⟩ := c
  cases leads with
  | empty part => exact part
  | item content member =>
      obtain rfl := content
      exact .item _ member
  | key content =>
      obtain rfl := content
      exact .key (by simp)
  | entry part => exact part
  | test part => exact part

theorem Leads.path (leads : c.Leads h role d) : d.site.path = c.site.path ++ role.segments := by
  cases leads <;> simp [Role.segments, Site.child]

theorem Leads.prefs (leads : c.Leads h role d) : ∃ q, c.schema.merged c.prefs = .ok q ∧ d.prefs = role.prefs q := by
  cases leads with
  | empty _ merged => exact ⟨_, merged, rfl⟩
  | item _ _ comes => exact ⟨_, comes.merged, rfl⟩
  | key _ comes => exact ⟨_, comes.merged, rfl⟩
  | entry _ comes => exact ⟨_, comes.merged, rfl⟩
  | test _ comes => exact ⟨_, comes.merged, rfl⟩

variable (h)

/-- One request leads to another in steps of a kind. -/
def Reaches (on : Request → Role → Request → Prop) : Request → Request → Prop :=
  Relation.ReflTransGen fun c d => ∃ role, c.Leads h role d ∧ on c role d

variable {h} {on : Request → Role → Request → Prop}

theorem Reaches.below (reached : c.Reaches h on d) : c.schema.Below d.schema := by
  induction reached with
  | refl => exact .refl
  | tail _ step ih =>
      obtain ⟨role, leads, -⟩ := step
      exact ih.tail ⟨role, leads.part⟩

end Request

/-! ## Parts by other evaluators -/

def Branch.by (E : Schema → Evaluator) : Branch → BranchCheck
  | .mk test yes no => ⟨E test, yes.map E, no.map E⟩

def Alternative.by (E : Schema → Evaluator) : Alternative → AlternativeCheck
  | .attempt s => .attempt (E s)
  | .conditional subject bs _ => .conditional subject (bs.map (Branch.by E))

/-- A declared key with its child made an evaluator. -/
def Keys.checkBy (E : Schema → Evaluator) (e : Value × Schema) : KeyCheck := ⟨e.1, e.2.strips, E e.2⟩

/-- The base check of a content whose schemas are made evaluators. -/
def Content.baseBy (h : Hooks) (E : Schema → Evaluator) (core : Core) : Content → BaseCheck
  | .array items => Items.base (items.map E)
  | .object keys => Keys.base core.unknown (keys.map (List.map (Keys.checkBy E)))
  | .alternatives es _ mode => Alternatives.base h mode (es.map (Alternative.by E))
  | c => fun f v => liftM (c.leaf f v)

/-- The node of a schema whose parts are made evaluators. -/
def Schema.nodeBy (h : Hooks) (E : Schema → Evaluator) (s : Schema) : Node where
  core := s.core
  content := s.content
  cacheable := s.isCacheable
  empty := s.empty?.map E
  base := s.content.baseBy h E s.core

namespace Schema

variable {h : Hooks}

theorem evalOption_map (o : Option Schema) : evalOption h o = o.map (eval h) := by cases o <;> rfl

theorem evalBranches_map (bs : List Branch) : evalBranches h bs = bs.map (Branch.by (eval h)) := by
  induction bs with
  | nil => rfl
  | cons b bs ih =>
      obtain ⟨test, yes, no⟩ := b
      rw [evalBranches, ih, List.map_cons, Branch.by, evalOption_map, evalOption_map]

theorem evalAlternatives_map (es : List Alternative) : evalAlternatives h es = es.map (Alternative.by (eval h)) := by
  induction es with
  | nil => rfl
  | cons e es ih =>
      cases e with
      | attempt s => rw [evalAlternatives, ih, List.map_cons, Alternative.by]
      | conditional subject bs fromSwitch =>
          rw [evalAlternatives, ih, List.map_cons, Alternative.by, evalBranches_map]

theorem toNode_eq (s : Schema) : s.toNode h = s.nodeBy h (eval h) := by
  have base : evalContent h s.core s.content = s.content.baseBy h (eval h) s.core := by
    cases s.content with
    | array items => rw [evalContent, evalEach_eq, Content.baseBy]
    | object keys =>
        cases keys with
        | none => rfl
        | some ks =>
            rw [evalContent, evalKeys, evalKeyList_eq, Content.baseBy, Option.map_some]
            rfl
    | alternatives es chain mode => rw [evalContent, evalAlternatives_map, Content.baseBy]
    | any => rfl
    | boolean => rfl
    | number => rfl
    | string => rfl
    | probe => rfl
  rw [toNode, nodeBy, base, evalOption_map]

end Schema

/-! ## Evaluations through requests -/

theorem Keys.Leaves.append {front ks : List (Value × Schema)} {es es' es'' : Dict} (first : Leaves front es es')
    (second : Leaves ks es' es'') : Leaves (front ++ ks) es es'' := by
  induction first with
  | done => exact second
  | accepted w _ ih => exact .accepted w (ih second)
  | rejected _ ih => exact .rejected (ih second)

variable {h : Hooks} {E : Schema → Evaluator} {c : Request} {q : Preferences}

/-- Evaluators that do what is asked for by a request. -/
def Request.Answers (h : Hooks) (E : Schema → Evaluator) (c : Request) : Prop :=
  ∀ role d, c.Leads h role d → E d.schema d.given d.site d.prefs = d.schema.eval h d.given d.site d.prefs

namespace Items

theorem firstAccepted_by {items : List Schema} {v : Value} {s : Site} {p : Preferences}
    (same : ∀ t ∈ items, E t v s p = t.eval h v s p) :
    firstAccepted v s p (items.map E) = firstAccepted v s p (items.map (Schema.eval h)) := by
  induction items with
  | nil => rfl
  | cons t items ih =>
      obtain ⟨here, rest⟩ := List.forall_mem_cons.mp same
      rw [List.map_cons, List.map_cons, firstAccepted, firstAccepted, here, ih rest]

theorem checkItem_by {items : List Schema} {f : Frame} {v : Value} {s : Site} (i : Nat)
    (same : ∀ t ∈ items, E t v s f.prefs = t.eval h v s f.prefs) :
    checkItem (items.map E) f s i v = checkItem (items.map (Schema.eval h)) f s i v := by
  rcases items with _ | ⟨t, _ | ⟨u, items⟩⟩
  · rfl
  · exact same t (List.mem_singleton_self t)
  · have first := firstAccepted_by same
    simp only [List.map_cons] at first
    simp only [checkItem, List.map_cons, first]

theorem base_by (answers : c.Answers h E) {items : List Schema} (content : c.schema.content = .array items) {w : Value}
    (comes : c.Comes h q w) (f : Frame) (site : f.site = c.site) (prefs : f.prefs = q) :
    base (items.map E) f w = base (items.map (Schema.eval h)) f w := by
  -- What is done stands for as many items as went before it: that is what a request for the next one asks.
  have each : ∀ (xs done before : List Value) (errors : List Issue), done.length = before.length →
      w = .list (before ++ xs) →
        checkFrom (items.map E) f done xs errors = checkFrom (items.map (Schema.eval h)) f done xs errors := by
    intro xs
    induction xs with
    | nil => exact fun _ _ _ _ _ => rfl
    | cons v rest ih =>
        intro done before errors length whole
        have here := checkItem_by (E := E) (f := f) (s := f.site.child (.list (done ++ v :: rest)) (.int done.length)) done.length
          fun t member => by
            rw [site, prefs]
            exact answers _ _ (.item content member (whole ▸ comes) length)
        have later : ∀ u errors, checkFrom (items.map E) f (done ++ [u]) rest errors =
            checkFrom (items.map (Schema.eval h)) f (done ++ [u]) rest errors := fun u errors =>
          ih (done ++ [u]) (before ++ [v]) errors (by simp [length]) (by simp [whole])
        rw [checkFrom, checkFrom, here]
        simp only [later]
  unfold base
  cases w with
  | list xs => simp only [List.isEmpty_map, each xs [] [] [] rfl rfl]
  | _ => rfl

end Items

namespace Keys

theorem isKnown_by (ks : List (Value × Schema)) :
    isKnown (ks.map (checkBy E)) = isKnown (ks.map (checkBy (Schema.eval h))) := by
  funext k
  simp [isKnown, checkBy, Function.comp_def]

theorem base_by (answers : c.Answers h E) {keys : Option (List (Value × Schema))}
    (content : c.schema.content = .object keys) {w : Value} (comes : c.Comes h q w) (f : Frame) (site : f.site = c.site)
    (prefs : f.prefs = q) (unknown : Option Value) :
    base unknown (keys.map (List.map (checkBy E))) f w = base unknown (keys.map (List.map (checkBy (Schema.eval h)))) f w := by
  cases keys with
  | none => rfl
  | some all =>
  cases w with
  | dict es₀ =>
      have each : ∀ (ks front : List (Value × Schema)) (es : Dict) (errors : List Issue), all = front ++ ks →
          Leaves front es₀ es →
            checkDeclared f (ks.map (checkBy E)) es errors = checkDeclared f (ks.map (checkBy (Schema.eval h))) es errors := by
        intro ks
        -- The keys that are done are kept as a front, since a request for a key tells what they have left.
        induction ks with
        | nil => exact fun _ _ _ _ _ => rfl
        | cons e ks ih =>
            obtain ⟨k, t⟩ := e
            intro front es errors split leaves
            have here : E t ((Datum.find? k es).getD .undefined) (f.site.child (.dict es) k) f.prefs =
                t.eval h ((Datum.find? k es).getD .undefined) (f.site.child (.dict es) k) f.prefs := by
              rw [site, prefs]
              exact answers _ _ (.key (split ▸ content) comes leaves)
            have kept : ∀ errors, checkDeclared f (ks.map (checkBy E)) es errors = _ := fun errors =>
              ih (front ++ [(k, t)]) es errors (by simp [split]) (leaves.append (.rejected .done))
            have settled : ∀ v errors, checkDeclared f (ks.map (checkBy E))
                (settle ⟨k, t.strips, t.eval h⟩ ((Datum.find? k es).getD .undefined) v es) errors = _ := fun v errors =>
              ih (front ++ [(k, t)]) _ errors (by simp [split]) (leaves.append (.accepted v .done))
            have alike : ∀ u v, settle ⟨k, t.strips, E t⟩ u v es = settle ⟨k, t.strips, t.eval h⟩ u v es := fun _ _ => rfl
            rw [List.map_cons, List.map_cons, checkDeclared, checkDeclared]
            simp only [checkBy] at *
            simp only [here, alike, settled, kept]
      simp only [base, Option.map_some, each all [] es₀ [] rfl .done, checkStrangers, isKnown_by (h := h)]
  | _ => rfl

end Keys

namespace Alternatives

theorem count_by {f : Frame} {v : Value} {es : List Alternative}
    (same : ∀ t, .attempt t ∈ es → E t v f.site f.prefs = t.eval h v f.site f.prefs) (acc : Nat × Value) :
    count f v (es.map (Alternative.by E)) acc = count f v (es.map (Alternative.by (Schema.eval h))) acc := by
  induction es generalizing acc with
  | nil => rfl
  | cons e es ih =>
      have rest := ih fun t member => same t (List.mem_cons_of_mem _ member)
      cases e with
      | attempt t =>
          rw [List.map_cons, List.map_cons, Alternative.by, Alternative.by, count, count, same t (List.mem_cons_self ..)]
          simp only [rest]
      | conditional => rfl

/-- What goes on with the branch that is chosen is the same, if the tests and the branches answer alike. -/
theorem choose_by {f : Frame} {subject : Value} {bs : List Branch} {β : Type} {g k : Option Evaluator → Eval β}
    (tests : ∀ test yes no, .mk test yes no ∈ bs →
      E test subject f.site f.prefs.forMatching = test.eval h subject f.site f.prefs.forMatching)
    (none_ : g none = k none)
    (some_ : ∀ test yes no t, .mk test yes no ∈ bs → yes = some t ∨ no = some t → g (some (E t)) = k (some (t.eval h))) :
    choose f subject (bs.map (Branch.by E)) >>= g = choose f subject (bs.map (Branch.by (Schema.eval h))) >>= k := by
  induction bs with
  | nil => exact none_
  | cons b bs ih =>
      obtain ⟨test, yes, no⟩ := b
      have later := ih (fun test yes no member => tests test yes no (List.mem_cons_of_mem _ member))
        fun test yes no t member => some_ test yes no t (List.mem_cons_of_mem _ member)
      have asked : Node.accepts (E test) subject f.site f.prefs = Node.accepts (test.eval h) subject f.site f.prefs := by
        rw [Node.accepts, Node.accepts, tests test yes no (List.mem_cons_self ..)]
      rw [List.map_cons, List.map_cons, choose, choose, bind_assoc, bind_assoc]
      simp only [Branch.by, asked]
      congr 1
      funext passes
      have here := some_ test yes no
      cases passes with
      | true =>
          cases yes with
          | none => exact later
          | some t => exact here t (List.mem_cons_self ..) (.inl rfl)
      | false =>
          cases no with
          | none => exact later
          | some t => exact here t (List.mem_cons_self ..) (.inr rfl)

theorem first_by {f : Frame} {v : Value} {es : List Alternative}
    (attempts : ∀ t, .attempt t ∈ es → E t v f.site f.prefs = t.eval h v f.site f.prefs)
    (tests : ∀ subject bs fromSwitch test yes no, .conditional subject bs fromSwitch ∈ es → .mk test yes no ∈ bs → ∀ u,
      E test u f.site f.prefs.forMatching = test.eval h u f.site f.prefs.forMatching)
    (branches : ∀ subject bs fromSwitch test yes no t, .conditional subject bs fromSwitch ∈ es → .mk test yes no ∈ bs →
      yes = some t ∨ no = some t → E t v f.site f.prefs = t.eval h v f.site f.prefs) (issues : List Issue) :
    first h f v (es.map (Alternative.by E)) issues = first h f v (es.map (Alternative.by (Schema.eval h))) issues := by
  induction es generalizing issues with
  | nil => rfl
  | cons e es ih =>
      have rest := ih (fun t member => attempts t (List.mem_cons_of_mem _ member))
        (fun subject bs fromSwitch test yes no entry => tests subject bs fromSwitch test yes no (List.mem_cons_of_mem _ entry))
        fun subject bs fromSwitch test yes no t entry => branches subject bs fromSwitch test yes no t (List.mem_cons_of_mem _ entry)
      cases e with
      | attempt t =>
          rw [List.map_cons, List.map_cons, Alternative.by, Alternative.by, first, first, attempts t (List.mem_cons_self ..)]
          simp only [rest]
      | conditional subject bs fromSwitch =>
          rw [List.map_cons, List.map_cons, Alternative.by, Alternative.by, first, first]
          congr 1
          funext s
          refine choose_by (fun test yes no member => tests _ _ _ test yes no (List.mem_cons_self ..) member s) (rest issues) ?_
          intro test yes no t member chosen
          simp only [branches _ _ _ test yes no t (List.mem_cons_self ..) member chosen]

theorem base_by (answers : c.Answers h E) {es : List Alternative} {chain : ChainState} {mode : Option MatchMode}
    (content : c.schema.content = .alternatives es chain mode) {w : Value} (comes : c.Comes h q w) (f : Frame)
    (site : f.site = c.site) (prefs : f.prefs = q) :
    base h mode (es.map (Alternative.by E)) f w = base h mode (es.map (Alternative.by (Schema.eval h))) f w := by
  obtain ⟨⟨core, empty, _⟩, given, place, above⟩ := c
  subst site prefs content
  have attempts : ∀ t, .attempt t ∈ es → E t w f.site f.prefs = t.eval h w f.site f.prefs := fun t member =>
    answers _ _ (.entry (.attempt member) comes)
  cases mode with
  | none =>
      refine congrArg (· >>= _) (first_by attempts ?_ ?_ [])
      · exact fun subject bs fromSwitch test yes no entry member u => answers _ _ (.test (.test entry member) comes u)
      · rintro subject bs fromSwitch test yes no t entry member (rfl | rfl)
        · exact answers _ _ (.entry (.onMatch entry member) comes)
        · exact answers _ _ (.entry (.onMiss entry member) comes)
  | some m =>
      simp only [base, byMode, count_by attempts, List.length_map]

end Alternatives

namespace Request

theorem base_by (answers : c.Answers h E) {w : Value} (comes : c.Comes h q w) (f : Frame) (site : f.site = c.site)
    (prefs : f.prefs = q) :
    c.schema.content.baseBy h E c.schema.core f w = c.schema.content.baseBy h (Schema.eval h) c.schema.core f w := by
  cases content : c.schema.content with
  | array items => exact Items.base_by answers content comes f site prefs
  | object keys => exact Keys.base_by answers content comes f site prefs _
  | alternatives es chain mode => exact Alternatives.base_by answers content comes f site prefs
  | _ => rfl

theorem approach_by (answers : c.Answers h E) (merged : c.schema.merged c.prefs = .ok q) :
    Node.approach h (c.schema.nodeBy h E) (c.frame h q) = Node.approach h (c.schema.toNode h) (c.frame h q) := by
  have converted : (c.schema.nodeBy h E).convert (c.frame h q) = (c.schema.toNode h).convert (c.frame h q) := rfl
  unfold Node.approach
  rw [converted]
  cases converts : (c.schema.toNode h).convert (c.frame h q) (c.frame h q).given with
  | finished w es => rfl
  | goOn w es =>
      have emptied : Node.emptied (c.schema.nodeBy h E) (c.frame h q) w =
          Node.emptied (c.schema.toNode h) (c.frame h q) w := by
        rw [Schema.toNode_eq]
        unfold Node.emptied Schema.nodeBy
        cases given : c.schema.empty? with
        | none => rfl
        | some e =>
            have asked := answers _ _ (.empty (c.schema.part_of_empty given) merged converts)
            change E e (trimmed c.schema.core w) c.site _ = _ at asked
            simp only [Option.map_some, Node.accepts]
            exact congrArg (fun x => Eval.withoutTrace x >>= _ >>= _) asked
      exact congrArg (· >>= _) emptied

/-- An evaluation depends on its parts only through the requests that it leads to. -/
theorem evaluate_by (answers : c.Answers h E) :
    (c.schema.nodeBy h E).evaluate h c.given c.site c.prefs = c.schema.eval h c.given c.site c.prefs := by
  rw [Schema.eval_eq, Node.evaluate_eq, Node.evaluate_eq]
  change (liftM (c.schema.merged c.prefs) : Eval Preferences) >>= _ = (liftM (c.schema.merged c.prefs) : Eval Preferences) >>= _
  cases merged : c.schema.merged c.prefs with
  | error fault => rw [Eval.lift_error_bind, Eval.lift_error_bind]
  | ok q =>
      rw [Eval.lift_ok_bind, Eval.lift_ok_bind]
      have bodies : Node.body h (c.schema.nodeBy h E) (c.frame h q) = Node.body h (c.schema.toNode h) (c.frame h q) := by
        rw [Node.body_eq, Node.body_eq, approach_by answers merged]
        apply Eval.ext
        intro r
        rw [Eval.exec_bind, Eval.exec_bind]
        rcases ran : (Node.approach h (c.schema.toNode h) (c.frame h q)).exec r with ⟨fault | verdict, r'⟩
        · rfl
        · cases verdict with
          | finished w es => rfl
          | goOn w es =>
              have checked := base_by answers ⟨merged, r, r', es, ran⟩ { c.frame h q with current := w } rfl rfl
              have bases : Node.checkBase h (c.schema.nodeBy h E) (c.frame h q) w es =
                  Node.checkBase h (c.schema.toNode h) (c.frame h q) w es := by
                rw [Node.checkBase_eq, Node.checkBase_eq, Schema.toNode_eq]
                exact congrArg (· >>= _) checked
              exact congrArg (Eval.exec · r') bases
      have settled : Node.settled h (c.schema.nodeBy h E) (c.frame h q) = Node.settled h (c.schema.toNode h) (c.frame h q) := by
        rw [Node.settled_eq, Node.settled_eq, bodies]
        rfl
      exact congrArg (Node.through (c.schema.toNode h) (c.frame h q)) settled

end Request

end Conform
