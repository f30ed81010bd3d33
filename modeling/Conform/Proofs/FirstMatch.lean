import Conform.Proofs.Alone
import Conform.Proofs.Strict.Rules

/-!
# Arrays item by item

An array takes each item as the first of its item schemas to accept it leaves it, and drops what became absent. What
an item schema says of an item it says of the item on its own, so neither the order in which items are checked nor
what was built before them matters.
-/

namespace Conform

open Datum

variable {h : Hooks} {k : Nat} {f : Frame} {path : Path} {p : Preferences} {v : Value}

/-- The value that the first of some schemas to accept a value on its own accepts it with. -/
def Schema.firstAccepts? (h : Hooks) (ss : List Schema) (n : Nat) (path : Path) (p : Preferences) (v : Value) :
    Option Value :=
  ss.findSome? fun s => s.accepts? h n path p v

/-- On their own none of some schemas raises on a value, as long as none before it accepts. -/
def Schema.AskedReturn (h : Hooks) (k : Nat) (path : Path) (p : Preferences) (v : Value) : List Schema → Prop
  | [] => True
  | s :: ss => s.Returns h k path p v ∧ (s.accepts? h k path p v = none → AskedReturn h k path p v ss)

namespace Items

/-! ## One item -/

theorem firstAccepted_decides {ss : List Schema} (contained : ∀ s ∈ ss, s.SelfContained k)
    (returns : Schema.AskedReturn h k path p v ss) :
    ∀ (around : List Value) (r : Run), k ≤ r.copies →
      ∃ o r', (firstAccepted v ⟨path, around⟩ p (Schema.evalEach h ss)).exec r = (.ok o, r') ∧ k ≤ r'.copies ∧
        Option.Rel (fun u a => a.errors = [] ∧ Like k u a.value) (Schema.firstAccepts? h ss k path p v) o := by
  induction ss with
  | nil => exact fun around r enough => ⟨none, r, rfl, enough, .none⟩
  | cons s ss ih =>
      obtain ⟨itself, others⟩ := List.forall_mem_cons.mp contained
      have here := itself.decides returns.1
      intro around r enough
      rw [Schema.evalEach, firstAccepted, Schema.firstAccepts?, List.findSome?_cons, Eval.exec_bind]
      cases verdict : s.accepts? h k path p v with
      | some u =>
          obtain ⟨a, r', ran, stays, clean, like⟩ := (verdict ▸ here).accepts around enough
          rw [ran, Eval.andThen_ok, clean]
          exact ⟨some a, r', rfl, stays, .some ⟨clean, like⟩⟩
      | none =>
          obtain ⟨a, r', ran, stays, fails⟩ := (verdict ▸ here).rejects around enough
          rw [ran, Eval.andThen_ok, List.isEmpty_eq_false_iff.mpr fails]
          exact ih others (returns.2 verdict) around r' stays

theorem checkItem_several {es : List Evaluator} (several : es.length ≠ 1) (s : Site) (i : Nat) (v : Value) :
    checkItem es f s i v = firstAccepted v s f.prefs es >>= fun o =>
      pure (o.getD ⟨v, [.report (f.reportAt s "array.includes" v [(.str "pos", .int i)])]⟩) := by
  rcases es with _ | ⟨e, _ | ⟨e', es⟩⟩
  · exact congrArg (Bind.bind _) (funext fun o => by cases o <;> rfl)
  · contradiction
  · exact congrArg (Bind.bind _) (funext fun o => by cases o <;> rfl)

/-- One schema or several, an item is decided about by the first schema that accepts it. -/
theorem checkItem_decides {ss : List Schema} (prefs : f.prefs = p) (contained : ∀ s ∈ ss, s.SelfContained k)
    (returns : Schema.AskedReturn h k path p v ss) (i : Nat) :
    Evaluator.Decides k (fun v s _ => checkItem (Schema.evalEach h ss) f s i v) path p v
      (Schema.firstAccepts? h ss k path p v) := by
  subst prefs
  by_cases several : (Schema.evalEach h ss).length ≠ 1
  · intro around r enough
    obtain ⟨o, r', ran, stays, agrees⟩ := firstAccepted_decides contained returns around r enough
    beta_reduce
    rw [checkItem_several several, Eval.exec_bind, ran, Eval.andThen_ok]
    generalize Schema.firstAccepts? h ss k path f.prefs v = d at agrees ⊢
    cases agrees with
    | none => exact ⟨_, r', rfl, stays, .none⟩
    | @some u a found =>
        obtain ⟨w, errors⟩ := a
        obtain ⟨rfl, like⟩ : errors = [] ∧ Like k u w := found
        exact ⟨_, r', rfl, stays, .some like⟩
  · obtain ⟨s, rfl⟩ : ∃ s, ss = [s] := by
      rcases ss with _ | ⟨s, _ | ⟨t, ss⟩⟩
      · simp [Schema.evalEach] at several
      · exact ⟨s, rfl⟩
      · simp [Schema.evalEach] at several
    have alone : Schema.firstAccepts? h [s] k path f.prefs v = s.accepts? h k path f.prefs v := by
      rw [Schema.firstAccepts?, List.findSome?_cons]
      cases s.accepts? h k path f.prefs v <;> rfl
    rw [alone]
    exact (contained s (List.mem_singleton_self s)).decides returns.1

/-! ## All items -/

/-- Items from a place on, each with what is decided about it on its own; those after a rejected one only where the
array goes on to them. -/
inductive Judged (k : Nat) (es : List Evaluator) (f : Frame) : Nat → List (Value × Option Value) → Prop
  | nil {i : Nat} : Judged k es f i []
  | cons {i : Nat} {v : Value} {d : Option Value} {items : List (Value × Option Value)}
      (item : Evaluator.Decides k (fun v s _ => checkItem es f s i v) (f.site.path ++ [.int i]) f.prefs v d)
      (rest : (f.prefs.abortEarly → d.isSome) → Judged k es f (i + 1) items) : Judged k es f i ((v, d) :: items)

theorem Judged.uncons {es : List Evaluator} {i : Nat} {d : Option Value} {items : List (Value × Option Value)}
    (judged : Judged k es f i ((v, d) :: items)) :
    Evaluator.Decides k (fun v s _ => checkItem es f s i v) (f.site.path ++ [.int i]) f.prefs v d ∧
      ((f.prefs.abortEarly → d.isSome) → Judged k es f (i + 1) items) := by
  cases judged with
  | cons item rest => exact ⟨item, rest⟩

/-- What becomes of the items after those that are done, and whether all of them were accepted. -/
def settle (early : Bool) (done : List Value) : List (Value × Option Value) → List Value × Bool
  | [] => (done.filter fun v => !v.isUndefined, true)
  | (_, some u) :: items => settle early (done ++ [u]) items
  | (v, none) :: items =>
    (if early then done ++ v :: items.map Prod.fst else (settle early (done ++ [v]) items).1, false)

theorem settle_accepts (early : Bool) (done : List Value) (items : List (Value × Option Value)) :
    (settle early done items).2 ↔ ∀ i ∈ items, i.2.isSome := by
  induction items generalizing done with
  | nil => simp [settle]
  | cons i items ih =>
      obtain ⟨v, _ | u⟩ := i
      · simp [settle]
      · simp [settle, ih]

/-- The values among some that are there. -/
def compact (ds : List (Option Value)) : List Value := ds.filterMap fun d => d.filter fun u => !u.isUndefined

theorem compact_some (u : Value) (ds : List (Option Value)) :
    compact (some u :: ds) = (if u.isUndefined then [] else [u]) ++ compact ds := by
  cases absent : u.isUndefined <;> simp [compact, Option.filter, absent]

theorem settle_accepted (early : Bool) (done : List Value) {items : List (Value × Option Value)}
    (accepted : ∀ i ∈ items, i.2.isSome) :
    (settle early done items).1 = (done.filter fun v => !v.isUndefined) ++ compact (items.map Prod.snd) := by
  induction items generalizing done with
  | nil => simp [settle, compact]
  | cons i items ih =>
      obtain ⟨here, later⟩ := List.forall_mem_cons.mp accepted
      obtain ⟨v, _ | u⟩ := i
      · cases here
      · rw [settle, ih _ later, List.map_cons, compact_some, List.filter_append, List.append_assoc]
        cases absent : u.isUndefined <;> simp [absent]

/-- A run over judged items leaves what is settled of them, and fails exactly if one of them is rejected. -/
theorem checkFrom_settles {es : List Evaluator} {items : List (Value × Option Value)} {done before : List Value}
    (judged : Judged k es f done.length items) (like : LikeEach k done before) (errors : List Issue) (r : Run)
    (enough : k ≤ r.copies) :
    ∃ o r', (checkFrom es f before (items.map Prod.fst) errors).exec r = (.ok o, r') ∧ k ≤ r'.copies ∧
      Like k (.list (settle f.prefs.abortEarly done items).1) o.value ∧
      (o.errors = [] ↔ errors = [] ∧ (settle f.prefs.abortEarly done items).2) := by
  -- On the items that are left. Copies have numbers of their own, so the done items are known up to likeness.
  induction items generalizing done before errors r with
  | nil => exact ⟨_, r, rfl, enough, .list like.defined, by simp [settle]⟩
  | cons i items ih =>
      obtain ⟨v, d⟩ := i
      obtain ⟨item, rest⟩ := judged.uncons
      rw [List.map_cons, checkFrom, like.length_eq, Eval.exec_bind]
      have goOn : ∀ {u w : Value} {r' : Run}, (f.prefs.abortEarly → d.isSome) → ∀ errors : List Issue, Like k u w →
          k ≤ r'.copies →
          ∃ o r'', (checkFrom es f (before ++ [w]) (items.map Prod.fst) errors).exec r' = (.ok o, r'') ∧ k ≤ r''.copies ∧
            Like k (.list (settle f.prefs.abortEarly (done ++ [u]) items).1) o.value ∧
            (o.errors = [] ↔ errors = [] ∧ (settle f.prefs.abortEarly (done ++ [u]) items).2) := by
        intro u w r' reached errors same stays
        have grown : LikeEach k [u] [w] := congrArg (fun x => [x]) same
        refine ih ?_ (like.append grown) errors r' stays
        rw [List.length_append]
        exact rest reached
      cases d with
      | some u =>
          obtain ⟨a, r', ran, stays, clean, same⟩ := item.accepts
            (.list (before ++ v :: items.map Prod.fst) :: f.site.ancestors) enough
          simp only [Site.child, ran, Eval.andThen_ok, clean]
          exact goOn (fun _ => rfl) errors same stays
      | none =>
          obtain ⟨a, r', ran, stays, fails⟩ := item.rejects
            (.list (before ++ v :: items.map Prod.fst) :: f.site.ancestors) enough
          simp only [Site.child, ran, Eval.andThen_ok, List.isEmpty_eq_false_iff.mpr fails, settle]
          cases early : f.prefs.abortEarly with
          | true =>
              refine ⟨_, r', rfl, stays, .list (like.append rfl), ?_⟩
              simpa using fails
          | false =>
              obtain ⟨o, r'', later, stays, same, fail⟩ := goOn (by simp [early]) (errors ++ a.errors) (.refl v) stays
              rw [early] at same fail
              refine ⟨o, r'', later, stays, same, ?_⟩
              simp [fail, fails]

/-- What the first item schema to accept an item makes of it on its own. -/
def resultAt (h : Hooks) (ss : List Schema) (k : Nat) (f : Frame) (i : Nat) (v : Value) : Option Value :=
  Schema.firstAccepts? h ss k (f.site.path ++ [.int i]) f.prefs v

/-- Whether an array goes on to an item: where it stops at the first rejected one, all items before are accepted. -/
def Reached (early : Bool) (d : Nat → Value → Option Value) (xs : List Value) (i : Nat) : Prop :=
  early → ∀ j w, j < i → xs[j]? = some w → (d j w).isSome

theorem Reached.cons {early : Bool} {d : Nat → Value → Option Value} {v : Value} {xs : List Value} {i : Nat}
    (here : early → (d 0 v).isSome) (later : Reached early (fun j => d (j + 1)) xs i) :
    Reached early d (v :: xs) (i + 1) := by
  rintro stops (_ | j) w before found
  · cases found
    exact here stops
  · exact later stops j w (Nat.lt_of_succ_lt_succ before) found

/-- No item schema that an array asks about an item raises on it on its own. -/
def AllReturn (h : Hooks) (ss : List Schema) (k : Nat) (f : Frame) (xs : List Value) : Prop :=
  ∀ (i : Nat) v, xs[i]? = some v → Reached f.prefs.abortEarly (resultAt h ss k f) xs i →
    Schema.AskedReturn h k (f.site.path ++ [.int i]) f.prefs v ss

theorem map_fst_results (d : Nat → Value → Option Value) (xs : List Value) :
    (xs.mapIdx fun i v => (v, d i v)).map Prod.fst = xs := by
  apply List.ext_getElem?
  intro i
  simp [Function.comp_def]

theorem map_snd_results (d : Nat → Value → Option Value) (xs : List Value) :
    (xs.mapIdx fun i v => (v, d i v)).map Prod.snd = xs.mapIdx d := by
  apply List.ext_getElem?
  intro i
  simp [Function.comp_def]

theorem judged {ss : List Schema} (contained : ∀ s ∈ ss, s.SelfContained k) {xs : List Value} {start : Nat}
    (returns : ∀ (i : Nat) v, xs[i]? = some v →
      Reached f.prefs.abortEarly (fun j => resultAt h ss k f (start + j)) xs i →
        Schema.AskedReturn h k (f.site.path ++ [.int ↑(start + i)]) f.prefs v ss) :
    Judged k (Schema.evalEach h ss) f start (xs.mapIdx fun i v => (v, resultAt h ss k f (start + i) v)) := by
  induction xs generalizing start with
  | nil => exact .nil
  | cons v xs ih =>
      have shifted : ∀ i, start + (i + 1) = start + 1 + i := fun i => by omega
      have later : (fun i => resultAt h ss k f (start + (i + 1))) = fun i => resultAt h ss k f (start + 1 + i) := by
        funext i
        rw [shifted]
      have first : Reached f.prefs.abortEarly (fun j => resultAt h ss k f (start + j)) (v :: xs) 0 := fun _ _ _ => nofun
      rw [List.mapIdx_cons]
      refine .cons (checkItem_decides rfl contained (returns 0 v rfl first) start) fun goesOn => ?_
      simp only [congrFun (congrFun later _)]
      refine ih fun i w found reached => shifted i ▸ returns (i + 1) w found (.cons goesOn ?_)
      rwa [later]

/-- What an array makes of its items, from what its item schemas say of each item on its own. -/
theorem base_settles {ss : List Schema} (nonempty : ss ≠ []) (contained : ∀ s ∈ ss, s.SelfContained k) {xs : List Value}
    (returns : AllReturn h ss k f xs) (r : Run) (enough : k ≤ r.copies) :
    ∃ o r', (base (Schema.evalEach h ss) f (.list xs)).exec r = (.ok (some o), r') ∧ k ≤ r'.copies ∧
      Like k (.list (settle f.prefs.abortEarly [] (xs.mapIdx fun i v => (v, resultAt h ss k f i v))).1) o.value ∧
      (o.errors = [] ↔ (settle f.prefs.abortEarly [] (xs.mapIdx fun i v => (v, resultAt h ss k f i v))).2) := by
  have judged : Judged k (Schema.evalEach h ss) f ([] : List Value).length
      (xs.mapIdx fun i v => (v, resultAt h ss k f i v)) := by
    have judged : Judged k (Schema.evalEach h ss) f 0 (xs.mapIdx fun i v => (v, resultAt h ss k f (0 + i) v)) :=
      judged contained fun i v found reached => by
        simp only [Nat.zero_add] at reached ⊢
        exact returns i v found reached
    simpa only [Nat.zero_add, List.length_nil] using judged
  obtain ⟨o, r', ran, stays, like, clean⟩ := checkFrom_settles judged rfl [] r enough
  have several : (Schema.evalEach h ss).isEmpty = false := by
    cases ss with
    | nil => contradiction
    | cons s ss => rfl
  rw [map_fst_results] at ran
  refine ⟨o, r', ?_, stays, like, by simpa using clean⟩
  rw [base]
  simp only [several, Bool.false_eq_true, if_false, Eval.exec_bind, ran]
  rfl

end Items

/-! ## Rules that count -/

theorem Number.compare?_int (x y : Int) : (int x).compare? (int y) = some (Ord.compare x y) := by
  have unscaled : ∀ z : Int, z * Int.pow 2 0 = z := fun z => Int.mul_one z
  simpa [compare?, toDyadic?, Dyadic.compare, Dyadic.scaledTo, Dyadic.ofInt] using
    congrArg₂ Ord.compare (unscaled x) (unscaled y)

namespace RuleEntry

/-- Whether a rule admits a number of items. -/
def admitsCount (e : RuleEntry) (n : Nat) : Prop :=
  match e.name, arg "limit" e.args with
  | .min, .int limit => limit ≤ n
  | .max, .int limit => n ≤ limit
  | .length, .int limit => n = limit
  | _, _ => True

/-- A rule of an array without references and functions: it compares the number of items with a given one, or it
only warns. -/
structure Counts (e : RuleEntry) : Prop where
  refs : e.refs = []
  kind : e.name = .warning ∨ (e.name = .min ∨ e.name = .max ∨ e.name = .length) ∧ ∃ n : Int, arg "limit" e.args = .int n

/-- A rule passes items if it admits their number; a list of nothing but reports is an answer of its own. -/
def passesItems (e : RuleEntry) (xs : List Value) : Prop :=
  e.admitsCount xs.length ∧ Reply.reports? (.list xs) = none

variable {e : RuleEntry} {n : Int}

theorem measured_count (name : e.name = .min ∨ e.name = .max ∨ e.name = .length) (limit : arg "limit" e.args = .int n)
    (xs : List Value) :
    ∃ holds, Rule.measured .array e.name (.list xs) (arg "limit" e.args) = .ok holds ∧
      (holds = true ↔ e.admitsCount xs.length) := by
  have compared : ∀ admits, Rule.compareLength admits (.list xs) (arg "limit" e.args) =
      .ok (admits (Ord.compare (xs.length : Int) n)) := by
    intro admits
    rw [limit]
    simp only [Rule.compareLength, length?, Rule.compare, number?, Number.compare?_int, Option.map_some,
      Option.getD_some]
  refine ⟨_, compared _, ?_⟩
  rcases name with name | name | name
  · simp only [admitsCount, name, limit, Rule.comparison?, Option.getD_some, bne_iff_ne, Int.compare_ne_lt]
  · simp only [admitsCount, name, limit, Rule.comparison?, Option.getD_some, bne_iff_ne, Int.compare_ne_gt]
  · simp only [admitsCount, name, limit, Rule.comparison?, Option.getD_some, beq_iff_eq, Int.compare_eq_eq]

theorem Counts.spec_tested (counts : e.Counts) : (e.spec .array).byConversion = false := by
  rcases counts.kind with name | ⟨name | name | name, -⟩
  all_goals
    rw [spec, name]
    rfl

end RuleEntry

namespace Node

variable {e : RuleEntry}

/-- A rule that counts answers with the items where it passes them, and with reports elsewhere. -/
theorem reply_counts (counts : e.Counts) (isArray : f.kind = .array) (spec : RuleSpec) (xs : List Value) (r : Run) :
    ∃ a r', (reply h f (.list xs) spec e).exec r = (.ok a, r') ∧
      (e.passesItems xs ∧ a = .value (.list xs) ∨ ¬ e.passesItems xs ∧ ∃ q qs, a = .reports (q :: qs)) := by
  have given : e.admitsCount xs.length →
      (e.passesItems xs ∧ (Reply.value (.list xs)).normal = .value (.list xs) ∨
        ¬ e.passesItems xs ∧ ∃ q qs, (Reply.value (.list xs)).normal = .reports (q :: qs)) := by
    intro admits
    rw [Reply.normal]
    cases found : Reply.reports? (.list xs) with
    | none => exact .inl ⟨⟨admits, found⟩, rfl⟩
    | some rs =>
        refine .inr ⟨fun passes => ?_, ?_⟩
        · exact absurd (found.symm.trans passes.2) (by simp)
        · obtain ⟨q, qs, rfl⟩ := List.exists_cons_of_ne_nil (Reply.reports?_ne_nil found)
          exact ⟨q, qs, rfl⟩
  rw [reply_literal counts.refs]
  rcases counts.kind with warns | ⟨name, n, limit⟩
  · rw [warns, Rule.test_warning]
    refine ⟨_, _, rfl, given ?_⟩
    simp [RuleEntry.admitsCount, warns]
  · have calls : e.name ≠ .custom := by rintro same; simp [same] at name
    have silent : e.name ≠ .warning := by rintro same; simp [same] at name
    have compares : (Rule.comparison? e.name).isSome := by rcases name with same | same | same <;> rw [same] <;> rfl
    obtain ⟨holds, measured, counted⟩ := RuleEntry.measured_count name limit xs
    rw [Rule.test_verdict calls silent, Rule.verdict_measured compares]
    simp only [isArray, measured]
    cases holds with
    | true => exact ⟨_, r, rfl, given (counted.mp rfl)⟩
    | false =>
        refine ⟨_, r, rfl, .inr ⟨fun passes => ?_, _, _, rfl⟩⟩
        exact absurd (counted.mpr passes.1) (by simp)

/-- Rules that count leave the items as they are and fail unless each of them passes them or only warns. -/
theorem applyRules_counts {rules : List RuleEntry} (counts : ∀ e ∈ rules, e.Counts) (isArray : f.kind = .array)
    (xs : List Value) (errors : List Issue) (r : Run) :
    ∃ es r', (applyRules h f rules (.list xs) errors).exec r = (.ok (.list xs, es), r') ∧
      (es = [] ↔ errors = [] ∧ ∀ e ∈ rules, e.warn.truthy ∨ e.passesItems xs) := by
  induction rules generalizing errors r with
  | nil => exact ⟨errors, r, rfl, by simp⟩
  | cons e rest ih =>
      obtain ⟨here, later⟩ := List.forall_mem_cons.mp counts
      have tested : ((f.kind.rule? e.name).getD { name := e.name }).byConversion = false := by
        rw [isArray]
        exact here.spec_tested
      obtain ⟨a, s, replied, answer⟩ :=
        reply_counts (h := h) here isArray ((f.kind.rule? e.name).getD { name := e.name }) xs r
      rw [applyRules]
      simp only [tested, Bool.false_and, Bool.false_eq_true, if_false, Eval.exec_bind, replied, Eval.andThen_ok]
      rcases answer with ⟨passes, rfl⟩ | ⟨fails, q, qs, rfl⟩
      · obtain ⟨es, r', ran, clean⟩ := ih later errors s
        exact ⟨es, r', ran, by simp [clean, passes]⟩
      · simp only
        by_cases warns : e.warn.truthy
        · rw [if_pos warns, Eval.exec_bind, Eval.exec_warnAll, Eval.andThen_ok]
          obtain ⟨es, r', ran, clean⟩ := ih later errors _
          exact ⟨es, r', ran, by simp [clean, warns]⟩
        · rw [if_neg warns]
          by_cases early : f.prefs.abortEarly
          · rw [if_pos early]
            exact ⟨_, s, rfl, by simp [warns, fails]⟩
          · rw [if_neg early]
            obtain ⟨es, r', ran, clean⟩ := ih later (errors ++ ((q :: qs).map (ReportOf.withMessage e.message)).map
              Issue.report) s
            exact ⟨es, r', ran, by simp [clean, warns, fails]⟩

end Node

/-! ## Arrays -/

theorem Datum.Like.of_list {xs : List Value} {w : Value} (like : Like k (.list xs) w) :
    ∃ ys, w = .list ys ∧ LikeEach k xs ys := by
  cases like.likeness with
  | same => exact ⟨xs, rfl, rfl⟩
  | list each => exact ⟨_, rfl, each⟩

theorem RuleEntry.passesItems_like {e : RuleEntry} {xs ys : List Value} (each : LikeEach k xs ys) :
    e.passesItems ys ↔ e.passesItems xs := by
  rw [passesItems, passesItems, each.length_eq, Reply.reports?_eq (Datum.Like.list each)]

namespace Items

theorem resultAt_replicate (s : Schema) (m : Nat) : resultAt h (List.replicate (m + 1) s) k f = resultAt h [s] k f := by
  funext i v
  rw [resultAt, resultAt, Schema.firstAccepts?, Schema.firstAccepts?, List.findSome?_replicate,
    List.findSome?_singleton]
  rfl

theorem settle_taken (early : Bool) (ss : List Schema) (xs : List Value) :
    (settle early [] (xs.mapIdx fun i v => (v, resultAt h ss k f i v))).2 ↔ ∀ (i : Nat) v, xs[i]? = some v →
      ∃ s ∈ ss, (s.accepts? h k (f.site.path ++ [.int i]) f.prefs v).isSome := by
  have each : ∀ i v, (resultAt h ss k f i v).isSome ↔
      ∃ s ∈ ss, (s.accepts? h k (f.site.path ++ [.int ↑i]) f.prefs v).isSome := fun i v => List.findSome?_isSome_iff
  rw [settle_accepts]
  constructor
  · intro accepted i v found
    refine (each i v).mp (accepted (v, resultAt h ss k f i v) (List.mem_mapIdx.mpr ?_))
    obtain ⟨bound, rfl⟩ := List.getElem?_eq_some_iff.mp found
    exact ⟨i, bound, rfl⟩
  · rintro taken _ member
    obtain ⟨i, bound, rfl⟩ := List.mem_mapIdx.mp member
    exact (each i _).mpr (taken i _ (List.getElem?_eq_getElem bound))

/-- The items of an accepted array, with those that became absent dropped. -/
theorem settle_results {early : Bool} {ss : List Schema} {xs : List Value}
    (accepted : (settle early [] (xs.mapIdx fun i v => (v, resultAt h ss k f i v))).2) :
    (settle early [] (xs.mapIdx fun i v => (v, resultAt h ss k f i v))).1 =
      compact (xs.mapIdx (resultAt h ss k f)) := by
  rw [settle_accepted early [] ((settle_accepts early [] _).mp accepted), map_snd_results]
  rfl

end Items

/-- An array accepts a list exactly if some item schema accepts each item on its own, and makes of it the list of what
the first of them makes of each item, without what is absent. One item schema does the same as several copies of it. The
rules on the number of items see the list without what is absent.

The literals of the item schemas are older than the run: none is a copy that the run is yet to make. -/
theorem array_itemwise (h : Hooks) (core : Core) (empty : Option Schema) {ss : List Schema} (nonempty : ss ≠ [])
    (f : Frame) (isArray : f.kind = .array) (xs : List Value) (r : Run)
    (contained : ∀ s ∈ ss, s.SelfContained r.copies) (returns : Items.AllReturn h ss r.copies f xs) :
    let node := fun ss => (Schema.node core empty (.array ss)).toNode h
    let results := Items.compact (xs.mapIdx (Items.resultAt h ss r.copies f))
    let taken := ∀ (i : Nat) v, xs[i]? = some v →
      ∃ s ∈ ss, (s.accepts? h r.copies (f.site.path ++ [.int i]) f.prefs v).isSome
    (∃ o, (((node ss).base f (.list xs)).exec r).1 = .ok (some o) ∧ (o.errors = [] ↔ taken) ∧
      (o.errors = [] → Like r.copies (.list results) o.value)) ∧
    (∀ s m, ss = List.replicate (m + 1) s → ∃ o o', (((node [s]).base f (.list xs)).exec r).1 = .ok (some o) ∧
      (((node ss).base f (.list xs)).exec r).1 = .ok (some o') ∧ (o.errors = [] ↔ o'.errors = []) ∧
      Like r.copies o.value o'.value) ∧
    ((∀ e ∈ core.rules, e.Counts) → ∃ w es, ((Node.checkBase h (node ss) f (.list xs) []).exec r).1 = .ok (w, es) ∧
      (es = [] ↔ taken ∧ ∀ e ∈ core.rules, e.warn.truthy ∨ e.passesItems results) ∧
      (es = [] → Like r.copies (.list results) w)) := by
  intro node results taken
  have settles := fun (f : Frame) (returns : Items.AllReturn h ss r.copies f xs) =>
    Items.base_settles nonempty contained returns r (Nat.le_refl _)
  refine ⟨?_, ?_, ?_⟩
  · obtain ⟨o, r', ran, -, like, clean⟩ := settles f returns
    rw [Items.settle_taken] at clean
    refine ⟨o, congrArg Prod.fst ran, clean, fun none => ?_⟩
    rwa [Items.settle_results ((Items.settle_taken ..).mpr (clean.mp none))] at like
  · rintro s m rfl
    obtain ⟨o', r', ran', -, like', clean'⟩ := settles f returns
    have contained' : ∀ t ∈ [s], t.SelfContained r.copies := fun t member => contained t (by simpa using member)
    have returns' : Items.AllReturn h [s] r.copies f xs := fun i v found reached =>
      ⟨(returns i v found (Items.resultAt_replicate s m ▸ reached)).1, fun _ => trivial⟩
    obtain ⟨o, r'', ran, -, like, clean⟩ :=
      Items.base_settles (List.cons_ne_nil _ _) contained' returns' r (Nat.le_refl _)
    rw [Items.resultAt_replicate] at like' clean'
    exact ⟨o, o', congrArg Prod.fst ran, congrArg Prod.fst ran', clean.trans clean'.symm, like.symm.trans like'⟩
  · intro counts
    obtain ⟨⟨w, errors⟩, r', ran, -, like, clean⟩ := settles { f with current := .list xs } returns
    rw [Items.settle_taken] at clean
    have checked : (node ss).base { f with current := .list xs } (.list xs) = Items.base (Schema.evalEach h ss)
      { f with current := .list xs } (.list xs) := rfl
    rw [Node.checkBase, Eval.exec_bind, checked, ran, Eval.andThen_ok]
    cases errors with
    | nil =>
        rw [Items.settle_results ((Items.settle_taken ..).mpr (clean.mp rfl))] at like
        obtain ⟨ys, rfl, each⟩ := like.of_list
        obtain ⟨es, s, ruled, passed⟩ := Node.applyRules_counts (h := h) counts isArray ys [] r'
        refine ⟨.list ys, es, congrArg Prod.fst ruled, ?_, fun _ => like⟩
        simp only [passed, RuleEntry.passesItems_like each, true_and]
        exact (and_iff_right (clean.mp rfl)).symm
    | cons i is =>
        refine ⟨w, i :: is, rfl, ?_, nofun⟩
        simp only [List.cons_ne_nil, false_iff] at clean ⊢
        exact fun both => clean both.1

/-- Numbers are kept and texts are left out. -/
def numbersKept : List Schema := [.node {} none .number, .node { result := some .strip } none .string]

def atMostTwo : Core := { rules := [{ name := .max, args := [("limit", .int 2)] }] }

def arrayFrame : Frame := ⟨.array, none, {}, {}, .undefined, .undefined⟩

theorem numbersKept_itemwise :
    ∃ w, ((Node.checkBase .idle ((Schema.node atMostTwo none (.array numbersKept)).toNode .idle) arrayFrame
      (.list [.int 3, .str "x", .int 4]) []).exec {}).1 = .ok (w, []) ∧ Like 0 (.list [.int 3, .int 4]) w := by
  have contained : ∀ s ∈ numbersKept, s.SelfContained 0 := by
    rintro s member
    rcases List.mem_pair.mp member with rfl | rfl <;> exact ⟨rfl, rfl, rfl⟩
  have returns : Items.AllReturn .idle numbersKept 0 arrayFrame [.int 3, .str "x", .int 4] := by
    rintro (_ | _ | _ | i) v found - <;> cases found
    all_goals exact ⟨fun n _ => ⟨_, rfl⟩, fun _ => ⟨fun n _ => ⟨_, rfl⟩, fun _ => trivial⟩⟩
  obtain ⟨-, -, ruled⟩ := array_itemwise .idle atMostTwo none (List.cons_ne_nil _ _) arrayFrame rfl
    [.int 3, .str "x", .int 4] {} contained returns
  obtain ⟨w, es, ran, clean, like⟩ := ruled fun e member => by
    rw [List.mem_singleton.mp member]
    exact ⟨rfl, .inr ⟨.inr (.inl rfl), 2, rfl⟩⟩
  have accepted : es = [] := by
    refine clean.mpr ⟨?_, fun e member => .inr ?_⟩
    · rintro (_ | _ | _ | i) v found <;> cases found
      · exact ⟨_, .head _, rfl⟩
      · exact ⟨_, .tail _ (.head _), rfl⟩
      · exact ⟨_, .head _, rfl⟩
    · rw [List.mem_singleton.mp member]
      exact ⟨Int.le_refl 2, rfl⟩
  subst accepted
  exact ⟨w, ran, like rfl⟩

end Conform
