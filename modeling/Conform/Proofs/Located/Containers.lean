import Conform.Proofs.Located.Nodes
import Conform.Proofs.Validation.Containers

/-!
# Containers that report at the places of their parts

An array hands each item on as it was given, and so does an object the values under its keys, as the children checked
before are declared under other keys. What is reported from there locates a place of the part, and hence of the container.
-/

namespace Conform

open Datum

variable {quiet : Prop}

/-- An evaluator reports at places of the value that it is given. -/
def Evaluator.Locates (quiet : Prop) (e : Evaluator) : Prop :=
  ∀ (v : Value) (s : Site) (p : Preferences), v.isReportFree → v.isProper → Bounds.reportFree.SiteIn s →
    Bounds.reportFree.prefs p →
    Brings (ReportOf.Noted (LocatesFrom s.path v) quiet) (Node.ResultLocated (LocatesFrom s.path v)) (e v s p)

theorem Evaluator.Locates.within {e : Evaluator} (locates : e.Locates quiet) {v : Value} {s : Site} {p : Preferences}
    (free : v.isReportFree) (proper : v.isProper) (site : Bounds.reportFree.SiteIn s) (prefs : Bounds.reportFree.prefs p)
    {P : Path → Prop} (wider : ∀ x, LocatesFrom s.path v x → P x) :
    Brings (ReportOf.Noted P quiet) (Node.ResultLocated P) (e v s p) :=
  ((locates v s p free proper site prefs).widen fun _ noted => noted.mono wider).mono fun _ located =>
    ⟨located.1, fun i member => (located.2 i member).mono wider⟩

variable {f : Frame} (frames : Bounds.reportFree.Frames f f)

include frames

/-! ## Arrays -/

namespace Items

variable {es : List Evaluator} (each : ∀ e ∈ es, e.Locates quiet)

include each

omit frames in
theorem firstAccepted_located {v : Value} {s : Site} {p : Preferences} (free : v.isReportFree) (proper : v.isProper)
    (site : Bounds.reportFree.SiteIn s) (prefs : Bounds.reportFree.prefs p) {P : Path → Prop}
    (wider : ∀ x, LocatesFrom s.path v x → P x) :
    Brings (ReportOf.Noted P quiet) (fun o => ∀ r, o = some r → Node.ResultLocated P r) (firstAccepted v s p es) := by
  induction es with
  | nil => exact .pure fun r found => by cases found
  | cons e es ih =>
      obtain ⟨here, rest⟩ := List.forall_mem_cons.mp each
      rw [firstAccepted]
      refine (here.within free proper site prefs wider).bind fun r located => ?_
      split
      · exact .pure fun q found => Option.some.inj found ▸ located
      · exact ih rest

theorem checkItem_located {xs : List Value} {whole v : Value} {i : Nat} (container : whole.isReportFree)
    (found : xs[i]? = some v) (free : v.isReportFree) (proper : v.isProper) :
    Brings (ReportOf.Noted (LocatesFrom f.site.path (.list xs)) quiet)
      (Node.ResultLocated (LocatesFrom f.site.path (.list xs)))
      (checkItem es f (f.site.child whole (.int i)) i v) := by
  have site : Bounds.reportFree.SiteIn (f.site.child whole (.int i)) := (frames.site.child container trivial).left
  have wider : ∀ x, LocatesFrom (f.site.child whole (.int i)).path v x → LocatesFrom f.site.path (.list xs) x :=
    fun _ => LocatesFrom.item found
  rcases es with _ | ⟨e, _ | ⟨e', es⟩⟩
  · exact .pure ⟨free, Issue.located_single (f.reportAt_single (wider _ .here) (by decide) v _)⟩
  · exact (each e (List.mem_singleton_self e)).within free proper site frames.prefs.left wider
  · refine (firstAccepted_located each free proper site frames.prefs.left wider).bind fun o located => ?_
    cases o with
    | some r => exact .pure (located r rfl)
    | none => exact .pure ⟨free, Issue.located_single (f.reportAt_single (wider _ .here) (by decide) v _)⟩

theorem checkFrom_located {xs before rest done : List Value} {errors : List Issue} (split_ : xs = before ++ rest)
    (length : done.length = before.length) (free : ∀ v ∈ done ++ rest, v.isReportFree) (proper : ∀ v ∈ rest, v.isProper)
    (located : ∀ i ∈ errors, i.Located (LocatesFrom f.site.path (.list xs))) :
    Brings (ReportOf.Noted (LocatesFrom f.site.path (.list xs)) quiet)
      (fun o => Node.StateLocated (LocatesFrom f.site.path (.list xs)) (o.value, o.errors))
      (checkFrom es f done rest errors) := by
  -- What is done stands for as many items as went before it, so the next item is at its own index, whatever became of those.
  induction rest generalizing before done errors with
  | nil =>
      refine .pure ⟨isReportFree_list.mpr fun v member => ?_, located⟩
      exact free v (by simpa using (List.mem_filter.mp member).1)
  | cons v rest ih =>
      have found : xs[done.length]? = some v := by simp [split_, length]
      have here : v.isReportFree := free v (by simp)
      have whole : (list (done ++ v :: rest)).isReportFree := isReportFree_list.mpr free
      obtain ⟨properHere, properRest⟩ := List.forall_mem_cons.mp proper
      have later : ∀ {w : Value} {errors : List Issue}, w.isReportFree →
          (∀ i ∈ errors, i.Located (LocatesFrom f.site.path (.list xs))) →
          Brings (ReportOf.Noted (LocatesFrom f.site.path (.list xs)) quiet)
            (fun o => Node.StateLocated (LocatesFrom f.site.path (.list xs)) (o.value, o.errors))
            (checkFrom es f (done ++ [w]) rest errors) := by
        intro w errors isFree located
        have splitRest : xs = (before ++ [v]) ++ rest := by simp [split_]
        have freeRest : ∀ u ∈ (done ++ [w]) ++ rest, u.isReportFree := by
          intro u member
          simp only [List.append_assoc, List.singleton_append, List.mem_append, List.mem_cons] at member
          rcases member with old | rfl | new
          · exact free u (by simp [old])
          · exact isFree
          · exact free u (by simp [new])
        exact ih splitRest (by simp [length]) freeRest properRest located
      rw [checkFrom]
      refine (checkItem_located frames each whole found here properHere).bind fun r result => ?_
      split
      · exact later result.1 located
      · split
        · exact .pure ⟨whole, result.2⟩
        · exact later here (List.forall_mem_append.mpr ⟨located, result.2⟩)

theorem base_located {w : Value} (free : w.isReportFree) (proper : w.isProper) :
    Brings (ReportOf.Noted (LocatesFrom f.site.path w) quiet) (Node.OutcomeLocated (LocatesFrom f.site.path w))
      (base es f w) := by
  have failed : ∀ {w : Value}, w.isReportFree →
      Node.OutcomeLocated (LocatesFrom f.site.path w) (some (.failed w [f.fail "array.base" []])) := by
    intro w free o same
    obtain rfl := Option.some.inj same
    exact ⟨free, Issue.located_single (f.fail_single .here (by decide) [])⟩
  unfold base
  cases w with
  | list xs =>
      simp only
      split
      · exact .pure fun o same => by cases same
      · have whole : xs = [] ++ xs := rfl
        refine (checkFrom_located frames each whole rfl (isReportFree_list.mp free) (isProper_list.mp proper)
          (List.forall_mem_nil _)).bind fun o located => .pure fun u same => ?_
        exact Option.some.inj same ▸ located
  | _ => exact .pure (failed free)

end Items

/-! ## Objects -/

namespace Keys

/-- A declared key that is told from others and whose child reports at places of its value. -/
structure CheckLocates (quiet : Prop) (c : KeyCheck) : Prop where
  hashable : c.key.isHashable
  proper : c.key.isProper
  free : c.key.isReportFree
  eval : c.eval.Locates quiet

/-- Entries of a working copy: under the keys that are to come they have what was given. -/
structure Copy (given : Dict) (cs : List KeyCheck) (es : Dict) : Prop where
  free : ∀ e ∈ es, e.1.isReportFree ∧ e.2.isReportFree
  keys : ∀ k ∈ es.map Prod.fst, k.isProper
  same : ∀ c ∈ cs, find? c.key es = find? c.key given

omit frames in
theorem Copy.settle {given es : Dict} {c : KeyCheck} {cs : List KeyCheck} (copy : Copy given (c :: cs) es)
    (check : CheckLocates quiet c) (apart : ∀ d ∈ cs, sameKey c.key d.key = false) {item result : Value}
    (free : result.isReportFree) : Copy given cs (Keys.settle c item result es) where
  free := by
    have entries : EntriesIn Bounds.reportFree es := copy.free
    exact entries.settle check.free item free
  keys k member := by
    rcases settle_keys member with rfl | old
    · exact check.proper
    · exact copy.keys k old
  same d member := by
    have different := apart d member
    rw [find?_settle_apart (proper_parted copy.keys different) fun _ _ => different]
    exact copy.same d (List.mem_cons_of_mem c member)

theorem checkDeclared_located {cs : List KeyCheck} (each : ∀ c ∈ cs, CheckLocates quiet c)
    (apart : cs.Pairwise fun c d => sameKey c.key d.key = false) {given es : Dict} (copy : Copy given cs es)
    (proper : ∀ e ∈ given, e.1.isProper ∧ e.2.isProper) {errors : List Issue}
    (located : ∀ i ∈ errors, i.Located (LocatesFrom f.site.path (.dict given))) :
    Brings (ReportOf.Noted (LocatesFrom f.site.path (.dict given)) quiet)
      (fun o => (∀ e ∈ o.1, e.1.isReportFree ∧ e.2.isReportFree) ∧
        ∀ i ∈ o.2.1, i.Located (LocatesFrom f.site.path (.dict given)))
      (checkDeclared f cs es errors) := by
  -- The working copy keeps what was given under the keys that are to come, which no key checked before is.
  induction cs generalizing es errors with
  | nil => exact .pure ⟨copy.free, located⟩
  | cons c cs ih =>
      obtain ⟨here, rest⟩ := List.forall_mem_cons.mp each
      obtain ⟨others, apartRest⟩ := List.pairwise_cons.mp apart
      have item := copy.same c (List.mem_cons_self ..)
      have whole : (dict es).isReportFree := isReportFree_dict.mpr copy.free
      have child := here.eval.within (v := (find? c.key es).getD .undefined) (s := f.site.child (.dict es) c.key)
        (P := LocatesFrom f.site.path (.dict given)) (isReportFree_find? copy.free c.key)
        (item ▸ find?_proper proper c.key) (frames.site.child whole trivial).left frames.prefs.left
        fun x below => .key here.hashable (item ▸ below)
      rw [checkDeclared]
      refine child.bind fun r result => ?_
      split
      · exact ih rest apartRest (copy.settle here others result.1) located
      · split
        · exact .pure ⟨copy.free, result.2⟩
        · have kept : Copy given cs es :=
            ⟨copy.free, copy.keys, fun d member => copy.same d (List.mem_cons_of_mem c member)⟩
          exact ih rest apartRest kept (List.forall_mem_append.mpr ⟨located, result.2⟩)

omit frames in
theorem checkStrangers_located (unknown : Option Value) (cs : List KeyCheck) {given es : Dict}
    (free : ∀ e ∈ es, e.1.isReportFree ∧ e.2.isReportFree) {errors : List Issue}
    (located : ∀ i ∈ errors, i.Located (LocatesFrom f.site.path (.dict given))) :
    Node.StateLocated (LocatesFrom f.site.path (.dict given))
      ((checkStrangers unknown cs f es errors).value, (checkStrangers unknown cs f es errors).errors) := by
  have whole : (dict es).isReportFree := isReportFree_dict.mpr free
  have reports : ∀ i ∈ (es.filter fun e => !isKnown cs e.1).map (strangerReport f es),
      i.Located (LocatesFrom f.site.path (.dict given)) := by
    intro i member
    obtain ⟨e, -, rfl⟩ := List.mem_map.mp member
    have place : LocatesFrom f.site.path (.dict given) (f.site.child (.dict es) e.1).path := .child trivial
    exact (f.reportAt_single place (by decide) e.2 _).located
  rw [checkStrangers_admits]
  split
  · exact ⟨isReportFree_dict.mpr fun e member => free e (List.mem_filter.mp member).1, located⟩
  · split
    · exact ⟨whole, located⟩
    · split
      · rename_i i _ _ first
        exact ⟨whole, List.forall_mem_singleton.mpr (reports i (first ▸ List.mem_cons_self ..))⟩
      · exact ⟨whole, List.forall_mem_append.mpr ⟨located, reports⟩⟩

theorem base_located (unknown : Option Value) {keys : Option (List KeyCheck)}
    (each : ∀ cs, keys = some cs → (∀ c ∈ cs, CheckLocates quiet c) ∧ cs.Pairwise fun c d => sameKey c.key d.key = false)
    {w : Value} (free : w.isReportFree) (proper : w.isProper) :
    Brings (ReportOf.Noted (LocatesFrom f.site.path w) quiet) (Node.OutcomeLocated (LocatesFrom f.site.path w))
      (base unknown keys f w) := by
  have failed : ∀ {w : Value}, w.isReportFree →
      Node.OutcomeLocated (LocatesFrom f.site.path w) (some (.failed w [f.fail "object.base" []])) := by
    intro w free o same
    obtain rfl := Option.some.inj same
    exact ⟨free, Issue.located_single (f.fail_single .here (by decide) [])⟩
  unfold base
  cases w with
  | dict es =>
      cases keys with
      | none => exact .pure fun o same => by cases same
      | some cs =>
          obtain ⟨checks, apart⟩ := each cs rfl
          have entries := isReportFree_dict.mp free
          have properEntries := isProper_dict.mp proper
          have copy : Copy es cs es := ⟨entries, fun k member => by
            obtain ⟨e, inside, rfl⟩ := List.mem_map.mp member
            exact (properEntries e inside).1, fun _ _ => rfl⟩
          refine (checkDeclared_located frames checks apart copy properEntries (List.forall_mem_nil _)).bind
            fun o located => ?_
          obtain ⟨fs, errors, aborted⟩ := o
          simp only
          split
          · exact .pure fun u same => Option.some.inj same ▸ ⟨isReportFree_dict.mpr located.1, located.2⟩
          · exact .pure fun u same => Option.some.inj same ▸ checkStrangers_located unknown cs located.1 located.2
  | _ => exact .pure (failed free)

end Keys

/-! ## Alternatives -/

namespace Alternatives

/-- An entry of alternatives whose schemas report at places of the value. -/
def EntryLocates (quiet : Prop) : AlternativeCheck → Prop
  | .attempt e => e.Locates quiet
  | .conditional subject bs => (∀ r, subject = some r → r.isOrderly) ∧
    ∀ b ∈ bs, b.test.Grows ∧ ∀ e, b.onMatch = some e ∨ b.onMiss = some e → e.Locates quiet

variable {h : Hooks} {v : Value} (free : v.isReportFree) (proper : v.isProper) {es : List AlternativeCheck}
  (each : ∀ e ∈ es, EntryLocates quiet e)

include free proper

omit free proper frames in
theorem choose_located {P : Path → Prop} (f : Frame) (subject : Value) {bs : List BranchCheck}
    (branches : ∀ b ∈ bs, b.test.Grows ∧ ∀ e, b.onMatch = some e ∨ b.onMiss = some e → e.Locates quiet) :
    Brings (ReportOf.Noted P quiet) (fun o => ∀ e, o = some e → e.Locates quiet) (choose f subject bs) := by
  induction bs with
  | nil => exact .pure fun e found => by cases found
  | cons b bs ih =>
      obtain ⟨⟨grows, chosen⟩, rest⟩ := List.forall_mem_cons.mp branches
      have asked : Brings (ReportOf.Noted P quiet) (fun _ => True) (Node.accepts b.test subject f.site f.prefs) :=
        (Brings.withoutTrace (grows _ _ _)).bind fun _ _ => .pure trivial
      rw [choose]
      refine asked.bind fun accepted _ => ?_
      have either : ∀ e, (if accepted then b.onMatch else b.onMiss) = some e → e.Locates quiet := by
        intro e same
        cases accepted with
        | true => exact chosen e (.inl same)
        | false => exact chosen e (.inr same)
      simp only
      split
      · rename_i e same
        exact .pure fun d found => Option.some.inj found ▸ either e same
      · exact ih rest

include each

theorem count_located {acc : Nat × Value} (result : acc.2.isReportFree) :
    Brings (ReportOf.Noted (LocatesFrom f.site.path v) quiet) (fun o => o.2.isReportFree) (count f v es acc) := by
  induction es generalizing acc with
  | nil => exact .pure result
  | cons e es ih =>
      obtain ⟨here, rest⟩ := List.forall_mem_cons.mp each
      cases e with
      | attempt e =>
          rw [count]
          refine (here v f.site f.prefs free proper frames.site.left frames.prefs.left).bind fun r located => ?_
          refine ih rest ?_
          split
          · exact located.1
          · exact result
      | conditional => exact .throw

theorem byMode_located (mode : MatchMode) :
    Brings (ReportOf.Noted (LocatesFrom f.site.path v) quiet)
      (fun o => Node.StateLocated (LocatesFrom f.site.path v) (o.value, o.errors)) (byMode mode es f v) := by
  have failed : ∀ {code : String}, code ≠ "alternatives.match" →
      Node.StateLocated (LocatesFrom f.site.path v)
        ((Outcome.failed v [f.fail code []]).value, (Outcome.failed v [f.fail code []]).errors) :=
    fun single => ⟨free, Issue.located_single (f.fail_single .here single [])⟩
  unfold byMode
  have start : ((0, .undefined) : Nat × Value).2.isReportFree := rfl
  refine (count_located frames free proper each start).bind fun counted result => ?_
  obtain ⟨hits, matched⟩ := counted
  simp only
  split
  · exact .pure (failed (by decide))
  · cases mode with
    | one =>
        refine .pure ?_
        split
        · exact ⟨result, List.forall_mem_nil _⟩
        · exact failed (by decide)
    | all =>
        refine .pure ?_
        split
        · exact ⟨free, List.forall_mem_nil _⟩
        · exact failed (by decide)

theorem first_located {issues : List Issue} (located : ∀ i ∈ issues, i.Located (LocatesFrom f.site.path v)) :
    Brings (ReportOf.Noted (LocatesFrom f.site.path v) quiet)
      (fun o => Node.StateLocated (LocatesFrom f.site.path v) (o.value, o.errors)) (first h f v es issues) := by
  -- On the options that are left; what the rejected ones have told is in the issues, all of them located.
  induction es generalizing issues with
  | nil =>
      exact (Brings.lift fun os ran => consolidate_located .here located ran).bind fun os all => .pure ⟨free, all⟩
  | cons e es ih =>
      obtain ⟨here, rest⟩ := List.forall_mem_cons.mp each
      have child : ∀ {e : Evaluator}, e.Locates quiet → Brings (ReportOf.Noted (LocatesFrom f.site.path v) quiet)
          (Node.ResultLocated (LocatesFrom f.site.path v)) (e v f.site f.prefs) := fun locates =>
        locates v f.site f.prefs free proper frames.site.left frames.prefs.left
      cases e with
      | attempt e =>
          rw [first]
          refine (child here).bind fun r result => ?_
          split
          · exact .pure ⟨result.1, List.forall_mem_nil _⟩
          · exact ih rest (List.forall_mem_append.mpr ⟨located, result.2⟩)
      | conditional subject bs =>
          obtain ⟨orderly, branches⟩ := here
          have asked : Brings (ReportOf.Noted (LocatesFrom f.site.path v) quiet) (fun _ => True) (subjectOf h f v subject) := by
            cases subject with
            | none => exact .pure trivial
            | some r =>
                have found := frames.resolve (h := h) (ε := .capturing) Bounds.reportFree_lawful
                  (Bounds.reportFree_resolves (orderly r rfl)) free
                exact (Brings.ofAlike found).mono fun _ _ => trivial
          rw [first]
          refine asked.bind fun s _ => (choose_located f s branches).bind fun o chosen => ?_
          cases o with
          | none => exact ih rest located
          | some e => exact (child (chosen e rfl)).bind fun r result => .pure result

theorem base_located (mode : Option MatchMode) :
    Brings (ReportOf.Noted (LocatesFrom f.site.path v) quiet) (Node.OutcomeLocated (LocatesFrom f.site.path v))
      (base h mode es f v) := by
  have some_ : ∀ {o : Outcome}, Node.StateLocated (LocatesFrom f.site.path v) (o.value, o.errors) →
      Node.OutcomeLocated (LocatesFrom f.site.path v) (some o) := fun located u same => Option.some.inj same ▸ located
  unfold base
  cases mode with
  | some m => exact (byMode_located frames free proper each m).bind fun o located => .pure (some_ located)
  | none =>
      exact (first_located frames free proper each (List.forall_mem_nil _)).bind fun o located => .pure (some_ located)

end Alternatives

end Conform
