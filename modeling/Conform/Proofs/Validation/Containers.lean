import Mathlib.Data.List.Forall2
import Conform.Proofs.Validation.Evaluators
import Conform.Validation.Container

/-!
# Containers on two sides

The base checks of arrays, objects and alternatives run alike where the evaluators of their children do,
each at the path of its child.
-/

namespace Conform

variable {B : Bounds} {ε : Effects} {h : Hooks} {f f' : Frame}

namespace Bounds

/-- What a base check gives without an outcome of its own. -/
def OutcomeOf (B : Bounds) (fit : Value → Prop) (o : Outcome) : Prop :=
  B.value o.value ∧ B.Issues o.errors ∧ (o.errors = [] → fit o.value)

theorem OutcomeOf.base {fit : Value → Prop} {v : Value} {o : Outcome} (bounded : B.OutcomeOf fit o) :
    B.BaseIn fit v (some o) := by
  obtain ⟨w, errors⟩ := o
  cases errors with
  | nil => exact ⟨bounded.1, bounded.2.2 rfl⟩
  | cons e es => exact ⟨bounded.1, bounded.2.1⟩

theorem failed_in (frames : B.Frames f f') (laws : B.Lawful) (fit : Value → Prop) {v : Value}
    (value : B.value v) (code : String) : B.OutcomeOf fit (.failed v [f.fail code []]) :=
  ⟨value, issues_singleton (frames.reported laws f.site code f.current [] nofun), nofun⟩

end Bounds

namespace Items

/-- Item schemas that run alike on every item of the array at a path. -/
def In (B : Bounds) (ε : Effects) (path : Path) (p : Preferences) (es es' : List Evaluator) : Prop :=
  List.Forall₂ (fun e e' => ∀ i : Nat, B.EvaluatorsAt ε (path ++ [.int i]) p e e') es es'

def isList : Value → Prop
  | .list _ => True
  | _ => False

theorem firstAccepted_alike (prefs : B.Prefs f.prefs f'.prefs) {s s' : Site} (sites : B.Sites s s')
    {es es' : List Evaluator}
    (alike : List.Forall₂ (B.EvaluatorsAt ε s.path f.prefs.plain) es es') {v : Value} (value : B.value v) :
    Alike B ε (fun o => ∀ r, o = some r → B.ResultIn r) (firstAccepted v s f.prefs es)
      (firstAccepted v s' f'.prefs es') := by
  induction alike with
  | nil => exact Alike.pure nofun
  | cons head _ ih =>
      rw [firstAccepted, firstAccepted]
      refine (head v s s' _ _ value sites prefs rfl rfl).bind fun r bounded => ?_
      split
      · exact Alike.pure fun q same => Option.some.inj same ▸ bounded
      · exact ih

theorem checkItem_alike (frames : B.Frames f f') (laws : B.Lawful) {s s' : Site} (sites : B.Sites s s')
    {es es' : List Evaluator}
    (alike : List.Forall₂ (B.EvaluatorsAt ε s.path f.prefs.plain) es es') (index : Nat) {v : Value}
    (value : B.value v) :
    Alike B ε B.ResultIn (checkItem es f s index v) (checkItem es' f' s' index v) := by
  unfold checkItem
  split
  · cases alike with
    | cons head rest =>
        cases rest
        exact head v s s' _ _ value sites frames.prefs rfl rfl
  · split
    · rename_i several _ _
      cases alike with
      | cons head rest =>
          cases rest
          exact absurd rfl (several _)
    · refine (firstAccepted_alike frames.prefs sites alike value).bind fun o found => ?_
      cases o with
      | some r => exact Alike.pure (found r rfl)
      | none =>
          simp only [frames.reportAt_eq sites.path]
          exact Alike.pure ⟨value, Bounds.issues_singleton
            (frames.reported laws s "array.includes" v _ (by simp [Datum.isText]))⟩

theorem checkFrom_alike (frames : B.Frames f f') (laws : B.Lawful) {es es' : List Evaluator}
    (alike : In B ε f.site.path f.prefs.plain es es') {done xs : List Value} {errors : List Issue}
    (before : ∀ v ∈ done, B.value v) (after : ∀ v ∈ xs, B.value v) (issues : B.Issues errors) :
    Alike B ε (B.OutcomeOf isList) (checkFrom es f done xs errors) (checkFrom es' f' done xs errors) := by
  obtain ⟨c, prefs⟩ := frames.prefs.context
  induction xs generalizing done errors with
  | nil =>
      refine Alike.pure ⟨(laws.list _).mpr fun v member => before v (List.mem_filter.mp member).1, issues, fun _ => trivial⟩
  | cons v rest ih =>
      have whole : B.value (.list (done ++ v :: rest)) := by
        refine (laws.list _).mpr fun w member => ?_
        rcases List.mem_append.mp member with left | right
        · exact before w left
        · exact after w right
      have value := after v (by simp)
      have others : ∀ w ∈ rest, B.value w := fun w member => after w (by simp [member])
      have grown : ∀ w, B.value w → ∀ u ∈ done ++ [w], B.value u := by
        intro w isIn u member
        rcases List.mem_append.mp member with left | last
        · exact before u left
        · rwa [List.mem_singleton.mp last]
      have sites := frames.site.child whole (laws.index done.length)
      rw [checkFrom, checkFrom]
      refine (checkItem_alike frames laws sites (alike.imp fun e e' every => every done.length)
        done.length value).bind fun r bounded => ?_
      rw [prefs]
      simp only
      split
      · exact ih (grown r.value bounded.value) others issues
      · split
        · rename_i fails _
          exact Alike.pure ⟨whole, bounded.errors, fun none => (fails (List.isEmpty_iff.mpr none)).elim⟩
        · exact ih (grown v value) others (issues.append bounded.errors)

theorem base_alike (frames : B.Frames f f') (laws : B.Lawful) {es es' : List Evaluator}
    (alike : In B ε f.site.path f.prefs.plain es es') {v : Value} (value : B.value v) :
    Alike B ε (B.BaseIn isList v) (base es f v) (base es' f' v) := by
  have sameEmpty : es'.isEmpty = es.isEmpty := by cases alike <;> rfl
  unfold base
  rw [sameEmpty]
  split
  · rename_i xs
    split
    · exact Alike.pure trivial
    · exact (checkFrom_alike frames laws alike (List.forall_mem_nil _) ((laws.list xs).mp value)
        Bounds.issues_nil).bind fun o bounded =>
        Alike.pure bounded.base
  · rw [frames.fail_eq]
    exact Alike.pure (Bounds.failed_in frames laws isList value "array.base").base

end Items

namespace Keys

/-- A declared key on both sides, checked by evaluators that run alike at its path. -/
structure CheckIn (B : Bounds) (ε : Effects) (path : Path) (p : Preferences) (c c' : KeyCheck) : Prop where
  key : c'.key = c.key
  strips : c'.strips = c.strips
  eval : B.EvaluatorsAt ε (path ++ [c.key]) p c.eval c'.eval
  segment : B.key c.key
  value : B.value c.key

def In (B : Bounds) (ε : Effects) (path : Path) (p : Preferences) :
    Option (List KeyCheck) → Option (List KeyCheck) → Prop
  | none, none => True
  | some cs, some cs' => List.Forall₂ (CheckIn B ε path p) cs cs'
  | _, _ => False

def isDict : Value → Prop
  | .dict _ => True
  | _ => False

def EntriesIn (B : Bounds) (es : Dict) : Prop := ∀ e ∈ es, B.value e.1 ∧ B.value e.2

theorem EntriesIn.insert {es : Dict} (entries : EntriesIn B es) {k v : Value} (key : B.value k)
    (value : B.value v) : EntriesIn B (Datum.insert k v es) := by
  intro e member
  rcases Datum.mem_insert member with old | ⟨isNew, isKey | ⟨w, old⟩⟩
  · exact entries e old
  · rw [isNew, isKey]
    exact ⟨key, value⟩
  · rw [isNew]
    exact ⟨(entries _ old).1, value⟩

theorem EntriesIn.settle {es : Dict} (entries : EntriesIn B es) {c : KeyCheck} (key : B.value c.key)
    (item : Value) {result : Value} (value : B.value result) :
    EntriesIn B (settle c item result es) := by
  unfold Keys.settle
  split
  · exact fun e member => entries e (Datum.mem_erase member)
  · split
    · exact entries
    · exact entries.insert key value

theorem EntriesIn.find {es : Dict} (entries : EntriesIn B es) (laws : B.Lawful) (k : Value) :
    B.value ((Datum.find? k es).getD .undefined) := by
  cases found : Datum.find? k es with
  | none => exact laws.undefined
  | some v =>
      obtain ⟨j, member⟩ := Datum.find?_mem found
      exact (entries _ member).2

section

variable {c : KeyCheck} {es : Dict} {item result : Value}

theorem settle_keys {j : Value} (member : j ∈ (settle c item result es).map Prod.fst) :
    j = c.key ∨ j ∈ es.map Prod.fst := by
  obtain ⟨e, isIn, rfl⟩ := List.mem_map.mp member
  unfold settle at isIn
  split at isIn
  · exact .inr (List.mem_map_of_mem (Datum.mem_erase isIn))
  · split at isIn
    · exact .inr (List.mem_map_of_mem isIn)
    · rcases Datum.mem_insert isIn with old | ⟨-, isKey | ⟨w, old⟩⟩
      · exact .inr (List.mem_map_of_mem old)
      · exact .inl isKey
      · exact .inr (List.mem_map.mpr ⟨_, old, rfl⟩)

theorem find?_settle_apart {l : Value} (parted : Datum.Parted (es.map Prod.fst) c.key l)
    (fresh : Datum.find? c.key es = none → result.isUndefined = false → Datum.sameKey c.key l = false) :
    Datum.find? l (settle c item result es) = Datum.find? l es := by
  unfold settle
  split
  · exact Datum.find?_erase_apart parted
  · split
    · rfl
    · rename_i present
      exact Datum.find?_insert_apart parted (fun missing => fresh missing (by simpa using present)) _

/-- What is found under a key after its child has accepted the value there. -/
theorem find?_settle_self (named : Datum.find? c.key es = none → result.isUndefined = false → Datum.sameKey c.key c.key)
    (given : item = (Datum.find? c.key es).getD .undefined) :
    (Datum.find? c.key (settle c item result es)).getD .undefined = if c.strips then .undefined else result := by
  have absent : ∀ v : Value, v.isUndefined → v = .undefined := by
    intro v isAbsent
    cases v with
    | undefined => rfl
    | _ => cases isAbsent
  cases strips : c.strips with
  | true =>
      have erased : settle c item result es = Datum.erase c.key es := by simp [settle, strips]
      rw [erased, Datum.find?_erase_self]
      rfl
  | false =>
      cases undefined : result.isUndefined with
      | false =>
          have inserted : settle c item result es = Datum.insert c.key result es := by simp [settle, strips, undefined]
          rw [inserted, Datum.find?_insert_self fun missing => named missing undefined]
          rfl
      | true =>
          obtain rfl := absent _ undefined
          cases before : item.isUndefined with
          | false =>
              have erased : settle c item .undefined es = Datum.erase c.key es := by
                simp [settle, strips, undefined, before]
              rw [erased, Datum.find?_erase_self]
              rfl
          | true =>
              have unchanged : settle c item .undefined es = es := by simp [settle, strips, undefined, before]
              rw [unchanged, ← given, absent _ before]
              rfl

end

theorem checkDeclared_alike (frames : B.Frames f f') (laws : B.Lawful) {cs cs' : List KeyCheck}
    (alike : List.Forall₂ (CheckIn B ε f.site.path f.prefs.plain) cs cs') {es : Dict}
    {errors : List Issue} (entries : EntriesIn B es) (issues : B.Issues errors) :
    Alike B ε (fun o => EntriesIn B o.1 ∧ B.Issues o.2.1) (checkDeclared f cs es errors)
      (checkDeclared f' cs' es errors) := by
  obtain ⟨d, prefs⟩ := frames.prefs.context
  induction alike generalizing es errors with
  | nil => exact Alike.pure ⟨entries, issues⟩
  | @cons c c' cs cs' head _ ih =>
      have sites := frames.site.child ((laws.dict es).mpr entries) head.segment
      rw [checkDeclared, checkDeclared, head.key]
      refine (head.eval _ _ _ _ _ (entries.find laws c.key) sites frames.prefs rfl rfl).bind fun r bounded => ?_
      rw [prefs, settle, settle, head.key, head.strips]
      simp only
      split
      · exact ih (entries.settle head.value _ bounded.value) issues
      · split
        · exact Alike.pure ⟨entries, bounded.errors⟩
        · exact ih entries (issues.append bounded.errors)

theorem isKnown_eq {path : Path} {p : Preferences} {cs cs' : List KeyCheck}
    (alike : List.Forall₂ (CheckIn B ε path p) cs cs') (k : Value) : isKnown cs' k = isKnown cs k := by
  unfold isKnown
  induction alike with
  | nil => rfl
  | cons head _ ih => simp only [List.any_cons, head.key, ih]

theorem strangerReport_eq (frames : B.Frames f f') (es : Dict) (e : Value × Value) :
    strangerReport f' es e = strangerReport f es e := by
  have path : (f'.site.child (.dict es) e.1).path = (f.site.child (.dict es) e.1).path := by
    rw [Site.child, Site.child, frames.site.path]
  rw [strangerReport, strangerReport, frames.reportAt_eq path]

theorem checkStrangers_admits (unknown : Option Value) (cs : List KeyCheck) (fs : Dict) (errors : List Issue) :
    checkStrangers unknown cs f fs errors =
      if f.prefs.stripUnknown && !(unknown.map Datum.truthy).getD false then
        ⟨.dict (fs.filter fun e => isKnown cs e.1), errors⟩
      else if (unknown.map Datum.truthy).getD f.prefs.allowUnknown then ⟨.dict fs, errors⟩
      else match f.prefs.abortEarly, (fs.filter fun e => !isKnown cs e.1).map (strangerReport f fs) with
        | true, r :: _ => ⟨.dict fs, [r]⟩
        | _, rs => ⟨.dict fs, errors ++ rs⟩ := by
  cases unknown <;> rfl

theorem checkStrangers_eq (frames : B.Frames f f') {path : Path} {p : Preferences}
    {cs cs' : List KeyCheck} (alike : List.Forall₂ (CheckIn B ε path p) cs cs') (unknown : Option Value)
    (es : Dict) (errors : List Issue) :
    checkStrangers unknown cs' f' es errors = checkStrangers unknown cs f es errors := by
  obtain ⟨d, prefs⟩ := frames.prefs.context
  unfold checkStrangers
  rw [prefs]
  simp only [isKnown_eq alike, funext (strangerReport_eq frames es)]

theorem checkStrangers_in (frames : B.Frames f f') (laws : B.Lawful) (unknown : Option Value)
    (cs : List KeyCheck) {es : Dict} {errors : List Issue} (entries : EntriesIn B es)
    (issues : B.Issues errors) : B.OutcomeOf isDict (checkStrangers unknown cs f es errors) := by
  have reported : ∀ strangers : Dict, B.Issues (strangers.map (strangerReport f es)) := by
    intro strangers i member
    obtain ⟨e, -, rfl⟩ := List.mem_map.mp member
    exact frames.reported laws _ "object.unknown" e.2 _ (by simp [Datum.isText])
  have whole : B.value (.dict es) := (laws.dict es).mpr entries
  have all := reported (es.filter fun e => !isKnown cs e.1)
  unfold checkStrangers
  rcases unknown with _ | u
  all_goals
    simp only
    split
    · exact ⟨(laws.dict _).mpr fun e member => entries e (List.mem_filter.mp member).1, issues, fun _ => trivial⟩
    · split
      · exact ⟨whole, issues, fun _ => trivial⟩
      · split
        · rename_i first
          rw [first] at all
          exact ⟨whole, Bounds.issues_singleton (all _ (List.mem_cons_self ..)), fun none => absurd none (List.cons_ne_nil _ _)⟩
        · exact ⟨whole, issues.append all, fun _ => trivial⟩

theorem base_alike (frames : B.Frames f f') (laws : B.Lawful) (unknown : Option Value)
    {keys keys' : Option (List KeyCheck)} (alike : In B ε f.site.path f.prefs.plain keys keys') {v : Value}
    (value : B.value v) :
    Alike B ε (B.BaseIn isDict v) (base unknown keys f v) (base unknown keys' f' v) := by
  have refused := (Bounds.failed_in frames laws isDict value "object.base").base (v := v)
  unfold base
  rw [frames.fail_eq]
  cases keys with
  | none =>
      cases keys' with
      | some _ => exact alike.elim
      | none => cases v <;> first | exact Alike.pure trivial | exact Alike.pure refused
  | some cs =>
      cases keys' with
      | none => exact alike.elim
      | some cs' =>
          cases v with
          | dict es =>
              refine (checkDeclared_alike frames laws alike ((laws.dict es).mp value)
                Bounds.issues_nil).bind fun o checked => ?_
              obtain ⟨left, errors, aborted⟩ := o
              simp only [checkStrangers_eq frames alike]
              split
              · exact Alike.pure (Bounds.OutcomeOf.base
                  ⟨(laws.dict left).mpr checked.1, checked.2, fun _ => trivial⟩)
              · exact Alike.pure (checkStrangers_in frames laws unknown cs checked.1 checked.2).base
          | _ => exact Alike.pure refused

end Keys

end Conform
