import Conform.Proofs.Early.Nodes

/-!
# Containers that concur

Up to the first child that rejects, two runs build containers that are alike. There a run that aborts early
stops, and the other one goes on with its issues, whatever the remaining children say.
-/

namespace Conform

variable {k : Nat} {flat : Prop} {same : Bool} {h : Hooks} {f f' : Frame} {v w : Value} {es es' : List Issue}

namespace Items

variable {schemas : List Evaluator}

theorem firstAccepted_paired (concurs : ∀ e ∈ schemas, e.Concurs k flat) (like : Datum.Like k v w) {s s' : Site}
    (path : Path.Like k s.path s'.path) {p p' : Preferences} (sooner : Preferences.Sooner same p p') :
    Paired k (Option.Rel fun a b => Datum.Like k a.value b.value ∧ a.errors = [] ∧ b.errors = [])
      (firstAccepted v s p schemas) (firstAccepted w s' p' schemas) := by
  induction schemas with
  | nil => exact .pure .none
  | cons e es ih =>
      refine (concurs e (by simp) same p p' sooner v w like s s' path).bind fun a b concur => ?_
      obtain ⟨u, ds⟩ := a
      obtain ⟨x, ds'⟩ := b
      cases concur with
      | accept like => exact .pure (.some ⟨like, rfl, rfl⟩)
      | reject left right _ =>
          simp only [List.isEmpty_eq_false_iff.mpr left, List.isEmpty_eq_false_iff.mpr right]
          exact ih fun d member => concurs d (by simp [member])

theorem checkItem_paired (concurs : ∀ e ∈ schemas, e.Concurs k flat) (beside : Frame.Beside k same f f')
    (like : Datum.Like k v w) {s s' : Site} (path : Path.Like k s.path s'.path) (i : Nat) :
    Paired k (fun a b => Concur k flat same a.value a.errors b.value b.errors) (checkItem schemas f s i v)
      (checkItem schemas f' s' i w) := by
  unfold checkItem
  split
  · rename_i e
    exact concurs e (by simp) same _ _ beside.prefs v w like s s' path
  · refine (firstAccepted_paired concurs like path beside.prefs).bind fun o o' agree => ?_
    cases agree with
    | none => exact .pure (.reject (by simp) (by simp) fun _ => .of_eq (by simp [path]))
    | @some a b found =>
        obtain ⟨u, ds⟩ := a
        obtain ⟨x, ds'⟩ := b
        obtain ⟨like, rfl, rfl⟩ : Datum.Like k u x ∧ ds = [] ∧ ds' = [] := found
        exact .pure (.accept like)

theorem checkFrom_yields (patient : f.prefs.abortEarly = false) (done xs : List Value) (errors : List Issue) :
    Yields (fun o => errors <+: o.errors) (checkFrom schemas f done xs errors) := by
  induction xs generalizing done errors with
  | nil => exact .pure (List.prefix_refl _)
  | cons v rest ih =>
      refine Yields.bind .any fun r _ => ?_
      simp only [patient, Bool.false_eq_true, if_false]
      split
      · exact ih _ errors
      · exact (ih _ _).mono fun o longer => (List.prefix_append _ _).trans longer

theorem checkFrom_paired (concurs : ∀ e ∈ schemas, e.Concurs k flat) (grows : ∀ e ∈ schemas, e.Grows)
    (beside : Frame.Beside k same f f') {done done' xs xs' : List Value} (before : Datum.LikeEach k done done')
    (each : Datum.LikeEach k xs xs') (level : Level k flat same es es') :
    Paired k (fun o o' => Concur k flat same o.value o.errors o'.value o'.errors)
      (checkFrom schemas f done xs es) (checkFrom schemas f' done' xs' es') := by
  induction xs generalizing xs' done done' es es' with
  | nil =>
      obtain rfl : xs' = [] := List.map_eq_nil_iff.mp each.symm
      exact .pure (level.concur (.list before.defined))
  | cons v rest ih =>
      cases xs' with
      | nil => cases each
      | cons w rest' =>
          obtain ⟨like, each⟩ : Datum.Like k v w ∧ Datum.LikeEach k rest rest' := List.cons.inj each
          have path : Path.Like k (f.site.child (.list (done ++ v :: rest)) (.int done.length)).path
              (f'.site.child (.list (done' ++ w :: rest')) (.int done.length)).path :=
            Datum.LikeEach.append beside.path rfl
          have others : ∀ {u x es es'}, Datum.Like k u x → Level k flat same es es' →
              Paired k (fun o o' => Concur k flat same o.value o.errors o'.value o'.errors)
                (checkFrom schemas f (done ++ [u]) rest es) (checkFrom schemas f' (done' ++ [x]) rest' es') :=
            fun like level => ih (before.append (congrArg (fun y => [y]) like)) each level
          rw [checkFrom, checkFrom, before.length_eq]
          refine (checkItem_paired concurs beside like path done.length).bind fun a b concur => ?_
          obtain ⟨u, ds⟩ := a
          obtain ⟨x, ds'⟩ := b
          cases concur with
          | accept like => exact others like level
          | reject left right begins_ =>
              simp only [List.isEmpty_eq_false_iff.mpr left, List.isEmpty_eq_false_iff.mpr right]
              -- Both sides stop or both go on, or the left one stops here and the right one keeps the failure among more.
              rcases beside.prefs.modes with ⟨rfl, alike⟩ | ⟨rfl, early, patient⟩
              · rw [alike]
                split
                · contradiction
                · split
                  · exact .pure (.reject left right begins_)
                  · exact others like (level.append left right begins_)
              · obtain ⟨rfl, rfl⟩ := level.none
                simp only [early, patient, Bool.false_eq_true, if_true, if_false, List.nil_append]
                have later := fun done errors => checkFrom_grows (f := f') (fun e member => (grows e member).keeps)
                  (fun _ : True => spares_freely _) done rest' errors
                refine .apart (P := fun o => o.errors = ds) (Grows.pure _) (later _ _) (.pure rfl)
                  (checkFrom_yields patient _ _ _) fun o o' stopped longer => ?_
                rw [stopped]
                exact .reject left (fun none => right (List.prefix_nil.mp (none ▸ longer)))
                  fun whole => (begins_ whole).before longer

theorem base_concurs (concurs : ∀ e ∈ schemas, e.Concurs k flat) (grows : ∀ e ∈ schemas, e.Grows) :
    BaseCheck.Concurs k flat (base schemas) := by
  intro same f f' beside v w like
  have refused : Paired k (Node.Steps k flat same) (pure (some (.failed v [f.fail "array.base" []])))
      (pure (some (.failed w [f'.fail "array.base" []]))) :=
    .pure (.some (beside.failure _ _ _ _ _))
  have checked : ∀ {xs ys : List Value}, Datum.LikeEach k xs ys →
      Paired k (Node.Steps k flat same) (base schemas f (.list xs)) (base schemas f' (.list ys)) := by
    intro xs ys each
    unfold base
    simp only
    split
    · exact .pure .none
    · exact (checkFrom_paired concurs grows beside rfl each .clean).bind fun o o' concur => .pure (.some concur)
  cases like.likeness with
  | same v =>
      cases v with
      | list xs => exact checked rfl
      | _ => exact refused
  | list each => exact checked each
  | _ => exact refused

end Items

namespace Keys

variable {cs : List KeyCheck} {fs fs' : Dict}

/-- What the check of the declared keys gives in two runs. -/
inductive Declared (k : Nat) (flat : Prop) (same : Bool) :
    Dict × List Issue × Bool → Dict × List Issue × Bool → Prop
  | through {fs fs' : Dict} {es es' : List Issue} (each : Datum.LikeEntries k fs fs')
      (level : Level k flat same es es') : Declared k flat same (fs, es, false) (fs', es', false)
  | stopped {fs fs' : Dict} {es es' : List Issue} (left : es ≠ []) (right : es' ≠ [])
      (begins_ : flat → Begins k same es es') (aborted : Bool) (mode : aborted = false → same = false) :
      Declared k flat same (fs, es, true) (fs', es', aborted)

theorem settle_like (c : KeyCheck) (old : c.key.isOld k) {item item' : Value} (items : Datum.Like k item item')
    (like : Datum.Like k v w) (each : Datum.LikeEntries k fs fs') :
    Datum.LikeEntries k (settle c item v fs) (settle c item' w fs') := by
  unfold settle
  rw [items.isUndefined_eq, like.isUndefined_eq]
  split
  · exact each.erase old
  · split
    · exact each
    · exact each.insert old like

theorem checkDeclared_yields (patient : f.prefs.abortEarly = false) (fs : Dict) (errors : List Issue) :
    Yields (fun o => errors <+: o.2.1 ∧ o.2.2 = false) (checkDeclared f cs fs errors) := by
  induction cs generalizing fs errors with
  | nil => exact .pure ⟨List.prefix_refl _, rfl⟩
  | cons c cs ih =>
      refine Yields.bind .any fun r _ => ?_
      simp only [patient, Bool.false_eq_true, if_false]
      split
      · exact ih _ errors
      · exact (ih _ _).mono fun o more => ⟨(List.prefix_append _ _).trans more.1, more.2⟩

theorem checkDeclared_paired (concurs : ∀ c ∈ cs, c.eval.Concurs k flat) (grows : ∀ c ∈ cs, c.eval.Grows)
    (old : ∀ c ∈ cs, c.key.isOld k) (beside : Frame.Beside k same f f') (each : Datum.LikeEntries k fs fs')
    (level : Level k flat same es es') :
    Paired k (Declared k flat same) (checkDeclared f cs fs es) (checkDeclared f' cs fs' es') := by
  induction cs generalizing fs fs' es es' with
  | nil => exact .pure (.through each level)
  | cons c cs ih =>
      have others : ∀ {gs gs' es es'}, Datum.LikeEntries k gs gs' → Level k flat same es es' →
          Paired k (Declared k flat same) (checkDeclared f cs gs es) (checkDeclared f' cs gs' es') :=
        fun each level => ih (fun d member => concurs d (by simp [member])) (fun d member => grows d (by simp [member]))
          (fun d member => old d (by simp [member])) each level
      have item := each.find? (old c (by simp))
      have path : Path.Like k (f.site.child (.dict fs) c.key).path (f'.site.child (.dict fs') c.key).path :=
        Datum.LikeEach.append beside.path rfl
      rw [checkDeclared, checkDeclared]
      refine (concurs c (by simp) same _ _ beside.prefs _ _ item _ _ path).bind fun a b concur => ?_
      obtain ⟨u, ds⟩ := a
      obtain ⟨x, ds'⟩ := b
      cases concur with
      | accept like => exact others (settle_like c (old c (by simp)) item like each) level
      | reject left right begins_ =>
          simp only [List.isEmpty_eq_false_iff.mpr left, List.isEmpty_eq_false_iff.mpr right]
          -- As for items: the side that stopped has a failure with which the longer one begins.
          rcases beside.prefs.modes with ⟨rfl, alike⟩ | ⟨rfl, early, patient⟩
          · rw [alike]
            split
            · contradiction
            · split
              · exact .pure (.stopped left right begins_ true fun early => absurd early (by decide))
              · exact others each (level.append left right begins_)
          · obtain ⟨rfl, rfl⟩ := level.none
            simp only [early, patient, Bool.false_eq_true, if_true, if_false, List.nil_append]
            have later := fun es errors => checkDeclared_grows (f := f')
              (fun d member => (grows d (List.mem_cons_of_mem c member)).keeps) (fun _ : True => spares_freely _) es errors
            refine .apart (P := fun o => o = (fs, ds, true)) (Grows.pure _) (later _ _) (.pure rfl)
              (checkDeclared_yields patient _ _) fun o o' stopped more => ?_
            obtain ⟨gs, ds'', aborted⟩ := o'
            obtain ⟨longer, rfl⟩ : ds' <+: ds'' ∧ aborted = false := more
            subst stopped
            exact .stopped left (fun none => right (List.prefix_nil.mp (none ▸ longer)))
              (fun whole => (begins_ whole).before longer) false fun _ => rfl

theorem isKnown_map (old : ∀ c ∈ cs, c.key.isOld k) (v : Value) :
    isKnown cs (v.map (Entity.capped k)) = isKnown cs v := by
  unfold isKnown
  induction cs with
  | nil => rfl
  | cons c cs ih =>
      rw [List.any_cons, List.any_cons, ih fun d member => old d (by simp [member]),
        Datum.sameKey_map_right (Entity.capped_blind k) c.key (old c (by simp))]

theorem filter_like (old : ∀ c ∈ cs, c.key.isOld k) (each : Datum.LikeEntries k fs fs') (p : Bool → Bool) :
    Datum.LikeEntries k (fs.filter fun e => p (isKnown cs e.1)) (fs'.filter fun e => p (isKnown cs e.1)) := by
  have blind : (fun e : Value × Value => p (isKnown cs e.1)) =
      (fun e : Value × Value => p (isKnown cs e.1)) ∘ fun e => (e.1.map (Entity.capped k), e.2.map (Entity.capped k)) := by
    funext e
    simp only [Function.comp, isKnown_map old]
  unfold Datum.LikeEntries
  rw [blind, ← List.filter_map, ← List.filter_map, each]

theorem strangers_marks (beside : Frame.Beside k same f f') (gs gs' : Dict) (each : Datum.LikeEntries k fs fs') :
    (fs.map (strangerReport f gs)).map (Issue.mark k) = (fs'.map (strangerReport f' gs')).map (Issue.mark k) := by
  have marked : ∀ (f : Frame) (gs : Dict) (e : Value × Value), Issue.mark k (strangerReport f gs e) =
      some (.str "object.unknown", f.site.path.map (Datum.map (Entity.capped k)) ++ [e.1.map (Entity.capped k)]) := by
    intro f gs e
    simp [strangerReport, Site.child]
  have keys : fs.map (fun e => e.1.map (Entity.capped k)) = fs'.map fun e => e.1.map (Entity.capped k) := by
    simpa [Function.comp_def] using congrArg (List.map Prod.fst) each
  have from_ : ∀ (f : Frame) (gs fs : Dict), (fs.map (strangerReport f gs)).map (Issue.mark k) =
      (fs.map fun e => e.1.map (Entity.capped k)).map fun key =>
        some (.str "object.unknown", f.site.path.map (Datum.map (Entity.capped k)) ++ [key]) := by
    intro f gs fs
    simp [marked]
  rw [from_, from_, keys, beside.path]

theorem checkStrangers_concur (unknown : Option Value) (old : ∀ c ∈ cs, c.key.isOld k)
    (beside : Frame.Beside k same f f') (each : Datum.LikeEntries k fs fs') (level : Level k flat same es es') :
    Concur k flat same (checkStrangers unknown cs f fs es).value (checkStrangers unknown cs f fs es).errors
      (checkStrangers unknown cs f' fs' es').value (checkStrangers unknown cs f' fs' es').errors := by
  rw [checkStrangers_admits, checkStrangers_admits, beside.prefs.stripUnknown, beside.prefs.allowUnknown]
  split
  · exact level.concur (.dict (filter_like old each id))
  · split
    · exact level.concur (.dict each)
    · have marks := strangers_marks beside fs fs' (filter_like old each not)
      revert marks
      generalize (fs.filter fun e => !isKnown cs e.1).map (strangerReport f fs) = rs
      generalize (fs'.filter fun e => !isKnown cs e.1).map (strangerReport f' fs') = rs'
      intro marks
      cases rs with
      | nil =>
          obtain rfl : rs' = [] := List.map_eq_nil_iff.mp marks.symm
          have unreported := level.concur (.dict each)
          cases f.prefs.abortEarly <;> cases f'.prefs.abortEarly <;>
            simpa only [List.map_nil, List.append_nil] using unreported
      | cons r rs =>
          obtain ⟨r', rs', rfl⟩ : ∃ r' us, rs' = r' :: us :=
            List.exists_cons_of_ne_nil fun none => by simp [none] at marks
          have first : Begins k true [r] [r'] := by
            simpa [Begins] using (List.cons.inj marks).1
          rcases beside.prefs.modes with ⟨rfl, alike⟩ | ⟨rfl, early, patient⟩
          · rw [alike]
            cases f.prefs.abortEarly with
            | true => exact .reject (by simp) (by simp) fun _ => first
            | false => exact level.fails (by simp) (by simp) fun _ => .of_eq marks
          · obtain ⟨rfl, rfl⟩ := level.none
            rw [early, patient]
            have started : Begins k false [r] [r'] := first.weaken fun whole => absurd whole (by decide)
            have longer : [r'] <+: r' :: rs' := List.prefix_append [r'] rs'
            exact .reject (by simp) (by simp) fun _ => started.before longer

theorem checkStrangers_longer (unknown : Option Value) (cs : List KeyCheck) (patient : f.prefs.abortEarly = false)
    (fs : Dict) (errors : List Issue) : errors <+: (checkStrangers unknown cs f fs errors).errors := by
  rw [checkStrangers_admits, patient]
  split
  · exact List.prefix_refl _
  · split
    · exact List.prefix_refl _
    · exact List.prefix_append _ _

theorem base_concurs {unknown : Option Value} {keys : Option (List KeyCheck)}
    (concurs : ∀ cs, keys = some cs → ∀ c ∈ cs, c.eval.Concurs k flat)
    (grows : ∀ cs, keys = some cs → ∀ c ∈ cs, c.eval.Grows) (old : ∀ cs, keys = some cs → ∀ c ∈ cs, c.key.isOld k) :
    BaseCheck.Concurs k flat (base unknown keys) := by
  intro same f f' beside v w like
  have refused : Paired k (Node.Steps k flat same) (pure (some (.failed v [f.fail "object.base" []])))
      (pure (some (.failed w [f'.fail "object.base" []]))) :=
    .pure (.some (beside.failure _ _ _ _ _))
  have checked : ∀ {fs fs' : Dict}, Datum.LikeEntries k fs fs' →
      Paired k (Node.Steps k flat same) (base unknown keys f (.dict fs)) (base unknown keys f' (.dict fs')) := by
    intro fs fs' each
    cases keys with
    | none => exact .pure .none
    | some cs =>
        refine (checkDeclared_paired (concurs cs rfl) (grows cs rfl) (old cs rfl) beside each .clean).bind
          fun o o' declared => ?_
        cases declared with
        | through each level => exact .pure (.some (checkStrangers_concur unknown (old cs rfl) beside each level))
        | @stopped gs gs' es es' left right begins_ aborted mode =>
            cases aborted with
            | true => exact .pure (.some (.reject left right begins_))
            | false =>
                obtain rfl := mode rfl
                have longer := checkStrangers_longer unknown cs beside.prefs.unlike.2 gs' es'
                exact .pure (.some (.reject left (fun none => right (List.prefix_nil.mp (none ▸ longer)))
                  fun whole => (begins_ whole).before longer))
  cases like.likeness with
  | same v =>
      cases v with
      | dict fs => exact checked rfl
      | _ => cases keys <;> exact refused
  | dict each => exact checked each
  | _ => cases keys <;> exact refused

end Keys

namespace Alternatives

/-- The evaluators of an entry concur, and no reference chooses among them. -/
def EntryConcurs (k : Nat) (flat : Prop) : AlternativeCheck → Prop
  | .attempt e => e.Concurs k flat
  | .conditional subject bs => subject = none ∧ ∀ b ∈ bs, b.test.Concurs k flat ∧
      (∀ e, b.onMatch = some e → e.Concurs k flat) ∧ ∀ e, b.onMiss = some e → e.Concurs k flat

variable {as : List AlternativeCheck}

theorem count_paired (concurs : ∀ a ∈ as, EntryConcurs k flat a) (beside : Frame.Beside k same f f')
    (like : Datum.Like k v w) {hits : Nat} {u x : Value} (matched : Datum.Like k u x) :
    Paired k (fun a b => b.1 = a.1 ∧ Datum.Like k a.2 b.2) (count f v as (hits, u)) (count f' w as (hits, x)) := by
  induction as generalizing hits u x with
  | nil => exact .pure ⟨rfl, matched⟩
  | cons a as ih =>
      have others : ∀ {n : Nat} {u x : Value}, Datum.Like k u x → Paired k (fun a b => b.1 = a.1 ∧ Datum.Like k a.2 b.2)
          (count f v as (n, u)) (count f' w as (n, x)) := fun like => ih (fun b member => concurs b (by simp [member])) like
      cases a with
      | conditional =>
          intro r r' _ _ _ _ _ _ left
          cases left
      | attempt e =>
          refine (concurs (.attempt e) (by simp) same _ _ beside.prefs v w like _ _ beside.path).bind
            fun a b concur => ?_
          obtain ⟨u', ds⟩ := a
          obtain ⟨x', ds'⟩ := b
          cases concur with
          | accept like => exact others like
          | reject left right _ =>
              simp only [List.isEmpty_eq_false_iff.mpr left, List.isEmpty_eq_false_iff.mpr right]
              exact others matched

theorem byMode_paired (never : ¬ flat) (mode : MatchMode) (concurs : ∀ a ∈ as, EntryConcurs k flat a)
    (beside : Frame.Beside k same f f') (like : Datum.Like k v w) :
    Paired k (fun o o' => Concur k flat same o.value o.errors o'.value o'.errors) (byMode mode as f v)
      (byMode mode as f' w) := by
  have refused : ∀ code : String, Paired k (fun o o' : Outcome => Concur k flat same o.value o.errors o'.value o'.errors)
      (pure (.failed v [f.fail code []])) (pure (.failed w [f'.fail code []])) := fun code =>
    .pure (.reject (by simp [Outcome.failed]) (by simp [Outcome.failed]) fun whole => absurd whole never)
  refine (count_paired concurs beside like rfl).bind fun a b counted => ?_
  obtain ⟨hits, u⟩ := a
  obtain ⟨hits', x⟩ := b
  obtain ⟨rfl, matched⟩ : hits' = hits ∧ Datum.Like k u x := counted
  simp only
  split
  · exact refused _
  · cases mode with
    | one =>
        simp only
        split
        · exact .pure (.accept matched)
        · exact refused _
    | all =>
        simp only
        split
        · exact .pure (.accept like)
        · exact refused _

theorem consolidate_ne_nil {issues is : List Issue} (consolidated : consolidate f issues = .ok is) : is ≠ [] := by
  unfold consolidate at consolidated
  split at consolidated
  · cases consolidated
    exact List.cons_ne_nil _ _
  · cases consolidated
    exact List.cons_ne_nil _ _
  · simp only [bind, Except.bind, pure, Except.pure] at consolidated
    split at consolidated
    · cases consolidated
    · split at consolidated
      · cases consolidated
        exact List.cons_ne_nil _ _
      · split at consolidated
        · cases consolidated
        · cases consolidated
          exact List.cons_ne_nil _ _

theorem choose_paired {bs : List BranchCheck} (concurs : EntryConcurs k flat (.conditional none bs))
    (beside : Frame.Beside k same f f') (like : Datum.Like k v w) :
    Paired k (fun o o' => o' = o ∧ ∀ e, o = some e → e.Concurs k flat) (choose f v bs) (choose f' w bs) := by
  induction bs with
  | nil => exact .pure ⟨rfl, nofun⟩
  | cons b bs ih =>
      obtain ⟨test, onMatch, onMiss⟩ := concurs.2 b (by simp)
      refine (Node.accepts_paired test like beside.path beside.prefs.forMatching).bind fun c a agree => ?_
      obtain rfl : a = c := agree
      have chosen : ∀ e, (if a then b.onMatch else b.onMiss) = some e → e.Concurs k flat := by
        cases a with
        | true => exact onMatch
        | false => exact onMiss
      simp only
      cases way : (if a then b.onMatch else b.onMiss) with
      | some e => exact .pure ⟨rfl, fun d same => chosen d (way.trans same)⟩
      | none => exact ih ⟨rfl, fun d member => concurs.2 d (by simp [member])⟩

theorem first_paired (never : ¬ flat) (concurs : ∀ a ∈ as, EntryConcurs k flat a)
    (beside : Frame.Beside k same f f') (like : Datum.Like k v w) (issues issues' : List Issue) :
    Paired k (fun o o' => Concur k flat same o.value o.errors o'.value o'.errors) (first h f v as issues)
      (first h f' w as issues') := by
  induction as generalizing issues issues' with
  | nil =>
      have failed : Paired k (fun is is' : List Issue => is ≠ [] ∧ is' ≠ []) (liftM (consolidate f issues) : Eval (List Issue))
          (liftM (consolidate f' issues')) :=
        .lift fun is is' left right => ⟨consolidate_ne_nil left, consolidate_ne_nil right⟩
      exact failed.bind fun is is' some => .pure (.reject some.1 some.2 fun whole => absurd whole never)
  | cons a as ih =>
      have others := fun issues issues' => ih (fun b member => concurs b (by simp [member])) issues issues'
      cases a with
      | attempt e =>
          refine (concurs (.attempt e) (by simp) same _ _ beside.prefs v w like _ _ beside.path).bind
            fun a b concur => ?_
          obtain ⟨u, ds⟩ := a
          obtain ⟨x, ds'⟩ := b
          cases concur with
          | accept like => exact .pure (.accept like)
          | reject left right _ =>
              simp only [List.isEmpty_eq_false_iff.mpr left, List.isEmpty_eq_false_iff.mpr right]
              exact others _ _
      | conditional subject bs =>
          obtain ⟨rfl, branches⟩ := concurs (.conditional subject bs) (by simp)
          refine (choose_paired ⟨rfl, branches⟩ beside like).bind fun o o' chosen => ?_
          obtain ⟨rfl, each⟩ := chosen
          cases o' with
          | none => exact others issues issues'
          | some e =>
              exact (each e rfl same _ _ beside.prefs v w like _ _ beside.path).bind fun a b concur => .pure concur

theorem base_concurs (never : ¬ flat) {mode : Option MatchMode} (concurs : ∀ a ∈ as, EntryConcurs k flat a) :
    BaseCheck.Concurs k flat (base h mode as) := by
  intro same f f' beside v w like
  unfold base
  cases mode with
  | some m => exact (byMode_paired never m concurs beside like).bind fun o o' concur => .pure (.some concur)
  | none => exact (first_paired never concurs beside like [] []).bind fun o o' concur => .pure (.some concur)

end Alternatives

end Conform
