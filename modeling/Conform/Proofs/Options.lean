import Conform.Proofs.Schema.Free

/-!
# What rejected options leave behind

Alternatives in their first-match mode and arrays with several item schemas try one option after the
other. What a rejected option has written to the journal stays there: hooks that it queued run, and
warnings that it gave are answered, unless it wrote nothing.
-/

namespace Conform

namespace Schema

/-- An evaluation that queues no hook, gives no warning and captures nothing. -/
def Quiet (h : Hooks) (s : Schema) (path : Path) (p : Preferences) : Prop :=
  Place.Everywhere (Bounds.FreeIn Eq True True .quiet h) ⟨false, s, path, p⟩

/-- An evaluation that depends on its value alone, and not on what was captured before. -/
def Closed (h : Hooks) (s : Schema) (path : Path) (p : Preferences) : Prop :=
  Place.Everywhere (Bounds.FreeIn Eq False True .all h) ⟨false, s, path, p⟩

end Schema

variable {h : Hooks} {s : Schema} {site : Site} {p : Preferences} {r r' : Run}

namespace Run

/-- The run with another journal. -/
def within (r : Run) (j : Journal Pending Report) : Run := { r with journal := j }

end Run

namespace Schema

/-- A closed schema gives the same and writes the same on top of any journal; every schema does on top
of a journal with the same captured values. -/
theorem writes_within (framed : h.Framed) (v : Value) (site : Site) (p : Preferences)
    (j : Journal Pending Report)
    (indifferent : j.shadow = r.journal.shadow ∨ s.Closed h site.path p.plain) :
    ∃ w : Writes, ((s.eval h v site p).exec r).1 = ((s.eval h v site p).exec (r.within j)).1 ∧
      ((s.eval h v site p).exec r).2.journal = w.onto r.journal ∧
      ((s.eval h v site p).exec (r.within j)).2.journal = w.onto j := by
  rcases indifferent with same | closed
  · have alike := Bounds.free_alike (framed.everywhere ⟨false, s, site.path, p.plain⟩)
    obtain ⟨outcome, -, -, w, -, left, right⟩ := alike v site site p p trivial (Bounds.free_sites site)
      (Bounds.free_prefs p) rfl rfl r (r.within j)
      (Bounds.free_linked Eq True True r (r.within j) rfl rfl fun _ => same.symm)
    exact ⟨w, outcome, left, right⟩
  · have alike := Bounds.free_alike closed
    obtain ⟨outcome, -, -, w, -, left, right⟩ := alike v site site p p trivial (Bounds.free_sites site)
      (Bounds.free_prefs p) rfl rfl r (r.within j)
      (Bounds.free_linked Eq False True r (r.within j) rfl rfl nofun)
    exact ⟨w, outcome, left, right⟩

theorem writes_onto (framed : h.Framed) (v : Value) (site : Site) (p : Preferences) :
    ∃ w : Writes, ((s.eval h v site p).exec r).2.journal = w.onto r.journal := by
  obtain ⟨w, -, left, -⟩ := writes_within framed v site p r.journal (.inl rfl)
  exact ⟨w, left⟩

theorem Quiet.writes (quiet : s.Quiet h site.path p.plain) (v : Value) :
    ((s.eval h v site p).exec r).2.journal = r.journal := by
  have alike := Bounds.free_alike quiet
  obtain ⟨-, -, -, w, admitted, left, -⟩ := alike v site site p p trivial (Bounds.free_sites site)
    (Bounds.free_prefs p) rfl rfl r r (Bounds.free_linked Eq True True r r rfl rfl fun _ => rfl)
  rw [left, Effects.quiet_admits w admitted, Writes.onto_empty]

end Schema

namespace Options

variable {f : Frame} {v w : Value} {t : Schema} {es : List Alternative} {rejected : List Schema}
  {r₁ r₂ : Run}

/-! ## Reaching the option that is taken -/

/-- From a run the options come to `s`, which is then evaluated from another run. Before it the rejected
options have been evaluated, and conditional options have been asked in vain. -/
inductive Reaches (h : Hooks) (f : Frame) (v : Value) :
    List Alternative → Run → List Schema → Schema → Run → Prop
  | here {s : Schema} {es : List Alternative} {r : Run} : Reaches h f v (.attempt s :: es) r [] s r
  | rejected {s t : Schema} {es : List Alternative} {r r₁ r₂ : Run} {result : Result}
      {rejected : List Schema} (evaluated : (s.eval h v f.site f.prefs).exec r = (.ok result, r₁))
      (fails : result.errors.isEmpty = false) (later : Reaches h f v es r₁ rejected t r₂) :
      Reaches h f v (.attempt s :: es) r (s :: rejected) t r₂
  | dispatched {s : Schema} {es : List Alternative} {subject : Option Reference} {bs : List Branch}
      {fromSwitch : Bool} {r r₁ r₂ : Run} {x : Value}
      (asked : (Alternatives.subjectOf h f v subject).exec r = (.ok x, r₁))
      (chosen : (Alternatives.choose f x (Schema.evalBranches h bs)).exec r₁ = (.ok (some (s.eval h)), r₂)) :
      Reaches h f v (.conditional subject bs fromSwitch :: es) r [] s r₂
  | passed {t : Schema} {es : List Alternative} {subject : Option Reference} {bs : List Branch}
      {fromSwitch : Bool} {r r₁ r₂ r₃ : Run} {x : Value} {rejected : List Schema}
      (asked : (Alternatives.subjectOf h f v subject).exec r = (.ok x, r₁))
      (chosen : (Alternatives.choose f x (Schema.evalBranches h bs)).exec r₁ = (.ok none, r₂))
      (later : Reaches h f v es r₂ rejected t r₃) :
      Reaches h f v (.conditional subject bs fromSwitch :: es) r rejected t r₃

theorem accepts_journal (framed : h.Framed) (t : Schema) (x : Value) (site : Site) (p : Preferences)
    (r : Run) : ((Node.accepts (t.eval h) x site p).exec r).2.journal = r.journal := by
  obtain ⟨u, written⟩ := t.writes_onto framed (r := r.onJournal Journal.snapshot) x site p.forMatching
  unfold Node.accepts
  rw [Eval.exec_bind, Eval.exec_withoutTrace]
  rcases ran : (t.eval h x site p.forMatching).exec (r.onJournal Journal.snapshot) with ⟨outcome, after⟩
  rw [ran] at written
  have back : (after.onJournal fun j => j.restore?.getD j).journal = r.journal := by
    rw [Run.journal_onJournal, written, Run.journal_onJournal, Writes.restore_onto_snapshot, Option.getD_some]
  cases outcome <;> exact back

/-- Asking the branches writes nothing, and a branch that is taken leads to one of its schemas. -/
theorem choose_spec (framed : h.Framed) (x : Value) (bs : List Branch) (r : Run) :
    ((Alternatives.choose f x (Schema.evalBranches h bs)).exec r).2.journal = r.journal ∧
    ∀ e, ((Alternatives.choose f x (Schema.evalBranches h bs)).exec r).1 = .ok (some e) →
      ∃ s : Schema, e = s.eval h := by
  induction bs generalizing r with
  | nil =>
      refine ⟨rfl, fun e same => ?_⟩
      simp [Schema.evalBranches, Alternatives.choose] at same
  | cons b bs ih =>
      obtain ⟨test, yes, no⟩ := b
      have tested := accepts_journal framed test x f.site f.prefs r
      have leads : ∀ (o : Option Schema) e, Schema.evalOption h o = some e → ∃ s : Schema, e = s.eval h := by
        intro o e same
        cases o with
        | none => cases same
        | some s => exact ⟨s, (Option.some.inj same).symm⟩
      rw [Schema.evalBranches, Alternatives.choose, Eval.exec_bind]
      rcases ran : (Node.accepts (test.eval h) x f.site f.prefs).exec r with ⟨_ | passes, after⟩
      · rw [ran] at tested
        exact ⟨tested, fun e same => by cases same⟩
      · rw [ran] at tested
        rw [Eval.andThen_ok]
        have rest := ih after
        rw [tested] at rest
        cases passes with
        | true =>
            cases chosen : Schema.evalOption h yes with
            | none => simpa [chosen] using rest
            | some e =>
                refine ⟨by simpa [chosen] using tested, fun d same => ?_⟩
                obtain rfl : e = d := by simpa [chosen] using same
                exact leads yes e chosen
        | false =>
            cases chosen : Schema.evalOption h no with
            | none => simpa [chosen] using rest
            | some e =>
                refine ⟨by simpa [chosen] using tested, fun d same => ?_⟩
                obtain rfl : e = d := by simpa [chosen] using same
                exact leads no e chosen

theorem subjectOf_run {subject : Option Reference} {o : Except Fault Value}
    (asked : (Alternatives.subjectOf h f v subject).exec r = (o, r₁)) : r₁ = r := by
  cases subject <;> exact (congrArg Prod.snd asked).symm

theorem consolidate_fails (is : List Issue) : Alternatives.consolidate f is ≠ .ok [] := by
  intro same
  unfold Alternatives.consolidate at same
  split at same
  · simp [pure, Except.pure] at same
  · simp [pure, Except.pure] at same
  · cases types : Alternatives.failedTypes? f.site is with
    | error fault => simp [types, bind, Except.bind] at same
    | ok found =>
        cases found with
        | some ts => simp [types, bind, Except.bind, pure, Except.pure] at same
        | none =>
            cases details : Issue.details is with
            | error fault => simp [types, details, bind, Except.bind] at same
            | ok ds => simp [types, details, bind, Except.bind, pure, Except.pure] at same

/-- Alternatives that accept have come to an option that accepts. -/
theorem first_reaches (framed : h.Framed) {issues : List Issue}
    (accepts : (Alternatives.first h f v (Schema.evalAlternatives h es) issues).exec r = (.ok ⟨w, []⟩, r')) :
    ∃ rejected s r₁, Reaches h f v es r rejected s r₁ ∧
      (s.eval h v f.site f.prefs).exec r₁ = (.ok ⟨w, []⟩, r') := by
  -- On the options that are left; those rejected before them show in the issues alone.
  induction es generalizing r issues with
  | nil =>
      obtain ⟨is, s, consolidated, given⟩ := Eval.bind_ok accepts
      simp only [Eval.exec_lift, Prod.mk.injEq] at consolidated
      simp only [Eval.exec_pure, Prod.mk.injEq, Except.ok.injEq, Outcome.mk.injEq] at given
      rw [given.1.2] at consolidated
      exact (consolidate_fails issues consolidated.1).elim
  | cons e es ih =>
      cases e with
      | attempt s =>
          obtain ⟨result, r₁, evaluated, given⟩ := Eval.bind_ok accepts
          cases fails : result.errors.isEmpty with
          | true =>
              obtain ⟨u, errors⟩ := result
              obtain rfl := List.isEmpty_iff.mp fails
              have same : u = w ∧ r₁ = r' := by simpa using given
              obtain ⟨rfl, rfl⟩ := same
              exact ⟨[], s, r, .here, evaluated⟩
          | false =>
              obtain ⟨rejected, t, r₂, reaches, taken⟩ := ih (by simpa [fails] using given)
              exact ⟨s :: rejected, t, r₂, .rejected evaluated fails reaches, taken⟩
      | conditional subject bs fromSwitch =>
          obtain ⟨x, r₁, asked, dispatched⟩ := Eval.bind_ok accepts
          obtain ⟨o, r₂, chosen, given⟩ := Eval.bind_ok dispatched
          cases o with
          | none =>
              obtain ⟨rejected, t, r₃, reaches, taken⟩ := ih given
              exact ⟨rejected, t, r₃, .passed asked chosen reaches, taken⟩
          | some e =>
              obtain ⟨s, rfl⟩ := (choose_spec framed x bs r₁).2 e (by rw [chosen])
              obtain ⟨result, r₃, evaluated, answered⟩ := Eval.bind_ok given
              have same : (⟨result.value, result.errors⟩ : Outcome) = ⟨w, []⟩ ∧ r₃ = r' := by
                simpa using answered
              obtain ⟨u, errors⟩ := result
              obtain ⟨isOutcome, rfl⟩ := same
              obtain ⟨rfl, rfl⟩ := Outcome.mk.injEq .. ▸ isOutcome
              exact ⟨[], s, r₂, .dispatched asked chosen, evaluated⟩

/-- What the rejected options have written, all of it kept; nothing if all of them are quiet. -/
theorem Reaches.left (framed : h.Framed) (reaches : Reaches h f v es r rejected t r₁) :
    ∃ left : Writes, r₁.journal = left.onto r.journal ∧
      ((∀ s ∈ rejected, s.Quiet h f.site.path f.prefs.plain) → left = {}) := by
  induction reaches with
  | here => exact ⟨{}, by simp, fun _ => rfl⟩
  | @rejected s t es r r₁ r₂ result rejected evaluated fails later ih =>
      obtain ⟨rest, restored, quiet⟩ := ih
      obtain ⟨first, written⟩ := s.writes_onto framed (r := r) v f.site f.prefs
      rw [evaluated] at written
      by_cases all : ∀ q ∈ s :: rejected, q.Quiet h f.site.path f.prefs.plain
      · have still := (all s (by simp)).writes (r := r) v
        rw [evaluated] at still
        refine ⟨{}, ?_, fun _ => rfl⟩
        rw [restored, quiet fun q member => all q (by simp [member]), Writes.onto_empty, still,
          Writes.onto_empty]
      · exact ⟨first.append rest, by rw [restored, written, Writes.onto_append], fun holds => (all holds).elim⟩
  | @dispatched s es subject bs fromSwitch r r₁ r₂ x asked chosen =>
      obtain rfl := subjectOf_run asked
      have still := (choose_spec (f := f) framed x bs r₁).1
      rw [chosen] at still
      exact ⟨{}, by rw [Writes.onto_empty, still], fun _ => rfl⟩
  | @passed t es subject bs fromSwitch r r₁ r₂ r₃ x rejected asked chosen later ih =>
      obtain rfl := subjectOf_run asked
      have still := (choose_spec (f := f) framed x bs r₁).1
      rw [chosen] at still
      rwa [← still]

/-! ## The journal after the option that is taken -/

/-- The evaluation of one option: from which run it started. -/
structure Taken where
  option : Schema
  value : Value
  site : Site
  start : Run

namespace Taken

/-- What the option alone does to a journal, with the caches as they stood. -/
def alone (h : Hooks) (p : Preferences) (j : Journal Pending Report) (o : Taken) : Journal Pending Report :=
  ((o.option.eval h o.value o.site p).exec (o.start.within j)).2.journal

end Taken

/-- Writes that lie below others show in the journal unless there are none. -/
theorem onto_below (left w : Writes) (j : Journal Pending Report) :
    w.onto (left.onto j) = w.onto j ↔ left.hooks = [] ∧ left.warnings = [] ∧
      Writes.captureAll w.captures (left.onto j).shadow = Writes.captureAll w.captures j.shadow := by
  simp [Writes.onto, Journal.mk.injEq]

/-- Alternatives have accepted through an option. What the options rejected before it have written is
kept, and their hooks are queued; the journal is what the accepted option alone makes of the journal at
the start exactly if they queued no hook and gave no warning. This holds where they captured nothing. To
an option that is closed captured values make no difference, and then they show in the shadow alone. -/
def AlternativesTaken (h : Hooks) (f : Frame) (v : Value) (es : List Alternative) (w : Value)
    (r r' : Run) : Prop :=
  ∃ rejected s r₁ left, Reaches h f v es r rejected s r₁ ∧
    (s.eval h v f.site f.prefs).exec r₁ = (.ok ⟨w, []⟩, r') ∧
    r₁.journal = Writes.onto left r.journal ∧
    (∀ e ∈ left.hooks, e ∈ r'.journal.externals) ∧
    ((∀ t ∈ rejected, t.Quiet h f.site.path f.prefs.plain) → left = {}) ∧
    (left.captures = [] →
      (r'.journal = (⟨s, v, f.site, r₁⟩ : Taken).alone h f.prefs r.journal ↔
        left.hooks = [] ∧ left.warnings = [])) ∧
    (s.Closed h f.site.path f.prefs.plain →
      (r'.journal = (⟨s, v, f.site, r₁⟩ : Taken).alone h f.prefs r.journal ↔
        left.hooks = [] ∧ left.warnings = [] ∧
        r'.journal.shadow = ((⟨s, v, f.site, r₁⟩ : Taken).alone h f.prefs r.journal).shadow))

theorem alternatives_journal (framed : h.Framed) {core : Core} {chain : ChainState}
    (accepts : (Schema.evalContent h core (.alternatives es chain none) f v).exec r =
      (.ok (some ⟨w, []⟩), r')) : AlternativesTaken h f v es w r r' := by
  obtain ⟨outcome, r₂, tried, given⟩ := Eval.bind_ok accepts
  have same : outcome = ⟨w, []⟩ ∧ r₂ = r' := by simpa using given
  obtain ⟨rfl, rfl⟩ := same
  obtain ⟨rejected, s, r₁, reaches, evaluated⟩ := first_reaches framed tried
  obtain ⟨left, written, quiet⟩ := reaches.left framed
  refine ⟨rejected, s, r₁, left, reaches, evaluated, written, ?_, quiet, fun none => ?_, fun closed => ?_⟩
  · obtain ⟨u, after⟩ := s.writes_onto framed (r := r₁) v f.site f.prefs
    rw [evaluated, written] at after
    intro e member
    rw [after]
    simp [Writes.onto, member]
  · have shadow : r.journal.shadow = r₁.journal.shadow := by
      rw [written]
      simp [Writes.onto, Writes.captureAll, none]
    obtain ⟨u, -, after, alone⟩ := s.writes_within framed v f.site f.prefs r.journal (.inl shadow)
    rw [evaluated, written] at after
    rw [Taken.alone, alone, after, onto_below]
    simp [Writes.onto, Writes.captureAll, none]
  · obtain ⟨u, -, after, alone⟩ := s.writes_within framed (r := r₁) v f.site f.prefs r.journal (.inr closed)
    rw [evaluated, written] at after
    rw [Taken.alone, alone, after, onto_below]
    rfl

/-! ## Arrays -/

/-- What the options taken one after the other do to a journal. -/
def replay (h : Hooks) (p : Preferences) (taken : List Taken) (j : Journal Pending Report) :
    Journal Pending Report :=
  taken.foldl (fun j o => o.alone h p j) j

/-- The place of the next item of an array. -/
def itemSite (f : Frame) (done : List Value) (v : Value) (rest : List Value) : Site :=
  f.site.child (.list (done ++ v :: rest)) (.int done.length)

/-- From a run every further item of an array is accepted by one of the item schemas; before it others
have rejected the item. -/
inductive ItemsTaken (h : Hooks) (f : Frame) (items : List Schema) :
    List Value → List Value → Run → List Taken → Writes → Run → Prop
  | nil {done : List Value} {r : Run} : ItemsTaken h f items done [] r [] {} r
  | item {done rest : List Value} {v w : Value} {r r₁ r₂ r₃ : Run} {rejected : List Schema} {s : Schema}
      {taken : List Taken} {left later : Writes}
      (reaches : Reaches h { f with site := itemSite f done v rest } v (items.map .attempt) r rejected s r₁)
      (evaluated : (s.eval h v (itemSite f done v rest) f.prefs).exec r₁ = (.ok ⟨w, []⟩, r₂))
      (written : r₁.journal = left.onto r.journal)
      (quiet : (∀ t ∈ rejected, t.Quiet h (itemSite f done v rest).path f.prefs.plain) → left = {})
      (others : ItemsTaken h f items (done ++ [w]) rest r₂ taken later r₃) :
      ItemsTaken h f items done (v :: rest) r (⟨s, v, itemSite f done v rest, r₁⟩ :: taken)
        (left.append later) r₃

theorem firstAccepted_reaches {items : List Schema} {result : Result}
    (accepts : (Items.firstAccepted v site f.prefs (Schema.evalEach h items)).exec r = (.ok (some result), r')) :
    result.errors = [] ∧ ∃ rejected s r₁,
      Reaches h { f with site := site } v (items.map .attempt) r rejected s r₁ ∧
      (s.eval h v site f.prefs).exec r₁ = (.ok result, r') := by
  induction items generalizing r with
  | nil => simp [Schema.evalEach, Items.firstAccepted] at accepts
  | cons s items ih =>
      obtain ⟨first, r₁, evaluated, given⟩ := Eval.bind_ok accepts
      cases fails : first.errors.isEmpty with
      | true =>
          have same : first = result ∧ r₁ = r' := by simpa [fails] using given
          obtain ⟨rfl, rfl⟩ := same
          exact ⟨List.isEmpty_iff.mp fails, [], s, r, .here, evaluated⟩
      | false =>
          obtain ⟨clean, rejected, t, r₂, reaches, taken⟩ := ih (by simpa [fails] using given)
          exact ⟨clean, s :: rejected, t, r₂, .rejected evaluated fails reaches, taken⟩

theorem checkItem_accepts {items : List Schema} (several : 2 ≤ items.length) {index : Nat}
    {result : Result} (clean : result.errors = [])
    (accepts : (Items.checkItem (Schema.evalEach h items) f site index v).exec r = (.ok result, r')) :
    (Items.firstAccepted v site f.prefs (Schema.evalEach h items)).exec r = (.ok (some result), r') := by
  obtain _ | ⟨s, _ | ⟨t, rest⟩⟩ := items
  · contradiction
  · simp at several
  · obtain ⟨o, r₁, tried, given⟩ := Eval.bind_ok accepts
    cases o with
    | some found =>
        have same : found = result ∧ r₁ = r' := by simpa using given
        obtain ⟨rfl, rfl⟩ := same
        exact tried
    | none =>
        have same := (Prod.mk.injEq .. ▸ given : _ ∧ _).1
        obtain rfl := Except.ok.inj same
        simp at clean

theorem checkFrom_taken {items : List Schema} (framed : h.Framed) (several : 2 ≤ items.length)
    {done xs : List Value} {errors : List Issue} {outcome : Outcome} (clean : outcome.errors = [])
    (accepts : (Items.checkFrom (Schema.evalEach h items) f done xs errors).exec r = (.ok outcome, r')) :
    errors = [] ∧ ∃ taken left, ItemsTaken h f items done xs r taken left r' := by
  -- On the items that are left; a rejected one would leave an issue that no later item takes back.
  induction xs generalizing done errors r with
  | nil =>
      have same : (⟨.list (done.filter fun v => !v.isUndefined), errors⟩ : Outcome) = outcome ∧ r = r' := by
        simpa [Items.checkFrom] using accepts
      obtain ⟨rfl, rfl⟩ := same
      exact ⟨clean, [], {}, .nil⟩
  | cons v rest ih =>
      obtain ⟨result, r₂, checked, given⟩ := Eval.bind_ok accepts
      cases fails : result.errors.isEmpty with
      | true =>
          obtain ⟨w, is⟩ := result
          obtain rfl : is = [] := List.isEmpty_iff.mp fails
          obtain ⟨-, rejected, s, r₁, reaches, evaluated⟩ :=
            firstAccepted_reaches (checkItem_accepts several rfl checked)
          obtain ⟨left, written, quiet⟩ := reaches.left framed
          obtain ⟨none, taken, later, others⟩ := ih (by simpa using given)
          exact ⟨none, _, _, .item reaches evaluated written quiet others⟩
      | false =>
          have notEmpty : result.errors ≠ [] := by
            intro none
            simp [none] at fails
          cases aborts : f.prefs.abortEarly with
          | true =>
              have same : (⟨.list (done ++ v :: rest), result.errors⟩ : Outcome) = outcome ∧ r₂ = r' := by
                simpa [fails, aborts] using given
              rw [← same.1] at clean
              contradiction
          | false =>
              obtain ⟨none, -⟩ := ih (by simpa [fails, aborts] using given)
              exact (notEmpty (List.append_eq_nil_iff.mp none).2).elim

/-- The journals after an array and after its accepted item schemas alone differ by what the rejected
ones have left, or by what a captured value has changed. -/
theorem ItemsTaken.replayed {items : List Schema} {done xs : List Value} {taken : List Taken}
    {left : Writes} (framed : h.Framed) (run : ItemsTaken h f items done xs r taken left r')
    {j : Journal Pending Report}
    (indifferent : left.captures = [] ∧ j.shadow = r.journal.shadow ∨
      ∀ o ∈ taken, o.option.Closed h o.site.path f.prefs.plain) :
    ∃ mix own : Writes, r'.journal = mix.onto r.journal ∧ replay h f.prefs taken j = own.onto j ∧
      mix.hooks.length = left.hooks.length + own.hooks.length ∧
      mix.warnings.length = left.warnings.length + own.warnings.length ∧
      (left.hooks = [] → mix.hooks = own.hooks) ∧ (left.warnings = [] → mix.warnings = own.warnings) ∧
      (left.captures = [] → mix.captures = own.captures) := by
  -- On the items that are left. Each adds the same writes to the journal of the run and to that of the replay.
  induction run generalizing j with
  | nil => exact ⟨{}, {}, by simp, by simp [replay], rfl, rfl, by simp⟩
  | @item done rest v w r r₁ r₂ r₃ rejected s taken left later reaches evaluated written quiet others ih =>
      have here : j.shadow = r₁.journal.shadow ∨ s.Closed h (itemSite f done v rest).path f.prefs.plain := by
        rcases indifferent with ⟨none, same⟩ | closed
        · left
          have none : left.captures = [] := (List.append_eq_nil_iff.mp none).1
          rw [written, same]
          simp [Writes.onto, Writes.captureAll, none]
        · exact .inr (closed ⟨s, v, itemSite f done v rest, r₁⟩ (by simp))
      obtain ⟨u, -, after, alone⟩ := s.writes_within framed v (itemSite f done v rest) f.prefs j here
      rw [evaluated] at after
      obtain ⟨mix, own, mixed, replayed, hooks, warnings, sameHooks, sameWarnings, sameCaptures⟩ :=
        ih (j := u.onto j) (by
          rcases indifferent with ⟨none, same⟩ | closed
          · obtain ⟨first, second⟩ := List.append_eq_nil_iff.mp none
            refine .inl ⟨second, ?_⟩
            rw [after, written]
            simp [Writes.onto, Writes.captureAll, first, same]
          · exact .inr fun o member => closed o (by simp [member]))
      refine ⟨(left.append u).append mix, u.append own, ?_, ?_, ?_, ?_, ?_, ?_, ?_⟩
      · rw [mixed, after, written, Writes.onto_append, Writes.onto_append]
      · rw [Writes.onto_append, ← replayed, replay, List.foldl_cons, Taken.alone, alone, replay]
      · simp only [Writes.append, List.length_append, hooks]
        omega
      · simp only [Writes.append, List.length_append, warnings]
        omega
      · intro none
        obtain ⟨first, second⟩ := List.append_eq_nil_iff.mp none
        simp [Writes.append, first, sameHooks second]
      · intro none
        obtain ⟨first, second⟩ := List.append_eq_nil_iff.mp none
        simp [Writes.append, first, sameWarnings second]
      · intro none
        obtain ⟨first, second⟩ := List.append_eq_nil_iff.mp none
        simp [Writes.append, first, sameCaptures second]

/-- An array with several item schemas has accepted. The journal is what the accepted item schemas alone
make of the journal at the start exactly if the rejected ones queued no hook and gave no warning. -/
def ArrayTaken (h : Hooks) (f : Frame) (items : List Schema) (xs : List Value) (r r' : Run) : Prop :=
  ∃ taken left, ItemsTaken h f items [] xs r taken left r' ∧
    (left.captures = [] →
      (r'.journal = replay h f.prefs taken r.journal ↔ left.hooks = [] ∧ left.warnings = [])) ∧
    ((∀ o ∈ taken, o.option.Closed h o.site.path f.prefs.plain) →
      (r'.journal = replay h f.prefs taken r.journal ↔
        left.hooks = [] ∧ left.warnings = [] ∧
        r'.journal.shadow = (replay h f.prefs taken r.journal).shadow))

theorem array_journal {items : List Schema} (framed : h.Framed) {core : Core} {xs : List Value}
    (several : 2 ≤ items.length)
    (accepts : (Schema.evalContent h core (.array items) f (.list xs)).exec r = (.ok (some ⟨w, []⟩), r')) :
    ArrayTaken h f items xs r r' := by
  have filled : (Schema.evalEach h items).isEmpty = false := by
    cases items with
    | nil => contradiction
    | cons => rfl
  have checked : (Items.checkFrom (Schema.evalEach h items) f [] xs []).exec r = (.ok ⟨w, []⟩, r') := by
    have given : (Items.checkFrom (Schema.evalEach h items) f [] xs [] >>= fun o => pure (some o)).exec r =
        (.ok (some ⟨w, []⟩), r') := by
      simpa [Schema.evalContent, Items.base, filled] using accepts
    obtain ⟨o, r₁, ran, same⟩ := Eval.bind_ok given
    have same : o = ⟨w, []⟩ ∧ r₁ = r' := by simpa using same
    rw [ran, same.1, same.2]
  obtain ⟨-, taken, left, run⟩ := checkFrom_taken framed several rfl checked
  -- Both journals extend the first one, so they are equal where their extensions are.
  have decide_ : ∀ mix own : Writes, r'.journal = mix.onto r.journal →
      replay h f.prefs taken r.journal = own.onto r.journal →
      mix.hooks.length = left.hooks.length + own.hooks.length →
      mix.warnings.length = left.warnings.length + own.warnings.length →
      (left.hooks = [] → mix.hooks = own.hooks) → (left.warnings = [] → mix.warnings = own.warnings) →
      (r'.journal = replay h f.prefs taken r.journal ↔ left.hooks = [] ∧ left.warnings = [] ∧
        r'.journal.shadow = (replay h f.prefs taken r.journal).shadow) := by
    intro mix own mixed replayed hooks warnings sameHooks sameWarnings
    constructor
    · intro same
      have journals := same
      rw [mixed, replayed] at journals
      obtain ⟨equalHooks, equalWarnings, -⟩ := Journal.mk.injEq .. ▸ journals
      rw [List.append_cancel_left equalHooks] at hooks
      rw [List.append_cancel_left equalWarnings] at warnings
      exact ⟨List.length_eq_zero_iff.mp (by omega), List.length_eq_zero_iff.mp (by omega), by rw [same]⟩
    · rintro ⟨noHooks, noWarnings, shadow⟩
      rw [mixed, replayed] at shadow ⊢
      simp only [Writes.onto, sameHooks noHooks, sameWarnings noWarnings, Journal.mk.injEq, true_and, and_true]
      exact shadow
  refine ⟨taken, left, run, fun none => ?_, fun closed => ?_⟩
  · obtain ⟨mix, own, mixed, replayed, hooks, warnings, sameHooks, sameWarnings, sameCaptures⟩ :=
      run.replayed framed (j := r.journal) (.inl ⟨none, rfl⟩)
    have shadow : r'.journal.shadow = (replay h f.prefs taken r.journal).shadow := by
      rw [mixed, replayed, Writes.onto, Writes.onto, sameCaptures none]
    rw [decide_ mix own mixed replayed hooks warnings sameHooks sameWarnings]
    simp [shadow]
  · obtain ⟨mix, own, mixed, replayed, hooks, warnings, sameHooks, sameWarnings, -⟩ :=
      run.replayed framed (j := r.journal) (.inr closed)
    exact decide_ mix own mixed replayed hooks warnings sameHooks sameWarnings

/-- The journal after an accepted option, for alternatives and for arrays. -/
theorem accepted_option_journal (framed : h.Framed) (core : Core) (f : Frame) :
    (∀ es chain v w r r', (Schema.evalContent h core (.alternatives es chain none) f v).exec r =
      (.ok (some ⟨w, []⟩), r') → AlternativesTaken h f v es w r r') ∧
    ∀ items xs w r r', 2 ≤ items.length →
      (Schema.evalContent h core (.array items) f (.list xs)).exec r = (.ok (some ⟨w, []⟩), r') →
      ArrayTaken h f items xs r r' :=
  ⟨fun _ _ _ _ _ _ accepts => alternatives_journal framed accepts,
    fun _ _ _ _ _ several accepts => array_journal framed several accepts⟩

/-! ## An option that leaves a hook -/

theorem idle_framed : Hooks.idle.Framed :=
  ⟨fun _ _ _ => Alike.pure trivial, fun _ _ _ => Alike.pure trivial, fun _ _ => Alike.pure trivial⟩

/-- An object with a hook at its first key and a number at its second, or anything. -/
def hookedOrAny : List Alternative := [
  .attempt (.node {} none (.object (some [
    (.str "a", .node { externals := [⟨0, "f", [], none⟩] } none .any), (.str "b", .node {} none .number)]))),
  .attempt (.node {} none .any)]

def hookedInput : Value := .dict [(.str "a", .int 1), (.str "b", .str "x")]

def hookedFrame : Frame := ⟨.alternatives, none, {}, {}, hookedInput, hookedInput⟩

/-- The run after the alternatives have taken an input that their first option rejects. -/
def hookedRun : Run :=
  ((Schema.evalContent Hooks.idle {} (.alternatives hookedOrAny .isOpen none) hookedFrame hookedInput).exec {}).2

theorem accepted_option_hooked : AlternativesTaken Hooks.idle hookedFrame hookedInput hookedOrAny hookedInput {} hookedRun :=
  (accepted_option_journal idle_framed {} hookedFrame).1 hookedOrAny .isOpen hookedInput hookedInput {} hookedRun rfl

/-- The hook of the rejected option is queued, though the accepted option alone queues none. -/
theorem rejected_option_keeps_hook : hookedRun.journal.externals.length = 1 ∧
    (((Schema.node {} none .any).eval Hooks.idle hookedInput {} {}).exec {}).2.journal.externals = [] :=
  ⟨rfl, rfl⟩

end Options

end Conform
