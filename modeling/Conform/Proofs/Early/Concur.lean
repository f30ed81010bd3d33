import Conform.Proofs.Datum.Copies
import Conform.Proofs.Run.Paired
import Conform.Proofs.Schema.Growing

/-!
# Outcomes that concur

A run that aborts early is compared with one that may go on. Outcomes concur if both accept, with values that
are alike, or both reject; where no alternatives are involved the issues of the first begin those of the second,
and under the same preferences they are the same.
-/

namespace Conform

/-! ## Preferences and places -/

/-- The same preferences, or those that abort early beside those that do not. -/
inductive Preferences.Sooner : Bool → Preferences → Preferences → Prop
  | same (p : Preferences) : Sooner true p p
  | sooner (p : Preferences) : Sooner false { p with abortEarly := true } { p with abortEarly := false }

theorem Preferences.setEntry_abortEarly (p : Preferences) (e : Value × Value) :
    (∀ b, setEntry { p with abortEarly := b } e = { setEntry p e with abortEarly := b }) ∨
      ∀ b, setEntry { p with abortEarly := b } e = setEntry p e := by
  unfold setEntry
  split
  · unfold setOption
    split
    all_goals first
      | exact .inl fun _ => rfl
      | exact .inr fun _ => rfl
  · exact .inl fun _ => rfl

namespace Preferences.Sooner

variable {same : Bool} {p p' : Preferences}

theorem modes (sooner : Sooner same p p') :
    (same = true ∧ p'.abortEarly = p.abortEarly) ∨ (same = false ∧ p.abortEarly = true ∧ p'.abortEarly = false) := by
  cases sooner with
  | same => exact .inl ⟨rfl, rfl⟩
  | sooner => exact .inr ⟨rfl, rfl, rfl⟩

theorem unlike (sooner : Sooner false p p') : p.abortEarly = true ∧ p'.abortEarly = false := by
  cases sooner
  exact ⟨rfl, rfl⟩

theorem forMatching (sooner : Sooner same p p') : p'.forMatching = p.forMatching := by cases sooner <;> rfl

theorem convert (sooner : Sooner same p p') : p'.convert = p.convert := by cases sooner <;> rfl

theorem presence (sooner : Sooner same p p') : p'.presence = p.presence := by cases sooner <;> rfl

theorem noDefaults (sooner : Sooner same p p') : p'.noDefaults = p.noDefaults := by cases sooner <;> rfl

theorem allowUnknown (sooner : Sooner same p p') : p'.allowUnknown = p.allowUnknown := by cases sooner <;> rfl

theorem stripUnknown (sooner : Sooner same p p') : p'.stripUnknown = p.stripUnknown := by cases sooner <;> rfl

theorem setEntry (sooner : Sooner same p p') (e : Value × Value) :
    ∃ now, (same = true → now = true) ∧ Sooner now (Preferences.setEntry p e) (Preferences.setEntry p' e) := by
  cases sooner with
  | same p => exact ⟨true, fun _ => rfl, .same _⟩
  | sooner p =>
      rcases setEntry_abortEarly p e with kept | decided
      · rw [kept true, kept false]
        exact ⟨false, nofun, .sooner _⟩
      · rw [decided true, decided false]
        exact ⟨true, nofun, .same _⟩

theorem setEntries (sooner : Sooner same p p') (o : Dict) :
    ∃ now, (same = true → now = true) ∧
      Sooner now (o.foldl Preferences.setEntry p) (o.foldl Preferences.setEntry p') := by
  induction o generalizing same p p' with
  | nil => exact ⟨same, id, sooner⟩
  | cons e o ih =>
      obtain ⟨now, kept, head⟩ := sooner.setEntry e
      obtain ⟨after, keptAfter, rest⟩ := ih head
      exact ⟨after, fun same => keptAfter (kept same), rest⟩

/-- An override keeps preferences the same, or makes them so, or keeps what tells them apart. -/
theorem merge (sooner : Sooner same p p') {o : Dict} {q q' : Preferences} (left : p.merge o = .ok q)
    (right : p'.merge o = .ok q') : ∃ now, (same = true → now = true) ∧ Sooner now q q' := by
  cases o with
  | nil =>
      obtain rfl := Except.ok.inj left
      obtain rfl := Except.ok.inj right
      exact ⟨same, id, sooner⟩
  | cons e o =>
      unfold Preferences.merge at left right
      cases checked : check (e :: o) with
      | error f => simp [checked, bind, Except.bind] at left
      | ok u =>
          simp only [checked, List.isEmpty_cons, bind, Except.bind, pure, Except.pure] at left right
          obtain rfl := Except.ok.inj left
          obtain rfl := Except.ok.inj right
          exact sooner.setEntries (e :: o)

end Preferences.Sooner

/-- Paths that are the same up to the numbers of copies from the `k`-th on. -/
abbrev Path.Like (k : Nat) (p q : Path) : Prop := Datum.LikeEach k p q

/-- Frames of one node in two runs. -/
structure Frame.Beside (k : Nat) (same : Bool) (f f' : Frame) : Prop where
  kind : f'.kind = f.kind
  path : Path.Like k f.site.path f'.site.path
  prefs : Preferences.Sooner same f.prefs f'.prefs
  given : Datum.Like k f.given f'.given

theorem Frame.Beside.withCurrent {k : Nat} {same : Bool} {f f' : Frame} (beside : Frame.Beside k same f f')
    (v w : Value) : Frame.Beside k same { f with current := v } { f' with current := w } :=
  ⟨beside.kind, beside.path, beside.prefs, beside.given⟩

/-! ## Issues -/

/-- The code and the path of a report, with one number for the copies from the `k`-th on. -/
def Issue.mark (k : Nat) : Issue → Option (Value × Path)
  | report r => some (r.code, r.path.map (Datum.map (Entity.capped k)))
  | other _ => none

/-- The same codes and paths, or in the first place codes and paths that begin those in the second. -/
def Begins (k : Nat) (same : Bool) (es es' : List Issue) : Prop :=
  if same then es.map (Issue.mark k) = es'.map (Issue.mark k)
  else es.map (Issue.mark k) <+: es'.map (Issue.mark k)

namespace Begins

variable {k : Nat} {same : Bool} {es es' ds ds' : List Issue}

theorem of_eq (marks : es.map (Issue.mark k) = es'.map (Issue.mark k)) : Begins k same es es' := by
  cases same with
  | false =>
      simp only [Begins, Bool.false_eq_true, if_false, marks]
      exact List.prefix_refl _
  | true => exact marks

theorem weaken {now : Bool} (begins_ : Begins k now es es') (kept : same = true → now = true) :
    Begins k same es es' := by
  cases same with
  | false =>
      cases now with
      | false => exact begins_
      | true => exact of_eq begins_
  | true =>
      obtain rfl := kept rfl
      exact begins_

theorem before (begins_ : Begins k false es es') (longer : es' <+: ds') : Begins k false es ds' :=
  List.IsPrefix.trans begins_ (longer.map _)

theorem append (begins_ : Begins k true es es') (more : Begins k true ds ds') :
    Begins k true (es ++ ds) (es' ++ ds') := by
  simp only [Begins, if_true, List.map_append] at begins_ more ⊢
  rw [begins_, more]

end Begins

/-- What two evaluations of a node give: values that are alike, or issues on both sides. -/
inductive Concur (k : Nat) (flat : Prop) (same : Bool) : Value → List Issue → Value → List Issue → Prop
  | accept {v w : Value} (like : Datum.Like k v w) : Concur k flat same v [] w []
  | reject {v w : Value} {es es' : List Issue} (left : es ≠ []) (right : es' ≠ [])
      (begins_ : flat → Begins k same es es') : Concur k flat same v es w es'

/-- Issues collected so far: none on either side, or under the same preferences the same ones. -/
inductive Level (k : Nat) (flat : Prop) (same : Bool) : List Issue → List Issue → Prop
  | clean : Level k flat same [] []
  | failing {es es' : List Issue} (mode : same = true) (left : es ≠ []) (right : es' ≠ [])
      (marks : flat → Begins k true es es') : Level k flat same es es'

variable {k : Nat} {flat : Prop} {same : Bool} {v w : Value} {es es' ds ds' : List Issue}

theorem Concur.weaken {now : Bool} (concur : Concur k flat now v es w es') (kept : same = true → now = true) :
    Concur k flat same v es w es' := by
  cases concur with
  | accept like => exact .accept like
  | reject left right begins_ => exact .reject left right fun whole => (begins_ whole).weaken kept

theorem Concur.accepts (concur : Concur k flat same v es w es') : es.isEmpty = es'.isEmpty := by
  cases concur with
  | accept => rfl
  | reject left right _ => rw [List.isEmpty_eq_false_iff.mpr left, List.isEmpty_eq_false_iff.mpr right]

namespace Level

theorem concur (level : Level k flat same es es') (like : Datum.Like k v w) : Concur k flat same v es w es' := by
  cases level with
  | clean => exact .accept like
  | failing mode left right marks =>
      exact .reject left right fun whole => (marks whole).weaken fun _ => rfl

theorem fails (level : Level k flat same es es') (left : ds ≠ []) (right : ds' ≠ [])
    (begins_ : flat → Begins k same ds ds') : Concur k flat same v (es ++ ds) w (es' ++ ds') := by
  cases level with
  | clean => exact .reject left right begins_
  | failing mode _ _ marks =>
      subst mode
      exact .reject (by simp [left]) (by simp [right]) fun whole => (marks whole).append (begins_ whole)

theorem append (level : Level k flat true es es') (left : ds ≠ []) (right : ds' ≠ [])
    (begins_ : flat → Begins k true ds ds') : Level k flat true (es ++ ds) (es' ++ ds') := by
  cases level with
  | clean => exact .failing rfl left right begins_
  | failing _ _ _ marks =>
      exact .failing rfl (by simp [left]) (by simp [right]) fun whole => (marks whole).append (begins_ whole)

theorem none (level : Level k flat false es es') : es = [] ∧ es' = [] := by
  cases level with
  | clean => exact ⟨rfl, rfl⟩
  | failing mode => cases mode

end Level

/-- An evaluator whose outcomes in two runs concur. -/
def Evaluator.Concurs (k : Nat) (flat : Prop) (e : Evaluator) : Prop :=
  ∀ same p p', Preferences.Sooner same p p' → ∀ v w, Datum.Like k v w →
    ∀ s s' : Site, Path.Like k s.path s'.path →
      Paired k (fun a b => Concur k flat same a.value a.errors b.value b.errors) (e v s p) (e w s' p')

end Conform
