import Conform.Proofs.Alone

/-!
# Match modes

A match mode counts the attempts that accept. What an attempt says of a value it says of the value on its own, whatever the
attempts before it did, so only the number of those that accept matters and their order does not.
-/

namespace Conform

open Datum

variable {h : Hooks} {k : Nat} {f : Frame} {v : Value}

/-! ## Counting -/

/-- The values that schemas accept a value with, each on its own. -/
def Schema.acceptances (h : Hooks) (k : Nat) (f : Frame) (v : Value) (ss : List Schema) : List Value :=
  ss.filterMap fun s => s.accepts? h k f.site.path f.prefs v

theorem Schema.acceptances_cons (s : Schema) (ss : List Schema) : acceptances h k f v (s :: ss) =
    (s.accepts? h k f.site.path f.prefs v).toList ++ acceptances h k f v ss := by
  rw [acceptances, List.filterMap_cons]
  cases s.accepts? h k f.site.path f.prefs v <;> rfl

namespace MatchMode

variable {attempts hits : Nat} {w w' : Value}

/-- What a match mode makes of the number of attempts that accept a value and of what the last of them accepts with. -/
def judge (mode : MatchMode) (f : Frame) (v : Value) (attempts hits : Nat) (matched : Value) : Outcome :=
  if hits = 0 then .failed v [f.fail "alternatives.any" []]
  else
    match mode with
    | .one => if hits = 1 then ⟨matched, []⟩ else .failed v [f.fail "alternatives.one" []]
    | .all => if hits = attempts then ⟨v, []⟩ else .failed v [f.fail "alternatives.all" []]

theorem judge_one : judge .one f v attempts 1 w = ⟨w, []⟩ := rfl

theorem judge_one_fails (fails : hits ≠ 1) : judge .one f v attempts hits w =
    .failed v [f.fail (if hits = 0 then "alternatives.any" else "alternatives.one") []] := by
  simp only [judge, fails, if_false]
  split <;> rfl

theorem judge_all (all : hits = attempts) (some : 0 < hits) : judge .all f v attempts hits w = ⟨v, []⟩ := by
  simp only [judge, Nat.ne_of_gt some, if_false]
  exact if_pos all

theorem judge_all_fails (fails : ¬ (hits = attempts ∧ 0 < hits)) : judge .all f v attempts hits w =
    .failed v [f.fail (if hits = 0 then "alternatives.any" else "alternatives.all") []] := by
  simp only [judge]
  split
  · rfl
  · rename_i some
    have missed : hits ≠ attempts := fun all => fails ⟨all, Nat.pos_of_ne_zero some⟩
    simp only [missed, if_false]

/-- What the last attempt accepts with plays a part only where it is the only one. -/
theorem judge_congr (mode : MatchMode) (like : hits = 1 → Like k w w') :
    (mode.judge f v attempts hits w).errors = (mode.judge f v attempts hits w').errors ∧
      Like k (mode.judge f v attempts hits w).value (mode.judge f v attempts hits w').value := by
  cases mode with
  | one =>
      by_cases single : hits = 1
      · subst single
        exact ⟨rfl, like rfl⟩
      · rw [judge_one_fails single, judge_one_fails single]
        exact ⟨rfl, .refl v⟩
  | all => exact ⟨rfl, .refl _⟩

end MatchMode

namespace Alternatives

open Schema

/-- Attempts are counted as they accept on their own, and what is kept is like what the last of these accepts with. -/
theorem count_attempts {ss : List Schema} (contained : ∀ s ∈ ss, s.SelfContained k)
    (returns : ∀ s ∈ ss, s.Returns h k f.site.path f.prefs v) (hits : Nat) {u w : Value} (like : Like k u w) (r : Run)
    (enough : k ≤ r.copies) :
    ∃ w' r', (count f v (evalAlternatives h (ss.map .attempt)) (hits, w)).exec r =
        (.ok (hits + (acceptances h k f v ss).length, w'), r') ∧
      Like k ((acceptances h k f v ss).getLastD u) w' := by
  induction ss generalizing hits u w r with
  | nil => exact ⟨w, r, rfl, like⟩
  | cons s ss ih =>
      obtain ⟨itself, others⟩ := List.forall_mem_cons.mp contained
      obtain ⟨returned, rest⟩ := List.forall_mem_cons.mp returns
      have here := itself.decides returned
      rw [acceptances_cons, List.map_cons, evalAlternatives, count, Eval.exec_bind]
      cases verdict : s.accepts? h k f.site.path f.prefs v with
      | some x =>
          obtain ⟨a, r₁, ran, stays, clean, same⟩ := (verdict ▸ here).accepts f.site.ancestors enough
          obtain ⟨w', r', counted, last⟩ := ih others rest (hits + 1) same r₁ stays
          rw [ran, Eval.andThen_ok, clean]
          refine ⟨w', r', ?_, by simpa only [Option.toList_some, List.singleton_append, List.getLastD_cons] using last⟩
          have sum : hits + 1 + (acceptances h k f v ss).length = hits + (x :: acceptances h k f v ss).length := by
            rw [List.length_cons]
            omega
          exact sum ▸ counted
      | none =>
          obtain ⟨a, r₁, ran, stays, fails⟩ := (verdict ▸ here).rejects f.site.ancestors enough
          rw [ran, Eval.andThen_ok, List.isEmpty_eq_false_iff.mpr fails]
          exact ih others rest hits like r₁ stays

theorem length_evalAlternatives (es : List Alternative) : (evalAlternatives h es).length = es.length := by
  induction es with
  | nil => rfl
  | cons e es ih => cases e <;> simp [evalAlternatives, ih]

/-- A match mode judges by what the attempts say of the value on its own. -/
theorem byMode_judges {ss : List Schema} (contained : ∀ s ∈ ss, s.SelfContained k)
    (returns : ∀ s ∈ ss, s.Returns h k f.site.path f.prefs v) (mode : MatchMode) (r : Run) (enough : k ≤ r.copies) :
    ∃ w r', Like k ((acceptances h k f v ss).getLastD .undefined) w ∧
      (byMode mode (evalAlternatives h (ss.map .attempt)) f v).exec r =
        (.ok (mode.judge f v ss.length (acceptances h k f v ss).length w), r') := by
  obtain ⟨w, r', counted, last⟩ := count_attempts contained returns 0 (.refl .undefined) r enough
  refine ⟨w, r', last, ?_⟩
  rw [byMode, Eval.exec_bind, counted, Eval.andThen_ok, length_evalAlternatives, List.length_map, Nat.zero_add]
  simp only [MatchMode.judge]
  split
  · rfl
  · cases mode <;> rfl

end Alternatives

/-- In a match mode alternatives count the attempts that accept a value on their own. In the mode `one` they accept it
exactly if one attempt does, and give what that attempt makes of it; in the mode `all` exactly if every attempt does and there
is one, and they give the value as it came. Neither the report of a failure nor the value that is given depends on the order
of the attempts.

The literals of the attempts are older than the run: none is a copy that the run is yet to make. -/
theorem match_modes_count (h : Hooks) (core : Core) (empty : Option Schema) (chain : ChainState) (f : Frame) (v : Value)
    (r : Run) {ss : List Schema} (contained : ∀ s ∈ ss, s.SelfContained r.copies)
    (returns : ∀ s ∈ ss, s.Returns h r.copies f.site.path f.prefs v) :
    let node := fun ss mode => (Schema.node core empty (.alternatives (ss.map .attempt) chain (some mode))).toNode h
    let given := fun ss mode => (((node ss mode).base f v).exec r).1
    let accepts := fun s : Schema => s.accepts? h r.copies f.site.path f.prefs v
    let hits := ss.countP fun s => (accepts s).isSome
    (∃ o, given ss .one = .ok (some o) ∧ (o.errors = [] ↔ hits = 1) ∧
      (hits = 1 → ∃ s ∈ ss, ∃ u, accepts s = some u ∧ Like r.copies u o.value) ∧
      (hits ≠ 1 → o = .failed v [f.fail (if hits = 0 then "alternatives.any" else "alternatives.one") []])) ∧
    (∃ o, given ss .all = .ok (some o) ∧ (o.errors = [] ↔ hits = ss.length ∧ 0 < hits) ∧ o.value = v ∧
      (o.errors ≠ [] → o = .failed v [f.fail (if hits = 0 then "alternatives.any" else "alternatives.all") []])) ∧
    ∀ ts, ss.Perm ts → ∀ mode, ∃ o o', given ss mode = .ok (some o) ∧ given ts mode = .ok (some o') ∧
      o.errors = o'.errors ∧ Like r.copies o.value o'.value := by
  intro node given accepts hits
  have judges : ∀ ts, ss.Perm ts → ∀ mode : MatchMode, ∃ w, given ts mode = .ok (some (mode.judge f v ss.length hits w)) ∧
      (∀ u, ts.filterMap accepts = [u] → Like r.copies u w) := by
    intro ts perm mode
    obtain ⟨w, r', like, ran⟩ := Alternatives.byMode_judges (fun s member => contained s (perm.mem_iff.mpr member))
      (fun s member => returns s (perm.mem_iff.mpr member)) mode r (Nat.le_refl _)
    have counted : (Schema.acceptances h r.copies f v ts).length = hits :=
      List.length_filterMap_eq_countP.trans (perm.countP_eq _).symm
    rw [counted, ← perm.length_eq] at ran
    have based : ((node ts mode).base f v).exec r = (.ok (some (mode.judge f v ss.length hits w)), r') := by
      show (Alternatives.base h (some mode) _ f v).exec r = _
      rw [Alternatives.base, Eval.exec_bind, ran]
      rfl
    refine ⟨w, congrArg Prod.fst based, fun u alone => ?_⟩
    rwa [Schema.acceptances, alone] at like
  -- Where one attempt accepts, its value stands alone in every order of the attempts.
  have alone : hits = 1 → ∃ u, ss.filterMap accepts = [u] := fun single =>
    List.length_eq_one_iff.mp (List.length_filterMap_eq_countP.trans single)
  refine ⟨?_, ?_, ?_⟩
  · obtain ⟨w, ran, like⟩ := judges ss (.refl ss) .one
    refine ⟨_, ran, ⟨fun clean => ?_, fun single => ?_⟩, fun single => ?_, MatchMode.judge_one_fails⟩
    · by_contra fails
      rw [MatchMode.judge_one_fails fails] at clean
      cases clean
    · rw [single, MatchMode.judge_one]
    · obtain ⟨u, isAlone⟩ := alone single
      obtain ⟨s, member, accepted⟩ := List.mem_filterMap.mp (isAlone ▸ List.mem_singleton_self u)
      refine ⟨s, member, u, accepted, ?_⟩
      rw [single, MatchMode.judge_one]
      exact like u isAlone
  · obtain ⟨w, ran, -⟩ := judges ss (.refl ss) .all
    refine ⟨_, ran, ?_⟩
    by_cases holds : hits = ss.length ∧ 0 < hits
    · rw [MatchMode.judge_all holds.1 holds.2]
      exact ⟨iff_of_true rfl holds, rfl, fun fails => absurd rfl fails⟩
    · rw [MatchMode.judge_all_fails holds]
      exact ⟨iff_of_false (List.cons_ne_nil _ _) holds, rfl, fun _ => rfl⟩
  · intro ts perm mode
    obtain ⟨w, ran, like⟩ := judges ss (.refl ss) mode
    obtain ⟨w', ran', like'⟩ := judges ts perm mode
    have same : hits = 1 → Like r.copies w w' := by
      intro single
      obtain ⟨u, isAlone⟩ := alone single
      have isAlone' : ts.filterMap accepts = [u] := List.perm_singleton.mp (isAlone ▸ (perm.filterMap accepts).symm)
      exact (like u isAlone).symm.trans (like' u isAlone')
    exact ⟨_, _, ran, ran', mode.judge_congr same⟩

/-- A number is tried before a text. -/
def numberThenText : List Schema := [.node {} none .number, .node {} none .string]

def threeFrame : Frame := ⟨.alternatives, none, {}, {}, .int 3, .int 3⟩

theorem numberThenText_counted :
    let node := fun mode => (Schema.node {} none (.alternatives (numberThenText.map .attempt) .isOpen (some mode))).toNode .idle
    (∃ o, (((node .one).base threeFrame (.int 3)).exec {}).1 = .ok (some o) ∧ o.errors = [] ∧ Like 0 (.int 3) o.value) ∧
    (((node .all).base threeFrame (.int 3)).exec {}).1 =
      .ok (some (.failed (.int 3) [threeFrame.fail "alternatives.all" []])) := by
  have contained : ∀ s ∈ numberThenText, s.SelfContained 0 := by
    intro s member
    rcases List.mem_pair.mp member with rfl | rfl <;> exact ⟨rfl, rfl, rfl⟩
  have returns : ∀ s ∈ numberThenText, s.Returns .idle 0 [] {} (.int 3) := by
    intro s member
    rcases List.mem_pair.mp member with rfl | rfl <;> exact fun n _ => ⟨_, rfl⟩
  have hits : (numberThenText.countP fun s => (s.accepts? .idle 0 [] {} (.int 3)).isSome) = 1 := rfl
  obtain ⟨⟨o, ran, clean, given, -⟩, ⟨o', ran', clean', -, report⟩, -⟩ :=
    match_modes_count .idle {} none .isOpen threeFrame (.int 3) {} contained returns
  refine ⟨⟨o, ran, clean.mpr hits, ?_⟩, ?_⟩
  · obtain ⟨s, member, u, accepted, like⟩ := given hits
    rcases List.mem_pair.mp member with rfl | rfl
    · cases accepted
      exact like
    · cases accepted
  · have fails : o'.errors ≠ [] := fun none => absurd (hits.symm.trans (clean'.mp none).1) (by decide)
    obtain rfl := report fails
    exact ran'

end Conform
