import Conform.Proofs.Datum.Sameness
import Conform.Proofs.Strict.Nodes

/-!
# Containers without conversion

The items and the entries that a container keeps are those that its children accepted. So a second check finds
every child where it was put, and puts it there again.
-/

namespace Conform

variable {told : Value → Dict → Prop} {f f' : Frame} {v w : Value} {es : Dict} {e : Evaluator} {n : Node}

/-! ## Items -/

namespace Items

/-- Where no item is refused, the items that stay are among those that their schema accepted. -/
theorem checkFrom_warns (stable : e.Stable told) (converts : f.prefs.convert) (done xs : List Value)
    (errors : List Issue) : Warns told (fun o => o.errors = [] → errors = [] ∧
      ((∀ v ∈ xs, v.isProper) → (∀ w ∈ done, e.Rests told f.prefs.strict w) →
        ∃ ws : List Value, o.value = .list ws ∧ ∀ w ∈ ws, w.isUndefined = false ∧ e.Rests told f.prefs.strict w))
      (checkFrom [e] f done xs errors) := by
  induction xs generalizing done errors with
  | nil =>
      refine .pure fun none => ⟨none, fun _ rests => ⟨done.filter fun v => !v.isUndefined, rfl, fun w member => ?_⟩⟩
      obtain ⟨isDone, present⟩ := List.mem_filter.mp member
      exact ⟨by simpa using present, rests w isDone⟩
  | cons v rest ih =>
      rw [checkFrom]
      refine (stable v _ f.prefs converts).bind fun r => ?_
      cases refused : r.errors with
      | nil =>
          refine (ih (done ++ [r.value]) errors).mono fun o later accepted none => ?_
          obtain ⟨clear, built⟩ := later none
          refine ⟨clear, fun proper rests => ?_⟩
          obtain ⟨here, others⟩ := List.forall_mem_cons.mp proper
          exact built others (List.forall_mem_append.mpr ⟨rests, List.forall_mem_singleton.mpr (accepted rfl here).2⟩)
      | cons i is =>
          simp only [List.isEmpty_cons, Bool.false_eq_true, if_false]
          split
          · exact .pure fun _ none => absurd none (List.cons_ne_nil _ _)
          · exact (ih (done ++ [v]) _).mono fun o later _ none => absurd (later none).1 (by simp)

theorem checkFrom_gives {ws : List Value} (rests : ∀ w ∈ ws, w.isUndefined = false ∧ e.Rests told f.prefs w)
    (done : List Value) (kept : ∀ w ∈ done, w.isUndefined = false) :
    Gives told ⟨.list (done ++ ws), []⟩ (checkFrom [e] f done ws []) := by
  induction ws generalizing done with
  | nil =>
      have whole : done.filter (fun v => !v.isUndefined) = done :=
        List.filter_eq_self.mpr fun w member => by rw [kept w member]; rfl
      rw [checkFrom, whole, List.append_nil]
      exact .pure
  | cons w ws ih =>
      obtain ⟨⟨present, rests⟩, others⟩ := List.forall_mem_cons.mp rests
      have later := ih others (done ++ [w]) (List.forall_mem_append.mpr ⟨kept, List.forall_mem_singleton.mpr present⟩)
      rw [List.append_assoc, List.singleton_append] at later
      rw [checkFrom]
      exact (rests _).bind later

theorem base_handsOn (isArray : n.content.kind = .array) {schemas : List Evaluator} (base : n.base = Items.base schemas)
    (single : schemas.length ≤ 1) (stable : ∀ e ∈ schemas, e.Stable told)
    (unlisted : n.core.allowed = none ∧ n.core.denied = none) (converts : f.prefs.convert) (v : Value) :
    Warns told (fun o => (handed v o).2 = [] → v.isProper → n.HandsOn told f v (handed v o).1) (n.base f v) := by
  have textless : n.content.kind ≠ .string := by
    rw [isArray]
    nofun
  cases v with
  | list xs =>
      match schemas, single with
      | [], _ =>
          have left : ∀ f, n.base f (.list xs) = pure none := fun f => by rw [base]; rfl
          rw [left f]
          exact .pure fun _ _ => .alone (fun isText => absurd isText textless) fun f' _ => left f' ▸ .pure
      | [e], _ =>
          have checked : ∀ f ys, n.base f (.list ys) = checkFrom [e] f [] ys [] >>= fun o => pure (some o) := by
            intro f ys
            rw [base]
            rfl
          rw [checked]
          refine (checkFrom_warns (stable e (by simp)) converts [] xs []).bind fun o => .pure fun built none proper => ?_
          obtain ⟨ws, list, rests⟩ := (built none).2 (Datum.isProper_list.mp proper) (List.forall_mem_nil _)
          simp only [handed, list]
          refine ⟨.inr unlisted, fun isText => absurd isText textless, fun _ => rfl, fun f' recheck => ?_⟩
          refine ⟨some ⟨.list ws, []⟩, ?_, rfl⟩
          rw [checked]
          refine Gives.bind (checkFrom_gives ?_ [] (List.forall_mem_nil _)) .pure
          rw [recheck.prefs]
          exact rests
  | _ =>
      rw [base]
      exact .pure fun none => absurd none (List.cons_ne_nil _ _)

end Items

/-! ## Keys -/

namespace Keys

open Datum

variable {c : KeyCheck} {cs : List KeyCheck}

theorem settle_again (stays : c.strips = false) {v : Value} (item : v = (find? c.key es).getD .undefined) :
    settle c v v es = es := by
  subst item
  unfold settle
  cases found : find? c.key es with
  | none => simp [stays, isUndefined]
  | some v =>
      rw [Option.getD_some, stays, insert_found found]
      cases v.isUndefined <;> rfl

/-- The children accept again what the entries hold for them. -/
def Settled (told : Value → Dict → Prop) (cs : List KeyCheck) (p : Preferences) (es : Dict) : Prop :=
  ∀ c ∈ cs, c.strips = false ∧ c.eval.Rests told p ((find? c.key es).getD .undefined)

/-- A child that gives a value where there is one only keeps the keys, and the values of other keys. -/
theorem settle_keeps (stays : c.strips = false) {item result : Value} (given : item = (find? c.key es).getD .undefined)
    (present : result.isUndefined = item.isUndefined) :
    (settle c item result es).map Prod.fst = es.map Prod.fst ∧
      (∀ l, Parted (es.map Prod.fst) c.key l → find? l (settle c item result es) = find? l es) ∧
      (find? c.key (settle c item result es)).getD .undefined = result := by
  have named : ∀ {P : Prop}, find? c.key es = none → result.isUndefined = false → P := by
    intro P missing there
    rw [there, given, missing] at present
    cases present
  refine ⟨?_, fun l parted => find?_settle_apart parted named, ?_⟩
  · unfold settle
    rw [stays, ← present, Bool.false_or, Bool.and_not_self]
    cases there : result.isUndefined with
    | true => rfl
    | false =>
        cases found : find? c.key es with
        | none => exact named found there
        | some w => exact map_fst_insert found result
  · rw [find?_settle_self named given, stays]
    rfl

/-- Where no declared key is refused the keys stay, and so do the values of other keys. -/
theorem checkDeclared_warns (stable : ∀ c ∈ cs, c.strips = false ∧ c.eval.Stable told)
    (distinct : cs.Pairwise fun a b => sameKey a.key b.key = false) (converts : f.prefs.convert) (es : Dict)
    (errors : List Issue) :
    Warns told (fun o => o.2.1 = [] → errors = [] ∧ o.2.2 = false ∧
      ((∀ j ∈ es.map Prod.fst, j.isProper) → (∀ c ∈ cs, ((find? c.key es).getD .undefined).isProper) →
        Settled told cs f.prefs.strict o.1 ∧ o.1.map Prod.fst = es.map Prod.fst ∧
          ∀ l, (∀ c ∈ cs, Parted (es.map Prod.fst) c.key l) → find? l o.1 = find? l es))
      (checkDeclared f cs es errors) := by
  induction cs generalizing es errors with
  | nil => exact .pure fun none => ⟨none, rfl, fun _ _ => ⟨List.forall_mem_nil _, rfl, fun _ _ => rfl⟩⟩
  | cons c cs ih =>
      obtain ⟨⟨stays, here⟩, others⟩ := List.forall_mem_cons.mp stable
      obtain ⟨different, distinctRest⟩ := List.pairwise_cons.mp distinct
      rw [checkDeclared]
      refine (here _ _ f.prefs converts).bind fun r => ?_
      cases refused : r.errors with
      | nil =>
          refine (ih others distinctRest _ errors).mono fun o later accepted clean => ?_
          obtain ⟨clear, finished, declared⟩ := later clean
          refine ⟨clear, finished, fun proper given => ?_⟩
          obtain ⟨givenHere, givenRest⟩ := List.forall_mem_cons.mp given
          obtain ⟨present, rests⟩ := accepted rfl givenHere
          obtain ⟨keys, elsewhere, found⟩ := settle_keeps stays rfl present
          -- No later child changes what is found under this key, as no entry stands under both keys.
          have parted : ∀ d ∈ cs, Parted (es.map Prod.fst) c.key d.key := fun d member =>
            proper_parted proper (different d member)
          rw [keys] at declared
          obtain ⟨settled, kept, apart⟩ := declared proper fun d member => by
            rw [elsewhere d.key (parted d member)]
            exact givenRest d member
          refine ⟨List.forall_mem_cons.mpr ⟨⟨stays, ?_⟩, settled⟩, kept, fun l partedAll => ?_⟩
          · rw [apart c.key fun d member => (parted d member).symm, found]
            exact rests
          · obtain ⟨partedHere, partedRest⟩ := List.forall_mem_cons.mp partedAll
            rw [apart l partedRest, elsewhere l partedHere]
      | cons i is =>
          simp only [List.isEmpty_cons, Bool.false_eq_true, if_false]
          split
          · exact .pure fun _ none => absurd none (List.cons_ne_nil _ _)
          · exact (ih others distinctRest es _).mono fun o later _ none => absurd (later none).1 (by simp)

theorem checkDeclared_gives (settled : Settled told cs f.prefs es) :
    Gives told (es, [], false) (checkDeclared f cs es []) := by
  induction cs with
  | nil => exact .pure
  | cons c cs ih =>
      obtain ⟨⟨stays, rests⟩, others⟩ := List.forall_mem_cons.mp settled
      rw [checkDeclared]
      refine (rests _).bind ?_
      simp only [List.isEmpty_nil, if_true]
      rw [settle_again stays rfl]
      exact ih others

/-- Where no key is refused, a second look at the other keys leaves the entries as they are. -/
theorem checkStrangers_again {unknown : Option Value} {errors : List Issue}
    (clean : (checkStrangers unknown cs f es errors).errors = []) : errors = [] ∧
      ∃ fs, (checkStrangers unknown cs f es errors).value = .dict fs ∧
        ((∀ j ∈ es.map Prod.fst, j.isProper) → ∀ c ∈ cs, find? c.key fs = find? c.key es) ∧
        ∀ f', f.Recheck f' → checkStrangers unknown cs f' fs [] = ⟨.dict fs, []⟩ := by
  have again : ∀ f', f.Recheck f' → f'.prefs.stripUnknown = f.prefs.stripUnknown ∧
      f'.prefs.allowUnknown = f.prefs.allowUnknown := by
    intro f' recheck
    rw [recheck.prefs]
    exact ⟨rfl, rfl⟩
  rw [checkStrangers_admits] at clean ⊢
  by_cases strips : f.prefs.stripUnknown && !(unknown.map Datum.truthy).getD false
  · rw [if_pos strips] at clean ⊢
    refine ⟨clean, _, rfl, fun proper c member => find?_filter fun e isIn same => ?_, fun f' recheck => ?_⟩
    · exact List.any_eq_true.mpr ⟨c, member, sameKey_symm (proper e.1 (List.mem_map_of_mem isIn)) same⟩
    · obtain ⟨strips', -⟩ := again f' recheck
      rw [checkStrangers_admits, strips', if_pos strips, List.filter_filter]
      simp only [Bool.and_self]
  · rw [if_neg strips] at clean ⊢
    by_cases admits : (unknown.map Datum.truthy).getD f.prefs.allowUnknown
    · rw [if_pos admits] at clean ⊢
      refine ⟨clean, es, rfl, fun _ _ _ => rfl, fun f' recheck => ?_⟩
      obtain ⟨strips', admits'⟩ := again f' recheck
      rw [checkStrangers_admits, strips', if_neg strips, admits', if_pos admits]
    · rw [if_neg admits] at clean ⊢
      have noReports : errors = [] ∧ es.filter (fun e => !isKnown cs e.1) = [] := by
        split at clean
        · cases clean
        · obtain ⟨noErrors, noReports⟩ := List.append_eq_nil_iff.mp clean
          exact ⟨noErrors, by simpa using noReports⟩
      obtain ⟨rfl, known⟩ := noReports
      rw [known]
      refine ⟨rfl, es, ?_, fun _ _ _ => rfl, fun f' recheck => ?_⟩
      · cases f.prefs.abortEarly <;> rfl
      · obtain ⟨strips', admits'⟩ := again f' recheck
        rw [checkStrangers_admits, strips', if_neg strips, admits', if_neg admits, known]
        cases f'.prefs.abortEarly <;> rfl

theorem base_handsOn (isObject : n.content.kind = .object) {unknown : Option Value} {keys : Option (List KeyCheck)}
    (base : n.base = Keys.base unknown keys)
    (distinct : ∀ cs, keys = some cs → cs.Pairwise fun a b => sameKey a.key b.key = false)
    (stable : ∀ cs, keys = some cs → ∀ c ∈ cs, c.strips = false ∧ c.eval.Stable told)
    (unlisted : n.core.allowed = none ∧ n.core.denied = none) (converts : f.prefs.convert) (v : Value) :
    Warns told (fun o => (handed v o).2 = [] → v.isProper → n.HandsOn told f v (handed v o).1) (n.base f v) := by
  have textless : n.content.kind ≠ .string := by
    rw [isObject]
    nofun
  cases v with
  | dict es =>
      cases keys with
      | none =>
          have left : ∀ f, n.base f (.dict es) = pure none := fun f => by rw [base]; rfl
          rw [left f]
          exact .pure fun _ _ => .alone (fun isText => absurd isText textless) fun f' _ => left f' ▸ .pure
      | some cs =>
          have checked : ∀ f fs, n.base f (.dict fs) = checkDeclared f cs fs [] >>= fun o =>
              if o.2.2 then pure (some ⟨.dict o.1, o.2.1⟩) else pure (some (checkStrangers unknown cs f o.1 o.2.1)) := by
            intro f fs
            rw [base]
            rfl
          rw [checked]
          refine (checkDeclared_warns (stable cs rfl) (distinct cs rfl) converts es []).bind fun o => ?_
          obtain ⟨fs, issues, aborted⟩ := o
          cases aborted with
          | true => exact .pure fun declared none => nomatch (declared none).2.1
          | false =>
              refine .pure fun declared clean proper => ?_
              have parts := isProper_dict.mp proper
              have properKeys : ∀ j ∈ es.map Prod.fst, j.isProper :=
                List.forall_mem_map.mpr fun e member => (parts e member).1
              obtain ⟨none, gs, built, found, again⟩ := checkStrangers_again clean
              obtain ⟨settled, kept, -⟩ := (declared none).2.2 properKeys fun c _ => find?_proper parts c.key
              simp only [handed, built]
              refine ⟨.inr unlisted, fun isText => absurd isText textless, fun _ => rfl, fun f' recheck => ?_⟩
              refine ⟨some ⟨.dict gs, []⟩, ?_, rfl⟩
              rw [checked]
              have settledHere : Settled told cs f'.prefs gs := by
                intro c member
                rw [found (kept ▸ properKeys) c member, recheck.prefs]
                exact settled c member
              refine (checkDeclared_gives settledHere).bind ?_
              simp only [again f' recheck]
              exact .pure
  | _ =>
      rw [base]
      exact .pure fun none => absurd none (List.cons_ne_nil _ _)

end Keys

end Conform
