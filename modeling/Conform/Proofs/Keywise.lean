import Conform.Proofs.Alone
import Conform.Proofs.Strict.Nodes

/-!
# Objects key by key

An object takes each declared key as its child on its own takes it, and the other keys as they are or not at all. So
neither the order in which keys are declared nor what was put in place before matters.
-/

namespace Conform

namespace Datum

variable {α β : Type} [BEq α] {k : Datum α} {es : List (Datum α × β)} {q : Datum α → Bool}

theorem filter_insert (itself : q k = false) (others : ∀ j, sameKey j k → q j = false) (v : β) :
    (insert k v es).filter (fun e => q e.1) = es.filter fun e => q e.1 := by
  induction es with
  | nil => simp [insert, itself]
  | cons e es ih =>
      obtain ⟨j, w⟩ := e
      by_cases same : sameKey j k
      · simp [insert, same, others j same]
      · simp [insert, same, List.filter_cons, ih]

theorem filter_erase (others : ∀ j, sameKey j k → q j = false) :
    (erase k es).filter (fun e => q e.1) = es.filter fun e => q e.1 := by
  rw [erase, List.filter_filter]
  refine List.filter_congr fun e _ => ?_
  by_cases same : sameKey e.1 k
  · simp [others e.1 same]
  · simp [same]

end Datum

open Datum

variable {h : Hooks} {k : Nat} {f : Frame} {p : Preferences}

namespace Keys

/-! ## One key -/

/-- What is found under a key once its child has accepted what was found there before. -/
def kept (strips : Bool) (found : Option Value) (u : Value) : Option Value :=
  if strips || (u.isUndefined && !(found.getD .undefined).isUndefined) then none
  else if u.isUndefined then found
  else some u

theorem kept_like {strips : Bool} {found : Option Value} {u w : Value} (like : Like k u w) :
    Option.Rel (Like k) (kept strips found u) (kept strips found w) := by
  unfold kept
  rw [like.isUndefined_eq]
  split
  · exact .none
  · split
    · cases found with
      | none => exact .none
      | some v => exact .some (.refl v)
    · exact .some like

theorem kept_getD {strips : Bool} (found : Option Value) {u : Value} (stripped : strips → u = .undefined) :
    (kept strips found u).getD .undefined = u := by
  cases strips with
  | true => rw [stripped rfl]; rfl
  | false =>
      cases u with
      | undefined =>
          cases found with
          | none => rfl
          | some v => cases v <;> rfl
      | _ => rfl

theorem find?_settle {c : KeyCheck} (itself : sameKey c.key c.key) (es : Dict) (w : Value) :
    find? c.key (settle c ((find? c.key es).getD .undefined) w es) = kept c.strips (find? c.key es) w := by
  unfold settle kept
  split
  · exact find?_erase_self ..
  · split
    · rfl
    · exact find?_insert_self (fun _ => itself) w

theorem settle_others {c : KeyCheck} {q : Value → Bool} (itself : q c.key = false)
    (others : ∀ j, sameKey j c.key → q j = false) (item w : Value) (es : Dict) :
    (settle c item w es).filter (fun e => q e.1) = es.filter fun e => q e.1 := by
  unfold settle
  split
  · exact filter_erase others
  · split
    · rfl
    · exact filter_insert itself others w

/-! ## All keys -/

/-- Whether an object declares a key. -/
def declares (ks : List (Value × Schema)) (j : Value) : Bool := ks.any fun e => sameKey e.1 j

theorem isKnown_declares (ks : List (Value × Schema)) (j : Value) :
    isKnown (Schema.evalKeyList h ks) j = declares ks j := by
  unfold isKnown declares
  induction ks with
  | nil => rfl
  | cons e ks ih => rw [Schema.evalKeyList, List.any_cons, List.any_cons, ih]

/-- A test that picks none of the declared keys. -/
def Undeclared (ks : List (Value × Schema)) (q : Value → Bool) : Prop :=
  ∀ e ∈ ks, q e.1 = false ∧ ∀ j, sameKey j e.1 → q j = false

theorem undeclared (ks : List (Value × Schema)) (keys : ∀ e ∈ ks, e.1.IsKey) :
    Undeclared ks fun j => !declares ks j := by
  intro e member
  have declared : ∀ j, sameKey j e.1 → declares ks j := fun j same =>
    List.any_eq_true.mpr ⟨e, member, (keys e member).symm j same⟩
  exact ⟨by simp [declared e.1 (keys e member).itself], fun j same => by simp [declared j same]⟩

/-- What is left of entries once the children of all declared keys have accepted, each with its value. -/
structure AllKept (k : Nat) (ks : List (Value × Schema)) (d : Value × Schema → Option Value) (es gs : Dict) : Prop where
  elsewhere : ∀ l, (∀ e ∈ ks, Apart e.1 l) → find? l gs = find? l es
  declared : ∀ e ∈ ks, ∀ u, d e = some u → Option.Rel (Like k) (kept e.2.strips (find? e.1 es) u) (find? e.1 gs)

/-- Keys apart from the first one find what they did before its value was settled. -/
theorem AllKept.cons {j : Value} {s : Schema} {ks : List (Value × Schema)} {d : Value × Schema → Option Value}
    {es gs : Dict} {u w : Value} (key : j.IsKey) (apart : ∀ e ∈ ks, Apart j e.1)
    (verdict : d (j, s) = some u) (like : Like k u w) {eval : Evaluator}
    (rest : AllKept k ks d (settle ⟨j, s.strips, eval⟩ ((find? j es).getD .undefined) w es) gs) :
    AllKept k ((j, s) :: ks) d es gs := by
  have apartFrom : ∀ l, Apart j l →
      find? l (settle ⟨j, s.strips, eval⟩ ((find? j es).getD .undefined) w es) = find? l es :=
    fun l apart => find?_settle_apart apart.parted fun _ _ => apart j key.itself
  refine ⟨fun l apartAll => ?_, List.forall_mem_cons.mpr ⟨fun x isResult => ?_, fun e member x isResult => ?_⟩⟩
  · obtain ⟨apartJ, apartRest⟩ := List.forall_mem_cons.mp apartAll
    rw [rest.elsewhere l apartRest, apartFrom l apartJ]
  · obtain rfl : u = x := Option.some.inj (verdict.symm.trans isResult)
    rw [rest.elsewhere j fun e member => (apart e member).symm, find?_settle (c := ⟨j, s.strips, eval⟩) key.itself]
    exact kept_like like
  · rw [← apartFrom e.1 (apart e member)]
    exact rest.declared e member x isResult

/-- A run over keys whose children decide on their own fails exactly if one of them rejects, and else leaves under each
key what its child makes of what was there. It leaves other entries as they are. -/
theorem checkDeclared_keywise {ks : List (Value × Schema)} {d : Value × Schema → Option Value} {es : Dict}
    (keys : ∀ e ∈ ks, e.1.IsKey) (apart : ks.Pairwise fun a b => Apart a.1 b.1)
    (decides : ∀ e ∈ ks, (e.2.eval h).Decides k (f.site.path ++ [e.1]) f.prefs ((find? e.1 es).getD .undefined) (d e))
    (errors : List Issue) (r : Run) (enough : k ≤ r.copies) :
    ∃ gs errors' aborted r', (checkDeclared f (Schema.evalKeyList h ks) es errors).exec r =
        (.ok (gs, errors', aborted), r') ∧
      (errors' = [] ↔ errors = [] ∧ ∀ e ∈ ks, (d e).isSome) ∧ (aborted → errors' ≠ []) ∧
      (∀ q, Undeclared ks q → gs.filter (fun e => q e.1) = es.filter fun e => q e.1) ∧
      ((∀ e ∈ ks, (d e).isSome) → AllKept k ks d es gs) := by
  -- On the keys that are left: under each of them the entries so far are those of the object, as keys are apart.
  induction ks generalizing es errors r with
  | nil =>
      exact ⟨es, errors, false, r, rfl, by simp, nofun, fun _ _ => rfl,
        fun _ => ⟨fun _ _ => rfl, List.forall_mem_nil _⟩⟩
  | cons e ks ih =>
      obtain ⟨j, s⟩ := e
      obtain ⟨key, keysLater⟩ := List.forall_mem_cons.mp keys
      obtain ⟨apartHere, apartLater⟩ := List.pairwise_cons.mp apart
      obtain ⟨here, later⟩ := List.forall_mem_cons.mp decides
      rw [Schema.evalKeyList, checkDeclared, Eval.exec_bind]
      cases verdict : d (j, s) with
      | some u =>
          rw [verdict] at here
          obtain ⟨a, s', ran, stays, clean, like⟩ := here.accepts (.dict es :: f.site.ancestors) enough
          have unmoved : ∀ e ∈ ks, find? e.1 (settle ⟨j, s.strips, s.eval h⟩ ((find? j es).getD .undefined) a.value es) =
              find? e.1 es :=
            fun e member => find?_settle_apart (apartHere e member).parted fun _ _ => apartHere e member j key.itself
          obtain ⟨gs, errors', aborted, r', ran', fails, stops, others, settled⟩ := ih keysLater apartLater
            (fun e member => (unmoved e member).symm ▸ later e member) errors s' stays
          refine ⟨gs, errors', aborted, r', ?_, ?_, stops, fun q untouched => ?_, fun accepted =>
            .cons key apartHere verdict like (settled (List.forall_mem_cons.mp accepted).2)⟩
          · simp only [Site.child, ran, Eval.andThen_ok, clean]
            exact ran'
          · rw [fails, List.forall_mem_cons, verdict]
            simp
          · obtain ⟨⟨itself, same⟩, rest⟩ := List.forall_mem_cons.mp untouched
            rw [others q rest, settle_others itself same]
      | none =>
          rw [verdict] at here
          obtain ⟨a, s', ran, stays, rejects⟩ := here.rejects (.dict es :: f.site.ancestors) enough
          have missed : ¬ ∀ e ∈ (j, s) :: ks, (d e).isSome := fun accepted => by
            simpa [verdict] using accepted (j, s) (by simp)
          simp only [Site.child, ran, Eval.andThen_ok, List.isEmpty_eq_false_iff.mpr rejects]
          by_cases early : f.prefs.abortEarly
          · exact ⟨es, a.errors, true, s', by rw [if_pos early]; rfl, iff_of_false rejects fun both => missed both.2,
              fun _ => rejects, fun _ _ => rfl, fun accepted => absurd accepted missed⟩
          · obtain ⟨gs, errors', aborted, r', ran', fails, stops, others, -⟩ :=
              ih keysLater apartLater later (errors ++ a.errors) s' stays
            have fails : errors' ≠ [] := fun none => rejects (List.append_eq_nil_iff.mp (fails.mp none).1).2
            exact ⟨gs, errors', aborted, r', by rw [if_neg early]; exact ran',
              iff_of_false fails fun both => missed both.2, stops, fun q untouched => others q (List.forall_mem_cons.mp untouched).2,
              fun accepted => absurd accepted missed⟩

/-! ## The other keys -/

/-- Whether an object drops the keys it does not declare. -/
def clears (unknown : Option Value) (p : Preferences) : Bool := p.stripUnknown && !(unknown.map truthy).getD false

/-- Whether an object accepts keys that it does not declare. -/
def tolerates (unknown : Option Value) (p : Preferences) : Bool :=
  clears unknown p || (unknown.map truthy).getD p.allowUnknown

/-- The entries that are left of those that the children built. -/
def remaining (unknown : Option Value) (ks : List (Value × Schema)) (p : Preferences) (gs : Dict) : Dict :=
  if clears unknown p then gs.filter fun e => declares ks e.1 else gs

/-- The other keys are dropped, or left as they are; where they are not tolerated there must be none. -/
theorem checkStrangers_keywise (unknown : Option Value) (ks : List (Value × Schema)) (f : Frame) (gs : Dict)
    (errors : List Issue) :
    ((checkStrangers unknown (Schema.evalKeyList h ks) f gs errors).errors = [] ↔
      errors = [] ∧ ∀ e ∈ gs, declares ks e.1 = false → tolerates unknown f.prefs) ∧
    (checkStrangers unknown (Schema.evalKeyList h ks) f gs errors).value = .dict (remaining unknown ks f.prefs gs) := by
  rw [checkStrangers_admits]
  simp only [isKnown_declares]
  change ((if clears unknown f.prefs then _ else _ : Outcome).errors = [] ↔ _) ∧
    (if clears unknown f.prefs then _ else _ : Outcome).value = _
  by_cases cleared : clears unknown f.prefs
  · simp [cleared, tolerates, remaining]
  · by_cases admits : (unknown.map truthy).getD f.prefs.allowUnknown
    · simp [cleared, admits, tolerates, remaining]
    · have intolerant : tolerates unknown f.prefs = false := by simp [tolerates, cleared, admits]
      have none : (gs.filter fun e => !declares ks e.1).map (strangerReport f gs) = [] ↔
          ∀ e ∈ gs, declares ks e.1 = false → tolerates unknown f.prefs := by
        simp [List.filter_eq_nil_iff, intolerant]
      rw [remaining, if_neg cleared, if_neg cleared, if_neg admits, ← none]
      cases (gs.filter fun e => !declares ks e.1).map (strangerReport f gs) with
      | nil => cases f.prefs.abortEarly <;> simp
      | cons q qs => cases f.prefs.abortEarly <;> simp

/-- Only the declared keys may be there. The first other one is reported. -/
theorem checkStrangers_standard {f : Frame} (standard : f.prefs = {}) (cs : List KeyCheck) (gs : Dict) :
    checkStrangers none cs f gs [] =
      ⟨.dict gs, ((gs.filter fun e => !isKnown cs e.1).head?.map (strangerReport f gs)).toList⟩ := by
  unfold checkStrangers
  rw [standard]
  cases gs.filter fun e => !isKnown cs e.1 <;> rfl

/-- What becomes of entries: under each declared key what its child makes of what was there, beside the other entries or
without them. -/
structure Product (k : Nat) (ks : List (Value × Schema)) (d : Value × Schema → Option Value) (cleared : Bool)
    (es gs : Dict) : Prop where
  declared : ∀ e ∈ ks, ∀ u, d e = some u → Option.Rel (Like k) (kept e.2.strips (find? e.1 es) u) (find? e.1 gs)
  others : (gs.filter fun e => !declares ks e.1) = if cleared then [] else es.filter fun e => !declares ks e.1

theorem AllKept.product {ks : List (Value × Schema)} {d : Value × Schema → Option Value} {es gs : Dict}
    (settled : AllKept k ks d es gs) (keys : ∀ e ∈ ks, e.1.IsKey)
    (strangers : (gs.filter fun e => !declares ks e.1) = es.filter fun e => !declares ks e.1) (unknown : Option Value)
    (p : Preferences) : Product k ks d (clears unknown p) es (remaining unknown ks p gs) := by
  unfold remaining
  by_cases cleared : clears unknown p
  · rw [if_pos cleared]
    refine ⟨fun e member u isResult => ?_, by simp [cleared, List.filter_filter]⟩
    have found : find? e.1 (gs.filter fun e => declares ks e.1) = find? e.1 gs :=
      find?_filter fun i _ same => List.any_eq_true.mpr ⟨e, member, (keys e member).symm i.1 same⟩
    rw [found]
    exact settled.declared e member u isResult
  · rw [if_neg cleared]
    exact ⟨settled.declared, by rw [if_neg cleared, strangers]⟩

/-- An object whose children decide on their own fails exactly if one of them rejects or a key is not tolerated, and else
gives the product of what they make of what is under their keys. -/
theorem base_keywise {ks : List (Value × Schema)} {d : Value × Schema → Option Value} {es : Dict}
    (unknown : Option Value) (keys : ∀ e ∈ ks, e.1.IsKey) (apart : ks.Pairwise fun a b => Apart a.1 b.1)
    (decides : ∀ e ∈ ks, (e.2.eval h).Decides k (f.site.path ++ [e.1]) f.prefs ((find? e.1 es).getD .undefined) (d e))
    (r : Run) (enough : k ≤ r.copies) :
    ∃ gs errors r', (base unknown (some (Schema.evalKeyList h ks)) f (.dict es)).exec r =
        (.ok (some ⟨.dict gs, errors⟩), r') ∧
      (errors = [] ↔ (∀ e ∈ ks, (d e).isSome) ∧ ∀ e ∈ es, declares ks e.1 = false → tolerates unknown f.prefs) ∧
      (errors = [] → Product k ks d (clears unknown f.prefs) es gs) := by
  obtain ⟨gs, errors, aborted, r', ran, fails, stops, others, settled⟩ :=
    checkDeclared_keywise keys apart decides [] r enough
  have strangers := others _ (undeclared ks keys)
  have tolerated : (∀ e ∈ gs, declares ks e.1 = false → tolerates unknown f.prefs) ↔
      ∀ e ∈ es, declares ks e.1 = false → tolerates unknown f.prefs := by
    have picked : ∀ fs : Dict, (∀ e ∈ fs, declares ks e.1 = false → tolerates unknown f.prefs) ↔
        ∀ e ∈ fs.filter fun e => !declares ks e.1, tolerates unknown f.prefs := by
      intro fs
      simp
    rw [picked, picked, strangers]
  obtain ⟨clean, value⟩ := checkStrangers_keywise (h := h) unknown ks f gs errors
  rw [tolerated, fails] at clean
  unfold base
  simp only [Eval.exec_bind, ran, Eval.andThen_ok]
  cases aborted with
  | true =>
      refine ⟨gs, errors, r', rfl, ?_, fun none => absurd none (stops rfl)⟩
      exact iff_of_false (stops rfl) fun both => stops rfl (fails.mpr ⟨rfl, both.1⟩)
  | false =>
      simp only [Bool.false_eq_true, if_false, Eval.exec_pure]
      generalize checkStrangers unknown (Schema.evalKeyList h ks) f gs errors = o at clean value
      obtain ⟨v, errors'⟩ := o
      obtain rfl : v = _ := value
      refine ⟨remaining unknown ks f.prefs gs, errors', r', rfl, by simpa using clean, fun none => ?_⟩
      exact (settled (clean.mp none).1.2).product keys strangers unknown f.prefs

/-- In whatever order keys are declared, the same is found under every key. -/
theorem Product.alike {ks ks' : List (Value × Schema)} {d : Value × Schema → Option Value} {cleared : Bool}
    {es gs gs' : Dict} (accepted : ∀ e ∈ ks, (d e).isSome)
    (left : Product k ks d cleared es gs) (right : Product k ks' d cleared es gs') (perm : ks'.Perm ks) {j : Value}
    (key : j.IsKey) : Option.Rel (Like k) (find? j gs) (find? j gs') := by
  by_cases declared : declares ks j
  · obtain ⟨e, member, same⟩ := List.any_eq_true.mp declared
    have found : ∀ fs : Dict, find? j fs = find? e.1 fs := fun fs => find?_congr fun i _ =>
      Bool.eq_iff_iff.mpr ⟨fun here => sameKey_trans here (key.symm e.1 same), fun there => sameKey_trans there same⟩
    obtain ⟨u, isResult⟩ := Option.isSome_iff_exists.mp (accepted e member)
    have first := left.declared e member u isResult
    have second := right.declared e (perm.mem_iff.mpr member) u isResult
    rw [found gs, found gs']
    generalize kept e.2.strips (find? e.1 es) u = o at first second
    generalize find? e.1 gs = x at first
    generalize find? e.1 gs' = y at second
    cases first with
    | none => exact second
    | some like =>
        cases second with
        | some like' => exact .some (like.symm.trans like')
  · have found : ∀ fs : Dict, find? j (fs.filter fun e => !declares ks e.1) = find? j fs := fun fs =>
      find?_filter fun i _ same => by
        by_contra hidden
        obtain ⟨e, member, same'⟩ := List.any_eq_true.mp (show declares ks i.1 by simpa using hidden)
        exact declared (List.any_eq_true.mpr ⟨e, member, sameKey_trans same' same⟩)
    have order : ∀ i, declares ks' i = declares ks i := fun i => perm.any_eq
    have others := right.others
    simp only [order] at others
    rw [← found gs, ← found gs', left.others, others]
    cases find? j (if cleared then [] else es.filter fun e => !declares ks e.1) with
    | none => exact .none
    | some v => exact .some (.refl v)

end Keys

/-! ## Objects -/

theorem Schema.accepts?_strips {s : Schema} {n : Nat} {path : Path} {u v : Value} (plain : s.core.Plain)
    (strips : s.strips) (accepts : s.accepts? h n path p v = some u) : u = .undefined := by
  have result : s.core.result = some .strip := by simpa [Schema.strips] using strips
  have stripped : Yields (fun a => a.value = .undefined) (s.eval h v ⟨path, []⟩ p) := by
    rw [eval_eq, Node.evaluate_eq]
    refine Yields.bind .any fun q _ => ?_
    rw [Node.through_idle _ _ _ (.inl plain.cache)]
    refine Yields.bind .any fun _ _ => Yields.bind .any fun _ _ => Yields.bind .any fun _ _ => Yields.bind .any
      fun _ _ => Yields.bind .any fun _ _ => ?_
    have isCore : (s.toNode h).core.result = some .strip := result
    rw [Node.deliver, isCore]
    exact Yields.bind .any fun _ _ => .pure rfl
  have ran := accepts?_eq_some.mp accepts
  exact stripped { copies := n } ⟨u, []⟩ _ (Prod.ext ran rfl)

/-- An object that holds nothing but its keys and whether it accepts others. -/
def Schema.keysOnly (unknown : Option Value) (ks : List (Value × Schema)) : Schema :=
  .node { unknown } none (.object (some ks))

namespace Schema

variable {unknown : Option Value} {ks : List (Value × Schema)} {fs : Dict} {site : Site} {r : Run}

/-- The frame of an object without a label that is given a dictionary. -/
def dictFrame (fs : Dict) (site : Site) (p : Preferences) : Frame := ⟨.object, none, site, p, .dict fs, .dict fs⟩

theorem keysOnly_settled (fs : Dict) (site : Site) : (keysOnly unknown ks).eval h (.dict fs) site p =
    Node.underPresence h ((keysOnly unknown ks).toNode h) (dictFrame fs site p) p.presence (.dict fs) >>= fun s =>
      pure ⟨s.1, s.2⟩ :=
  eval_inert rfl (Core.isDirect.direct rfl) rfl (.dict fs) site p

theorem keysOnly_forbidden (forbidden : p.presence = .forbidden) (fs : Dict) (site : Site) (r : Run) :
    ∃ i, ((keysOnly unknown ks).eval h (.dict fs) site p).exec r = (.ok ⟨.dict fs, [i]⟩, r) := by
  rw [keysOnly_settled, forbidden]
  exact ⟨_, rfl⟩

/-- An object that is not forbidden does what its base check does. -/
theorem keysOnly_based (admitted : p.presence ≠ .forbidden) (fs : Dict) (site : Site) :
    (keysOnly unknown ks).eval h (.dict fs) site p =
      Keys.base unknown (some (evalKeyList h ks)) (dictFrame fs site p) (.dict fs) >>= fun o =>
        pure (o.elim ⟨.dict fs, []⟩ fun o => ⟨o.value, o.errors⟩) :=
  eval_based rfl (Core.isDirect.direct rfl) rfl ⟨rfl, rfl⟩ rfl rfl admitted site

theorem keysOnly_checked (admitted : p.presence ≠ .forbidden) {gs : Dict} {errors : List Issue} {r r' : Run}
    (based : (Keys.base unknown (some (evalKeyList h ks)) (dictFrame fs site p) (.dict fs)).exec r =
      (.ok (some ⟨.dict gs, errors⟩), r')) :
    ((keysOnly unknown ks).eval h (.dict fs) site p).exec r = (.ok ⟨.dict gs, errors⟩, r') := by
  rw [keysOnly_based admitted, Eval.exec_bind, based]
  rfl

/-- An object that is not forbidden accepts exactly if its children and its other keys do, and gives their product. -/
theorem keysOnly_product {k : Nat} {d : Value × Schema → Option Value} (unknown : Option Value)
    (keys : ∀ e ∈ ks, e.1.IsKey) (apart : ks.Pairwise fun a b => Apart a.1 b.1) (fs : Dict) (site : Site)
    (decides : ∀ e ∈ ks, (e.2.eval h).Decides k (site.path ++ [e.1]) p ((find? e.1 fs).getD .undefined) (d e))
    (r : Run) (enough : k ≤ r.copies) :
    ∃ gs errors, (((keysOnly unknown ks).eval h (.dict fs) site p).exec r).1 = .ok ⟨.dict gs, errors⟩ ∧
      (errors = [] ↔ p.presence ≠ .forbidden ∧ (∀ e ∈ ks, (d e).isSome) ∧
        ∀ e ∈ fs, Keys.declares ks e.1 = false → Keys.tolerates unknown p) ∧
      (errors = [] → Keys.Product k ks d (Keys.clears unknown p) fs gs) := by
  by_cases forbidden : p.presence = .forbidden
  · have refused : ∃ i, ((keysOnly unknown ks).eval h (.dict fs) site p).exec r = (.ok ⟨.dict fs, [i]⟩, r) :=
      keysOnly_forbidden forbidden fs site r
    obtain ⟨i, ran⟩ := refused
    exact ⟨fs, [i], congrArg Prod.fst ran, by simp [forbidden], nofun⟩
  · obtain ⟨gs, errors, r', based, clean, product⟩ :=
      Keys.base_keywise (f := dictFrame fs site p) unknown keys apart decides r enough
    exact ⟨gs, errors, congrArg Prod.fst (keysOnly_checked forbidden based), clean.trans (and_iff_right forbidden).symm,
      product⟩

end Schema

/-- An object that holds nothing but its keys and whether it accepts others accepts a dictionary exactly if objects are
not forbidden, each child on its own accepts what is under its key, and the other keys are dropped or accepted. Under each
key it then has what the child makes of what was there; the other entries are as they were, or dropped. In whatever order
the keys are declared, it decides alike and the same is found under every key.

The literals of the children are older than the run: none is a copy that the run is yet to make. -/
theorem object_keywise (h : Hooks) (unknown : Option Value) {ks : List (Value × Schema)} (keys : ∀ e ∈ ks, e.1.IsKey)
    (apart : ks.Pairwise fun a b => Apart a.1 b.1) (fs : Dict) (site : Site) (p : Preferences) (r : Run)
    (contained : ∀ e ∈ ks, e.2.SelfContained r.copies)
    (returns : ∀ e ∈ ks, e.2.Returns h r.copies (site.path ++ [e.1]) p ((find? e.1 fs).getD .undefined)) :
    let result := fun e : Value × Schema =>
      e.2.accepts? h r.copies (site.path ++ [e.1]) p ((find? e.1 fs).getD .undefined)
    let others := fun es : Dict => es.filter fun e => !Keys.declares ks e.1
    let outcome := fun ks => (((Schema.keysOnly unknown ks).eval h (.dict fs) site p).exec r).1
    ∃ gs errors, outcome ks = .ok ⟨.dict gs, errors⟩ ∧
      (errors = [] ↔ p.presence ≠ .forbidden ∧ (∀ e ∈ ks, (result e).isSome) ∧
        ∀ e ∈ others fs, Keys.tolerates unknown p) ∧
      (errors = [] → (∀ e ∈ ks, ∃ u, result e = some u ∧ Like r.copies u ((find? e.1 gs).getD .undefined)) ∧
        others gs = if Keys.clears unknown p then [] else others fs) ∧
      ∀ ks', ks'.Perm ks → ∃ gs' errors', outcome ks' = .ok ⟨.dict gs', errors'⟩ ∧ (errors' = [] ↔ errors = []) ∧
        (errors = [] → ∀ j : Value, j.IsKey → Option.Rel (Like r.copies) (find? j gs) (find? j gs')) := by
  intro result others outcome
  have decides : ∀ e ∈ ks, (e.2.eval h).Decides r.copies (site.path ++ [e.1]) p ((find? e.1 fs).getD .undefined)
      (result e) := fun e member => (contained e member).decides (returns e member)
  obtain ⟨gs, errors, ran, clean, product⟩ :=
    Schema.keysOnly_product unknown keys apart fs site decides r (Nat.le_refl _)
  refine ⟨gs, errors, ran, ?_, fun none => ⟨fun e member => ?_, (product none).others⟩, fun ks' perm => ?_⟩
  · rw [clean]
    simp [others]
  · obtain ⟨u, isResult⟩ := Option.isSome_iff_exists.mp ((clean.mp none).2.1 e member)
    have found := (product none).declared e member u isResult
    have stripped : e.2.strips → u = .undefined := fun strips =>
      Schema.accepts?_strips ((contained e member).below .refl) strips isResult
    refine ⟨u, isResult, ?_⟩
    rw [← Keys.kept_getD (find? e.1 fs) stripped]
    generalize Keys.kept e.2.strips (find? e.1 fs) u = o at found ⊢
    generalize find? e.1 gs = x at found ⊢
    cases found with
    | none => rfl
    | some like => exact like
  · obtain ⟨gs', errors', ran', clean', product'⟩ := Schema.keysOnly_product (h := h) (d := result) unknown
      (fun e member => keys e (perm.mem_iff.mp member)) ((perm.pairwise_iff fun apart => apart.symm).mpr apart) fs site
      (fun e member => decides e (perm.mem_iff.mp member)) r (Nat.le_refl _)
    have same : errors' = [] ↔ errors = [] := by
      have order : ∀ j, Keys.declares ks' j = Keys.declares ks j := fun j => perm.any_eq
      rw [clean, clean']
      simp only [order, perm.mem_iff]
    exact ⟨gs', errors', ran', same, fun none j key =>
      (product none).alike (clean.mp none).2.1 (product' (same.mpr none)) perm key⟩

/-- A number, a text that is stripped, and a key with a default. -/
def mixedKeys : List (Value × Schema) :=
  [(.str "a", .node {} none .number), (.str "b", .node { result := some .strip } none .string),
    (.str "c", .node { default := some (.static (.list [.int 1])) } none .any)]

theorem mixedKeys_keywise : ∃ gs, (((Schema.keysOnly none mixedKeys).eval .idle
      (.dict [(.str "x", .null), (.str "b", .str "t"), (.str "a", .str "2")]) {}
      { stripUnknown := true }).exec {}).1 = .ok ⟨.dict gs, []⟩ ∧
    ∃ gs', (((Schema.keysOnly none mixedKeys.reverse).eval .idle
      (.dict [(.str "x", .null), (.str "b", .str "t"), (.str "a", .str "2")]) {}
      { stripUnknown := true }).exec {}).1 = .ok ⟨.dict gs', []⟩ ∧
    ∀ j : Value, j.IsKey → Option.Rel (Like 0) (find? j gs) (find? j gs') := by
  have keys : ∀ e ∈ mixedKeys, e.1.IsKey := by
    simp [mixedKeys, isKey_str]
  have apart : mixedKeys.Pairwise fun a b => Apart a.1 b.1 := by
    simp [mixedKeys, apart_str]
  have contained : ∀ e ∈ mixedKeys, e.2.SelfContained 0 := by
    simp only [mixedKeys, List.forall_mem_cons]
    exact ⟨⟨rfl, rfl, rfl⟩, ⟨rfl, rfl, rfl⟩, ⟨rfl, rfl, rfl⟩, List.forall_mem_nil _⟩
  have returns : ∀ e ∈ mixedKeys, e.2.Returns .idle 0 [e.1] { stripUnknown := true }
      ((find? e.1 [(.str "x", .null), (.str "b", .str "t"), (.str "a", .str "2")]).getD .undefined) := by
    simp only [mixedKeys, List.forall_mem_cons]
    exact ⟨fun n _ => ⟨_, rfl⟩, fun n _ => ⟨_, rfl⟩, fun n _ => ⟨_, rfl⟩, List.forall_mem_nil _⟩
  obtain ⟨gs, errors, ran, clean, -, reordered⟩ := object_keywise .idle none keys apart
    [(.str "x", .null), (.str "b", .str "t"), (.str "a", .str "2")] {} { stripUnknown := true } {} contained returns
  obtain ⟨gs', errors', ran', same, alike⟩ := reordered mixedKeys.reverse (List.reverse_perm _)
  have accepted : errors = [] := by
    refine clean.mpr ⟨nofun, ?_, fun _ _ => rfl⟩
    simp only [mixedKeys, List.forall_mem_cons]
    exact ⟨rfl, rfl, rfl, List.forall_mem_nil _⟩
  obtain rfl := accepted
  obtain rfl := same.mpr rfl
  exact ⟨gs, ran, gs', ran', alike rfl⟩

/-- Where objects are forbidden, one whose children accept everything is refused all the same. -/
theorem forbidden_object :
    let child : Schema := .node { presence := some .optional } none .any
    (∃ i, (((Schema.keysOnly none [(.str "a", child)]).eval .idle (.dict [(.str "a", .int 1)]) {}
      { presence := .forbidden }).exec {}).1 = .ok ⟨.dict [(.str "a", .int 1)], [i]⟩) ∧
    child.accepts? .idle 0 [.str "a"] { presence := .forbidden } (.int 1) = some (.int 1) := ⟨⟨_, rfl⟩, rfl⟩

end Conform
