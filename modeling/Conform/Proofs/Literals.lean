import Conform.Proofs.Datum.Equivalence
import Conform.Proofs.Keywise
import Conform.Proofs.TryLists
import Conform.Proofs.Validation.Accepted

/-!
# Literals

A scalar, a dictionary of literals and a list of them describe data. What a literal is compiled to accepts exactly the
data that it describes, at any depth, and leaves them as they are up to deep equality.
-/

namespace Conform

open Datum

/-! ## What a literal describes -/

namespace Term

mutual

/-- Whether a term is a scalar, a dictionary of literals, or a list of some literals. -/
def isLiteral : Term → Bool
  | .bytes growable _ => !growable
  | .dict es => entriesLiteral es
  | .list ts => !ts.isEmpty && allLiteral ts
  | t => t.isScalar

def allLiteral : List Term → Bool
  | [] => true
  | t :: ts => isLiteral t && allLiteral ts

def entriesLiteral : List (Term × Term) → Bool
  | [] => true
  | (_, t) :: es => isLiteral t && entriesLiteral es

end

mutual

/-- A scalar describes what is deeply equal to it, and a list what one of its items describes. A dictionary describes the
dictionaries whose entries it has the keys of, each absent or such as the value at its key describes. -/
def describes : Term → Value → Bool
  | .dict es, v => match v with
    | .dict fs => fs.all fun f => describesEntry es f
    | _ => false
  | .list ts, v => describesAny ts v
  | t, v => deepEqual (toValue t) v

def describesAny : List Term → Value → Bool
  | [], _ => false
  | t :: ts, v => describes t v || describesAny ts v

def describesEntry : List (Term × Term) → Value × Value → Bool
  | [], _ => false
  | (k, t) :: es, f => sameKey (toValue k) f.1 && (f.2.isUndefined || describes t f.2) || describesEntry es f

end

/-- Whether a value is absent or described. -/
def fits (t : Term) (v : Value) : Bool := v.isUndefined || t.describes v

variable {t : Term} {ts : List Term} {es : List (Term × Term)} {v : Value} {fs : Dict}

theorem describesEntry_iff {f : Value × Value} :
    describesEntry es f ↔ ∃ e ∈ es, sameKey e.1.toValue f.1 ∧ e.2.fits f.2 := by
  induction es with
  | nil => simp [describesEntry]
  | cons e es ih => simp [describesEntry, ih, fits]

theorem describes_dict :
    describes (.dict es) (.dict fs) ↔ ∀ f ∈ fs, ∃ e ∈ es, sameKey e.1.toValue f.1 ∧ e.2.fits f.2 := by
  simp only [describes, List.all_eq_true, describesEntry_iff]

theorem isSound_dict_toValue (template : (toValue (.dict es)).isSound) :
    es.Pairwise (fun d e => sameKey d.1.toValue e.1.toValue = false) ∧
      ∀ e ∈ es, e.1.toValue.isProper ∧ e.2.toValue.isSound := by
  rw [toValue, Datum.map, mapEntries_eq] at template
  obtain ⟨keys, each⟩ := isSound_dict.mp template
  rw [List.map_map] at keys
  refine ⟨List.pairwise_map.mp (areKeys_iff.mp keys).2, fun e member => ?_⟩
  obtain ⟨key, value⟩ := List.forall_mem_map.mp each e member
  exact ⟨isProper_of_isSound key, value⟩

/-- A dictionary tells its keys apart, so it describes key by key. -/
theorem describes_keywise (template : (toValue (.dict es)).isSound) (sound : (dict fs).isSound) :
    describes (.dict es) (.dict fs) ↔ (∀ e ∈ es, e.2.fits ((find? e.1.toValue fs).getD .undefined)) ∧
      ∀ f ∈ fs, ∃ e ∈ es, sameKey e.1.toValue f.1 := by
  obtain ⟨apart, parts⟩ := isSound_dict_toValue template
  let keyed : List (Value × Term) := es.map fun e => (e.1.toValue, e.2)
  -- No other entry of the literal has the key, so an entry that describes is the one at the key.
  have unique {j : Value} {e : Term × Term} (member : e ∈ es) (key : sameKey e.1.toValue j) :
      find? j keyed = some e.2 := by
    have apart' : keyed.Pairwise fun d e => sameKey d.1 e.1 = false := List.pairwise_map.mpr apart
    have proper : ∀ e ∈ keyed, e.1.isProper := List.forall_mem_map.mpr fun e member => (parts e member).1
    have inside : (e.1.toValue, e.2) ∈ keyed := List.mem_map_of_mem member
    exact find?_of_mem apart' proper inside key
  rw [describes_dict]
  constructor
  · refine fun each => ⟨fun e member => ?_, fun f inside => ?_⟩
    · cases found : find? e.1.toValue fs with
      | none => rfl
      | some v =>
          obtain ⟨j, inside, key⟩ := find?_entry found
          obtain ⟨d, other, key', fits⟩ := each (j, v) inside
          have back := sameKey_symm (isProper_of_isSound (isSound_entry sound inside).1) key
          have both := (unique other key').symm.trans (unique member back)
          exact Option.some.inj both ▸ fits
    · obtain ⟨e, member, key, -⟩ := each f inside
      exact ⟨e, member, key⟩
  · rintro ⟨each, declared⟩ f inside
    obtain ⟨e, member, key⟩ := declared f inside
    obtain ⟨apart', proper'⟩ := isTidy_dict.mp (isTidy_of_isSound sound)
    have found : find? e.1.toValue fs = some f.2 :=
      find?_of_mem apart' (fun g member => (proper' g member).1) inside (sameKey_symm (parts e member).1 key)
    have fits := each e member
    rw [found] at fits
    exact ⟨e, member, key, fits⟩

end Term

/-! ## Data that are left as they are -/

/-- A value in place of another that is equal to it, or as absent as it. -/
structure Datum.Stands (v w : Value) : Prop where
  present : w.isUndefined = v.isUndefined
  equal : v.isNanFree → deepEqual w v

theorem Datum.Stands.self {v : Value} (sound : v.isSound) : v.Stands v := ⟨rfl, deepEqual_self sound⟩

def StandsUnder (f g : Value × Value) : Prop := g.1 = f.1 ∧ f.2.Stands g.2

section

variable {fs es gs : Dict} {k item w : Value}

theorem standsUnder_self (sound : (dict fs).isSound) : List.Forall₂ StandsUnder fs fs :=
  List.forall₂_same.mpr fun _ member => ⟨rfl, .self (isSound_entry sound member).2⟩

theorem map_fst_stands (stands : List.Forall₂ StandsUnder fs gs) : gs.map Prod.fst = fs.map Prod.fst := by
  induction stands with
  | nil => rfl
  | cons here _ ih => rw [List.map_cons, List.map_cons, here.1, ih]

theorem stands_insert (stands : List.Forall₂ StandsUnder fs es) (found : find? k fs = some item)
    (kept : item.Stands w) : List.Forall₂ StandsUnder fs (Datum.insert k w es) := by
  induction stands with
  | nil => cases found
  | @cons f g fs es here later ih =>
      obtain ⟨j, v⟩ := f
      obtain ⟨i, u⟩ := g
      obtain rfl : i = j := here.1
      rw [find?] at found
      rw [Datum.insert]
      split at found
      · rename_i same
        obtain rfl := Option.some.inj found
        rw [if_pos same]
        exact .cons ⟨rfl, kept⟩ later
      · rename_i other
        rw [if_neg other]
        exact .cons here (ih found)

theorem stands_dict (sound : (dict fs).isSound) (stands : List.Forall₂ StandsUnder fs gs) :
    (dict fs).Stands (.dict gs) := by
  refine ⟨rfl, fun ordered => ?_⟩
  obtain ⟨apart, proper⟩ := isTidy_dict.mp (isTidy_of_isSound sound)
  obtain ⟨hashable, -⟩ := areKeys_iff.mp (isSound_dict.mp sound).1
  rw [deepEqual, Bool.and_eq_true, beq_iff_eq]
  refine ⟨stands.length_eq.symm, deepEqualEntries_iff.mpr fun g member => ?_⟩
  obtain ⟨f, inside, same, kept⟩ : ∃ f ∈ fs, StandsUnder f g := by
    obtain ⟨i, bound, rfl⟩ := List.mem_iff_getElem.mp member
    have within : i < fs.length := stands.length_eq ▸ bound
    exact ⟨fs[i], List.getElem_mem within, stands.get within bound⟩
  have whole {w : Value} (part : w = f.1 ∨ w = f.2) : w.isNanFree :=
    (isNanFree_iff.mp ordered).2 w (mem_parts_dict.mpr ⟨f, inside, part⟩)
  have itself : sameKey f.1 f.1 :=
    sameKey_self (isSound_entry sound inside).1 (hashable _ (List.mem_map_of_mem inside)) (whole (.inl rfl))
  refine ⟨f.2, ?_, kept.equal (whole (.inr rfl))⟩
  rw [same]
  exact find?_of_mem apart (fun e member => (proper e member).1) inside itself

end

/-! ## Issues that can be shown -/

namespace Issue

theorem Legible.nil : Legible [] := nofun

theorem Legible.append {is es : List Issue} (first : Legible is) (second : Legible es) : Legible (is ++ es) := by
  intro r member
  rcases List.mem_append.mp member with here | there
  · exact first r here
  · exact second r there

theorem legible_reportAt {f : Frame} (standard : f.prefs.messages = []) (site : Site) (code : String) (v : Value)
    {locals : Dict} (texts : ∀ e ∈ locals, e.1.isText) : Legible [.report (f.reportAt site code v locals)] := by
  intro r member
  obtain rfl := Issue.report.inj (List.mem_singleton.mp member)
  refine ⟨⟨code, rfl⟩, ReportOf.isShown_iff.mpr ?_⟩
  rcases ReportOf.message_report f.label site.path standard code v locals with ⟨m, shown⟩ | ⟨-, e, inside, stranger⟩
  · refine ⟨_, bind_eq_ok.mpr ⟨m, shown, rfl⟩⟩
  · exact absurd (texts e inside) (Bool.eq_false_iff.mp stranger)

theorem legible_fail {f : Frame} (standard : f.prefs.messages = []) (code : String) {locals : Dict}
    (texts : ∀ e ∈ locals, e.1.isText) : Legible [.report (f.fail code locals)] :=
  legible_reportAt standard f.site code f.current texts

theorem Legible.diagnosed {f : Frame} (standard : f.prefs.messages = []) {is es : List Issue} (legible : Legible is)
    (diagnosis : Diagnosis f is es) : Legible es := by
  cases diagnosis with
  | none => exact legible_fail standard _ (List.forall_mem_nil _)
  | lone => exact legible
  | types => exact legible_fail standard _ (List.forall_mem_singleton.mpr rfl)
  | nested => exact legible_fail standard _ (List.forall_mem_cons.mpr ⟨rfl, List.forall_mem_singleton.mpr rfl⟩)

end Issue

/-! ## What schemas make of what they describe -/

variable {h : Hooks}

/-- A result that accepts exactly what fits a literal and leaves it as it is. -/
structure Term.Settles (t : Term) (v : Value) (a : Result) : Prop where
  legible : Issue.Legible a.errors
  accepts : a.errors = [] ↔ t.fits v
  keeps : a.errors = [] → v.Stands a.value

/-- A schema that accepts, in every place and in every run, exactly what a literal describes. -/
structure Schema.Means (h : Hooks) (s : Schema) (t : Term) : Prop where
  delivers : s.strips = false
  settles : ∀ v site, v.isSound → ∃ a, s.eval h v site {} = pure a ∧ t.Settles v a

theorem Term.Settles.absent (t : Term) : t.Settles .undefined ⟨.undefined, []⟩ :=
  ⟨.nil, iff_of_true rfl rfl, fun _ => ⟨rfl, fun _ => rfl⟩⟩

def Schema.MeanEach (h : Hooks) : List (Term × Term) → List (Value × Schema) → Prop :=
  List.Forall₂ fun t e => e.1 = t.1.toValue ∧ e.2.Means h t.2

namespace Schema.MeanEach

variable {ts : List (Term × Term)} {ks : List (Value × Schema)}

theorem keys (means : MeanEach h ts ks) : ks.map Prod.fst = ts.map fun t => t.1.toValue := by
  induction means with
  | nil => rfl
  | cons here _ ih => rw [List.map_cons, List.map_cons, here.1, ih]

theorem apart (means : MeanEach h ts ks) (apart : ts.Pairwise fun a b => sameKey a.1.toValue b.1.toValue = false) :
    ks.Pairwise fun a b => sameKey a.1 b.1 = false := by
  have keys : (ts.map fun t => t.1.toValue).Pairwise fun j k => sameKey j k = false := List.pairwise_map.mpr apart
  rw [← means.keys] at keys
  exact List.pairwise_map.mp keys

theorem declares_iff (means : MeanEach h ts ks) (j : Value) :
    Keys.declares ks j ↔ ∃ t ∈ ts, sameKey t.1.toValue j := by
  have declared : Keys.declares ks j = (ks.map Prod.fst).any fun k => sameKey k j := by
    rw [List.any_map]
    rfl
  rw [declared, means.keys, List.any_map, List.any_eq_true]
  rfl

end Schema.MeanEach

namespace Keys

/-- What a run over the declared keys comes to: it accepts, or it stops at a child that rejects. -/
inductive Ran (ts : List (Term × Term)) (fs : Dict) : Dict × List Issue × Bool → Prop
  | accepted {gs : Dict} (stands : List.Forall₂ StandsUnder fs gs)
      (fit : ∀ t ∈ ts, t.2.fits ((find? t.1.toValue fs).getD .undefined)) : Ran ts fs (gs, [], false)
  | rejected {gs : Dict} {errors : List Issue} (legible : Issue.Legible errors) (some : errors ≠ [])
      (unfit : ∃ t ∈ ts, t.2.fits ((find? t.1.toValue fs).getD .undefined) = false) : Ran ts fs (gs, errors, true)

theorem stands_settle {c : KeyCheck} (delivers : c.strips = false) {fs es : Dict} {w : Value}
    (stands : List.Forall₂ StandsUnder fs es) (kept : ((find? c.key fs).getD .undefined).Stands w) :
    List.Forall₂ StandsUnder fs (settle c ((find? c.key fs).getD .undefined) w es) := by
  unfold settle
  rw [delivers, kept.present]
  cases found : find? c.key fs with
  | none => exact stands
  | some v =>
      rw [found] at kept
      cases absent : v.isUndefined with
      | true => simpa [absent] using stands
      | false => simpa [absent] using stands_insert stands found kept

theorem checkDeclared_cons {k : Value} {s : Schema} {ks : List (Value × Schema)} {f : Frame} (standard : f.prefs = {})
    {fs es : Dict} (found : find? k es = find? k fs) {a : Result}
    (evaluated : s.eval h ((find? k fs).getD .undefined) (f.site.child (.dict es) k) {} = pure a) :
    checkDeclared f (Schema.evalKeyList h ((k, s) :: ks)) es [] =
      if a.errors.isEmpty then checkDeclared f (Schema.evalKeyList h ks)
        (settle ⟨k, s.strips, s.eval h⟩ ((find? k fs).getD .undefined) a.value es) []
      else pure (es, a.errors, true) := by
  rw [Schema.evalKeyList, checkDeclared, standard, found]
  show (s.eval h _ _ {} >>= _) = _
  rw [evaluated, pure_bind]
  rfl

theorem checkDeclared_ran {ts : List (Term × Term)} {ks : List (Value × Schema)} (means : Schema.MeanEach h ts ks)
    (apart : ks.Pairwise fun a b => sameKey a.1 b.1 = false) {f : Frame} (standard : f.prefs = {}) {fs es : Dict}
    (sound : (dict fs).isSound) (stands : List.Forall₂ StandsUnder fs es)
    (same : ∀ e ∈ ks, find? e.1 es = find? e.1 fs) :
    ∃ o, checkDeclared f (Schema.evalKeyList h ks) es [] = pure o ∧ Ran ts fs o := by
  induction means generalizing es with
  | nil => exact ⟨_, rfl, .accepted stands (List.forall_mem_nil _)⟩
  | @cons t e ts ks here later ih =>
      obtain ⟨k, s⟩ := e
      obtain ⟨key, means⟩ := here
      obtain rfl : k = t.1.toValue := key
      obtain ⟨found, foundLater⟩ := List.forall_mem_cons.mp same
      obtain ⟨apartHere, apartLater⟩ := List.pairwise_cons.mp apart
      let item := (find? t.1.toValue fs).getD .undefined
      obtain ⟨a, evaluated, settles⟩ :=
        means.settles item (f.site.child (.dict es) t.1.toValue) (isSound_find? sound t.1.toValue)
      rw [checkDeclared_cons standard found evaluated]
      cases clean : a.errors with
      | cons i is =>
          have some : a.errors ≠ [] := clean ▸ List.cons_ne_nil _ _
          have unfit : t.2.fits item = false := by simpa using fun fits => some (settles.accepts.mpr fits)
          exact ⟨_, rfl, .rejected (clean ▸ settles.legible) (List.cons_ne_nil _ _) ⟨t, List.mem_cons_self, unfit⟩⟩
      | nil =>
          have kept : item.Stands a.value := settles.keeps clean
          have named : ∀ j ∈ es.map Prod.fst, j.isProper := by
            rw [map_fst_stands stands]
            exact List.forall_mem_map.mpr fun e member => isProper_of_isSound (isSound_entry sound member).1
          let c : KeyCheck := ⟨t.1.toValue, s.strips, s.eval h⟩
          -- Under the keys to come there is still what was there at first, for they are other keys.
          have untouched : ∀ e ∈ ks, find? e.1 (settle c item a.value es) = find? e.1 fs := by
            intro e member
            have other : sameKey t.1.toValue e.1 = false := apartHere e member
            exact (find?_settle_apart (proper_parted named other) fun _ _ => other).trans (foundLater e member)
          obtain ⟨o, ran, result⟩ :=
            ih apartLater (stands_settle (c := c) means.delivers stands kept) untouched
          refine ⟨o, ran, ?_⟩
          have fits : t.2.fits item := settles.accepts.mp clean
          cases result with
          | accepted stands fit => exact .accepted stands (List.forall_mem_cons.mpr ⟨fits, fit⟩)
          | rejected legible some unfit =>
              obtain ⟨t', member, unfit⟩ := unfit
              exact .rejected legible some ⟨t', List.mem_cons_of_mem _ member, unfit⟩

theorem base_settles {ts : List (Term × Term)} {ks : List (Value × Schema)} (means : Schema.MeanEach h ts ks)
    (template : (Term.toValue (.dict ts)).isSound) {f : Frame} (standard : f.prefs = {}) {fs : Dict}
    (sound : (dict fs).isSound) :
    ∃ a : Outcome, base none (some (Schema.evalKeyList h ks)) f (.dict fs) = pure (some a) ∧
      Term.Settles (.dict ts) (.dict fs) ⟨a.value, a.errors⟩ := by
  obtain ⟨apart, parts⟩ := Term.isSound_dict_toValue template
  have fits : Term.fits (.dict ts) (.dict fs) ↔ _ := Term.describes_keywise template sound
  obtain ⟨o, ran, result⟩ :=
    checkDeclared_ran means (means.apart apart) standard sound (standsUnder_self sound) fun _ _ => rfl
  have based : base none (some (Schema.evalKeyList h ks)) f (.dict fs) =
      checkDeclared f (Schema.evalKeyList h ks) fs [] >>= fun o =>
        if o.2.2 then pure (some ⟨.dict o.1, o.2.1⟩)
        else pure (some (checkStrangers none (Schema.evalKeyList h ks) f o.1 o.2.1)) := rfl
  rw [based, ran, pure_bind]
  cases result with
  | rejected legible some unfit =>
      obtain ⟨t, member, unfit⟩ := unfit
      refine ⟨_, rfl, legible, iff_of_false some fun all => ?_, fun clean => absurd clean some⟩
      exact Bool.false_ne_true (unfit.symm.trans ((fits.mp all).1 t member))
  | @accepted gs stands fit =>
      refine ⟨_, rfl, ?_⟩
      rw [checkStrangers_standard standard]
      have known : (∀ f ∈ fs, ∃ t ∈ ts, sameKey t.1.toValue f.1) ↔
          ∀ g ∈ gs, isKnown (Schema.evalKeyList h ks) g.1 := by
        have same : (∀ j ∈ fs.map Prod.fst, declares ks j) ↔ ∀ j ∈ gs.map Prod.fst, declares ks j := by
          rw [map_fst_stands stands]
        simp only [List.forall_mem_map, means.declares_iff] at same
        simpa only [isKnown_declares, means.declares_iff] using same
      cases strangers : gs.filter fun e => !isKnown (Schema.evalKeyList h ks) e.1 with
      | nil =>
          have all : ∀ g ∈ gs, isKnown (Schema.evalKeyList h ks) g.1 := by simpa using strangers
          exact ⟨.nil, iff_of_true rfl (fits.mpr ⟨fit, known.mpr all⟩), fun _ => stands_dict sound stands⟩
      | cons g rest =>
          have inside : g ∈ gs.filter fun e => !isKnown (Schema.evalKeyList h ks) e.1 := strangers ▸ List.mem_cons_self
          obtain ⟨member, stranger⟩ := List.mem_filter.mp inside
          have plain : f.prefs.messages = [] := by rw [standard]
          refine ⟨Issue.legible_reportAt plain _ _ _ (List.forall_mem_singleton.mpr rfl),
            iff_of_false (List.cons_ne_nil _ _) fun all => ?_, nofun⟩
          rw [known.mp (fits.mp all).2 g member] at stranger
          cases stranger

end Keys

namespace Schema

end Schema

end Conform
