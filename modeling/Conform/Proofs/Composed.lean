import Conform.Proofs.Overrides
import Conform.Proofs.Requests
import Conform.Proofs.Schema.Built
import Conform.Proofs.Schema.Laws

/-!
# Overrides on top of overrides

A node keeps one override, to which its builders add. Under preferences that come to the node this override says
what its parts would say one after the other, with one exception: of the messages in the parts only the last ones
are kept, where preferences that are merged one after the other keep them all.
-/

namespace Conform

/-! ## Reading entries by texts -/

namespace Datum

variable {α β : Type} [BEq α]

theorem find?_append (k : Datum α) (es fs : List (Datum α × β)) :
    find? k (es ++ fs) = (find? k es).or (find? k fs) := by
  induction es with
  | nil => rfl
  | cons e es ih =>
      obtain ⟨j, v⟩ := e
      rw [List.cons_append, find?, find?, ih]
      split <;> rfl

theorem find?_insert_text (s : String) (j : Datum α) (v : β) (es : List (Datum α × β)) :
    find? (str s) (insert j v es) = if sameKey j (str s) then some v else find? (str s) es := by
  by_cases same : sameKey j (str s)
  · rw [if_pos same, sameKey_str.mp same, find?_insert_self fun _ => sameKey_str.mpr rfl]
  · rw [if_neg same]
    refine find?_insert_apart (fun i _ own => ?_) (fun _ => by simpa using same) v
    by_contra text
    rw [Bool.not_eq_false, sameKey_str] at text
    subst text
    have back : j = str s := by
      cases j <;> simp_all [sameKey]
    exact same (sameKey_str.mpr back)

/-- A merge says of a text what the second entries say last, and what the first ones say where these are silent. -/
theorem find?_mergeEntries (s : String) (es fs : List (Datum α × β)) :
    find? (str s) (mergeEntries es fs) = (find? (str s) fs.reverse).or (find? (str s) es) := by
  unfold mergeEntries
  induction fs generalizing es with
  | nil => rfl
  | cons f fs ih =>
      rw [List.foldl_cons, ih, find?_insert_text, List.reverse_cons, find?_append, Option.or_assoc]
      congr 1
      obtain ⟨j, v⟩ := f
      rw [find?]
      split <;> rfl

theorem find?_eq_none {k : Datum α} {es : List (Datum α × β)} :
    find? k es = none ↔ ∀ e ∈ es, sameKey e.1 k = false := by
  induction es with
  | nil => simp [find?]
  | cons e es ih =>
      obtain ⟨j, v⟩ := e
      rw [find?, List.forall_mem_cons]
      split <;> simp_all

theorem find?_reverse_eq_none (k : Datum α) (es : List (Datum α × β)) :
    find? k es.reverse = none ↔ find? k es = none := by
  simp only [find?_eq_none, List.mem_reverse]

theorem insert_missed {k : Datum α} {es : List (Datum α × β)} (missed : find? k es = none) (v : β) :
    insert k v es = es ++ [(k, v)] := by
  induction es with
  | nil => rfl
  | cons e es ih =>
      obtain ⟨j, w⟩ := e
      rw [find?] at missed
      split at missed
      · cases missed
      · rename_i different
        rw [insert, if_neg different, ih missed, List.cons_append]

end Datum

/-! ## Options -/

theorem LabelStyle.name_injective {a b : LabelStyle} (same : a.name = b.name) : a = b := by
  cases a <;> cases b <;> first | rfl | exact absurd same (by decide)

theorem Presence.name_injective {a b : Presence} (same : a.name = b.name) : a = b := by
  cases a <;> cases b <;> first | rfl | exact absurd same (by decide)

namespace Preferences

variable {name : String} {type : OptionType} {v : Value} {p q : Preferences} {o : Dict} {e : Value × Value}

/-- The value of an option. -/
def read (name : String) (p : Preferences) : Option Value := Datum.find? (.str name) p.toDict

/-- The messages that an override names, if it does. -/
def messagesOf? (o : Dict) : Option Dict :=
  match Datum.find? (.str "messages") o with
  | some (.dict es) => some es
  | _ => none

theorem toDict_injective (same : p.toDict = q.toDict) : p = q := by
  obtain ⟨a, b, c, d, e, f, g, h, i, j, k, l, m⟩ := p
  obtain ⟨a', b', c', d', e', f', g', h', i', j', k', l', m'⟩ := q
  simp only [toDict, List.cons.injEq, Prod.mk.injEq, Datum.bool.injEq, Datum.str.injEq, Datum.dict.injEq,
    true_and, and_true] at same
  obtain ⟨rfl, rfl, rfl, context, rfl, style, rfl, language, rfl, rfl, presence, rfl, rfl⟩ := same
  obtain rfl := LabelStyle.name_injective style
  obtain rfl := Presence.name_injective presence
  have contexts : d = d' := by cases d <;> cases d' <;> simp_all
  have languages : h = h' := by cases h <;> cases h' <;> simp_all
  rw [contexts, languages]

theorem toDict_eq (p : Preferences) :
    p.toDict = options.map fun o => (.str o.1, (p.read o.1).getD .undefined) := rfl

/-- Preferences that agree in the options other than the messages differ in their messages at most. -/
theorem eq_apart_from_messages (same : ∀ name, name ≠ "messages" → p.read name = q.read name) :
    p = { q with messages := p.messages } := by
  refine toDict_injective ?_
  rw [toDict_eq, toDict_eq]
  refine List.map_congr_left fun o member => ?_
  by_cases messages : o.1 = "messages"
  · rw [messages]
    rfl
  · have others : ({ q with messages := p.messages } : Preferences).read o.1 = q.read o.1 := by
      have replaced : ({ q with messages := p.messages } : Preferences).toDict =
          Datum.insert (.str "messages") (.dict p.messages) q.toDict := rfl
      have different : ¬ Datum.sameKey (.str "messages" : Value) (.str o.1) := fun same =>
        messages (Datum.str.inj (Datum.sameKey_str.mp same)).symm
      rw [read, replaced, Datum.find?_insert_text, if_neg different, read]
    rw [others, same o.1 messages]

/-- The values that an option of a type takes. -/
def OptionType.Takes : OptionType → Value → Prop
  | .flag, v => ∃ b, v = .bool b
  | .choice names, v => ∃ s ∈ names, v = .str s
  | .textOrNull, v => v = .null ∨ ∃ s, v = .str s
  | .dictOrNull, v => v = .null ∨ ∃ es, v = .dict es
  | .messages, v => ∃ es, v = .dict es

theorem takes_of_fine (fine : optionMistakes name v type = []) : type.Takes v := by
  cases type <;> cases v <;>
    simp_all [optionMistakes, OptionType.Takes, Datum.isBool, Datum.isText, Datum.isNull, Datum.isDict]

theorem toDict_setOption (known : (name, type) ∈ options) (takes : type.Takes v) (other : name ≠ "messages")
    (p : Preferences) : (p.setOption name v).toDict = Datum.insert (.str name) v p.toDict := by
  simp only [options, List.mem_cons, List.not_mem_nil, or_false, Prod.mk.injEq] at known
  -- one case for each option; what its type takes decides which value is set
  rcases known with ⟨rfl, rfl⟩ | ⟨rfl, rfl⟩ | ⟨rfl, rfl⟩ | ⟨rfl, rfl⟩ | ⟨rfl, rfl⟩ | ⟨rfl, rfl⟩ | ⟨rfl, rfl⟩ |
    ⟨rfl, rfl⟩ | ⟨rfl, rfl⟩ | ⟨rfl, rfl⟩ | ⟨rfl, rfl⟩ | ⟨rfl, rfl⟩ | ⟨rfl, rfl⟩
  all_goals first
    | exact absurd rfl other
    | (obtain ⟨b, rfl⟩ := takes; rfl; done)
    | (obtain rfl | ⟨b, rfl⟩ := takes <;> rfl)
    | (obtain ⟨s, member, rfl⟩ := takes
       simp only [List.mem_cons, List.not_mem_nil, or_false] at member
       obtain rfl | rfl := member <;> rfl)
    | (obtain ⟨s, member, rfl⟩ := takes
       simp only [List.mem_cons, List.not_mem_nil, or_false] at member
       obtain rfl | rfl | rfl := member <;> rfl)

theorem Admits.takes (admits : Admits e) :
    ∃ name type, e.1 = .str name ∧ (name, type) ∈ options ∧ type.Takes e.2 := by
  obtain ⟨name, type, key, -, known, fine⟩ := admits
  obtain ⟨before, after, split, -⟩ := List.lookup_eq_some_iff.mp known
  exact ⟨name, type, key, by simp [split], takes_of_fine fine⟩

theorem Admits.messages {name : String} (admits : Admits e) (key : e.1 = .str name) (messages : name = "messages") :
    ∃ es, e.2 = .dict es := by
  obtain ⟨name', type, key', known, takes⟩ := admits.takes
  obtain rfl : name = name' := Datum.str.inj (key.symm.trans key')
  subst messages
  simp only [options, List.mem_cons, List.not_mem_nil, or_false, Prod.mk.injEq] at known
  obtain rfl : type = .messages := by simpa using known
  exact takes

theorem read_setEntry (admits : Admits e) (other : name ≠ "messages") (p : Preferences) :
    (p.setEntry e).read name = if Datum.sameKey e.1 (.str name) then some e.2 else p.read name := by
  obtain ⟨own, type, key, known, takes⟩ := admits.takes
  have set : p.setEntry e = p.setOption own e.2 := by rw [setEntry, key]
  by_cases messages : own = "messages"
  · obtain ⟨es, value⟩ := admits.messages key messages
    subst messages
    have replaced : (p.setOption "messages" (.dict es)).toDict =
        Datum.insert (.str "messages") (.dict (Datum.mergeEntries p.messages es)) p.toDict := rfl
    have different : ¬ Datum.sameKey (.str "messages" : Value) (.str name) := fun same =>
      other (Datum.str.inj (Datum.sameKey_str.mp same)).symm
    rw [set, value, read, replaced, Datum.find?_insert_text, if_neg different, key, if_neg different, read]
  · rw [set, read, toDict_setOption known takes messages, Datum.find?_insert_text, key, read]

/-- An override says of an option other than the messages what it says last. -/
theorem read_setEntries (admits : ∀ e ∈ o, Admits e) (other : name ≠ "messages") (p : Preferences) :
    (o.foldl setEntry p).read name = (Datum.find? (.str name) o.reverse).or (p.read name) := by
  induction o generalizing p with
  | nil => rfl
  | cons e o ih =>
      obtain ⟨here, rest⟩ := List.forall_mem_cons.mp admits
      rw [List.foldl_cons, ih rest, read_setEntry here other, List.reverse_cons, Datum.find?_append, Option.or_assoc]
      congr 1
      obtain ⟨j, v⟩ := e
      rw [Datum.find?]
      split <;> rfl

/-! ## Overrides with distinct names -/

theorem find?_of_nodup_cons {name : String} {v : Value} {o : Dict}
    (distinct : (((.str name, v) :: o).map Prod.fst).Nodup) : Datum.find? (.str name) o = none := by
  cases found : Datum.find? (.str name) o with
  | none => rfl
  | some w => exact absurd (List.mem_map_of_mem (f := Prod.fst) (find?_text found)) (List.nodup_cons.mp distinct).1

theorem find?_reverse {o : Dict} (distinct : (o.map Prod.fst).Nodup) (name : String) :
    Datum.find? (.str name) o.reverse = Datum.find? (.str name) o := by
  induction o with
  | nil => rfl
  | cons e o ih =>
      obtain ⟨j, v⟩ := e
      rw [List.reverse_cons, Datum.find?_append, ih (List.nodup_cons.mp distinct).2]
      by_cases same : Datum.sameKey j (.str name)
      · obtain rfl := Datum.sameKey_str.mp same
        simp [Datum.find?, find?_of_nodup_cons distinct, same]
      · simp [Datum.find?, same]

theorem nodup_insert {o : Dict} (distinct : (o.map Prod.fst).Nodup) (name : String) (v : Value) :
    ((Datum.insert (.str name) v o).map Prod.fst).Nodup := by
  induction o with
  | nil => simp [Datum.insert]
  | cons e o ih =>
      obtain ⟨j, w⟩ := e
      rw [Datum.insert]
      split
      · exact distinct
      · rename_i different
        rw [List.map_cons, List.nodup_cons] at distinct ⊢
        refine ⟨fun member => ?_, ih distinct.2⟩
        obtain ⟨d, inside, key⟩ := List.mem_map.mp member
        rcases mem_insert_text inside with old | rfl
        · exact distinct.1 (key ▸ List.mem_map_of_mem old)
        · exact different (Datum.sameKey_str.mpr key.symm)

theorem nodup_mergeEntries {o a : Dict} (distinct : (o.map Prod.fst).Nodup) (admits : ∀ e ∈ a, Admits e) :
    ((Datum.mergeEntries o a).map Prod.fst).Nodup := by
  unfold Datum.mergeEntries
  induction a generalizing o with
  | nil => exact distinct
  | cons e a ih =>
      obtain ⟨here, rest⟩ := List.forall_mem_cons.mp admits
      obtain ⟨name, type, key, -⟩ := here.takes
      refine ih ?_ rest
      simp only [key]
      exact nodup_insert distinct name e.2

/-- The last of two overrides on top of each other decides. -/
theorem find?_overrides {o a : Dict} (distinct : (a.map Prod.fst).Nodup) (name : String) :
    Datum.find? (.str name) (Datum.mergeEntries o a) = (Datum.find? (.str name) a).or (Datum.find? (.str name) o) := by
  rw [Datum.find?_mergeEntries, find?_reverse distinct]

/-- Valid entries with distinct names. -/
structure Override (o : Dict) : Prop where
  admits : ∀ e ∈ o, Admits e
  distinct : (o.map Prod.fst).Nodup

namespace Override

variable {a b : Dict}

theorem tail (override : Override (e :: o)) : Override o :=
  ⟨(List.forall_mem_cons.mp override.admits).2, (List.nodup_cons.mp override.distinct).2⟩

theorem nil : Override [] := ⟨List.forall_mem_nil _, List.nodup_nil⟩

theorem merge (below : Override a) (above : Override b) : Override (Datum.mergeEntries a b) :=
  ⟨admits_merge below.admits above.admits, nodup_mergeEntries below.distinct above.admits⟩

theorem read (override : Override o) (other : name ≠ "messages") (p : Preferences) :
    (o.foldl setEntry p).read name = (Datum.find? (.str name) o).or (p.read name) := by
  rw [read_setEntries override.admits other, find?_reverse override.distinct]

/-- The messages of an override extend those before, and there are none to extend them where it names none. -/
theorem messages (override : Override o) (p : Preferences) :
    (o.foldl setEntry p).messages = Datum.mergeEntries p.messages ((messagesOf? o).getD []) := by
  induction o generalizing p with
  | nil => rfl
  | cons e o ih =>
      have here := override.admits e (by simp)
      obtain ⟨j, v⟩ := e
      obtain ⟨name, type, key, context, known, -⟩ := id here
      obtain rfl : j = .str name := key
      rw [List.foldl_cons, ih override.tail, messagesOf?, messagesOf?, Datum.find?]
      by_cases messages : name = "messages"
      · obtain ⟨es, value⟩ := Admits.messages here rfl messages
        obtain rfl : v = .dict es := value
        subst messages
        rw [if_pos (Datum.sameKey_str.mpr rfl), find?_of_nodup_cons override.distinct]
        rfl
      · have different : ¬ Datum.sameKey (.str name : Value) (.str "messages") := fun same =>
          messages (Datum.str.inj (Datum.sameKey_str.mp same))
        rw [if_neg different]
        congr 1
        exact (setOption_keeps p v messages context).1

theorem messagesOf?_merge (above : Override b) (a : Dict) :
    messagesOf? (Datum.mergeEntries a b) = (messagesOf? b).or (messagesOf? a) := by
  unfold messagesOf?
  rw [find?_overrides above.distinct]
  cases found : Datum.find? (.str "messages") b with
  | none => rfl
  | some v =>
      obtain ⟨es, rfl⟩ := Admits.messages (above.admits _ (find?_text found)) rfl rfl
      rfl

theorem mergeEntries_apart (above : Override b) (distinct : ((a ++ b).map Prod.fst).Nodup) :
    Datum.mergeEntries a b = a ++ b := by
  induction b generalizing a with
  | nil => exact (List.append_nil a).symm
  | cons e b ih =>
      obtain ⟨name, type, key, -⟩ := (above.admits e (by simp)).takes
      obtain ⟨j, v⟩ := e
      obtain rfl : j = .str name := key
      have missed : Datum.find? (.str name) a = none := by
        cases found : Datum.find? (.str name) a with
        | none => rfl
        | some w =>
            rw [List.map_append, List.nodup_append] at distinct
            exact absurd rfl (distinct.2.2 _ (List.mem_map_of_mem (f := Prod.fst) (find?_text found)) _ (by simp))
      have rest := ih (a := a ++ [(.str name, v)]) above.tail (by simpa using distinct)
      rw [List.append_assoc, List.singleton_append] at rest
      rw [← rest, Datum.mergeEntries, List.foldl_cons, Datum.insert_missed missed]
      rfl

theorem mergeEntries_nil (override : Override b) : Datum.mergeEntries [] b = b :=
  override.mergeEntries_apart override.distinct

end Override

end Preferences

/-! ## Overrides of nodes -/

namespace Core

variable {kind : Kind} {core : Core}

/-- What a node overrides. -/
def overrides (core : Core) : Dict := core.prefs.getD []

theorem overrides_mergeCore {own source c : Core} (runs : Schema.mergeCore kind own source = .ok c) :
    c.overrides = Datum.mergeEntries own.overrides source.overrides := by
  obtain ⟨renewed, ran, runs⟩ := bind_eq_ok.mp runs
  obtain ⟨_, -, runs⟩ := bind_eq_ok.mp runs
  obtain ⟨_, -, runs⟩ := bind_eq_ok.mp runs
  obtain rfl := Except.ok.inj runs
  have same : renewed.prefs = own.prefs := (renewed_agrees own renewed ran).prefs
  unfold overrides
  simp only [same]
  rcases source.prefs with _ | _ | ⟨e, es⟩ <;> rfl

theorem renewed_renewed {c d : Core} (renews : c.renewed = .ok d) {o : Option Dict} :
    ({ d with prefs := o } : Core).renewed = .ok { d with prefs := o } := by
  unfold renewed at renews ⊢
  cases store : c.cache with
  | none =>
      obtain rfl : c = d := by simpa [store, pure, Except.pure] using renews
      simp [store]
      rfl
  | some store' =>
      cases store' with
      | unfit => simp [store, ResultStore.renewed] at renews
      | cache slot =>
          obtain rfl : _ = d := by simpa [store, ResultStore.renewed, pure, Except.pure, bind, Except.bind] using renews
          rfl

theorem renewed_of_cache {c d : Core} (same : d.cache = c.cache) (whole : c.renewed = .ok c) : d.renewed = .ok d := by
  unfold renewed at whole ⊢
  cases store : c.cache with
  | none =>
      rw [same, store]
      rfl
  | some kept =>
      simp only [store] at whole
      cases kept with
      | unfit => simp [ResultStore.renewed, bind, Except.bind] at whole
      | cache slot =>
          have itself : some (ResultStore.cache slot.renewed) = d.cache := by
            rw [same]
            exact congrArg Core.cache (Except.ok.inj whole)
          have kept : d.cache = some (.cache slot) := same.trans store
          rw [kept]
          show Except.ok { d with cache := some (.cache slot.renewed) } = _
          rw [itself]

theorem Made.override (made : core.Made kind) : Preferences.Override core.overrides := by
  induction made with
  | bare => exact .nil
  | setting _ agrees ih => rwa [overrides, agrees.prefs]
  | allow _ runs ih => rwa [overrides, (allow_keeps runs).2]
  | deny _ runs ih => rwa [overrides, (deny_keeps runs).2]
  | prefs _ distinct context _ checked ih =>
      exact ih.merge ⟨Preferences.admits_of_check checked distinct context, distinct⟩
  | rule _ _ _ _ ih => exact ih
  | amend _ _ _ _ ih => exact ih
  | merge _ _ _ runs first second => exact overrides_mergeCore runs ▸ first.merge second

/-- No node says whether hooks run. -/
theorem Made.leaves_externals (made : core.Made kind) : Datum.hasKey (.str "externals") core.overrides = false := by
  have merged {a b : Dict} (first : Datum.hasKey (.str "externals") a = false)
      (second : Datum.hasKey (.str "externals") b = false) :
      Datum.hasKey (.str "externals") (Datum.mergeEntries a b) = false := by
    unfold Datum.hasKey at first second ⊢
    rw [Option.isSome_eq_false_iff, Option.isNone_iff_eq_none] at first second ⊢
    rw [Datum.find?_mergeEntries, (Datum.find?_reverse_eq_none _ _).mpr second, first]
    rfl
  induction made with
  | bare => rfl
  | setting _ agrees ih => rwa [overrides, agrees.prefs]
  | allow _ runs ih => rwa [overrides, (allow_keeps runs).2]
  | deny _ runs ih => rwa [overrides, (deny_keeps runs).2]
  | prefs _ _ _ externals _ ih => exact merged ih externals
  | rule _ _ _ _ ih => exact ih
  | amend _ _ _ _ ih => exact ih
  | merge _ _ _ runs first second => exact overrides_mergeCore runs ▸ merged first second

end Core

/-- The node of a type before anything is said of it. -/
def Kind.bare : Kind → Schema
  | .any => .any
  | .boolean => .boolean
  | .number => .number
  | .string => .string
  | .array => .array
  | .object => .object
  | .alternatives => .alternatives
  | .probe => .probe

namespace Schema

variable {s s' : Schema} {a b : Dict} {p : Preferences}

theorem merged_eq (override : Preferences.Override s.core.overrides) (p : Preferences) :
    s.merged p = .ok (s.core.overrides.foldl Preferences.setEntry p) := by
  unfold merged
  unfold Core.overrides at override ⊢
  cases own : s.core.prefs with
  | none => rfl
  | some o => exact Preferences.merge_of_admits (by simpa [own] using override.admits) p

theorem absent_of_require {k : Value} {message : String} {u : Unit}
    (required : require (!Datum.hasKey k a) message = .ok u) : Datum.hasKey k a = false := by
  cases here : Datum.hasKey k a with
  | false => rfl
  | true => simp [require, here] at required

/-- An override that a node takes is valid, and comes on top of its own. -/
theorem prefs_eq_ok (runs : s.prefs a = .ok s') (distinct : (a.map Prod.fst).Nodup) :
    Preferences.Override a ∧ s'.core.overrides = Datum.mergeEntries s.core.overrides a ∧
      s'.core.renewed = .ok s'.core ∧ s'.content = s.content := by
  obtain ⟨_, context, runs⟩ := bind_eq_ok.mp runs
  obtain ⟨_, -, runs⟩ := bind_eq_ok.mp runs
  obtain ⟨_, -, runs⟩ := bind_eq_ok.mp runs
  obtain ⟨⟨⟩, checked, runs⟩ := bind_eq_ok.mp runs
  obtain ⟨core, renews, runs⟩ := bind_eq_ok.mp runs
  obtain rfl := Except.ok.inj runs
  refine ⟨⟨Preferences.admits_of_check checked distinct (absent_of_require context), distinct⟩, ?_, ?_, rfl⟩
  · have same : core.prefs = s.core.prefs := (Core.renewed_agrees _ core renews).prefs
    show Datum.mergeEntries (core.prefs.getD []) a = Datum.mergeEntries (s.core.prefs.getD []) a
    rw [same]
  · exact Core.renewed_renewed renews


/-- A node without a cache takes each valid override. -/
theorem prefs_of_override (override : Preferences.Override a)
    (externals : Datum.hasKey (.str "externals") a = false) (warnings : Datum.hasKey (.str "warnings") a = false)
    (fresh : s.core.cache = none) : s.prefs a =
      .ok (node { s.core with prefs := some (Datum.mergeEntries s.core.overrides a) } s.empty? s.content) := by
  have renewed : s.core.renewed = .ok s.core := by
    unfold Core.renewed
    rw [fresh]
    rfl
  simp only [prefs, Preferences.context_of_admits override.admits, externals, warnings,
    Preferences.check_of_admits override.admits, change, change?, renewed]
  rfl

theorem prefs_bare (taken : s.prefs b = .ok s') (override : Preferences.Override b) (kind : Kind) :
    kind.bare.prefs b = .ok (node { prefs := some b } none kind.bare.content) := by
  obtain ⟨_, context, taken⟩ := bind_eq_ok.mp taken
  obtain ⟨_, externals, taken⟩ := bind_eq_ok.mp taken
  obtain ⟨_, warnings, taken⟩ := bind_eq_ok.mp taken
  have bare := prefs_of_override (s := kind.bare) override (absent_of_require externals) (absent_of_require warnings)
    (by cases kind <;> rfl)
  rw [bare, show kind.bare.core.overrides = [] from by cases kind <;> rfl, override.mergeEntries_nil]
  cases kind <;> rfl

/-- A merge with a bare node of the type that overrides preferences comes on top like the override. -/
theorem concat_bare (formed : s.content.Formed) (renewed : s.core.renewed = .ok s.core) (serial : Nat) :
    ∃ u, s.concat (.leaf (.schema serial (node { prefs := some b } none s.kind.bare.content))) = .ok u ∧
      u.core.overrides = Datum.mergeEntries s.core.overrides b := by
  let t := node { prefs := some b } none s.kind.bare.content
  obtain ⟨core, merges, cache⟩ : ∃ core, mergeCore s.kind s.core t.core = .ok core ∧ core.cache = s.core.cache := by
    simp only [mergeCore, renewed]
    exact ⟨_, rfl, rfl⟩
  have again : core.renewed = .ok core := Core.renewed_of_cache cache renewed
  have kinds : (s.kind = t.kind || t.kind = .any) = true := by
    have same : s.kind = t.kind := by
      show s.kind = s.kind.bare.content.kind
      cases s.kind <;> rfl
    simp [← same]
  obtain ⟨chain, content, chains, contents, counted⟩ : ∃ chain content, chainAfter s.content t.content = .ok chain ∧
      mergeContent s.content t.content chain = .ok content ∧
      ∀ es chain m, content = .alternatives es chain (some m) → ∀ e ∈ es, e.isAttempt := by
    obtain ⟨core, empty, content⟩ := s
    cases content with
    | object ks => cases ks <;> exact ⟨_, _, rfl, rfl, nofun⟩
    | boolean a b => cases a <;> cases b <;> exact ⟨_, _, rfl, rfl, nofun⟩
    | alternatives es chain mode =>
        refine ⟨chain, .alternatives (es ++ []) chain mode, rfl, rfl, ?_⟩
        rintro _ _ m ⟨⟩
        rw [List.append_nil]
        exact formed
    | _ => exact ⟨_, _, rfl, rfl, nofun⟩
  refine ⟨node core (t.empty? <|> s.empty?) content, ?_, Core.overrides_mergeCore merges⟩
  refine bind_eq_ok.mpr ⟨chain, chains, ?_⟩
  refine bind_eq_ok.mpr ⟨(), if_pos kinds, ?_⟩
  refine bind_eq_ok.mpr ⟨core, merges, ?_⟩
  refine bind_eq_ok.mpr ⟨content, contents, ?_⟩
  refine bind_eq_ok.mpr ⟨core, again, ?_⟩
  split
  · exact bind_eq_ok.mpr ⟨(), if_pos (List.all_eq_true.mpr (counted _ _ _ rfl)), rfl⟩
  · rfl

/-! ## What a node remembers -/

/-- What a node answers when it is asked for the preferences under which it checks, and what it remembers then: its
answer for the shared defaults, which are asked for as `none`. -/
def ask (s : Schema) (memo : Option Preferences) : Option Preferences → Except Fault Preferences × Option Preferences
  | some p => (s.merged p, memo)
  | none =>
    match memo with
    | some q => (.ok q, memo)
    | none => (s.merged {}, (s.merged {}).toOption)

/-- What a node remembers after it was asked for preferences in turn; a new node remembers nothing. -/
def remembered (s : Schema) (calls : List (Option Preferences)) : Option Preferences :=
  calls.foldl (fun memo x => (s.ask memo x).2) none

/-- What is remembered is what the node answers for the shared defaults. -/
def Recalls (s : Schema) (memo : Option Preferences) : Prop :=
  ∀ q, memo = some q → s.merged {} = .ok q

theorem Recalls.ask {memo : Option Preferences} (recalls : s.Recalls memo) (x : Option Preferences) :
    s.Recalls (s.ask memo x).2 := by
  cases x with
  | some p => simpa only [Schema.ask] using recalls
  | none =>
      cases memo with
      | some r => simpa only [Schema.ask] using recalls
      | none =>
          intro q told
          cases answer : s.merged {} with
          | error e => simp [Schema.ask, answer, Except.toOption] at told
          | ok r =>
              obtain rfl : r = q := by simpa [Schema.ask, answer, Except.toOption] using told
              rfl

theorem recalls_remembered (s : Schema) (calls : List (Option Preferences)) : s.Recalls (s.remembered calls) := by
  have later : ∀ (calls : List (Option Preferences)) (memo : Option Preferences), s.Recalls memo →
      s.Recalls (calls.foldl (fun memo x => (s.ask memo x).2) memo) := by
    intro calls
    induction calls with
    | nil => exact fun _ recalls => recalls
    | cons x calls ih => exact fun _ recalls => ih _ (recalls.ask x)
  exact later calls none fun _ told => nomatch told

/-- What is remembered never goes stale. -/
theorem ask_remembered (s : Schema) (calls : List (Option Preferences)) (x : Option Preferences) :
    (s.ask (s.remembered calls) x).1 = s.merged (x.getD {}) := by
  cases x with
  | some p => rfl
  | none =>
      cases memo : s.remembered calls with
      | none => rfl
      | some q =>
          rw [ask, Option.getD_none, recalls_remembered s calls q memo]

end Schema

/-! ## Composition -/

namespace Preferences

variable {a b c : Dict}

/-- One override made of several leaves what they leave in turn, apart from the messages. -/
theorem Override.foldl_merge (own : Override c) (first : Override a) (second : Override b) (p : Preferences) :
    let m := (Datum.mergeEntries (Datum.mergeEntries c a) b).foldl setEntry p
    m = { b.foldl setEntry (a.foldl setEntry (c.foldl setEntry p)) with messages := m.messages } := by
  refine eq_apart_from_messages fun name other => ?_
  rw [((own.merge first).merge second).read other, second.read other, first.read other, own.read other,
    find?_overrides second.distinct, find?_overrides first.distinct, Option.or_assoc, Option.or_assoc]

/-- The messages that one override made of several keeps. -/
def lastMessages (c a b : Dict) : Dict := ((messagesOf? b).or ((messagesOf? a).or (messagesOf? c))).getD []

/-- The messages agree with those that the overrides leave in turn, exactly if these say of a code that the last
override with messages leaves out what was said before. -/
theorem Override.messages_merge (own : Override c) (first : Override a) (second : Override b) (p : Preferences) :
    let m := (Datum.mergeEntries (Datum.mergeEntries c a) b).foldl setEntry p
    let q := b.foldl setEntry (a.foldl setEntry (c.foldl setEntry p))
    (∀ code, Datum.find? (.str code) m.messages = Datum.find? (.str code) q.messages) ↔
      ∀ code, Datum.find? (.str code) (lastMessages c a b) = none →
        Datum.find? (.str code) q.messages = Datum.find? (.str code) p.messages := by
  intro m q
  have kept : m.messages = Datum.mergeEntries p.messages (lastMessages c a b) := by
    rw [((own.merge first).merge second).messages, messagesOf?_merge second, messagesOf?_merge first, lastMessages]
  obtain ⟨before, all⟩ : ∃ before, q.messages = Datum.mergeEntries before (lastMessages c a b) := by
    have turns := (second.messages (a.foldl setEntry (c.foldl setEntry p)))
    rw [first.messages, own.messages] at turns
    rw [turns, lastMessages]
    cases messagesOf? b with
    | some es => exact ⟨_, rfl⟩
    | none =>
        cases messagesOf? a with
        | some es => exact ⟨_, rfl⟩
        | none => exact ⟨_, rfl⟩
  refine forall_congr' fun code => ?_
  rw [kept, all, Datum.find?_mergeEntries, Datum.find?_mergeEntries, ← Datum.find?_reverse_eq_none]
  cases Datum.find? (.str code) (lastMessages c a b).reverse <;> simp [eq_comm]

end Preferences

/-- A node that is asked to check under the first preferences asks for its parts under the second ones. -/
def Schema.HandsOn (s : Schema) (p m : Preferences) : Prop :=
  ∀ (h : Hooks) (c d : Request) (role : Role), c.schema = s → c.prefs = p → c.Leads h role d → d.prefs = role.prefs m

theorem Schema.handsOn {s : Schema} {p m : Preferences} (merged : s.merged p = .ok m) : s.HandsOn p m := by
  rintro h c d role rfl rfl leads
  obtain ⟨q, same, prefs⟩ := leads.prefs
  obtain rfl := Except.ok.inj (merged.symm.trans same)
  exact prefs

/-- Whatever it was asked before, a node that overrides preferences twice, itself or by a merge with a bare node, checks
its parts under the preferences that come of both overrides one after the other, apart from the messages. The messages
agree exactly if the last override that names some leaves out no code of which the others say something new. -/
theorem overrides_compose {s s₁ s₂ : Schema} {a b : Dict} (built : s.Built) (names : (a.map Prod.fst).Nodup)
    (names' : (b.map Prod.fst).Nodup) (first : s.prefs a = .ok s₁) (second : s₁.prefs b = .ok s₂) (serial : Nat)
    (calls : List (Option Preferences)) (x : Option Preferences) :
    ∃ t u r q m, s.kind.bare.prefs b = .ok t ∧ s₁.concat (.leaf (.schema serial t)) = .ok u ∧
      s.merged (x.getD {}) = .ok r ∧ (r.merge a >>= fun r' => r'.merge b) = .ok q ∧
      (∀ w ∈ [s₂, u], (w.ask (w.remembered calls) x).1 = .ok m ∧ w.HandsOn (x.getD {}) m) ∧
      m = { q with messages := m.messages } ∧
      ((∀ code, Datum.find? (.str code) m.messages = Datum.find? (.str code) q.messages) ↔
        ∀ code, Datum.find? (.str code) (Preferences.lastMessages s.core.overrides a b) = none →
          Datum.find? (.str code) q.messages = Datum.find? (.str code) (x.getD {}).messages) := by
  have own : Preferences.Override s.core.overrides := (built.made s .refl).1.override
  obtain ⟨above, on, whole, content⟩ := Schema.prefs_eq_ok first names
  obtain ⟨above', on', -⟩ := Schema.prefs_eq_ok second names'
  have formed : s₁.content.Formed := content ▸ (built.formed s .refl).content
  have kinds : s₁.kind = s.kind := congrArg Content.kind content
  have bare := Schema.prefs_bare second above' s.kind
  rw [← kinds] at bare ⊢
  obtain ⟨u, merges, on''⟩ := Schema.concat_bare (b := b) formed whole serial
  let all := Datum.mergeEntries (Datum.mergeEntries s.core.overrides a) b
  have overrides : ∀ w ∈ [s₂, u], w.core.overrides = all := by
    simp only [List.forall_mem_cons, List.not_mem_nil, false_implies, implies_true, and_true]
    exact ⟨by rw [on', on], by rw [on'', on]⟩
  have merged : ∀ w ∈ [s₂, u], ∀ p, w.merged p = .ok (all.foldl Preferences.setEntry p) := by
    intro w member p
    have said := overrides w member
    rw [Schema.merged_eq (said ▸ (own.merge above).merge above') p, said]
  refine ⟨_, u, _, _, all.foldl Preferences.setEntry (x.getD {}), bare, merges, Schema.merged_eq own _, ?_,
    fun w member => ⟨?_, Schema.handsOn (merged w member _)⟩, own.foldl_merge above above' _,
    own.messages_merge above above' _⟩
  · rw [Preferences.merge_of_admits above.admits]
    exact Preferences.merge_of_admits above'.admits _
  · rw [Schema.ask_remembered]
    exact merged w member _

/-- Overrides of which only one names messages. -/
theorem strictNumber_composes :
    let a : Dict := [(.str "convert", .bool false), (.str "messages", .dict [(.str "number.base", .str "no number")])]
    let b : Dict := [(.str "convert", .bool true), (.str "presence", .str "required")]
    ∃ s₁ s₂ q m, Schema.number.Built ∧ (a.map Prod.fst).Nodup ∧ (b.map Prod.fst).Nodup ∧ Schema.number.prefs a = .ok s₁ ∧
      s₁.prefs b = .ok s₂ ∧ ((({} : Preferences).merge a) >>= fun p => p.merge b) = .ok q ∧
      (s₂.ask (s₂.remembered [some { convert := false }, none]) none).1 = .ok m ∧ m = { q with messages := m.messages } ∧
      ∀ code, Datum.find? (.str code) m.messages = Datum.find? (.str code) q.messages := by
  intro a b
  have names : (a.map Prod.fst).Nodup := by simp [a]
  have names' : (b.map Prod.fst).Nodup := by simp [b]
  have above : Preferences.Override a := ⟨List.forall_mem_cons.mpr ⟨⟨"convert", _, rfl, by decide, rfl, rfl⟩,
    List.forall_mem_singleton.mpr ⟨"messages", _, rfl, by decide, rfl, rfl⟩⟩, names⟩
  have above' : Preferences.Override b := ⟨List.forall_mem_cons.mpr ⟨⟨"convert", _, rfl, by decide, rfl, rfl⟩,
    List.forall_mem_singleton.mpr ⟨"presence", _, rfl, by decide, rfl, rfl⟩⟩, names'⟩
  have first := Schema.prefs_of_override (s := .number) above rfl rfl rfl
  have second := Schema.prefs_of_override (s := .node { prefs := some a } none .number) above' rfl rfl rfl
  obtain ⟨t, u, r, q, m, -, -, start, turns, each, same, messages⟩ :=
    overrides_compose number_built names names' first second 0 [some { convert := false }, none] none
  obtain rfl : {} = r := Except.ok.inj start
  have once : q = b.foldl Preferences.setEntry (a.foldl Preferences.setEntry {}) := by
    rw [Preferences.merge_of_admits above.admits] at turns
    exact (Except.ok.inj ((Preferences.merge_of_admits above'.admits _).symm.trans turns)).symm
  refine ⟨_, _, q, m, number_built, names, names', first, second, turns, (each _ (by simp)).1, same,
    messages.mpr fun code left => ?_⟩
  rw [once]
  exact left

/-- Messages of the first override do not apply once the second one names others. -/
theorem second_messages_replace :
    let a : Dict := [(.str "messages", .dict [(.str "number.base", .str "no number")])]
    let b : Dict := [(.str "messages", .dict [(.str "any.required", .str "missing")])]
    ∃ s₁ s₂ q m, Schema.number.prefs a = .ok s₁ ∧ s₁.prefs b = .ok s₂ ∧
      ((({} : Preferences).merge a) >>= fun p => p.merge b) = .ok q ∧ s₂.merged {} = .ok m ∧
      Datum.find? (.str "number.base") q.messages = some (.str "no number") ∧
      Datum.find? (.str "number.base") m.messages = none := by
  intro a b
  have above : Preferences.Override a :=
    ⟨List.forall_mem_singleton.mpr ⟨"messages", _, rfl, by decide, rfl, rfl⟩, by simp [a]⟩
  have above' : Preferences.Override b :=
    ⟨List.forall_mem_singleton.mpr ⟨"messages", _, rfl, by decide, rfl, rfl⟩, by simp [b]⟩
  refine ⟨_, _, b.foldl Preferences.setEntry (a.foldl Preferences.setEntry {}), _,
    Schema.prefs_of_override above rfl rfl rfl, Schema.prefs_of_override above' rfl rfl rfl, ?_,
    Schema.merged_eq (s := .node { prefs := some b } none .number) above' {}, rfl, rfl⟩
  rw [Preferences.merge_of_admits above.admits]
  exact Preferences.merge_of_admits above'.admits _

end Conform
