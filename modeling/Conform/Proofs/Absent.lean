import Conform.Proofs.Run.Together
import Conform.Proofs.Validation.Given
import Conform.Proofs.Keywise

/-!
# Values that count as absent

A value that the schema for empty values accepts, once it is converted and trimmed, is validated as if it were absent.
In an object this comes to the same as leaving its key out.
-/

namespace Conform

open Datum

/-! ## One node -/

namespace Schema

/-- Whether a node takes a value as empty: the schema for empty values is asked about what conversion and trimming make
of the value. -/
def takesAsEmpty (h : Hooks) (s : Schema) (v : Value) (site : Site) (p : Preferences) : Eval Bool := do
  let q ← s.merged p
  match (s.toNode h).convert ((s.toNode h).frame v site q) v, s.empty? with
  | .goOn w _, some e => Node.accepts (e.eval h) (trimmed s.core w) site {}
  | _, _ => return false

/-- The node without its schema for empty values. -/
def withoutEmpty (s : Schema) : Schema := .node s.core none s.content

variable {h : Hooks} {s : Schema} {v : Value} {site : Site} {p : Preferences} {r r₁ : Run} {b : Bool}

theorem withoutEmpty_all {check : Core → Content → Bool} (whole : s.all check) : s.withoutEmpty.all check := by
  obtain ⟨core, empty, content⟩ := s
  simp only [withoutEmpty, all, allOption, Schema.core, Schema.content, Bool.and_eq_true] at whole ⊢
  exact ⟨⟨whole.1.1, trivial⟩, whole.2⟩

theorem withoutEmpty_refs (unreferenced : s.refs = []) : s.withoutEmpty.refs = [] := by
  obtain ⟨core, empty, content⟩ := s
  simp only [withoutEmpty, refs, optionRefs, Schema.core, Schema.content, List.append_eq_nil_iff] at unreferenced ⊢
  exact ⟨⟨unreferenced.1.1, trivial⟩, unreferenced.2⟩

theorem convert_undefined (n : Node) (f : Frame) : n.convert f .undefined = .goOn .undefined [] := rfl

/-- What a node without a cache does with a value is what it makes of its emptiness, and then of the rest. -/
theorem eval_onward (bare : s.core.cache = none) {q : Preferences} (merged : s.merged p = .ok q) {w : Value}
    {es : List Issue} (converted : (s.toNode h).convert ((s.toNode h).frame v site q) v = .goOn w es) :
    s.eval h v site p = (s.toNode h).emptied ((s.toNode h).frame v site q) w >>=
      Node.onward h (s.toNode h) ((s.toNode h).frame v site q) := by
  rw [eval_bare bare merged, Node.settled_onward converted]

theorem withoutEmpty_undefined (bare : s.core.cache = none) {q : Preferences} (merged : s.merged p = .ok q) :
    s.withoutEmpty.eval h .undefined site p =
      Node.onward h (s.toNode h) ((s.toNode h).frame .undefined site q) .undefined := by
  have bareHere : s.withoutEmpty.core.cache = none := bare
  have mergedHere : s.withoutEmpty.merged p = .ok q := merged
  rw [eval_onward bareHere mergedHere (convert_undefined _ _)]
  rfl

/-- What a node takes a value for once its schema for empty values has answered. -/
theorem exec_emptied {e : Schema} (isEmpty : s.empty? = some e) (f : Frame) {w : Value}
    (asked : (Node.accepts (e.eval h) (trimmed s.core w) f.site {}).exec r = (.ok b, r₁)) :
    ((s.toNode h).emptied f w).exec r = (.ok (if b then .undefined else w), r₁) := by
  have probe : (s.toNode h).empty = some (e.eval h) := by rw [toNode, isEmpty, evalOption]
  have asked : (Node.accepts (e.eval h) (trimmed (s.toNode h).core w) f.site {}).exec r = (.ok b, r₁) := asked
  rw [Node.emptied, probe, Eval.exec_bind, asked]
  cases b <;> rfl

/-- A value taken as empty is validated as an absent one is by the node without its schema for empty values. -/
theorem eval_taken (plain : s.core.Plain) (converts : s.core.result ≠ some .raw)
    (taken : (s.takesAsEmpty h v site p).exec r = (.ok true, r₁)) :
    (s.eval h v site p).exec r = (s.withoutEmpty.eval h .undefined site p).exec r₁ := by
  obtain ⟨q, r₀, ran, taken⟩ := Eval.bind_ok taken
  obtain ⟨merged, rfl⟩ : s.merged p = .ok q ∧ r = r₀ := Prod.mk.inj ran
  split at taken
  · rename_i w es e converted isEmpty
    have onward := Node.onward_regiven (h := h) (n := s.toNode h) ((s.toNode h).frame .undefined site q) v v
      plain.custom (fun f => evalContent_regiven f _ s.core s.content) converts .undefined
    rw [eval_onward plain.cache merged converted, Eval.exec_bind,
      exec_emptied isEmpty ((s.toNode h).frame v site q) taken, withoutEmpty_undefined plain.cache merged, ← onward]
    rfl
  · cases taken

/-- Absence is validated as the node without its schema for empty values does, once that schema has answered. -/
theorem eval_asked (plain : s.core.Plain) (asked : (s.takesAsEmpty h .undefined site p).exec r = (.ok b, r₁)) :
    (s.eval h .undefined site p).exec r = (s.withoutEmpty.eval h .undefined site p).exec r₁ := by
  obtain ⟨q, r₀, ran, asked⟩ := Eval.bind_ok asked
  obtain ⟨merged, rfl⟩ : s.merged p = .ok q ∧ r = r₀ := Prod.mk.inj ran
  rw [convert_undefined] at asked
  have emptied : ((s.toNode h).emptied ((s.toNode h).frame .undefined site q) .undefined).exec r =
      (.ok .undefined, r₁) := by
    cases isEmpty : s.empty? with
    | none =>
        rw [isEmpty] at asked
        cases asked
        rw [Node.emptied, toNode, isEmpty, evalOption]
        rfl
    | some e =>
        rw [isEmpty] at asked
        rw [exec_emptied isEmpty ((s.toNode h).frame .undefined site q) asked, ite_self]
  rw [eval_onward plain.cache merged (convert_undefined _ _), withoutEmpty_undefined plain.cache merged, Eval.exec_bind,
    emptied, Eval.andThen_ok]

theorem plain_grows (plain : s.all fun core _ => core.isPlain) : (s.eval h).Grows :=
  s.eval_grows fun _ below => (Core.isPlain.plain (all_below plain below)).callsGrow

theorem takesAsEmpty_grows (plain : s.all fun core _ => core.isPlain) (v : Value) (site : Site) (p : Preferences) :
    Grows freely (s.takesAsEmpty h v site p) := by
  refine (Grows.lift _).bind fun q => ?_
  split
  · rename_i e _ isEmpty
    exact Node.accepts_grows (plain_grows (all_part plain (s.part_of_empty isEmpty))) _ _ _
  · exact Grows.pure _

theorem takesAsEmpty_traceless (plain : s.all fun core _ => core.isPlain) (v : Value) (site : Site) (p : Preferences)
    (r : Run) : ((s.takesAsEmpty h v site p).exec r).2.journal = r.journal := by
  unfold takesAsEmpty
  rw [Eval.exec_bind, Eval.exec_lift]
  cases s.merged p with
  | error f => rfl
  | ok q =>
      rw [Eval.andThen_ok]
      split
      · rename_i e _ isEmpty
        exact Node.accepts_traceless (plain_grows (all_part plain (s.part_of_empty isEmpty))) _ site {} r
      · rfl

/-! ### Two runs -/

variable {place copies : Prop} {k : Nat} {site' : Site} {r' r₂ : Run}

/-- Where a schema without functions and caches takes a value as empty, it ends as it does on absence. -/
theorem absent_together (plain : s.all fun core _ => core.isPlain) (converts : s.core.result ≠ some .raw)
    (reads : place ∨ s.refs = []) (steady : copies ∨ s.all fun core _ => core.isSteady)
    (sites : (Bounds.free (fun _ _ => True) place copies).Sites site site')
    (taken : (s.takesAsEmpty h v site p).exec r = (.ok true, r₁))
    (asked : (s.takesAsEmpty h .undefined site' p).exec r' = (.ok b, r₂)) (runs : r₁.Together copies k r₂) :
    EndTogether copies k Eq ((s.eval h v site p).exec r) ((s.eval h .undefined site' p).exec r') := by
  have here : s.core.Plain := Core.isPlain.plain (all_here plain)
  have bare := withoutEmpty_all plain
  have everywhere := plain_alike h bare (reads.imp_right withoutEmpty_refs) (steady.imp_right withoutEmpty_all) site.path p
  have alike := everywhere .undefined site site' p p trivial sites (Bounds.free_prefs p) rfl rfl
  rw [eval_taken here converts taken, eval_asked here asked]
  exact alike.together (plain_grows bare _ _ _) (plain_grows bare _ _ _) runs

theorem taken_together (plain : s.all fun core _ => core.isPlain) (converts : s.core.result ≠ some .raw)
    (journal : r'.journal = r.journal) (taken : (s.takesAsEmpty h v site p).exec r = (.ok true, r₁))
    (asked : (s.takesAsEmpty h .undefined site p).exec r' = (.ok b, r₂))
    (even : r₂.copies = r₁.copies ∨ s.all fun core _ => core.isSteady) :
    ∃ copies, EndTogether copies 0 Eq ((s.eval h v site p).exec r) ((s.eval h .undefined site p).exec r') := by
  have kept := takesAsEmpty_traceless (h := h) plain v site p r
  have kept' := takesAsEmpty_traceless (h := h) plain .undefined site p r'
  rw [taken] at kept
  rw [asked] at kept'
  have runs : ∀ copies : Prop, (copies → r₂.copies = r₁.copies) → r₁.Together copies 0 r₂ := fun copies counted =>
    ⟨by rw [kept, kept', journal], counted, Nat.zero_le _, Nat.zero_le _⟩
  rcases even with counted | steady
  · exact ⟨True, absent_together plain converts (.inl trivial) (.inl trivial) (Bounds.free_sites site) taken asked
      (runs True fun _ => counted)⟩
  · exact ⟨False, absent_together plain converts (.inl trivial) (.inr steady) (Bounds.free_sites site) taken asked
      (runs False nofun)⟩

/-- Whether a value is empty is asked alike at sites with one path. -/
theorem takesAsEmpty_alike (plain : s.all fun core _ => core.isPlain) (reads : place ∨ s.refs = [])
    (steady : copies ∨ s.all fun core _ => core.isSteady)
    (sites : (Bounds.free (fun _ _ => True) place copies).Sites site site') (v : Value) (p : Preferences) :
    Alike (.free (fun _ _ => True) place copies) .all (fun _ => True) (s.takesAsEmpty h v site p)
      (s.takesAsEmpty h v site' p) := by
  refine (Alike.lift (Q := fun _ => True) (Bounds.free_meets fun _ => trivial)).bind fun q _ => ?_
  have converted : (s.toNode h).convert ((s.toNode h).frame v site' q) v =
      (s.toNode h).convert ((s.toNode h).frame v site q) v := by
    have frames : (Bounds.free (fun _ _ => True) place copies).Frames ((s.toNode h).frame v site q)
        ((s.toNode h).frame v site' q) := ⟨rfl, rfl, sites, Bounds.free_prefs q, rfl, rfl, trivial⟩
    rw [frames.convert_eq rfl rfl]
  rw [converted]
  split
  · rename_i w es e _ isEmpty
    have below : s.Below e := (s.part_of_empty isEmpty).below (.self e)
    have alike := plain_alike h (all_part plain (s.part_of_empty isEmpty))
      (reads.imp_right fun (unreferenced : s.refs = []) => List.subset_nil.mp (unreferenced ▸ refs_below below))
      (steady.imp_right fun steady => all_part steady (s.part_of_empty isEmpty)) site.path ({} : Preferences).forMatching
    exact Bounds.Frames.accepts (alike _ site site' _ _ trivial sites (Bounds.free_prefs _) rfl rfl)
  · exact Alike.pure trivial

/-! ### On its own -/

/-- Whether a node takes a value as empty with nothing around it, in a run that begins after `n` copies. -/
def emptiness (h : Hooks) (s : Schema) (n : Nat) (path : Path) (p : Preferences) (v : Value) : Except Fault Bool × Run :=
  (s.takesAsEmpty h v ⟨path, []⟩ p).exec { copies := n }

/-- On its own a node takes a value as empty in every run that begins after `k` copies or more, and its schema for empty
values has an answer about absence. -/
structure CountsAsAbsent (h : Hooks) (s : Schema) (k : Nat) (path : Path) (p : Preferences) (v : Value) : Prop where
  taken : ∀ n, k ≤ n → (s.emptiness h n path p v).1 = .ok true
  answers : ∀ n, k ≤ n → ∃ b, (s.emptiness h n path p .undefined).1 = .ok b

/-- Asked about a value and about absence, the schema for empty values makes the same number of copies. -/
def CopiesEvenly (h : Hooks) (s : Schema) (k : Nat) (path : Path) (p : Preferences) (v : Value) : Prop :=
  ∀ n, k ≤ n → (s.emptiness h n path p .undefined).2.copies = (s.emptiness h n path p v).2.copies

/-- What is around a value and what a run did before its copies play no part. -/
theorem takesAsEmpty_alone (plain : s.all fun core _ => core.isPlain) (unreferenced : s.refs = []) (v : Value)
    (path : Path) (around : List Value) (p : Preferences) (r : Run) :
    ((s.takesAsEmpty h v ⟨path, around⟩ p).exec r).1 = (s.emptiness h r.copies path p v).1 ∧
      ((s.takesAsEmpty h v ⟨path, around⟩ p).exec r).2.copies = (s.emptiness h r.copies path p v).2.copies := by
  have sites : Bounds.apart.Sites ⟨path, around⟩ ⟨path, []⟩ := ⟨rfl, nofun, Bounds.free_site _⟩
  have alike := takesAsEmpty_alike (h := h) plain (.inr unreferenced) (.inl trivial) sites v p
  have agree := alike r { copies := r.copies } (Bounds.free_linked _ _ _ r _ trivial rfl nofun)
  exact ⟨agree.outcome, agree.linked.copies trivial⟩

variable {path : Path}

/-- A schema without references, functions and caches. Unless copies are counted it is steady. -/
structure Detached (copies : Prop) (s : Schema) : Prop where
  plain : s.all fun core _ => core.isPlain
  unreferenced : s.refs = []
  steady : copies ∨ s.all fun core _ => core.isSteady

theorem Detached.together (detached : s.Detached copies) (v : Value) (path : Path) (around around' : List Value)
    (p : Preferences) (runs : r.Together copies k r') :
    EndTogether copies k Eq ((s.eval h v ⟨path, around⟩ p).exec r) ((s.eval h v ⟨path, around'⟩ p).exec r') := by
  have reads : False ∨ s.refs = [] := .inr detached.unreferenced
  have alike := plain_alike h detached.plain reads detached.steady path p
  have sites : (Bounds.free (fun _ _ => True) False copies).Sites ⟨path, around⟩ ⟨path, around'⟩ :=
    ⟨rfl, nofun, Bounds.free_site _⟩
  exact (alike v _ _ p p trivial sites (Bounds.free_prefs p) rfl rfl).together (plain_grows detached.plain _ _ _)
    (plain_grows detached.plain _ _ _) runs

theorem CountsAsAbsent.together (absent : s.CountsAsAbsent h k path p v) (detached : s.Detached copies)
    (converts : s.core.result ≠ some .raw) (even : copies → s.CopiesEvenly h k path p v) (around around' : List Value)
    (runs : r.Together copies k r') :
    EndTogether copies k Eq ((s.eval h v ⟨path, around⟩ p).exec r) ((s.eval h .undefined ⟨path, around'⟩ p).exec r') := by
  have plain := detached.plain
  have sites : (Bounds.free (fun _ _ => True) False copies).Sites ⟨path, around⟩ ⟨path, around'⟩ :=
    ⟨rfl, nofun, Bounds.free_site _⟩
  have here := takesAsEmpty_alone (h := h) plain detached.unreferenced v path around p r
  have there := takesAsEmpty_alone (h := h) plain detached.unreferenced .undefined path around' p r'
  obtain ⟨b, answered⟩ := absent.answers r'.copies runs.enough'
  have taken := here.1.trans (absent.taken r.copies runs.enough)
  have asked := there.1.trans answered
  refine absent_together plain converts (.inr detached.unreferenced) detached.steady sites (Prod.ext taken rfl)
    (Prod.ext asked rfl) ⟨?_, fun counts => ?_, ?_, ?_⟩
  · rw [takesAsEmpty_traceless plain, takesAsEmpty_traceless plain, runs.journal]
  · rw [here.2, there.2, runs.copies counts]
    exact even counts r.copies runs.enough
  · exact Nat.le_trans runs.enough (takesAsEmpty_grows plain v ⟨path, around⟩ p r).copies
  · exact Nat.le_trans runs.enough' (takesAsEmpty_grows plain .undefined ⟨path, around'⟩ p r').copies

end Schema

/-! ## Objects -/

namespace Datum

variable {α β : Type} [BEq α] {k l : Datum α} {es : List (Datum α × β)}

theorem erase_comm (k l : Datum α) (es : List (Datum α × β)) : erase k (erase l es) = erase l (erase k es) := by
  rw [erase, erase, erase, erase, List.filter_filter, List.filter_filter]
  exact List.filter_congr fun e _ => Bool.and_comm _ _

theorem erase_insert (itself : sameKey l l) (apart : Apart l k) (v : β) :
    erase k (insert l v es) = insert l v (erase k es) := by
  induction es with
  | nil => simp [erase, insert, apart l itself]
  | cons e es ih =>
      obtain ⟨j, w⟩ := e
      unfold erase at ih ⊢
      by_cases same : sameKey j l
      · simp [insert, same, apart j same]
      · by_cases removed : sameKey j k <;> simp [insert, same, removed, ih]

end Datum

namespace Keys

variable {h : Hooks} {k : Value} {R : Option Value → Option Value → Prop} {es gs : Dict}

/-- Entries that are the same but for what is found under one key. -/
structure SameBut (k : Value) (R : Option Value → Option Value → Prop) (es gs : Dict) : Prop where
  others : erase k es = erase k gs
  here : R (find? k es) (find? k gs)

namespace SameBut

theorem mono {S : Option Value → Option Value → Prop} (same : SameBut k R es gs) (weaker : ∀ a b, R a b → S a b) :
    SameBut k S es gs := ⟨same.others, weaker _ _ same.here⟩

theorem find?_eq {l : Value} (same : SameBut k R es gs) (apart : Apart l k) : find? l es = find? l gs := by
  have outside : ∀ fs : Dict, find? l (erase k fs) = find? l fs := fun _ => find?_erase_apart apart.symm.parted
  rw [← outside es, same.others, outside]

theorem settle {c : KeyCheck} (same : SameBut k R es gs) (key : c.key.IsKey) (apart : Apart c.key k) (item w : Value) :
    SameBut k R (settle c item w es) (settle c item w gs) := by
  have elsewhere : ∀ fs : Dict, find? k (Keys.settle c item w fs) = find? k fs := fun fs =>
    find?_settle_apart apart.parted fun _ _ => apart c.key key.itself
  refine ⟨?_, ?_⟩
  · unfold Keys.settle
    split
    · rw [erase_comm, same.others, erase_comm]
    · split
      · exact same.others
      · rw [erase_insert key.itself apart, same.others, erase_insert key.itself apart]
  · rw [elsewhere, elsewhere]
    exact same.here

theorem filter {q : Value → Bool} (same : SameBut k R es gs) (stays : ∀ j, sameKey j k → q j) :
    SameBut k R (es.filter fun e => q e.1) (gs.filter fun e => q e.1) := by
  have commutes : ∀ fs : Dict, erase k (fs.filter fun e => q e.1) = (erase k fs).filter fun e => q e.1 := by
    intro fs
    rw [erase, erase, List.filter_filter, List.filter_filter]
    exact List.filter_congr fun e _ => Bool.and_comm _ _
  refine ⟨?_, ?_⟩
  · rw [commutes, commutes, same.others]
  · rw [find?_filter fun e _ => stays e.1, find?_filter fun e _ => stays e.1]
    exact same.here

theorem filter_eq {q : Value → Bool} (same : SameBut k R es gs) (others : ∀ j, sameKey j k → q j = false) :
    es.filter (fun e => q e.1) = gs.filter fun e => q e.1 := by
  have outside : ∀ fs : Dict, (erase k fs).filter (fun e => q e.1) = fs.filter fun e => q e.1 := fun _ =>
    filter_erase others
  rw [← outside es, same.others, outside]

end SameBut

/-! ### Two runs over the keys -/

/-- A run over keys goes on where a run over the first of them has ended, unless that stopped. -/
theorem checkDeclared_append (f : Frame) (cs ds : List KeyCheck) (es : Dict) (errors : List Issue) :
    checkDeclared f (cs ++ ds) es errors = checkDeclared f cs es errors >>= fun s =>
      if s.2.2 then pure s else checkDeclared f ds s.1 s.2.1 := by
  induction cs generalizing es errors with
  | nil => rfl
  | cons c cs ih =>
      simp only [List.cons_append, checkDeclared, bind_assoc, ih]
      refine congrArg _ (funext fun a => ?_)
      split
      · rfl
      · split <;> rfl

/-- What two runs over keys leave that began with the same issues: the same issues again, and entries that are the same
but for one key. -/
structure Kept (k : Value) (R : Option Value → Option Value → Prop) (errors : List Issue)
    (a b : Dict × List Issue × Bool) : Prop where
  issues : a.2 = b.2
  entries : SameBut k R a.1 b.1
  before : a.2.1 = [] → errors = []
  stopped : a.2.2 → a.2.1 ≠ []

variable {f f' : Frame} {copies : Prop} {n : Nat} {ks : List (Value × Schema)} {r r' : Run}

/-- Runs over keys that are apart from one whose entries may differ end together. -/
theorem checkDeclared_together (site : f'.site = f.site) (prefs : f'.prefs = f.prefs)
    (each : ∀ e ∈ ks, e.1.IsKey ∧ Apart e.1 k ∧ e.2.Detached copies) (same : SameBut k R es gs) (errors : List Issue)
    (runs : r.Together copies n r') :
    EndTogether copies n (Kept k R errors) ((checkDeclared f (Schema.evalKeyList h ks) es errors).exec r)
      ((checkDeclared f' (Schema.evalKeyList h ks) gs errors).exec r') := by
  induction ks generalizing es gs errors r r' with
  | nil => exact .ok ⟨rfl, same, id, nofun⟩ runs
  | cons e ks ih =>
      obtain ⟨l, s⟩ := e
      obtain ⟨⟨key, apart, detached⟩, later⟩ := List.forall_mem_cons.mp each
      rw [Schema.evalKeyList, checkDeclared, checkDeclared, same.find?_eq apart, prefs, site]
      refine (detached.together _ _ _ _ _ runs).bind fun a b s s' isSame runs => ?_
      subst isSame
      split
      · exact ih later (same.settle (c := ⟨l, _, _⟩) key apart _ _) errors runs
      · rename_i failed
        have failing : a.errors ≠ [] := by simpa using failed
        split
        · exact .ok ⟨rfl, same, fun none => absurd none failing, fun _ => failing⟩ runs
        · refine (ih later same (errors ++ a.errors) runs).mono fun x y kept => ?_
          exact { kept with before := fun none => (List.append_eq_nil_iff.mp (kept.before none)).1 }

/-- What is found where a value was and where it was left out. -/
def Agrees (v : Value) (a b : Option Value) : Prop :=
  a.getD .undefined = b.getD .undefined ∧ (v.isUndefined = false → a = b)

/-- A child leaves the same under its key for a value and for absence, if what it gives is the same. -/
theorem kept_agrees (strips : Bool) (v u : Value) : Agrees v (kept strips (some v) u) (kept strips none u) := by
  unfold Agrees kept
  cases strips with
  | true => exact ⟨rfl, fun _ => rfl⟩
  | false =>
      cases absent : u.isUndefined with
      | false => simp
      | true =>
          cases v with
          | undefined => exact ⟨rfl, nofun⟩
          | _ => exact ⟨rfl, fun _ => rfl⟩

/-- What two runs over keys come to that see a value and its absence. -/
def Coincide (k v : Value) (a b : Dict × List Issue × Bool) : Prop :=
  a.2 = b.2 ∧ SameBut k (fun x y => a.2.1 = [] → Agrees v x y) a.1 b.1

/-- A declared key that is apart from the others, with a value that counts as absent there. -/
structure Dispensable (h : Hooks) (copies : Prop) (n : Nat) (path : Path) (p : Preferences)
    (before after : List (Value × Schema)) (k v : Value) (s : Schema) : Prop where
  key : k.IsKey
  others : ∀ e ∈ before ++ after, e.1.IsKey ∧ Apart e.1 k ∧ e.2.Detached copies
  detached : s.Detached copies
  converts : s.core.result ≠ some .raw
  absent : s.CountsAsAbsent h n (path ++ [k]) p v
  even : copies → s.CopiesEvenly h n (path ++ [k]) p v

variable {s : Schema} {v : Value} {before after : List (Value × Schema)}

/-- A key whose value counts as absent, in an object that has the value and in one that does not. -/
theorem checkDeclared_absent (site : f'.site = f.site) (prefs : f'.prefs = f.prefs)
    (dispensable : Dispensable h copies n f.site.path f.prefs before after k v s)
    (same : SameBut k (fun a b => a = some v ∧ b = none) es gs) (errors : List Issue) (runs : r.Together copies n r') :
    EndTogether copies n (Coincide k v) ((checkDeclared f (Schema.evalKeyList h [(k, s)]) es errors).exec r)
      ((checkDeclared f' (Schema.evalKeyList h [(k, s)]) gs errors).exec r') := by
  obtain ⟨key, -, detached, converts, absent, even⟩ := dispensable
  obtain ⟨found, missing⟩ := same.here
  have item : (find? k es).getD .undefined = v := by rw [found]; rfl
  have none : (find? k gs).getD .undefined = .undefined := by rw [missing]; rfl
  simp only [Schema.evalKeyList, checkDeclared, prefs, site, item, none]
  refine (absent.together detached converts even _ _ runs).bind fun a b s₁ s₂ isSame runs => ?_
  subst isSame
  split
  · refine .ok ⟨rfl, ?_, fun _ => ?_⟩ runs
    · have itself : (!sameKey k k) = false := by simp [key.itself]
      have others : ∀ j, sameKey j k → (!sameKey j k) = false := fun j same => by simp [same]
      exact (settle_others (c := ⟨k, _, _⟩) itself others _ _ es).trans
        (same.others.trans (settle_others (c := ⟨k, _, _⟩) itself others _ _ gs).symm)
    · have left := find?_settle (c := ⟨k, s.strips, s.eval h⟩) key.itself es a.value
      have right := find?_settle (c := ⟨k, s.strips, s.eval h⟩) key.itself gs a.value
      rw [item, found] at left
      rw [none, missing] at right
      rw [left, right]
      exact kept_agrees s.strips v a.value
  · rename_i failed
    have failing : a.errors ≠ [] := by simpa using failed
    split
    · exact .ok ⟨rfl, same.mono fun _ _ _ none => absurd none failing⟩ runs
    · exact .ok ⟨rfl, same.mono fun _ _ _ none => absurd (List.append_eq_nil_iff.mp none).2 failing⟩ runs

/-- Runs over all keys of an object, with a value that counts as absent and without it. -/
theorem checkDeclared_without (site : f'.site = f.site) (prefs : f'.prefs = f.prefs)
    (dispensable : Dispensable h copies n f.site.path f.prefs before after k v s) (found : find? k es = some v)
    (runs : r.Together copies n r') :
    EndTogether copies n (Coincide k v)
      ((checkDeclared f (Schema.evalKeyList h (before ++ (k, s) :: after)) es []).exec r)
      ((checkDeclared f' (Schema.evalKeyList h (before ++ (k, s) :: after)) (erase k es) []).exec r') := by
  obtain ⟨first, last⟩ := List.forall_mem_append.mp dispensable.others
  have start : SameBut k (fun a b => a = some v ∧ b = none) es (erase k es) :=
    ⟨by simp [erase, List.filter_filter], found, find?_erase_self k es⟩
  have parts : Schema.evalKeyList h (before ++ (k, s) :: after) = Schema.evalKeyList h before ++
      (Schema.evalKeyList h [(k, s)] ++ Schema.evalKeyList h after) := by
    simp only [Schema.evalKeyList_eq, List.map_append, List.map_cons, List.map_nil, List.singleton_append]
  simp only [parts, checkDeclared_append]
  refine (checkDeclared_together site prefs first start [] runs).bind fun a b t t' kept runs => ?_
  obtain ⟨es₁, errors, stops⟩ := a
  obtain ⟨gs₁, errors', stops'⟩ := b
  obtain ⟨⟨⟩, same, -, stopped⟩ := kept
  split
  · rename_i stops
    exact .ok ⟨rfl, same.mono fun _ _ _ none => absurd none (stopped stops)⟩ runs
  · refine (checkDeclared_absent site prefs dispensable same errors runs).bind fun a b t t' settled runs => ?_
    obtain ⟨es₂, errors₂, stops₂⟩ := a
    obtain ⟨gs₂, errors₂', stops₂'⟩ := b
    obtain ⟨⟨⟩, same⟩ := settled
    split
    · exact .ok ⟨rfl, same⟩ runs
    · refine (checkDeclared_together site prefs last same errors₂ runs).mono fun a b kept => ?_
      exact ⟨kept.issues, kept.entries.mono fun _ _ agrees none => agrees (kept.before none)⟩

/-- The other keys fare alike beside entries that are the same but for a declared key. -/
theorem checkStrangers_sameBut {cs : List KeyCheck} (unknown : Option Value) (same : SameBut k R es gs)
    (known : ∀ j, sameKey j k → isKnown cs j) (reports : strangerReport f es = strangerReport f' gs)
    (prefs : f'.prefs = f.prefs) (errors : List Issue) :
    ∃ es' gs' errors', checkStrangers unknown cs f es errors = ⟨.dict es', errors'⟩ ∧
      checkStrangers unknown cs f' gs errors = ⟨.dict gs', errors'⟩ ∧ SameBut k R es' gs' ∧
      (errors' = [] → errors = []) := by
  have strangers : (es.filter fun e => !isKnown cs e.1) = gs.filter fun e => !isKnown cs e.1 :=
    same.filter_eq (q := fun j => !isKnown cs j) fun j isKey => by simp [known j isKey]
  rw [checkStrangers_admits, checkStrangers_admits, prefs, strangers, reports]
  split
  · exact ⟨_, _, _, rfl, rfl, same.filter known, id⟩
  · split
    · exact ⟨_, _, _, rfl, rfl, same, id⟩
    · split
      · exact ⟨_, _, _, rfl, rfl, same, nofun⟩
      · exact ⟨_, _, _, rfl, rfl, same, fun none => (List.append_eq_nil_iff.mp none).1⟩

/-- Base checks of an object with a value that counts as absent and without it. -/
theorem base_without (unknown : Option Value) (site : f'.site = f.site) (prefs : f'.prefs = f.prefs)
    (reports : ∀ es gs, strangerReport f es = strangerReport f' gs) (found : find? k es = some v)
    (dispensable : Dispensable h copies n f.site.path f.prefs before after k v s) (runs : r.Together copies n r') :
    let check := base unknown (some (Schema.evalKeyList h (before ++ (k, s) :: after)))
    EndTogether copies n (fun a b => ∃ es' gs' errors, a = some ⟨.dict es', errors⟩ ∧ b = some ⟨.dict gs', errors⟩ ∧
        SameBut k (fun x y => errors = [] → Agrees v x y) es' gs')
      ((check f (.dict es)).exec r) ((check f' (.dict (erase k es))).exec r') := by
  intro check
  have declared : ∀ j, sameKey j k → isKnown (Schema.evalKeyList h (before ++ (k, s) :: after)) j := by
    intro j isKey
    rw [isKnown_declares]
    exact List.any_eq_true.mpr ⟨(k, s), by simp, dispensable.key.symm j isKey⟩
  refine (checkDeclared_without site prefs dispensable found runs).bind
    fun a b t t' settled runs => ?_
  obtain ⟨es', errors, stops⟩ := a
  obtain ⟨gs', errors', stops'⟩ := b
  obtain ⟨⟨⟩, same⟩ := settled
  cases stops with
  | true => exact .ok ⟨es', gs', errors, rfl, rfl, same⟩ runs
  | false =>
      obtain ⟨es₁, gs₁, all, left, right, sameAfter, clean⟩ :=
        checkStrangers_sameBut unknown same declared (reports es' gs') prefs errors
      simp only [Bool.false_eq_true, if_false, left, right]
      exact .ok ⟨es₁, gs₁, all, rfl, rfl, sameAfter.mono fun _ _ agrees none => agrees (clean none)⟩ runs

end Keys

namespace Schema

open Keys (Agrees Dispensable SameBut)

variable {h : Hooks} {unknown : Option Value} {before after : List (Value × Schema)} {k v : Value} {s : Schema}
  {fs : Dict} {site : Site} {p : Preferences} {copies : Prop} {n : Nat} {r r' : Run}

/-- What an object says of itself where it is forbidden. -/
def refusal (site : Site) (p : Preferences) (fs : Dict) : Issue :=
  .report ((dictFrame fs site p).report "any.unknown" (.dict fs) [])

/-- What an object makes of entries with a value that counts as absent, and of the entries without it. -/
structure LeavesOut (k v : Value) (site : Site) (p : Preferences) (fs : Dict) (a b : Result) : Prop where
  values : ∃ gs gs', a.value = .dict gs ∧ b.value = .dict gs' ∧
    SameBut k (fun x y => a.errors = [] → Agrees v x y) gs gs'
  errors : if p.presence = .forbidden then a.errors = [refusal site p fs] ∧ b.errors = [refusal site p (erase k fs)]
    else a.errors = b.errors

/-- An object with a value that counts as absent and without it. -/
theorem keysOnly_without (dispensable : Dispensable h copies n site.path p before after k v s)
    (found : find? k fs = some v) (runs : r.Together copies n r') :
    let object := keysOnly unknown (before ++ (k, s) :: after)
    EndTogether copies n (LeavesOut k v site p fs) ((object.eval h (.dict fs) site p).exec r)
      ((object.eval h (.dict (erase k fs)) site p).exec r') := by
  intro object
  by_cases forbidden : p.presence = .forbidden
  · have refused : ∀ fs : Dict, object.eval h (.dict fs) site p = pure ⟨.dict fs, [refusal site p fs]⟩ := by
      intro fs
      rw [keysOnly_settled, forbidden]
      rfl
    have same : SameBut k (fun _ _ => True) fs (erase k fs) := ⟨by simp [erase, List.filter_filter], trivial⟩
    rw [refused, refused]
    exact .ok ⟨⟨fs, _, rfl, rfl, same.mono fun _ _ _ none => absurd none (List.cons_ne_nil _ _)⟩, by simp [forbidden]⟩ runs
  · rw [keysOnly_based forbidden, keysOnly_based forbidden]
    have sites : (dictFrame (erase k fs) site p).site = (dictFrame fs site p).site := rfl
    have based := Keys.base_without (h := h) unknown sites rfl (fun _ _ => rfl) found dispensable runs
    refine based.bind fun a b t t' same runs => ?_
    obtain ⟨es, gs, errors, rfl, rfl, same⟩ := same
    exact .ok ⟨⟨es, gs, rfl, rfl, same⟩, by rw [if_neg forbidden]; rfl⟩ runs

/-- An object whose parts are all without references, functions and caches. -/
theorem keysOnly_together
    (contained : ∀ e ∈ before ++ (k, s) :: after, e.1.IsKey ∧ e.2.refs = [] ∧ e.2.all fun core _ => core.isPlain)
    (apart : ∀ e ∈ before ++ after, Apart e.1 k) (converts : s.core.result ≠ some .raw) (found : find? k fs = some v)
    (absent : s.CountsAsAbsent h r.copies (site.path ++ [k]) p v)
    (even : s.CopiesEvenly h r.copies (site.path ++ [k]) p v ∨
      ∀ e ∈ before ++ (k, s) :: after, e.2.all fun core _ => core.isSteady) :
    let object := keysOnly unknown (before ++ (k, s) :: after)
    ∃ copies, EndTogether copies r.copies (LeavesOut k v site p fs) ((object.eval h (.dict fs) site p).exec r)
      ((object.eval h (.dict (erase k fs)) site p).exec r) := by
  intro object
  have own : (k, s) ∈ before ++ (k, s) :: after := by simp
  have others : ∀ e ∈ before ++ after, e ∈ before ++ (k, s) :: after := fun e member =>
    List.mem_append.mpr ((List.mem_append.mp member).imp_right (List.mem_cons_of_mem _))
  have ends : ∀ copies : Prop, (copies → s.CopiesEvenly h r.copies (site.path ++ [k]) p v) →
      (copies ∨ ∀ e ∈ before ++ (k, s) :: after, e.2.all fun core _ => core.isSteady) →
      EndTogether copies r.copies (LeavesOut k v site p fs) ((object.eval h (.dict fs) site p).exec r)
        ((object.eval h (.dict (erase k fs)) site p).exec r) := by
    intro copies counted steady
    have detached : ∀ e ∈ before ++ (k, s) :: after, e.2.Detached copies := fun e member =>
      ⟨(contained e member).2.2, (contained e member).2.1, steady.imp_right fun steady => steady e member⟩
    have dispensable : Dispensable h copies r.copies site.path p before after k v s := {
      converts, absent
      key := (contained _ own).1
      others := fun e member => ⟨(contained e (others e member)).1, apart e member, detached e (others e member)⟩
      detached := detached _ own
      even := counted }
    exact keysOnly_without dispensable found ⟨rfl, fun _ => rfl, Nat.le_refl _, Nat.le_refl _⟩
  rcases even with counted | steady
  · exact ⟨True, ends True (fun _ => counted) (.inl trivial)⟩
  · exact ⟨False, ends False nofun (.inr steady)⟩

end Schema

theorem Datum.IsKey.same_or_apart {j k : Value} (left : j.IsKey) (right : k.IsKey) :
    (∀ i, sameKey i j = sameKey i k) ∨ Apart j k := by
  by_cases same : sameKey j k
  · refine .inl fun i => Bool.eq_iff_iff.mpr ⟨fun here => sameKey_trans here same, fun there => ?_⟩
    exact sameKey_trans there (right.symm j same)
  · refine .inr fun i here => ?_
    by_contra both
    exact same (sameKey_trans (left.symm i here) (by simpa using both))

theorem Keys.SameBut.agrees {k v : Value} {gs gs' : Dict} (same : SameBut k (Agrees v) gs gs') (key : k.IsKey)
    {j : Value} (isKey : j.IsKey) : Agrees v (find? j gs) (find? j gs') := by
  rcases isKey.same_or_apart key with itself | apart
  · have found : ∀ fs : Dict, find? j fs = find? k fs := fun fs => find?_congr fun i _ => itself i
    rw [found, found]
    exact same.here
  · rw [same.find?_eq apart]
    exact ⟨rfl, fun _ => rfl⟩

/-- A value that the schema for empty values of a node accepts, once it is converted and trimmed, has the outcome of
absence, if that schema has an answer about absence too. In an object that holds nothing but its keys and whether it
accepts others, such a value of a child without references fares as if its key were left out: the object rejects with the
same issues, and with the same under every other key, or it accepts with the same under every key.

The tests for emptiness make as many copies on both sides, or no schema fills in a container whose copies are told apart.
An object that is forbidden says so of itself, with the value or without it. -/
theorem empty_counts_as_absent (h : Hooks) :
    (∀ (s : Schema) (v : Value) (site : Site) (p : Preferences) (r r' r₁ r₂ : Run) (b : Bool),
      s.all (fun core _ => core.isPlain) → s.core.result ≠ some .raw → r'.journal = r.journal →
      (s.takesAsEmpty h v site p).exec r = (.ok true, r₁) →
      (s.takesAsEmpty h .undefined site p).exec r' = (.ok b, r₂) →
      (r₂.copies = r₁.copies ∨ s.all fun core _ => core.isSteady) →
        ((s.eval h .undefined site p).exec r').1 = ((s.eval h v site p).exec r).1 ∧
          ((s.eval h .undefined site p).exec r').2.journal = ((s.eval h v site p).exec r).2.journal) ∧
    ∀ (unknown : Option Value) (before after : List (Value × Schema)) (k v : Value) (s : Schema) (fs : Dict)
      (site : Site) (p : Preferences) (r : Run),
      (∀ e ∈ before ++ (k, s) :: after, e.1.IsKey ∧ e.2.refs = [] ∧ e.2.all fun core _ => core.isPlain) →
      (∀ e ∈ before ++ after, Apart e.1 k) → s.core.result ≠ some .raw → find? k fs = some v →
      s.CountsAsAbsent h r.copies (site.path ++ [k]) p v →
      (s.CopiesEvenly h r.copies (site.path ++ [k]) p v ∨
        ∀ e ∈ before ++ (k, s) :: after, e.2.all fun core _ => core.isSteady) →
      let run := fun fs => ((Schema.keysOnly unknown (before ++ (k, s) :: after)).eval h (.dict fs) site p).exec r
      (run (erase k fs)).2.journal = (run fs).2.journal ∧
        ((∃ f, (run fs).1 = .error f ∧ (run (erase k fs)).1 = .error f) ∨
          ∃ gs gs' errors errors', (run fs).1 = .ok ⟨.dict gs, errors⟩ ∧
            (run (erase k fs)).1 = .ok ⟨.dict gs', errors'⟩ ∧
            (if p.presence = .forbidden then
              errors = [Schema.refusal site p fs] ∧ errors' = [Schema.refusal site p (erase k fs)]
            else errors = errors') ∧
            erase k gs = erase k gs' ∧
            (errors = [] → ∀ j : Value, j.IsKey → Keys.Agrees v (find? j gs) (find? j gs'))) := by
  refine ⟨?_, ?_⟩
  · intro s v site p r r' r₁ r₂ b plain converts journal taken asked even
    obtain ⟨copies, together⟩ := Schema.taken_together plain converts journal taken asked even
    exact ⟨together.outcome, together.journal⟩
  · intro unknown before after k v s fs site p r contained apart converts found absent even run
    have key : k.IsKey := (contained (k, s) (by simp)).1
    have together : ∃ copies, EndTogether copies r.copies (Schema.LeavesOut k v site p fs) (run fs) (run (erase k fs)) :=
      Schema.keysOnly_together contained apart converts found absent even
    obtain ⟨copies, together⟩ := together
    refine ⟨together.journal, together.results.imp_right ?_⟩
    rintro ⟨⟨w, errors⟩, ⟨w', errors'⟩, full, lean, ⟨gs, gs', rfl, rfl, same⟩, issues⟩
    exact ⟨gs, gs', errors, errors', full, lean, issues, same.others, fun none j isKey =>
      (same.mono fun _ _ agrees => agrees none).agrees key isKey⟩

/-- The schema that takes an empty text and nothing else. -/
def emptyText : Schema := .node { allowed := some { literals := [.literal (.str "")] }, only := true } none .any

/-- A text that is trimmed, with a list in place of an empty one. -/
def listedText : Schema := .node
  { default := some (.static (.list [.int 1])), rules := [{ name := .trim, args := [("enabled", .bool true)] }] }
  (some emptyText) .string

theorem blank_counts_as_absent :
    ((listedText.eval .idle .undefined {} {}).exec {}).1 = ((listedText.eval .idle (.str "  ") {} {}).exec {}).1 ∧
    let run := fun fs => ((Schema.keysOnly none [(.str "a", .node {} none .number), (.str "k", listedText)]).eval .idle
      (.dict fs) {} {}).exec {}
    ∃ gs gs', (run [(.str "k", .str "  "), (.str "a", .str "2")]).1 = .ok ⟨.dict gs, []⟩ ∧
      (run [(.str "a", .str "2")]).1 = .ok ⟨.dict gs', []⟩ ∧ find? (.str "k") gs = find? (.str "k") gs' := by
  obtain ⟨node, object⟩ := empty_counts_as_absent .idle
  refine ⟨(node listedText (.str "  ") {} {} {} {} _ _ _ rfl nofun rfl rfl rfl (.inr rfl)).1, ?_⟩
  have contained : ∀ e ∈ [((.str "a" : Value), (.node {} none .number : Schema))] ++ (.str "k", listedText) :: [],
      (e.1.IsKey ∧ e.2.refs = [] ∧ e.2.all fun core _ => core.isPlain) ∧ e.2.all fun core _ => core.isSteady := by
    simp only [List.cons_append, List.nil_append, List.forall_mem_cons]
    exact ⟨⟨⟨isKey_str "a", rfl, rfl⟩, rfl⟩, ⟨⟨isKey_str "k", rfl, rfl⟩, rfl⟩, List.forall_mem_nil _⟩
  obtain ⟨-, ⟨f, raised, -⟩ | ⟨gs, gs', errors, errors', left, right, issues, -, agrees⟩⟩ := object none
    [(.str "a", .node {} none .number)] [] (.str "k") (.str "  ") listedText
    [(.str "k", .str "  "), (.str "a", .str "2")] {} {} {} (fun e member => (contained e member).1) (by simp [apart_str])
    nofun rfl ⟨fun _ _ => rfl, fun _ _ => ⟨_, rfl⟩⟩ (.inr fun e member => (contained e member).2)
  · cases raised
  · obtain rfl : errors = [] := (congrArg Result.errors (Except.ok.inj left)).symm
    obtain rfl : [] = errors' := issues
    exact ⟨gs, gs', left, right, (agrees rfl (.str "k") (isKey_str "k")).2 rfl⟩

/-- A schema that takes an empty text. About absence it asks for an item of a list under a text that is no index. -/
def emptyTextOrItem : Schema := .node
  { allowed := some { literals := [.literal (.str "")] }, only := true
    default := some (.ref
      { serial := 0, key := "a.--1", target := .ancestor 1, holdsCache := false, path := ["a", "--1"] }) }
  none .any

/-- A required text that counts as absent stays where it is, beside the report that it is missing. A schema for empty
values may have no answer about absence where it has one about a text. -/
theorem empty_text_told_from_absence :
    let required : Schema := .node { presence := some .required } (some emptyText) .string
    let run := fun fs => (((Schema.keysOnly none [(.str "k", required)]).eval .idle (.dict fs) {} {}).exec {}).1
    let optional : Schema := .node {} (some emptyTextOrItem) .string
    let site : Site := ⟨[.str "k"], [.dict [(.str "a", .list [.int 1])]]⟩
    (((required.takesAsEmpty .idle (.str "") ⟨[.str "k"], []⟩ {}).exec {}).1 = .ok true ∧
      ∃ i, run [(.str "k", .str "")] = .ok ⟨.dict [(.str "k", .str "")], [i]⟩ ∧ run [] = .ok ⟨.dict [], [i]⟩) ∧
    (((optional.takesAsEmpty .idle (.str "") site {}).exec {}).1 = .ok true ∧
      ((optional.eval .idle (.str "") site {}).exec {}).1 = .ok ⟨.undefined, []⟩ ∧
      ((optional.eval .idle .undefined site {}).exec {}).1 = .error (.unreadable "--1")) :=
  ⟨⟨rfl, _, rfl, rfl⟩, rfl, rfl, rfl⟩

end Conform
