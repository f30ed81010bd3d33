import Conform.Proofs.Reach
import Conform.Proofs.Run.Exec

/-!
# What a reference resolves to

Past the root there is nothing. Otherwise a reference finds what was captured for its target, or what its path leads
to in the live data. What is found is adjusted first and looked up in the table after that.
-/

namespace Conform

open Datum

namespace Reference

/-- The target lies further up than the site has enclosing values. -/
def PastRoot (r : Reference) (s : Site) : Prop := ∃ n, r.target = .ancestor n ∧ s.ancestors.length < n

/-- The value from which the path of a reference into the data starts. -/
inductive Starts (r : Reference) (v : Value) (s : Site) : Value → Prop
  | outermost {inner : List Value} {top : Value} (target : r.target = .root) (ancestors : s.ancestors = inner ++ [top]) :
      Starts r v s top
  | alone (target : r.target = .root) (ancestors : s.ancestors = []) : Starts r v s v
  | itself (target : r.target = .ancestor 0) : Starts r v s v
  | enclosing {n : Nat} {o : Value} (target : r.target = .ancestor (n + 1)) (ancestor : s.ancestors[n]? = some o) :
      Starts r v s o

/-- What is captured at the absolute path of the target, absent where there is no shadow. -/
def entry (shadow : Option Shadow) (r : Reference) (s : Site) : Except Fault Value :=
  match shadow with
  | some sh => r.absolute s >>= fun p => sh.lookup p
  | none => .ok .undefined

/-- The raw result of a reference, before anything is made of it. -/
inductive Finds (shadow : Option Shadow) (context : Option Dict) (r : Reference) (v : Value) (s : Site) : Value → Prop
  | context {w : Value} (target : r.target = .context) (reached : reach (.dict (context.getD [])) r.pathValues = .ok w) :
      Finds shadow context r v s w
  | captured {o w : Value} (starts : r.Starts v s o) (entry : r.entry shadow s = .ok w) (present : w.isUndefined = false) :
      Finds shadow context r v s w
  | live {o w : Value} (starts : r.Starts v s o) (entry : r.entry shadow s = .ok .undefined)
      (reached : reach o r.pathValues = .ok w) : Finds shadow context r v s w

inductive Adjusts (adjust : Adjustment) (r : Reference) : Value → Value → Prop
  | called {f : Fn} {v w : Value} (asked : r.adjust = some f) (call : adjust f v = .ok w) : Adjusts adjust r v w
  | unasked {v : Value} (asked : r.adjust = none) : Adjusts adjust r v v

/-- What the table of a reference makes of a value: the target of the first source that equals it. -/
inductive Maps (r : Reference) : Value → Value → Prop
  | listed {front back : List (Value × Value)} {source target v : Value}
      (table : r.table = some (front ++ (source, target) :: back)) (earlier : ∀ p ∈ front, deepEqual p.1 v = false)
      (equal : deepEqual source v) : Maps r v target
  | unlisted {pairs : List (Value × Value)} {v : Value} (table : r.table = some pairs)
      (missing : ∀ p ∈ pairs, deepEqual p.1 v = false) : Maps r v v
  | untabled {v : Value} (table : r.table = none) : Maps r v v

variable {r : Reference} {shadow : Option Shadow} {context : Option Dict} {adjust : Adjustment} {v w o found : Value}
  {s : Site}

/-! ## Starting -/

theorem starts_iff : r.Starts v s o ↔ r.origin? v s = some o := by
  constructor
  · intro starts
    cases starts with
    | outermost target ancestors => simp [origin?, target, ancestors]
    | alone target ancestors => simp [origin?, target, ancestors]
    | itself target => simp [origin?, target]
    | enclosing target ancestor => simpa [origin?, target] using ancestor
  · intro origin
    unfold origin? at origin
    split at origin
    · cases origin
    · rename_i target
      obtain rfl := Option.some.inj origin
      rcases List.eq_nil_or_concat s.ancestors with none | ⟨inner, top, ancestors⟩
      · simpa [none] using Starts.alone target none
      · simpa [ancestors] using Starts.outermost target (ancestors.trans (List.concat_eq_append ..))
    · rename_i target
      obtain rfl := Option.some.inj origin
      exact .itself target
    · rename_i target
      exact .enclosing target origin

theorem pastRoot_iff (inData : r.target ≠ .context) : r.PastRoot s ↔ r.origin? v s = none := by
  constructor
  · rintro ⟨n, target, beyond⟩
    cases n with
    | zero => omega
    | succ n => simpa [origin?, target, Nat.lt_succ_iff] using beyond
  · intro none
    unfold origin? at none
    split at none
    · exact absurd ‹_› inData
    · cases none
    · cases none
    · rename_i n target
      exact ⟨n + 1, target, by simpa [Nat.lt_succ_iff] using none⟩

/-! ## Places -/

/-- The site of a value below a root: its path leads to it, and the paths above it to the enclosing values. -/
structure LiesBelow (s : Site) (root v : Value) : Prop where
  depth : s.ancestors.length = s.path.length
  value : reach root s.path = .ok v
  ancestors : ∀ n o, s.ancestors[n]? = some o → reach root (s.path.take (s.path.length - (n + 1))) = .ok o

/-- The absolute path of a target leads from the root to what the path below the target leads to from its start. -/
theorem absolute_reaches {root : Value} {p : Path} (lies : LiesBelow s root v) (starts : r.Starts v s o)
    (absolute : r.absolute s = .ok p) : reach root p = reach o r.pathValues := by
  unfold Reference.absolute at absolute
  cases starts with
  | @outermost inner top target ancestors =>
      obtain rfl : r.pathValues = p := by simpa [target] using absolute
      have length : s.path.length = inner.length + 1 := by simp [← lies.depth, ancestors]
      have top := lies.ancestors inner.length o (by simp [ancestors])
      rw [length, Nat.sub_self, List.take_zero] at top
      obtain rfl : root = o := Except.ok.inj top
      rfl
  | alone target ancestors =>
      obtain rfl : r.pathValues = p := by simpa [target] using absolute
      have length : s.path.length = 0 := by simp [← lies.depth, ancestors]
      have value := lies.value
      rw [List.length_eq_zero_iff.mp length] at value
      obtain rfl : root = v := Except.ok.inj value
      rfl
  | itself target =>
      obtain rfl : s.path ++ r.pathValues = p := by simpa [target, Site.above] using absolute
      rw [reach_append, lies.value]
      rfl
  | @enclosing n o target ancestor =>
      have within : n + 1 ≤ s.path.length := lies.depth ▸ (List.getElem?_eq_some_iff.mp ancestor).1
      obtain rfl : s.path.take (s.path.length - (n + 1)) ++ r.pathValues = p := by
        simpa [target, Site.above, within] using absolute
      rw [reach_append, lies.ancestors n o ancestor]
      rfl

/-! ## What is made of a finding -/

theorem mapped_iff {pairs : List (Value × Value)} (table : r.table = some pairs) :
    r.Maps v w ↔ mapped pairs v = w := by
  unfold mapped
  constructor
  · intro maps
    cases maps with
    | @listed front back source _ _ table' earlier equal =>
        obtain rfl := Option.some.inj (table.symm.trans table')
        have first : (front ++ (source, w) :: back).find? (fun p => deepEqual p.1 v) = some (source, w) :=
          List.find?_eq_some_iff_append.mpr ⟨equal, front, back, rfl, fun p member => by simp [earlier p member]⟩
        rw [first]
    | unlisted table' missing =>
        obtain rfl := Option.some.inj (table.symm.trans table')
        rw [List.find?_eq_none.mpr fun p member => by simp [missing p member]]
    | untabled table' => simp [table] at table'
  · intro result
    cases search : pairs.find? fun p => deepEqual p.1 v with
    | none =>
        obtain rfl : v = w := by simpa [search] using result
        refine .unlisted table fun p member => ?_
        simpa using List.find?_eq_none.mp search p member
    | some p =>
        obtain rfl : p.2 = w := by simpa [search] using result
        obtain ⟨equal, front, back, rfl, earlier⟩ := List.find?_eq_some_iff_append.mp search
        exact .listed table (fun q member => by simpa using earlier q member) equal

def tabled (r : Reference) (v : Value) : Value :=
  match r.table with
  | some pairs => mapped pairs v
  | none => v

theorem maps_iff : r.Maps v w ↔ r.tabled v = w := by
  unfold tabled
  cases table : r.table with
  | some pairs => exact mapped_iff table
  | none =>
      constructor
      · intro maps
        cases maps with
        | listed table' => simp [table] at table'
        | unlisted table' => simp [table] at table'
        | untabled => rfl
      · rintro rfl
        exact .untabled table

theorem finish_called {f : Fn} (asked : r.adjust = some f) :
    r.finish adjust found = adjust f found >>= fun a => .ok (r.tabled a) := by
  unfold finish
  rw [asked]
  rfl

theorem finish_unasked (asked : r.adjust = none) : r.finish adjust found = .ok (r.tabled found) := by
  unfold finish
  rw [asked]
  rfl

theorem finish_iff : r.finish adjust found = .ok w ↔ ∃ a, r.Adjusts adjust found a ∧ r.Maps a w := by
  cases asked : r.adjust with
  | none =>
      rw [finish_unasked asked, Except.ok.injEq, ← maps_iff]
      constructor
      · intro maps
        exact ⟨found, .unasked asked, maps⟩
      · rintro ⟨a, _ | _, maps⟩
        · simp_all
        · exact maps
  | some f =>
      rw [finish_called asked, bind_eq_ok]
      constructor
      · rintro ⟨a, call, tabled⟩
        exact ⟨a, .called asked call, maps_iff.mpr (Except.ok.inj tabled)⟩
      · rintro ⟨a, ⟨asked', call⟩ | asked', maps⟩
        · obtain rfl := Option.some.inj (asked.symm.trans asked')
          exact ⟨a, call, congrArg Except.ok (maps_iff.mp maps)⟩
        · simp [asked] at asked'

/-- A table that lists neither a finding nor what the adjustment makes of it can be looked up at any time. -/
def Commutes (adjust : Adjustment) (r : Reference) (found : Value) : Prop :=
  r.adjust = none ∨ r.Maps found found ∧ ∀ a, r.Adjusts adjust found a → r.Maps a a

theorem Commutes.finish_iff (commutes : r.Commutes adjust found) :
    r.finish adjust found = .ok w ↔ ∃ m, r.Maps found m ∧ r.Adjusts adjust m w := by
  rw [Reference.finish_iff]
  rcases commutes with asked | ⟨here, there⟩
  · constructor
    · rintro ⟨a, adjusts, maps⟩
      cases adjusts with
      | called asked' => simp [asked] at asked'
      | unasked => exact ⟨w, maps, .unasked asked⟩
    · rintro ⟨m, maps, adjusts⟩
      cases adjusts with
      | called asked' => simp [asked] at asked'
      | unasked => exact ⟨found, .unasked asked, maps⟩
  · constructor
    · rintro ⟨a, adjusts, maps⟩
      obtain rfl : a = w := (maps_iff.mp (there a adjusts)).symm.trans (maps_iff.mp maps)
      exact ⟨found, here, adjusts⟩
    · rintro ⟨m, maps, adjusts⟩
      obtain rfl : found = m := (maps_iff.mp here).symm.trans (maps_iff.mp maps)
      exact ⟨w, adjusts, there w adjusts⟩

/-! ## Resolving -/

theorem resolve_context (adjust : Adjustment) (shadow : Option Shadow) (context : Option Dict)
    (target : r.target = .context) (v : Value) (s : Site) :
    r.resolve adjust shadow context v s = reach (.dict (context.getD [])) r.pathValues >>= r.finish adjust := by
  unfold resolve
  rw [target]

theorem resolve_pastRoot (pastRoot : r.PastRoot s) : r.resolve adjust shadow context v s = .ok .undefined := by
  have ⟨n, target, _⟩ := pastRoot
  have none := (pastRoot_iff (v := v) (by simp [target])).mp pastRoot
  unfold resolve
  rw [none, target]
  rfl

/-- The shadow is asked first, and the live data where it has nothing. -/
theorem resolve_data (inData : r.target ≠ .context) (origin : r.origin? v s = some o) :
    r.resolve adjust shadow context v s = r.entry shadow s >>= fun c =>
      (if c.isUndefined then reach o r.pathValues else .ok c) >>= r.finish adjust := by
  unfold resolve entry
  rw [origin]
  cases target : r.target with
  | context => exact absurd target inData
  | root | ancestor =>
      cases shadow with
      | none => rfl
      | some sh =>
          simp only [bind_assoc]
          refine bind_congr fun p => bind_congr fun c => ?_
          cases c.isUndefined <;> rfl

theorem resolve_iff (within : ¬ r.PastRoot s) : r.resolve adjust shadow context v s = .ok w ↔
    ∃ found, r.Finds shadow context v s found ∧ r.finish adjust found = .ok w := by
  by_cases inContext : r.target = .context
  · rw [resolve_context adjust shadow context inContext, bind_eq_ok]
    constructor
    · rintro ⟨found, reached, finished⟩
      exact ⟨found, .context inContext reached, finished⟩
    · rintro ⟨found, ⟨-, reached⟩ | ⟨starts⟩ | ⟨starts⟩, finished⟩
      · exact ⟨found, reached, finished⟩
      all_goals cases starts <;> simp_all
  · obtain ⟨o, origin⟩ := Option.ne_none_iff_exists'.mp (mt (pastRoot_iff inContext).mpr within)
    rw [resolve_data inContext origin, bind_eq_ok]
    constructor
    · rintro ⟨c, entry, rest⟩
      obtain ⟨found, taken, finished⟩ := bind_eq_ok.mp rest
      refine ⟨found, ?_, finished⟩
      cases absent : c.isUndefined with
      | true =>
          obtain rfl : c = .undefined := by cases c <;> first | rfl | cases absent
          exact .live (starts_iff.mpr origin) entry (by simpa [absent] using taken)
      | false =>
          obtain rfl : c = found := by simpa [absent] using taken
          exact .captured (starts_iff.mpr origin) entry absent
    · rintro ⟨found, ⟨target⟩ | ⟨starts, entry, present⟩ | ⟨starts, entry, reached⟩, finished⟩
      · exact absurd target inContext
      · refine ⟨found, entry, ?_⟩
        rw [if_neg (by simp [present])]
        exact finished
      · refine ⟨.undefined, entry, bind_eq_ok.mpr ⟨found, ?_, finished⟩⟩
        obtain rfl := Option.some.inj (origin.symm.trans (starts_iff.mp starts))
        exact reached

/-! ## References that are built -/

/-- The first mark of a key tells which references lead into the context, and which start at the root. -/
theorem ofPlainKey_ancestor (separator : Char) (text : List Char) : ∃ n, (ofPlainKey separator text).1 = .ancestor n := by
  unfold ofPlainKey
  split
  · exact ⟨1, rfl⟩
  · dsimp only
    split
    · exact ⟨1, rfl⟩
    · exact ⟨_, rfl⟩

theorem ofKey_mark {separator : Char} {ancestor : Option Nat} {text : List Char} {target : Target} {path : List String}
    (read : ofKey separator ancestor text = .ok (target, path)) :
    (target = .context ↔ text.head? = some contextMark) ∧ (target = .root ↔ text.head? = some rootMark) := by
  unfold ofKey at read
  split at read
  · rename_i c rest
    split at read
    · rename_i marked
      obtain ⟨-, -, same⟩ := bind_eq_ok.mp read
      cases same
      by_cases leads : c = contextMark
      · subst leads
        simp [contextMark, rootMark]
      · obtain rfl : c = rootMark := by simpa [leads] using marked
        simp [contextMark, rootMark]
    · rename_i unmarked
      obtain ⟨n, rfl⟩ : ∃ n, target = .ancestor n := by
        split at read
        · obtain ⟨-, -, same⟩ := bind_eq_ok.mp read
          cases same
          exact ⟨_, rfl⟩
        · obtain ⟨n, isAncestor⟩ := ofPlainKey_ancestor separator (c :: rest)
          exact ⟨n, by rw [← isAncestor, Except.ok.inj read]⟩
      simpa using unmarked
  · cases read
    simp
  · cases read
    simp

theorem build_mark {serial : Nat} {key : Value} {o : Options} (built : build serial key o = .ok r) :
    ∃ text : String, key = .str text ∧ (r.target = .context ↔ text.toList.head? = some contextMark) ∧
      (r.target = .root ↔ text.toList.head? = some rootMark) := by
  unfold build at built
  split at built
  · rename_i text
    obtain ⟨separator, ancestor, path, read⟩ :
        ∃ separator ancestor path, ofKey separator ancestor text.toList = .ok (r.target, path) := by
      -- The other options have been read before, and the table is none of the key's business.
      repeat' split at built
      all_goals try cases built
      all_goals
        obtain ⟨adjust, -, built⟩ := bind_eq_ok.mp built
        obtain ⟨ancestor, -, built⟩ := bind_eq_ok.mp built
        obtain ⟨table, -, built⟩ := bind_eq_ok.mp built
        obtain ⟨⟨target, path⟩, read, same⟩ := bind_eq_ok.mp built
        cases same
        exact ⟨_, _, path, read⟩
    exact ⟨text, rfl, ofKey_mark read⟩
  · cases built

/-! ## The order of the steps -/

/-- The results in the order in which the steps are documented: looked up in the table, then adjusted. -/
def Documented (adjust : Adjustment) (shadow : Option Shadow) (context : Option Dict) (r : Reference) (v : Value) (s : Site)
    (w : Value) : Prop := ∃ found m, r.Finds shadow context v s found ∧ r.Maps found m ∧ r.Adjusts adjust m w

/-- A reference resolves to what it finds, adjusted and then looked up in its table, and to nothing past the root. The
documented order gives the same wherever the table lists neither what was found nor what the adjustment makes of it. -/
theorem resolution_in_steps {serial : Nat} {key : Value} {o : Options} (built : build serial key o = .ok r)
    (adjust : Adjustment) (shadow : Option Shadow) (context : Option Dict) (v : Value) (s : Site) :
    (∃ text : String, key = .str text ∧ (r.target = .context ↔ text.toList.head? = some contextMark) ∧
      (r.target = .root ↔ text.toList.head? = some rootMark)) ∧
    (∀ root start p, LiesBelow s root v → r.Starts v s start → r.absolute s = .ok p →
      reach root p = reach start r.pathValues) ∧
    (r.PastRoot s → r.resolve adjust shadow context v s = .ok .undefined) ∧
    (¬ r.PastRoot s → ∀ w, r.resolve adjust shadow context v s = .ok w ↔
      ∃ found a, r.Finds shadow context v s found ∧ r.Adjusts adjust found a ∧ r.Maps a w) ∧
    (¬ r.PastRoot s → (∀ found, r.Finds shadow context v s found → r.Commutes adjust found) → ∀ w,
      r.resolve adjust shadow context v s = .ok w ↔ r.Documented adjust shadow context v s w) := by
  refine ⟨build_mark built, fun root start p => absolute_reaches, resolve_pastRoot, fun within w => ?_,
    fun within commutes w => ?_⟩
  · rw [resolve_iff within]
    constructor
    · rintro ⟨found, finds, finished⟩
      obtain ⟨a, adjusts, maps⟩ := finish_iff.mp finished
      exact ⟨found, a, finds, adjusts, maps⟩
    · rintro ⟨found, a, finds, adjusts, maps⟩
      exact ⟨found, finds, finish_iff.mpr ⟨a, adjusts, maps⟩⟩
  · rw [resolve_iff within]
    constructor
    · rintro ⟨found, finds, finished⟩
      obtain ⟨m, maps, adjusts⟩ := (commutes found finds).finish_iff.mp finished
      exact ⟨found, m, finds, maps, adjusts⟩
    · rintro ⟨found, m, finds, maps, adjusts⟩
      exact ⟨found, finds, (commutes found finds).finish_iff.mpr ⟨m, maps, adjusts⟩⟩

/-! ## A sibling to which ten is added -/

/-- Adds ten to an integer. -/
def plusTen : Adjustment
  | _, .int n => .ok (.int (n + 10))
  | _, v => .ok v

def ten : Fn := ⟨0, "ten", [], none⟩

/-- The key `a` beside the value, with ten added and a table of one pair. -/
def siblingA (m n : Int) : Reference :=
  { serial := 0, key := "a", target := .ancestor 1, path := ["a"], adjust := some ten, table := some [(.int m, .int n)] }

def besideTwo : Site := ⟨[.str "c"], [.dict [(.str "a", .int 2), (.str "c", .int 0)]]⟩

theorem siblingA_built (m n : Int) :
    build 0 (.str "a") { adjust := .leaf (.fn ten), table := .dict [(.int m, .int n)] } = .ok (siblingA m n) := rfl

theorem siblingA_within (m n : Int) : ¬ (siblingA m n).PastRoot besideTwo := by
  rintro ⟨k, target, beyond⟩
  cases target
  exact absurd beyond (by decide)

theorem siblingA_finds {m n : Int} (finds : (siblingA m n).Finds none none (.int 0) besideTwo found) :
    found = .int 2 := by
  cases finds with
  | context target => cases target
  | captured starts entry present =>
      cases entry
      cases present
  | live starts entry reached =>
      cases starts with
      | outermost target | alone target | itself target => cases target
      | enclosing target ancestor =>
          cases target
          cases ancestor
          cases reached
          rfl

theorem siblingA_steps : (siblingA 5 7).Documented plusTen none none (.int 0) besideTwo (.int 12) := by
  obtain ⟨-, -, -, -, order⟩ := resolution_in_steps (siblingA_built 5 7) plusTen none none (.int 0) besideTwo
  refine (order (siblingA_within 5 7) (fun found finds => ?_) (.int 12)).mp rfl
  obtain rfl := siblingA_finds finds
  refine .inr ⟨maps_iff.mpr rfl, fun a adjusts => ?_⟩
  rcases adjusts with ⟨asked, call⟩ | asked
  · cases call
    exact maps_iff.mpr rfl
  · exact maps_iff.mpr rfl

/-- The table lists what is found, but it is the adjusted value that is looked up. -/
theorem found_value_not_looked_up :
    (siblingA 2 3).resolve plusTen none none (.int 0) besideTwo = .ok (.int 12) ∧
      (siblingA 2 3).Documented plusTen none none (.int 0) besideTwo (.int 13) ∧
      ¬ (siblingA 2 3).Documented plusTen none none (.int 0) besideTwo (.int 12) := by
  refine ⟨rfl, ⟨.int 2, .int 3, .live (.enclosing rfl rfl) rfl rfl, maps_iff.mpr rfl, .called rfl rfl⟩, ?_⟩
  rintro ⟨found, m, finds, maps, adjusts⟩
  obtain rfl := siblingA_finds finds
  obtain rfl := maps_iff.mp maps
  obtain ⟨asked, call⟩ := adjusts
  cases call

end Reference

end Conform
