import Conform.Proofs.Run.Exec
import Conform.Reference

/-!
# Levels that a reference climbs

A key says by its leading separators how many levels its reference climbs: one separator for none, and one more for
each level. The ancestor option says the same number outright, and the bare key stands for one level. All of them
name one place.
-/

namespace Conform.Reference

/-- The key that lists segments between separators. -/
def joined (separator : Char) (names : List String) : List Char := [separator].intercalate (names.map String.toList)

/-- Segments that a key without a mark can list. -/
structure Spelled (separator : Char) (names : List String) : Prop where
  nonempty : names ≠ []
  filled : ∀ s ∈ names, s ≠ ""
  clear : ∀ s ∈ names, separator ∉ s.toList
  unmarked : ∀ c ∈ (joined separator names).head?, c ≠ contextMark ∧ c ≠ rootMark

/-- Two ways of naming one place: both are refused with one fault, or both give references with one target and path,
which lead to the same from every site. -/
inductive OnePlace : Except Fault Reference → Except Fault Reference → Prop
  | refused (fault : Fault) : OnePlace (.error fault) (.error fault)
  | built {r s : Reference} (target : r.target = s.target) (path : r.path = s.path)
      (place : ∀ site, r.absolute site = s.absolute site)
      (found : ∀ adjust shadow context v site,
        r.resolve adjust shadow context v site = s.resolve adjust shadow context v site) :
      OnePlace (.ok r) (.ok s)

variable {c : Char} {names : List String}

/-! ## Reading -/

theorem joined_first (spelled : Spelled c names) :
    ∃ first rest, joined c names = first :: rest ∧ first ≠ c ∧ first ≠ contextMark ∧ first ≠ rootMark := by
  obtain ⟨s, later, rfl⟩ := List.exists_cons_of_ne_nil spelled.nonempty
  have filled : s.toList ≠ [] := fun empty => spelled.filled s (by simp) (String.toList_eq_nil_iff.mp empty)
  obtain ⟨first, rest, text⟩ := List.exists_cons_of_ne_nil filled
  obtain ⟨tail, isJoined⟩ : ∃ tail, joined c (s :: later) = first :: tail := by
    cases later <;> simp [joined, List.intercalate, text]
  have apart : first ≠ c := by
    rintro rfl
    exact spelled.clear s (by simp) (by simp [text])
  exact ⟨first, tail, isJoined, apart, spelled.unmarked first (by simp [isJoined])⟩

theorem segments_joined (spelled : Spelled c names) : segments c (joined c names) = names := by
  obtain ⟨first, rest, isJoined, -⟩ := joined_first spelled
  have split : (joined c names).splitOn c = names.map String.toList :=
    List.splitOn_intercalate c (by simpa using spelled.clear) (by simpa using spelled.nonempty)
  have present : (joined c names).isEmpty = false := by simp [isJoined]
  rw [segments, present, split]
  simp

theorem dropWhile_climbing (spelled : Spelled c names) (n : Nat) :
    (List.replicate n c ++ joined c names).dropWhile (· == c) = joined c names := by
  obtain ⟨first, rest, isJoined, apart, -⟩ := joined_first spelled
  rw [List.dropWhile_append_of_pos (by simp), isJoined, List.dropWhile_cons_of_neg (by simpa using apart)]

theorem ofPlainKey_climbing (spelled : Spelled c names) (n : Nat) :
    ofPlainKey c (List.replicate (n + 1) c ++ joined c names) = (.ancestor n, names) := by
  have climbed : (List.replicate (n + 1) c ++ joined c names).length - (joined c names).length = n + 1 := by simp
  rw [ofPlainKey, dropWhile_climbing spelled]
  simp only [climbed, segments_joined spelled]
  simp

theorem ofPlainKey_bare (spelled : Spelled c names) : ofPlainKey c (joined c names) = (.ancestor 1, names) := by
  obtain ⟨first, rest, isJoined, -⟩ := joined_first spelled
  have stripped := dropWhile_climbing spelled 0
  rw [List.replicate_zero, List.nil_append] at stripped
  rw [ofPlainKey, stripped]
  simp only [Nat.sub_self, segments_joined spelled]
  simp [isJoined]

/-- A key that begins with neither mark is read as a plain one, and an ancestor can be given beside it unless it begins
with a separator. -/
theorem ofKey_unmarked {first : Char} {rest : List Char} (marks : first ≠ contextMark ∧ first ≠ rootMark)
    (ancestor : Option Nat) :
    ofKey c ancestor (first :: rest) = match ancestor with
      | some n => do
        require (first != c) "Cannot combine prefix with ancestor option"
        return (.ancestor n, segments c (first :: rest))
      | none => .ok (ofPlainKey c (first :: rest)) := by
  have unmarked : (first == contextMark || first == rootMark) = false := by simp [marks]
  cases ancestor with
  | none =>
      simp only [ofKey, unmarked]
      rfl
  | some n =>
      simp only [ofKey, unmarked]
      rfl

theorem ofKey_climbing (spelled : Spelled c names) (plain : c ≠ contextMark ∧ c ≠ rootMark) (n : Nat) :
    ofKey c none (List.replicate (n + 1) c ++ joined c names) = .ok (.ancestor n, names) := by
  have read := ofPlainKey_climbing spelled n
  rw [List.replicate_succ, List.cons_append] at read ⊢
  rw [ofKey_unmarked plain]
  exact congrArg Except.ok read

theorem ofKey_addressed (spelled : Spelled c names) (n : Nat) :
    ofKey c (some n) (joined c names) = .ok (.ancestor n, names) := by
  have read := segments_joined spelled
  obtain ⟨first, rest, isJoined, apart, marks⟩ := joined_first spelled
  rw [isJoined] at read ⊢
  have free : (first != c) = true := by simpa using apart
  rw [ofKey_unmarked marks, free, read]
  rfl

theorem ofKey_bare (spelled : Spelled c names) : ofKey c none (joined c names) = .ok (.ancestor 1, names) := by
  have read := ofPlainKey_bare spelled
  obtain ⟨first, rest, isJoined, -, marks⟩ := joined_first spelled
  rw [isJoined] at read ⊢
  rw [ofKey_unmarked marks]
  exact congrArg Except.ok read

/-! ## Building -/

/-- The function that an option to adjust names, if it names one. -/
def adjusting : Value → Except Fault (Option Fn)
  | .null => .ok none
  | .leaf (.fn f) => .ok (some f)
  | _ => .error (.contract "adjust must be a function")

/-- What the other options make of a key that has been read. -/
def assemble (serial : Nat) (key : String) (separator : Char) (target : Target) (path : List String) (o : Options) :
    Except Fault Reference := do
  let adjust ← adjusting o.adjust
  let table ← tablePairs o.table
  let holdsCache := (table.map fun ps => !(Datum.dict ps).isCopyable).getD false
  return { serial, key, target, holdsCache, path, adjust, table, spreading := o.spreading, separator }

/-- How many levels an option asks for, if it asks for any. -/
inductive Asks : Value → Option Nat → Prop
  | unsaid : Asks .null none
  | said (n : Nat) : Asks (.int n) (some n)

theorem build_of_ofKey {o : Options} {ancestor : Option Nat} {text : List Char} {target : Target} {path : List String}
    (separator : separator? o.separator = some c) (asks : Asks o.ancestor ancestor)
    (read : ofKey c ancestor text = .ok (target, path)) (serial : Nat) :
    build serial (.str (String.ofList text)) o = assemble serial (String.ofList text) c target path o := by
  unfold build assemble adjusting
  simp only [separator, String.toList_ofList]
  generalize o.ancestor = given at asks
  generalize o.adjust = adjust
  cases asks with
  | unsaid => split <;> (simp only [pure_bind, read]; rfl)
  | said n => split <;> (simp only [Int.natCast_nonneg, Int.toNat_natCast, if_true, pure_bind, read]; rfl)

theorem assemble_target {serial : Nat} {key : String} {target : Target} {path : List String} {o : Options} {r : Reference}
    (assembled : assemble serial key c target path o = .ok r) : r.target = target ∧ r.path = path := by
  obtain ⟨adjust, -, rest⟩ := bind_eq_ok.mp assembled
  obtain ⟨table, -, same⟩ := bind_eq_ok.mp rest
  cases same
  exact ⟨rfl, rfl⟩

/-- Nothing but the key and the number of a reference tells apart what the same options make of one target. -/
theorem assemble_onePlace (i j : Nat) (key key' : String) (target : Target) (path : List String) (o : Options) :
    OnePlace (assemble i key c target path o) (assemble j key' c target path o) := by
  unfold assemble
  rcases adjusting o.adjust with fault | adjust
  · exact .refused fault
  rcases tablePairs o.table with fault | table
  · exact .refused fault
  · exact .built rfl rfl (fun _ => rfl) fun _ _ _ _ _ => rfl

/-- Without the options to adjust and to look up, no key that can be read is refused. -/
theorem assemble_plain {o : Options} (unadjusted : o.adjust = .null) (untabled : o.table = .null) (serial : Nat)
    (key : String) (target : Target) (path : List String) : ∃ r, assemble serial key c target path o = .ok r := by
  unfold assemble
  rw [unadjusted, untabled]
  exact ⟨_, rfl⟩

/-- A key that climbs by its leading separators, the ancestor option of as many levels, and for one level the bare key
name one place, the one at that level under the joined segments. -/
theorem leading_separators_climb (plain : c ≠ contextMark ∧ c ≠ rootMark) (spelled : Spelled c names) (n : Nat)
    {o : Options} (separator : o.separator = .str (String.singleton c)) (unsaid : o.ancestor = .null) (i j k : Nat) :
    let climbing := build i (.str (String.ofList (List.replicate (n + 1) c ++ joined c names))) o
    let addressed := build j (.str (String.ofList (joined c names))) { o with ancestor := .int n }
    let bare := build k (.str (String.ofList (joined c names))) o
    OnePlace climbing addressed ∧ (n = 1 → OnePlace climbing bare) ∧
      (∀ r, climbing = .ok r → r.target = .ancestor n ∧ r.path = names) ∧
      (o.adjust = .null → o.table = .null → ∃ r, climbing = .ok r) := by
  intro climbing addressed bare
  have single : separator? o.separator = some c := by simp [separator, separator?]
  have climbs : climbing = assemble i _ c (.ancestor n) names o :=
    build_of_ofKey single (unsaid ▸ .unsaid) (ofKey_climbing spelled plain n) i
  have addresses : addressed = assemble j _ c (.ancestor n) names o :=
    build_of_ofKey (o := { o with ancestor := .int n }) single (.said n) (ofKey_addressed spelled n) j
  have reads : bare = assemble k _ c (.ancestor 1) names o :=
    build_of_ofKey single (unsaid ▸ .unsaid) (ofKey_bare spelled) k
  rw [climbs, addresses, reads]
  refine ⟨assemble_onePlace .., ?_, fun r => assemble_target, fun unadjusted untabled => assemble_plain unadjusted untabled ..⟩
  rintro rfl
  exact assemble_onePlace ..

/-! ## Two levels up -/

theorem spelled_ab : Spelled '.' ["a", "b"] where
  nonempty := by simp
  filled := by simp
  clear := by simp
  unmarked := by simp [joined, List.intercalate, contextMark, rootMark]

theorem three_dots_climb_two : Spelled '.' ["a", "b"] ∧
    OnePlace (build 0 (.str "...a.b") {}) (build 1 (.str "a.b") { ancestor := .int 2 }) ∧
    ∃ r, build 0 (.str "...a.b") {} = .ok r ∧ r.target = .ancestor 2 ∧ r.path = ["a", "b"] := by
  obtain ⟨alike, -, leads, builds⟩ := leading_separators_climb (by decide) spelled_ab 2 (o := {}) rfl rfl 0 1 2
  obtain ⟨r, built⟩ := builds rfl rfl
  exact ⟨spelled_ab, alike, r, built, leads r built⟩

end Conform.Reference
