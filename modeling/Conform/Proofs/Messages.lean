import Conform.Report
import Conform.Proofs.Text.Blank

/-!
# Messages

The templates of the catalogue can be read, so a report without a message of its own renders.
-/

namespace Conform

namespace Template

/-- Whether a text has no brace that opens and no line break, or a name has no blank and no brace that closes. -/
def isPlain : Piece → Bool
  | .text s => s.toList.all fun c => c != '\x7b' && c != '\r' && c != '\n'
  | .slot name => isName name && name.toList.all fun c => c != '\x7d' && c != '\r' && c != '\n' && !Text.isBlank c

theorem upTo?_append {mark : Char} {cs : List Char} (absent : mark ∉ cs) (rest : List Char) :
    upTo? mark (cs ++ mark :: '\x7d' :: rest) = some (cs, rest) := by
  induction cs with
  | nil => simp [upTo?]
  | cons c cs ih =>
      rw [List.mem_cons, not_or] at absent
      have later := ih absent.2
      have other : (c == mark) = false := beq_eq_false_iff_ne.mpr (Ne.symm absent.1)
      cases cs with
      | nil => simp_all [upTo?]
      | cons d cs => simp_all [upTo?]

theorem trimBlanks_between {name : String} (visible : ∀ c ∈ name.toList, Text.isBlank c = false) :
    Text.trimBlanks (String.ofList (' ' :: (name.toList ++ [' ']))) = name := by
  have blank : ∀ c ∈ [' '], Text.isBlank c := List.forall_mem_singleton.mpr (by decide)
  have kept := Text.trimBlanks_padded blank blank visible
  rw [String.ofList_toList] at kept
  exact kept

theorem source_cons (p : Piece) (t : Template) :
    (source (p :: t)).toList = p.source.toList ++ (source t).toList := by
  rw [source, source, String.toList_join, String.toList_join, List.map_cons, List.flatMap_cons]

theorem readPieces_char (fuel : Nat) {c : Char} {r : List Char} (other : c ≠ '\x7b')
    (rest : (readPieces fuel r).isSome) : (readPieces (fuel + 1) (c :: r)).isSome := by
  rw [readPieces, Option.isSome_map]
  · exact rest
  all_goals exact fun _ same => absurd same other

theorem readPieces_slot (fuel : Nat) {name : String} {r : List Char} (plain : isPlain (.slot name))
    (rest : (readPieces fuel r).isSome) :
    (readPieces (fuel + 1) ((Piece.slot name).source.toList ++ r)).isSome := by
  obtain ⟨isName, chars⟩ := Bool.and_eq_true_iff.mp plain
  have visible : ∀ c ∈ name.toList, c ≠ '\x7d' ∧ Text.isBlank c = false := by
    intro c member
    have here := List.all_eq_true.mp chars c member
    simp only [Bool.and_eq_true, Bool.not_eq_true', bne_iff_ne] at here
    exact ⟨here.1.1.1, here.2⟩
  have absent : '\x7d' ∉ ' ' :: (name.toList ++ [' ']) := by
    simpa using fun brace => (visible _ brace).1 rfl
  have opened : (Piece.slot name).source.toList ++ r =
      '\x7b' :: '\x7b' :: (' ' :: (name.toList ++ [' ']) ++ '\x7d' :: '\x7d' :: r) := by
    simp [Piece.source, openMark, closeMark]
  rw [opened, readPieces, upTo?_append absent]
  simp only [trimBlanks_between fun c member => (visible c member).2, isName, if_true]
  rw [Option.isSome_map]
  exact rest

theorem readPieces_source (fuel : Nat) : ∀ (cs : List Char) (t : Template), '\x7b' ∉ cs → t.all isPlain →
    (readPieces fuel (cs ++ t.source.toList)).isSome := by
  induction fuel with
  | zero =>
      intro cs t _ _
      rw [readPieces]
      rfl
  | succ fuel ih =>
      -- A text costs no fuel itself: its characters come before those of the pieces after it.
      intro cs t clear plain
      induction t generalizing cs with
      | nil =>
          cases cs with
          | nil => rfl
          | cons c cs =>
              rw [List.mem_cons, not_or] at clear
              exact readPieces_char _ (Ne.symm clear.1) (ih cs [] clear.2 rfl)
      | cons p t inner =>
          rw [List.all_cons, Bool.and_eq_true] at plain
          cases cs with
          | cons c cs =>
              rw [List.mem_cons, not_or] at clear
              exact readPieces_char _ (Ne.symm clear.1) (ih cs (p :: t) clear.2 (by simp [plain]))
          | nil =>
              rw [List.nil_append, source_cons]
              cases p with
              | text s =>
                  have text := List.all_eq_true.mp plain.1
                  exact inner s.toList (fun brace => by simpa using text _ brace) plain.2
              | slot name => exact readPieces_slot _ plain.1 (ih [] t (by simp) plain.2)

theorem clear_of_plain {t : Template} (plain : t.all isPlain) : ∀ c ∈ t.source.toList, c ≠ '\r' ∧ c ≠ '\n' := by
  intro c member
  rw [source, String.toList_join, List.mem_flatMap] at member
  obtain ⟨_, made, inside⟩ := member
  obtain ⟨p, isPiece, rfl⟩ := List.mem_map.mp made
  have here := List.all_eq_true.mp plain p isPiece
  cases p with
  | text s =>
      have text := List.all_eq_true.mp here c inside
      simp only [Bool.and_eq_true, bne_iff_ne] at text
      exact ⟨text.1.2, text.2⟩
  | slot name =>
      have chars := (Bool.and_eq_true_iff.mp here).2
      have each : c = '\x7b' ∨ c = ' ' ∨ c ∈ name.toList ∨ c = ' ' ∨ c = '\x7d' := by
        simpa [Piece.source, openMark, closeMark] using inside
      rcases each with rfl | rfl | named | rfl | rfl
      · decide
      · decide
      · have letter := List.all_eq_true.mp chars c named
        simp only [Bool.and_eq_true, bne_iff_ne] at letter
        exact ⟨letter.1.1.2, letter.1.2⟩
      · decide
      · decide

theorem joinLines_eq {cs : List Char} (clear : ∀ c ∈ cs, c ≠ '\r') : joinLines cs = cs := by
  induction cs with
  | nil => rfl
  | cons c cs ih =>
      obtain ⟨here, rest⟩ := List.forall_mem_cons.mp clear
      rw [joinLines, ih rest]
      all_goals (intros; contradiction)

theorem dropLastNewline_eq {cs : List Char} (clear : ∀ c ∈ cs, c ≠ '\n') : dropLastNewline cs = cs := by
  unfold dropLastNewline
  split
  · rename_i last
    exact absurd rfl (clear _ (List.mem_of_getLast? (beq_iff_eq.mp last)))
  · rfl

theorem read_source {t : Template} (plain : t.all isPlain) : ∃ u, read t.source = .ok u := by
  have clear := clear_of_plain plain
  obtain ⟨u, found⟩ := Option.isSome_iff_exists.mp (readPieces_source t.source.toList.length [] t (by simp) plain)
  refine ⟨u, ?_⟩
  unfold read
  rw [joinLines_eq fun c member => (clear c member).1, dropLastNewline_eq fun c member => (clear c member).2]
  rw [List.nil_append] at found
  simp only [found]

end Template

namespace Catalog

theorem standard_mem (code : Value) : standard code ∈ missing :: english.map Prod.snd := by
  unfold standard
  split
  · rename_i name
    cases found : english.lookup name with
    | none => simp
    | some t =>
        obtain ⟨before, after, split, -⟩ := List.lookup_eq_some_iff.mp found
        simp [split]
  · simp

theorem plain : ∀ t ∈ missing :: english.map Prod.snd, t.all Template.isPlain := by
  decide +kernel

theorem read_standard (code : Value) : ∃ t, Template.read (standard code).source = .ok t :=
  Template.read_source (plain _ (standard_mem code))

theorem source_standard (code : String) (language : Option String) :
    source (.str code) ((language.map Datum.str).getD .null) [] = .str (standard (.str code)).source := by
  obtain ⟨l, same⟩ : ∃ l, (if ((language.map Datum.str).getD .null : Value).truthy then
      (language.map Datum.str).getD .null else .str defaultLanguage) = (.str l : Value) := by
    cases language with
    | none => exact ⟨defaultLanguage, rfl⟩
    | some l =>
        by_cases given : (Datum.str l : Value).truthy
        · exact ⟨l, by simp [given]⟩
        · exact ⟨defaultLanguage, by simp [given]⟩
  unfold source
  simp only [same]
  rfl

end Catalog

namespace ReportOf

theorem context_text {r : Report} (texts : ∀ e ∈ r.locals, e.1.isText) : ∀ e ∈ r.context, e.1.isText := by
  have added : ∀ (k : String) (v : Value) (es : Dict), (∀ e ∈ es, e.1.isText) →
      ∀ e ∈ addDefault k v es, e.1.isText := by
    intro k v es each
    unfold addDefault
    split
    · exact each
    · intro e member
      rcases List.mem_append.mp member with old | last
      · exact each e old
      · rw [List.mem_singleton.mp last]
        rfl
  unfold context
  have labelled := added "label" (.str r.label) r.locals texts
  have valued : ∀ e ∈ (if r.value.isUndefined then addDefault "label" (.str r.label) r.locals
      else addDefault "value" r.value (addDefault "label" (.str r.label) r.locals)), e.1.isText := by
    split
    · exact labelled
    · exact added "value" r.value _ labelled
  simp only
  split
  · exact added "key" _ _ valued
  · exact valued

/-- A report under a text, without overrides of messages, renders if its local names are texts. -/
theorem message_report (label : Option String) (path : Path) {p : Preferences} (plain : p.messages = []) (code : String)
    (v : Value) (locals : Dict) : (∃ m, (Conform.report label path p (.str code) v locals).message = .ok m) ∨
      (Conform.report label path p (.str code) v locals).message = .error (.illTyped "keywords must be strings") ∧
        ∃ e ∈ locals, e.1.isText = false := by
  obtain ⟨t, read⟩ := Catalog.read_standard (.str code)
  have template : (Conform.report label path p (.str code) v locals).template =
      .str (Catalog.standard (.str code)).source := by
    rw [← Catalog.source_standard code p.language]
    unfold Conform.report
    rw [plain]
  unfold message Template.renderSource
  rw [template]
  by_cases texts : ∀ e ∈ locals, e.1.isText
  · have named : (Conform.report label path p (.str code) v locals).context.all fun e => e.1.isText :=
      List.all_eq_true.mpr (context_text texts)
    simp only [read, named]
    exact .inl ⟨_, rfl⟩
  · obtain ⟨e, member, stranger⟩ : ∃ e ∈ locals, e.1.isText = false := by simpa using texts
    cases named : (Conform.report label path p (.str code) v locals).context.all fun e => e.1.isText with
    | true =>
        simp only [read]
        exact .inl ⟨_, rfl⟩
    | false =>
        simp only [read]
        exact .inr ⟨rfl, e, member, stranger⟩

end ReportOf

end Conform
