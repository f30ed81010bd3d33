import Conform.Text.Blank
import Conform.Text.Digit
import Conform.Text.Word

/-!
# Patterns

Regular expressions over Unicode text: literals, classes, groups, alternation, repetition and the
assertions for the ends of the text and of words. `Pattern.read?` reads their usual notation.
-/

namespace Conform

/-- A class of characters that an escape names. -/
inductive CharClass where
  | digit
  | word
  | blank
deriving DecidableEq, Inhabited, Repr

/-- One item of a bracketed set; a range goes from one character code to another. -/
inductive SetItem where
  | range (first last : Nat)
  | named (c : CharClass) (negated : Bool)
deriving DecidableEq, Inhabited, Repr

inductive Assertion where
  | start
  | finish
  | lastEnd
  | wordEdge (negated : Bool)
deriving DecidableEq, Inhabited, Repr

/-- A regular expression. `lastEnd` is the end proper, `finish` also stands before a final newline. -/
inductive Pattern where
  | empty
  | anyChar
  | oneOf (items : List SetItem) (negated : Bool)
  | check (a : Assertion)
  | seq (p q : Pattern)
  | either (p q : Pattern)
  | times (p : Pattern) (least : Nat) (most : Option Nat)
deriving DecidableEq, Inhabited, Repr

def CharClass.has : CharClass → Char → Bool
  | digit, c => Text.isDecimal c
  | word, c => Text.isWord c
  | blank, c => Text.isBlank c

/-- The one character with a code. -/
def SetItem.single (code : Nat) : SetItem := .range code code

def SetItem.has : SetItem → Char → Bool
  | range a b, c => a ≤ c.toNat && c.toNat ≤ b
  | named k negated, c => k.has c != negated

namespace Pattern

def char (c : Char) : Pattern := oneOf [SetItem.single c.toNat] false

/-! ## Reading -/

def hexValue? (c : Char) : Option Nat :=
  if c.isDigit then some (c.toNat - '0'.toNat)
  else if 'a' ≤ c && c ≤ 'f' then some (c.toNat - 'a'.toNat + 10)
  else if 'A' ≤ c && c ≤ 'F' then some (c.toNat - 'A'.toNat + 10)
  else none

/-- The character code that `n` hexadecimal digits write. -/
def hexCode? (n : Nat) (cs : List Char) : Option (Nat × List Char) := do
  let ds ← (cs.take n).mapM hexValue?
  let code := ds.foldl (fun v d => 16 * v + d) 0
  if ds.length = n ∧ code ≤ 0x10FFFF then some (code, cs.drop n) else none

def isOctal (c : Char) : Bool := '0' ≤ c && c ≤ '7'

/-- The character code that up to three octal digits write; it fits into a byte. -/
def octalCode? (cs : List Char) : Option (Nat × List Char) :=
  let ds := (cs.take 3).takeWhile isOctal
  let code := ds.foldl (fun v d => 8 * v + (d.toNat - '0'.toNat)) 0
  if !ds.isEmpty && code ≤ 255 then some (code, cs.drop ds.length) else none

/-- What an escape stands for inside a set, and the rest. -/
def escapedItem? : List Char → Option (SetItem × List Char)
  | [] => none
  | c :: r =>
    match c with
    | 'd' => some (.named .digit false, r)
    | 'D' => some (.named .digit true, r)
    | 'w' => some (.named .word false, r)
    | 'W' => some (.named .word true, r)
    | 's' => some (.named .blank false, r)
    | 'S' => some (.named .blank true, r)
    | 'n' => some (.single 10, r)
    | 't' => some (.single 9, r)
    | 'r' => some (.single 13, r)
    | 'f' => some (.single 12, r)
    | 'v' => some (.single 11, r)
    | 'a' => some (.single 7, r)
    | 'b' => some (.single 8, r)
    | 'x' => coded (hexCode? 2 r)
    | 'u' => coded (hexCode? 4 r)
    | 'U' => coded (hexCode? 8 r)
    | c =>
      if isOctal c then coded (octalCode? (c :: r))
      else if c.isAlphanum then none
      else some (.single c.toNat, r)
where
  coded (found : Option (Nat × List Char)) : Option (SetItem × List Char) :=
    found.map fun (code, r) => (.single code, r)

/-- One item of a set, before any dash. -/
def setAtom? : List Char → Option (SetItem × List Char)
  | '\\' :: r => escapedItem? r
  | c :: r => some (.single c.toNat, r)
  | [] => none

/-- The items of a set up to its closing bracket; a bracket that comes first is a member. A named class
is no end of a range. -/
def setItems? : Nat → Bool → List Char → Option (List SetItem × List Char)
  | 0, _, _ => none
  | fuel + 1, isFirst, cs =>
    match cs with
    | [] => none
    | c :: r =>
      if c == ']' && !isFirst then some ([], r)
      else do
        let (item, r) ← setAtom? (c :: r)
        match item, r with
        | .range a b, '-' :: d :: rest =>
          if d == ']' then
            let (items, rest) ← setItems? fuel false r
            some (.range a b :: items, rest)
          else
            let (upper, rest) ← setAtom? (d :: rest)
            match upper with
            | .range e _ =>
              if a ≤ e then
                let (items, rest) ← setItems? fuel false rest
                some (.range a e :: items, rest)
              else none
            | .named .. => none
        | .named k negated, '-' :: d :: rest =>
          if d == ']' then
            let (items, rest) ← setItems? fuel false ('-' :: d :: rest)
            some (.named k negated :: items, rest)
          else none
        | item, r =>
          let (items, rest) ← setItems? fuel false r
          some (item :: items, rest)

/-- A bracketed set, after its opening bracket. -/
def set? (cs : List Char) : Option (Pattern × List Char) :=
  let (negated, cs) := match cs with
    | '^' :: r => (true, r)
    | r => (false, r)
  (setItems? (cs.length + 1) true cs).map fun (items, r) => (oneOf items negated, r)

/-- An escape outside sets. Digits there write a code if they start with zero or are three octal ones. -/
def escape? : List Char → Option (Pattern × List Char)
  | 'b' :: r => some (check (.wordEdge false), r)
  | 'B' :: r => some (check (.wordEdge true), r)
  | 'A' :: r => some (check .start, r)
  | 'Z' :: r => some (check .lastEnd, r)
  | cs =>
    let readable := match cs with
      | [] => false
      | c :: _ => !c.isDigit || c == '0' || ((cs.take 3).filter isOctal).length = 3
    if readable then (escapedItem? cs).map fun (item, r) => (oneOf [item] false, r) else none

/-- A number, if digits come next. -/
def number? (cs : List Char) : Option Nat × List Char :=
  match cs.takeWhile Char.isDigit with
  | [] => (none, cs)
  | ds => (some (ds.foldl (fun n c => 10 * n + (c.toNat - '0'.toNat)) 0), cs.dropWhile Char.isDigit)

/-- The bounds between braces, after the opening brace. -/
def bounds? (cs : List Char) : Option (Nat × Option Nat × List Char) :=
  match number? cs with
  | (some n, '\x7d' :: r) => some (n, some n, r)
  | (low, ',' :: r) =>
    match number? r with
    | (high, '\x7d' :: r) => some (low.getD 0, high, r)
    | _ => none
  | _ => none

/-- How often the last item may occur, if a repetition follows. -/
def repetition? : List Char → Option (Nat × Option Nat × List Char)
  | '*' :: r => some (0, none, r)
  | '+' :: r => some (1, none, r)
  | '?' :: r => some (0, some 1, r)
  | '\x7b' :: r => bounds? r
  | _ => none

def isAssertion : Pattern → Bool
  | check _ => true
  | _ => false

/-- A pattern between parentheses. It matches what the pattern matches, and may be repeated even where
that is an assertion. -/
def group (p : Pattern) : Pattern := seq p empty

/-- An item with the repetition that follows it. A question mark after a repetition changes only
which of several matches comes first; to repeat a repetition or an assertion is refused. -/
def repeated? (p : Pattern) (cs : List Char) : Option (Pattern × List Char) :=
  match repetition? cs with
  | none => some (p, cs)
  | some (least, most, r) =>
    let r := match r with
      | '?' :: r => r
      | r => r
    let reversed := match most with
      | some m => m < least
      | none => false
    if (repetition? r).isSome || reversed || p.isAssertion then none
    else some (times p least most, r)

/-- What a group holds, after its opening parenthesis: a group may say that it has no number, or have a
name. -/
def groupBody? : List Char → Option (List Char)
  | '?' :: ':' :: r => some r
  | '?' :: 'P' :: '<' :: c :: r =>
    let rest := r.dropWhile Text.isWord
    match rest with
    | '>' :: r => if Text.isWord c && !Text.isDecimal c then some r else none
    | _ => none
  | '?' :: _ => none
  | r => some r

mutual

/-- Alternatives, up to a closing parenthesis or the end. -/
def alternatives? : Nat → List Char → Option (Pattern × List Char)
  | 0, _ => none
  | fuel + 1, cs => do
    let (p, r) ← sequence? fuel cs
    match r with
    | '|' :: r =>
      let (q, r) ← alternatives? fuel r
      some (either p q, r)
    | r => some (p, r)

/-- Items in sequence. -/
def sequence? : Nat → List Char → Option (Pattern × List Char)
  | 0, _ => none
  | _, [] => some (empty, [])
  | fuel + 1, c :: r =>
    if c == '|' || c == ')' then some (empty, c :: r)
    else do
      let (p, r) ← item? fuel (c :: r)
      let (p, r) ← repeated? p r
      let (q, r) ← sequence? fuel r
      some (seq p q, r)

/-- One item without its repetition. -/
def item? : Nat → List Char → Option (Pattern × List Char)
  | 0, _ => none
  | _, [] => none
  | fuel + 1, c :: r =>
    match c with
    | '.' => some (anyChar, r)
    | '^' => some (check .start, r)
    | '$' => some (check .finish, r)
    | '\\' => escape? r
    | '[' => set? r
    | '(' => do
      let r ← groupBody? r
      let (p, r) ← alternatives? fuel r
      match r with
      | ')' :: r => some (group p, r)
      | _ => none
    | c => if (repetition? (c :: r)).isSome then none else some (char c, r)

end

/-- Reads a pattern that fills the whole text. -/
def read? (s : String) : Option Pattern :=
  match alternatives? (3 * s.length + 3) s.toList with
  | some (p, []) => some p
  | _ => none

end Pattern

end Conform
