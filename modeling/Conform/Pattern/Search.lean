import Conform.Pattern.Syntax

/-!
# Searching

`Pattern.ends` gives the positions where a match that starts at a given position may end, and `search`
asks whether a match starts anywhere.
-/

namespace Conform

namespace Assertion

/-- Whether the character at a position is a word character. -/
def wordAt (text : Array Char) (i : Nat) : Bool := (text[i]?.map Text.isWord).getD false

def holds (text : Array Char) (i : Nat) : Assertion → Bool
  | start => i == 0
  | finish => i == text.size || (i + 1 == text.size && text[i]? == some '\n')
  | lastEnd => i == text.size
  | wordEdge negated => ((0 < i && wordAt text (i - 1)) != wordAt text i) != negated

end Assertion

namespace Pattern

/-- The union of two lists of positions. -/
def union (xs ys : List Nat) : List Nat :=
  ys.foldl (fun acc y => if acc.contains y then acc else acc ++ [y]) xs

/-- The positions reached from any of the given ones. -/
def stepAll (step : Nat → List Nat) (starts : List Nat) : List Nat :=
  starts.foldl (fun acc i => union acc (step i)) []

/-- The positions seen so far and those reached from the newest of them by at most `n` steps. -/
def explore (step : Nat → List Nat) : Nat → List Nat → List Nat → List Nat
  | 0, seen, _ => seen
  | n + 1, seen, newest =>
    let next := (stepAll step newest).filter fun i => !seen.contains i
    if next.isEmpty then seen else explore step n (seen ++ next) next

/-- The positions reached by at most `n` steps. -/
def reachable (step : Nat → List Nat) (n : Nat) (starts : List Nat) : List Nat :=
  explore step n starts starts

/-- The positions reached by exactly `n` steps. -/
def afterSteps (step : Nat → List Nat) : Nat → List Nat → List Nat
  | 0, starts => starts
  | n + 1, starts => if starts.isEmpty then [] else afterSteps step n (stepAll step starts)

/-- Where a match from position `i` may end. -/
def ends (text : Array Char) : Pattern → Nat → List Nat
  | empty, i => [i]
  | anyChar, i =>
    match text[i]? with
    | some c => if c == '\n' then [] else [i + 1]
    | none => []
  | oneOf items negated, i =>
    match text[i]? with
    | some c => if (items.any fun s => s.has c) != negated then [i + 1] else []
    | none => []
  | check a, i => if a.holds text i then [i] else []
  | seq p q, i => stepAll (ends text q) (ends text p i)
  | either p q, i => union (ends text p i) (ends text q i)
  | times p least most, i =>
    let required := afterSteps (ends text p) least [i]
    match most with
    | none => reachable (ends text p) (text.size + 1) required
    | some m => reachable (ends text p) (m - least) required

/-- Whether the pattern matches some part of the text. -/
def search (p : Pattern) (s : String) : Bool :=
  let text := s.toList.toArray
  (List.range (text.size + 1)).any fun i => !(p.ends text i).isEmpty

end Pattern

end Conform
