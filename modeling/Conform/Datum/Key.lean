import Conform.Datum.Basic

/-!
# Keys and entries

Two data are the same key when they are equal numbers of any kind (a truth value counts as zero or
one), one NaN, equal scalars of one kind, or containers of the same keys. Entries keep their insertion
order; a key that is inserted again keeps its first place and its first form.
-/

namespace Conform.Datum

variable {α β : Type} [BEq α]

mutual

/-- Equality of keys. NaN is the same key as itself alone. -/
def sameKey : Datum α → Datum α → Bool
  | undefined, b => b.isUndefined
  | null, b => b.isNull
  | bool x, b => numberIs (.int (if x then 1 else 0)) b
  | int x, b => numberIs (.int x) b
  | float x, b => numberIs (.float x) b
  | str s, b => match b with | str t => s == t | _ => false
  | bytes _ d, b => match b with | bytes _ e => d == e | _ => false
  | date d, b => match b with | date e => d == e | _ => false
  | clock c, b => match b with | clock d => c.same d | _ => false
  | moment m, b => match b with | moment n => m.same n | _ => false
  | list xs, b => match b with | list ys => sameKeyEach xs ys | _ => false
  | tuple xs, b => match b with | tuple ys => sameKeyEach xs ys | _ => false
  | set _ xs, b => match b with
    | set _ ys => xs.length == ys.length && sameKeySome xs ys
    | _ => false
  | dict _, _ => false
  | leaf x, b => match b with | leaf y => x == y | _ => false
where
  numberIs (n : Number) (b : Datum α) : Bool :=
    match b.number? with
    | some m => n.sameKey m
    | none => false

/-- Item by item. -/
def sameKeyEach : List (Datum α) → List (Datum α) → Bool
  | [], ys => ys.isEmpty
  | x :: xs, ys =>
    match ys with
    | [] => false
    | y :: ys => sameKey x y && sameKeyEach xs ys

/-- Each item of the first list is the same key as some item of the second. -/
def sameKeySome : List (Datum α) → List (Datum α) → Bool
  | [], _ => true
  | x :: xs, ys => ys.any (fun y => sameKey x y) && sameKeySome xs ys

end

/-- The value at a key in a list of entries. -/
def find? (k : Datum α) : List (Datum α × β) → Option β
  | [] => none
  | (j, v) :: es => if sameKey j k then some v else find? k es

def hasKey (k : Datum α) (es : List (Datum α × β)) : Bool := (find? k es).isSome

/-- Sets the value at a key: in place where the key is present, else at the end. -/
def insert (k : Datum α) (v : β) : List (Datum α × β) → List (Datum α × β)
  | [] => [(k, v)]
  | (j, w) :: es => if sameKey j k then (j, v) :: es else (j, w) :: insert k v es

def erase (k : Datum α) (es : List (Datum α × β)) : List (Datum α × β) :=
  es.filter fun e => !sameKey e.1 k

/-- Entries in order of first insertion, each with its last value. -/
def ofEntries (es : List (Datum α × β)) : List (Datum α × β) :=
  es.foldl (fun acc e => insert e.1 e.2 acc) []

/-- The first entries overridden and extended by the second. -/
def mergeEntries (es fs : List (Datum α × β)) : List (Datum α × β) :=
  fs.foldl (fun acc e => insert e.1 e.2 acc) es

/-- The members of a set in order of first insertion. -/
def distinct (xs : List (Datum α)) : List (Datum α) :=
  xs.foldl (fun acc x => if acc.any (fun y => sameKey y x) then acc else acc ++ [x]) []

end Conform.Datum
