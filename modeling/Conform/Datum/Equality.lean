import Conform.Datum.Key

/-!
# Deep equality

`deepEqual` compares data by kind and structure. A truth value is never a number, a list never a
tuple; numbers compare exactly, and NaN differs from itself. Keys of dictionaries and members of sets
are compared as keys.
-/

namespace Conform.Datum

variable {α : Type} [BEq α]

mutual

def deepEqual : Datum α → Datum α → Bool
  | undefined, b => b.isUndefined
  | null, b => b.isNull
  | bool x, b => match b with | bool y => x == y | _ => false
  | int x, b => match b with
    | int y => x == y
    | float y => (Number.int x).same (.float y)
    | _ => false
  | float x, b => match b with
    | int y => (Number.float x).same (.int y)
    | float y => (Number.float x).same (.float y)
    | _ => false
  | str s, b => match b with | str t => s == t | _ => false
  | bytes _ d, b => match b with | bytes _ e => d == e | _ => false
  | date d, b => match b with | date e => d == e | _ => false
  | clock c, b => match b with | clock d => c.same d | _ => false
  | moment m, b => match b with | moment n => m.same n | _ => false
  | list xs, b => match b with | list ys => deepEqualEach xs ys | _ => false
  | tuple xs, b => match b with | tuple ys => deepEqualEach xs ys | _ => false
  | set z xs, b => match b with | set y ys => sameKey (set z xs) (set y ys) | _ => false
  | dict es, b => match b with
    | dict fs => es.length == fs.length && deepEqualEntries es fs
    | _ => false
  | leaf x, b => match b with | leaf y => x == y | _ => false

/-- Item by item. -/
def deepEqualEach : List (Datum α) → List (Datum α) → Bool
  | [], ys => ys.isEmpty
  | x :: xs, ys =>
    match ys with
    | [] => false
    | y :: ys => deepEqual x y && deepEqualEach xs ys

/-- Each entry has an equal value at the same key of the other dictionary. -/
def deepEqualEntries : Entries α → Entries α → Bool
  | [], _ => true
  | (k, v) :: es, fs =>
    (match find? k fs with
      | some w => deepEqual v w
      | none => false) && deepEqualEntries es fs

end

end Conform.Datum
