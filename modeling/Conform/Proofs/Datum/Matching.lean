import Conform.Proofs.Datum.Equivalence

/-!
# Containers that match in every part

Data match if their containers do: lists item by item, sets by a one-to-one pairing of their members, dictionaries by
one of their entries, all of whose parts match in turn. Deeply equal data match unless a truth value stands where the
other datum has a number, or a NaN where it has the same NaN. Both happen among members and keys alone, which are
compared as keys.
-/

namespace Conform.Datum

variable {α : Type}

def isContainer : Datum α → Bool
  | list _ | tuple _ | set _ _ | dict _ => true
  | _ => false

variable [BEq α]

/-- Containers of one kind whose parts are paired so that each matches its partner, and equal data otherwise. -/
inductive Matches : Datum α → Datum α → Prop
  | plain {a b : Datum α} (scalar : a.isContainer = false) (equal : deepEqual a b) : Matches a b
  | list {xs ys : List (Datum α)} (lengths : xs.length = ys.length)
      (each : ∀ i : Fin xs.length, Matches (xs.get i) (ys.get (i.cast lengths))) : Matches (list xs) (list ys)
  | tuple {xs ys : List (Datum α)} (lengths : xs.length = ys.length)
      (each : ∀ i : Fin xs.length, Matches (xs.get i) (ys.get (i.cast lengths))) : Matches (tuple xs) (tuple ys)
  | set {z w : Bool} {xs ys : List (Datum α)} (pairing : Fin xs.length ≃ Fin ys.length)
      (each : ∀ i, Matches (xs.get i) (ys.get (pairing i))) : Matches (set z xs) (set w ys)
  | dict {es fs : Entries α} (pairing : Fin es.length ≃ Fin fs.length)
      (keys : ∀ i, Matches (es.get i).1 (fs.get (pairing i)).1)
      (values : ∀ i, Matches (es.get i).2 (fs.get (pairing i)).2) : Matches (dict es) (dict fs)

/-! ## What is compared with what -/

/-- Parts of two containers that are compared: items at one index, members and keys that are the same key, and the
values at such keys. -/
inductive Faces : Datum α → Datum α → Datum α → Datum α → Prop
  | items {xs ys : List (Datum α)} {i : Nat} {x y : Datum α} (left : xs[i]? = some x) (right : ys[i]? = some y) :
      Faces (list xs) (list ys) x y
  | components {xs ys : List (Datum α)} {i : Nat} {x y : Datum α} (left : xs[i]? = some x) (right : ys[i]? = some y) :
      Faces (tuple xs) (tuple ys) x y
  | members {z w : Bool} {xs ys : List (Datum α)} {x y : Datum α} (left : x ∈ xs) (right : y ∈ ys)
      (same : sameKey x y) : Faces (set z xs) (set w ys) x y
  | keys {es fs : Entries α} {e f : Datum α × Datum α} (left : e ∈ es) (right : f ∈ fs) (same : sameKey e.1 f.1) :
      Faces (dict es) (dict fs) e.1 f.1
  | values {es fs : Entries α} {e f : Datum α × Datum α} (left : e ∈ es) (right : f ∈ fs) (same : sameKey e.1 f.1) :
      Faces (dict es) (dict fs) e.2 f.2

/-- What is compared at any depth when two data are. -/
inductive Meets : Datum α → Datum α → Datum α → Datum α → Prop
  | here (a b : Datum α) : Meets a b a b
  | within {a b x y u v : Datum α} (faces : Faces a b x y) (rest : Meets x y u v) : Meets a b u v

/-- A truth value stands against truth values only, and no NaN against itself. -/
def Told (x y : Datum α) : Prop := x.isBool = y.isBool ∧ x.isNan = false

def AllTold (a b : Datum α) : Prop := ∀ x y, Meets a b x y → Told x y

variable {a b x y : Datum α} {xs ys : List (Datum α)} {es fs : Entries α}

theorem AllTold.here (told : AllTold a b) : Told a b := told a b (.here a b)

theorem AllTold.within (told : AllTold a b) (faces : Faces a b x y) : AllTold x y :=
  fun u v meets => told u v (.within faces meets)

theorem Faces.parts (faces : Faces a b x y) : x ∈ a.parts ∧ y ∈ b.parts := by
  cases faces with
  | items left right | components left right => exact ⟨List.mem_of_getElem? left, List.mem_of_getElem? right⟩
  | members left right => exact ⟨left, right⟩
  | keys left right => exact ⟨mem_parts_dict.mpr ⟨_, left, .inl rfl⟩, mem_parts_dict.mpr ⟨_, right, .inl rfl⟩⟩
  | values left right => exact ⟨mem_parts_dict.mpr ⟨_, left, .inr rfl⟩, mem_parts_dict.mpr ⟨_, right, .inr rfl⟩⟩

theorem Meets.everywhere {p : Datum α → Bool} (meets : Meets a b x y) (left : a.everywhere p)
    (right : b.everywhere p) : p x ∧ p y := by
  induction meets with
  | here => exact ⟨(everywhere_iff.mp left).1, (everywhere_iff.mp right).1⟩
  | within faces rest ih =>
      obtain ⟨part, part'⟩ := faces.parts
      exact ih ((everywhere_iff.mp left).2 _ part) ((everywhere_iff.mp right).2 _ part')

/-- Equal data that have nothing to tell apart at any depth. -/
structure Agree (a b : Datum α) : Prop where
  equal : deepEqual a b
  told : AllTold a b

theorem Matches.member {z w : Bool} {x y : Value} (alike : Matches (.set z [x]) (.set w [y])) : Matches x y := by
  cases alike with
  | plain scalar => cases scalar
  | set pairing each =>
      have here := each 0
      rwa [List.mem_singleton.mp ([y].get_mem (pairing 0))] at here

theorem Matches.key {k l v w : Value} (alike : Matches (.dict [(k, v)]) (.dict [(l, w)])) : Matches k l := by
  cases alike with
  | plain scalar => cases scalar
  | dict pairing keys =>
      have here := keys 0
      rwa [List.mem_singleton.mp ([(l, w)].get_mem (pairing 0))] at here

theorem Matches.scalar {x y : Value} (alike : Matches x y) (scalar : x.isContainer = false) : deepEqual x y := by
  cases alike with
  | plain _ equal => exact equal
  | _ => cases scalar

end Conform.Datum
