import Conform.Datum.Basic

/-!
# Properties of all data in a datum

`Every P` holds of a container if it holds of what is in it, and of other data if `P` does. Sets count
as data without parts.
-/

namespace Conform.Datum

variable {α : Type} (P : Datum α → Prop)

mutual

def Every : Datum α → Prop
  | list xs => EveryItem xs
  | tuple xs => EveryItem xs
  | dict es => EveryEntry es
  | v => P v

def EveryItem : List (Datum α) → Prop
  | [] => True
  | x :: xs => Every x ∧ EveryItem xs

def EveryEntry : List (Datum α × Datum α) → Prop
  | [] => True
  | (k, v) :: es => (Every k ∧ Every v) ∧ EveryEntry es

end

variable {P}

end Conform.Datum
