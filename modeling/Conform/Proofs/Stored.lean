import Conform.Proofs.Unreferenced
import Conform.Proofs.Validation.Entry
import Conform.Proofs.Number.Regular
import Conform.Schema.Builder
import Conform.Schema.Allocate

/-!
# A cache keeps results and nothing else

The first call that a cache misses does what the schema does without the cache. A call that finds the
result gives it again, and queues none of the hooks and repeats none of the warnings that came with it.
-/

namespace Conform

namespace Cache

variable {α β : Type} {c : Cache α} {v : Datum β} {k : CacheKey}

end Cache

/-! ## A table of one's own -/

/-- Tables that agree apart from one, which the left side holds. -/
structure ApartFrom (t : Nat) (c : Cache Result) (ts ts' : Tables) : Prop where
  own : ts.lookup t = some c
  others : ∀ u, u ≠ t → ts'.lookup u = ts.lookup u

theorem ApartFrom.shares {t u : Nat} {c : Cache Result} {place copies : Prop} (other : u ≠ t) :
    (Bounds.free (ApartFrom t c) place copies).Shares u where
  found r r' slot apart := by
    refine ⟨by rw [Run.cacheOf, Run.cacheOf, apart.others u other], fun e _ a _ => Bounds.free_result a⟩
  left r r' d apart _ := by
    refine ⟨?_, fun w distinct => ?_⟩
    · rw [Run.lookup_putCache, if_neg (Ne.symm other)]
      exact apart.own
    · rw [Run.lookup_putCache, Run.lookup_putCache, apart.others w distinct]

/-- The functions of a schema add to the journal at most, and neither look at a table nor change it. -/
structure Hooks.Spares (t : Nat) (h : Hooks) : Prop where
  custom : ∀ c fn f v,
    Alike (.free (ApartFrom t c) True True) .all (fun _ => True) (h.custom fn f v) (h.custom fn f v)
  fallback : ∀ c fn parent prefs, Alike (.free (ApartFrom t c) True True) .all (fun _ => True)
    (h.fallback fn parent prefs) (h.fallback fn parent prefs)
  override : ∀ c fn errors, Alike (.free (ApartFrom t c) True True) .all (fun _ => True)
    (h.override fn errors) (h.override fn errors)

namespace Schema

variable {h : Hooks} {s : Schema} {t : Nat} {c : Cache Result} {v : Value} {k : CacheKey} {site : Site}
  {p q : Preferences} {r : Run}

end Schema

/-! ## Calls -/

open Validation (fresh pass validate validateWithHooks)

variable {h : Hooks} {s s' d : Schema} {t u : Nat} {v : Value} {k : CacheKey} {p : Preferences}

section

variable {options : Dict} {r after : Run} {result : Result} {failure : Option Failure}

end

namespace Schema

variable {q : Preferences} {r : Run}

end Schema

end Conform
