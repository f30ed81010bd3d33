import Conform.Validation.Container

/-!
# The evaluation of schemas

Every schema denotes an evaluator: the schemas below a node are made evaluators first, and the node
then works with those.
-/

namespace Conform.Schema

variable (h : Hooks)

def strips (s : Schema) : Bool := s.core.result == some .strip

mutual

/-- What a schema does with a value. -/
def eval : Schema → Evaluator
  | .node core empty content =>
    Node.evaluate h
      { core, content
        cacheable := (node core empty content).isCacheable
        empty := evalOption empty
        base := evalContent core content }

def evalContent (core : Core) : Content → BaseCheck
  | .any => fun _ _ => return none
  | .boolean _ _ => fun f v => return baseBoolean f v
  | .number => fun f v => baseNumber f v
  | .string => fun f v => return baseString f v
  | .probe => fun f v => return baseProbe f v
  | .array items => Items.base (evalEach items)
  | .object keys => Keys.base core.unknown (evalKeys keys)
  | .alternatives es _ mode => Alternatives.base h mode (evalAlternatives es)

def evalOption : Option Schema → Option Evaluator
  | none => none
  | some s => some (eval s)

def evalEach : List Schema → List Evaluator
  | [] => []
  | s :: ss => eval s :: evalEach ss

def evalKeys : Option (List (Value × Schema)) → Option (List KeyCheck)
  | none => none
  | some ks => some (evalKeyList ks)

def evalKeyList : List (Value × Schema) → List KeyCheck
  | [] => []
  | (k, s) :: ks => ⟨k, s.strips, eval s⟩ :: evalKeyList ks

def evalAlternatives : List Alternative → List AlternativeCheck
  | [] => []
  | .attempt s :: es => .attempt (eval s) :: evalAlternatives es
  | .conditional subject bs _ :: es => .conditional subject (evalBranches bs) :: evalAlternatives es

def evalBranches : List Branch → List BranchCheck
  | [] => []
  | .mk test yes no :: bs => ⟨eval test, evalOption yes, evalOption no⟩ :: evalBranches bs

end

end Conform.Schema
