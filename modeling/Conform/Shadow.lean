import Conform.Datum.Key
import Conform.Fault

/-!
# Captured values

A shadow keeps values under their paths: the converted values of nodes whose results are raw or
stripped. It is a tree whose leaves are captured values, so a captured dictionary is never mistaken
for a branch.
-/

namespace Conform

inductive ShadowTree where
  | captured (v : Value)
  | branch (children : List (Value × ShadowTree))

instance : Inhabited ShadowTree := ⟨.branch []⟩

/-- The children of a tree; a captured value has none. -/
def ShadowTree.children : ShadowTree → List (Value × ShadowTree)
  | captured _ => []
  | branch cs => cs

/-- The tree with a value captured under a path. A value that stands in the way gives place to a
branch, and a branch at the end of the path gives place to the value. -/
def ShadowTree.capture (v : Value) : Path → ShadowTree → ShadowTree
  | [], _ => captured v
  | k :: rest, t =>
    let child := (Datum.find? k t.children).getD (branch [])
    branch (Datum.insert k (child.capture v rest) t.children)

/-- The value captured at a path. -/
def ShadowTree.at? : Path → ShadowTree → Option Value
  | [], captured v => some v
  | [], branch _ => none
  | k :: rest, t =>
    match Datum.find? k t.children with
    | some child => child.at? rest
    | none => none

/-- The tree with a branch at the end of a path. -/
def ShadowTree.enter : Path → ShadowTree → ShadowTree
  | [], t => branch t.children
  | k :: rest, t =>
    let child := (Datum.find? k t.children).getD (branch [])
    branch (Datum.insert k (child.enter rest) t.children)

/-- Whether the segments that a path meets on its way down are keys. -/
def ShadowTree.admits : Path → ShadowTree → Bool
  | [], _ => true
  | _ :: _, captured _ => true
  | k :: rest, branch cs =>
    k.isHashable && match Datum.find? k cs with
      | some child => child.admits rest
      | none => true

/-- The tree of captured values; at its root nothing is captured. Before its first use there is no tree,
and no path meets it. -/
structure Shadow where
  children : List (Value × ShadowTree) := []
  used : Bool := false

namespace Shadow

def tree (s : Shadow) : ShadowTree := .branch s.children

/-- Captures a value; the empty path is ignored. -/
def set (p : Path) (v : Value) (s : Shadow) : Shadow :=
  match p with
  | [] => s
  | p => ⟨(s.tree.capture v p).children, true⟩

/-- The value captured at a path, or `undefined`. -/
def get (p : Path) (s : Shadow) : Value := (s.tree.at? p).getD .undefined

/-- The value captured at a path. The segments met on the way must be keys. -/
def lookup (p : Path) (s : Shadow) : Except Fault Value :=
  if !s.used || s.tree.admits p then .ok (s.get p) else .error (.illTyped "unhashable key")

/-- Captures a value under a path whose segments are keys. Where one is none, the path is entered up to
there and no value is captured. -/
def insert (p : Path) (v : Value) (s : Shadow) : Shadow × Option Fault :=
  if p.all Datum.isHashable then (s.set p v, none)
  else
    let front := p.takeWhile Datum.isHashable
    (⟨(s.tree.enter front).children, true⟩, some (.illTyped "unhashable key"))

end Shadow

end Conform
