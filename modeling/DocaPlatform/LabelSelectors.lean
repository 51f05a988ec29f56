import Mathlib.Data.List.Basic

/-!
# Labels and label selectors

Label sets as lists of pairs, where the first entry of a key counts, and the selectors that match
them.
-/
namespace DocaPlatform.LabelSelectors

abbrev Labels := List (String × String)

def Labels.get (labels : Labels) (key : String) : Option String := labels.lookup key

inductive Operator where
  | isIn
  | notIn
  | exist
  | doesNotExist
  /-- A text that names no operator. -/
  | other (text : String)
  deriving DecidableEq, Repr

structure Requirement where
  key : String
  operator : Operator
  values : List String
  deriving DecidableEq, Repr

structure LabelSelector where
  matchLabels : Labels
  matchExpressions : List Requirement
  deriving DecidableEq, Repr

/-- The values that an operator takes. -/
def Requirement.valid (r : Requirement) : Bool :=
  match r.operator with
  | .isIn | .notIn => !r.values.isEmpty
  | .exist | .doesNotExist => r.values.isEmpty
  | .other _ => false

/-- A label that is not there is in no set, and not in every set. -/
def Requirement.matches (r : Requirement) (labels : Labels) : Bool :=
  match r.operator with
  | .isIn => (labels.get r.key).any (r.values.contains ·)
  | .notIn => (labels.get r.key).all (!r.values.contains ·)
  | .exist => (labels.get r.key).isSome
  | .doesNotExist => (labels.get r.key).isNone
  | .other _ => false

/-- The conjunction of requirements that a selector stands for; no selector selects everything. -/
def requirements : Option LabelSelector → Except String (List Requirement)
  | none => .ok []
  | some s =>
    let all := (s.matchLabels.map fun kv => ⟨kv.1, .isIn, [kv.2]⟩) ++ s.matchExpressions
    match all.find? (!·.valid) with
    | some r => .error ("invalid requirement for key " ++ r.key)
    | none => .ok all

def matchesAll (rs : List Requirement) (labels : Labels) : Bool := rs.all (·.matches labels)

end DocaPlatform.LabelSelectors
