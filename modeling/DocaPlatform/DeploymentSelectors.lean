import DocaPlatform.LabelSelectors
import Mathlib.Data.List.Dedup
import Mathlib.Data.List.Destutter
import Mathlib.Data.List.Sort

/-!
# Selectors for the objects of a DPUDeployment

A DPUDeployment has several DPUSets, each with selectors of its own. Its services, interfaces and
chains get one selector for DPUClusters, and an in-cluster service one for Nodes.
-/
namespace DocaPlatform.DeploymentSelectors

open LabelSelectors List

/-- The selectors of a DPUSet. A map has one value for a key. -/
structure DPUSet where
  dpuNodeSelector : Option LabelSelector := none
  nodeSelector : Option LabelSelector := none
  dpuClusterSelector : Labels := []
  nodup : (dpuClusterSelector.map Prod.fst).Nodup := by simp

/-- `LabelSelectorAsSelector`, and whether the result matches. -/
def selects (selector : Option LabelSelector) (labels : Labels) : Bool :=
  match requirements selector with
  | .ok rs => matchesAll rs labels
  | .error _ => false

variable {labels : Labels} {sets : List DPUSet} {s : DPUSet} {key : String}

/-- `dpuNodeSelector`, or else the deprecated `nodeSelector`. -/
def DPUSet.selector (s : DPUSet) : Option LabelSelector := s.dpuNodeSelector.or s.nodeSelector

def DPUSet.matchLabels (s : DPUSet) : Labels := (s.selector.map (·.matchLabels)).getD []

abbrev NodeSelectorTerm := List Requirement

/-- `MatchNodeSelectorTerms`: a term without requirements matches no Node. -/
def nodeMatchesNodeSelector (node : Labels) (terms : List NodeSelectorTerm) : Bool :=
  terms.any fun term => !term.isEmpty && matchesAll term node

end DocaPlatform.DeploymentSelectors
