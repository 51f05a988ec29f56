import DocaPlatform.DpuPhases
import DocaPlatform.ObjectStore

/-!
# Requestors of a DPUNodeMaintenance

The object that the DPUs of one node share while a node effect is on the host, and the functions
that write its list of requestors: `createDPUNodeMaintenance`, `addRequestorAndUpdateForce`,
`RemoveRequestorFromDPUNodeMaintenance` and `UpdateDPUNodeMaintenanceRequestors`.
-/
namespace DocaPlatform.NodeMaintenance

open List Function

abbrev Name := String

structure DPUNodeMaintenance where
  finalizer : Bool
  deleting : Bool
  requestor : List Name
  lastApplied : Name → Option (List Name)
  force : Option Bool
  /-- `IsNodeEffectApplied`: the condition NodeEffectApplied is True. -/
  nodeEffectApplied : Bool

/-- The parts of a DPU's node effect that the functions below read. -/
structure Request where
  /-- `NodeMaintenanceAdditionalRequestors`. -/
  additional : List Name
  force : Bool

def isDPUInRequestor (o : DPUNodeMaintenance) (name : Name) : Bool := o.requestor.contains name

/-- The object that `createDPUNodeMaintenance` creates. -/
def createDPUNodeMaintenance (name : Name) (r : Request) : DPUNodeMaintenance where
  finalizer := false
  deleting := false
  requestor := r.additional ++ [name]
  lastApplied := update (fun _ => none) name (some r.additional)
  force := some r.force
  nodeEffectApplied := false

def removeDuplicatesFrom (seen : List Name) : List Name → List Name
  | [] => []
  | item :: rest =>
    if item ∈ seen then removeDuplicatesFrom seen rest
    else item :: removeDuplicatesFrom (item :: seen) rest

def removeDuplicates (l : List Name) : List Name := removeDuplicatesFrom [] l

/-- What `addRequestorAndUpdateForce` makes of the object it read. -/
def addRequestorAndUpdateForce (name : Name) (r : Request) (o : DPUNodeMaintenance) :
    DPUNodeMaintenance :=
  { o with
    force := if r.force && o.force = some false then some true else o.force
    requestor := removeDuplicates (o.requestor ++ name :: r.additional)
    lastApplied := update o.lastApplied name (some r.additional) }

/-- What `RemoveRequestorFromDPUNodeMaintenance` writes, if it writes. -/
def removeRequestor (name : Name) (o : DPUNodeMaintenance) : Option DPUNodeMaintenance :=
  let newRequestors := o.requestor.filter (· != name)
  if newRequestors.length ≠ o.requestor.length then some { o with requestor := newRequestors }
  else none

/-- `sort.Strings`. -/
def sortStrings (l : List Name) : List Name := l.insertionSort (· ≤ ·)

def findOutDPURequestors (lastAppliedRequestors currentRequestors : List Name) : List Name :=
  currentRequestors.filter fun req => !lastAppliedRequestors.contains req

/-- What `UpdateDPUNodeMaintenanceRequestors` writes, if it writes, once it found the annotation
of the DPU. -/
def updateRequestors (name : Name) (expectedRequestors lastAppliedRequestors : List Name)
    (o : DPUNodeMaintenance) : Option DPUNodeMaintenance :=
  let expected := sortStrings expectedRequestors
  if sortStrings lastAppliedRequestors = expected then none
  else
    some { o with
      lastApplied := update o.lastApplied name (some expected)
      requestor :=
        expected ++ findOutDPURequestors (sortStrings lastAppliedRequestors) o.requestor }

/-! ## Who stays in the list -/

variable {l : List Name} {x : Name}

theorem mem_removeDuplicatesFrom {seen : List Name} :
    x ∈ removeDuplicatesFrom seen l ↔ x ∈ l ∧ x ∉ seen := by
  induction l generalizing seen with
  | nil => simp [removeDuplicatesFrom]
  | cons item rest ih =>
    unfold removeDuplicatesFrom
    split_ifs with hs
    · rw [ih]
      constructor
      · exact fun h => ⟨mem_cons_of_mem _ h.1, h.2⟩
      · rintro ⟨hx, hns⟩
        rcases mem_cons.mp hx with rfl | hx
        · exact absurd hs hns
        · exact ⟨hx, hns⟩
    · simp only [mem_cons, ih, not_or]
      by_cases hx : x = item
      · subst hx
        simp [hs]
      · simp [hx]

@[simp] theorem mem_removeDuplicates : x ∈ removeDuplicates l ↔ x ∈ l := by
  simp [removeDuplicates, mem_removeDuplicatesFrom]

@[simp] theorem mem_sortStrings : x ∈ sortStrings l ↔ x ∈ l :=
  (perm_insertionSort _ l).mem_iff

@[simp] theorem isDPUInRequestor_iff {o : DPUNodeMaintenance} {name : Name} :
    isDPUInRequestor o name = true ↔ name ∈ o.requestor := by
  simp [isDPUInRequestor]

/-- A write of the DPU `name` that leaves all other DPUs of the node where they are. Only their
places are kept: an additional requestor may come or go. -/
structure Frames (dpus : List Name) (name : Name) (o new : DPUNodeMaintenance) : Prop where
  finalizer : new.finalizer = o.finalizer
  deleting : new.deleting = o.deleting
  applied : new.nodeEffectApplied = o.nodeEffectApplied
  others : ∀ m ∈ dpus, m ≠ name → (m ∈ new.requestor ↔ m ∈ o.requestor)

/-- No recorded additional requestor is the name of a DPU. -/
def ServicesOnly (dpus : List Name) (o : DPUNodeMaintenance) : Prop :=
  ∀ n l, o.lastApplied n = some l → ∀ x ∈ l, x ∉ dpus

section Writers

variable {dpus : List Name} {name : Name} {r : Request} {o new : DPUNodeMaintenance}

theorem servicesOnly_update {f : Name → Option (List Name)}
    (h : ∀ n l, f n = some l → ∀ x ∈ l, x ∉ dpus) (hl : ∀ x ∈ l, x ∉ dpus) :
    ∀ n l', update f name (some l) n = some l' → ∀ x ∈ l', x ∉ dpus :=
  (forall_update_iff f fun _ o => ∀ l', o = some l' → ∀ x ∈ l', x ∉ dpus).mpr
    ⟨fun _ hl' => Option.some.inj hl' ▸ hl, fun n _ => h n⟩

theorem createDPUNodeMaintenance_servicesOnly (hr : ∀ x ∈ r.additional, x ∉ dpus) :
    ServicesOnly dpus (createDPUNodeMaintenance name r) :=
  servicesOnly_update (by simp) hr

theorem not_mem_createDPUNodeMaintenance (hr : ∀ x ∈ r.additional, x ∉ dpus) {m : Name}
    (hm : m ∈ dpus) (hne : m ≠ name) : m ∉ (createDPUNodeMaintenance name r).requestor := by
  simp only [createDPUNodeMaintenance, mem_append, mem_singleton, not_or]
  exact ⟨fun h => hr m h hm, hne⟩

theorem addRequestorAndUpdateForce_servicesOnly (h : ServicesOnly dpus o)
    (hr : ∀ x ∈ r.additional, x ∉ dpus) : ServicesOnly dpus (addRequestorAndUpdateForce name r o) :=
  servicesOnly_update h hr

theorem addRequestorAndUpdateForce_frames (hr : ∀ x ∈ r.additional, x ∉ dpus) :
    Frames dpus name o (addRequestorAndUpdateForce name r o) := by
  refine ⟨rfl, rfl, rfl, fun m hm hne => ?_⟩
  simp only [addRequestorAndUpdateForce, mem_removeDuplicates, mem_append, mem_cons]
  constructor
  · rintro (h | rfl | h)
    · exact h
    · exact absurd rfl hne
    · exact absurd hm (hr m h)
  · exact .inl

theorem mem_addRequestorAndUpdateForce :
    name ∈ (addRequestorAndUpdateForce name r o).requestor := by
  simp [addRequestorAndUpdateForce]

theorem removeRequestor_frames (h : removeRequestor name o = some new) :
    Frames dpus name o new := by
  unfold removeRequestor at h
  dsimp only at h
  split_ifs at h
  cases h
  refine ⟨rfl, rfl, rfl, fun m _ hne => ?_⟩
  simp [mem_filter, hne]

theorem removeRequestor_servicesOnly (hs : ServicesOnly dpus o)
    (h : removeRequestor name o = some new) : ServicesOnly dpus new := by
  unfold removeRequestor at h
  dsimp only at h
  split_ifs at h
  cases h
  exact hs

variable {expected last : List Name}

/-- An update of the additional requestors keeps the place of every DPU, the DPU's own too. -/
theorem updateRequestors_requestor (hl : ∀ x ∈ last, x ∉ dpus) (he : ∀ x ∈ expected, x ∉ dpus)
    (h : updateRequestors name expected last o = some new) {m : Name} (hm : m ∈ dpus) :
    m ∈ new.requestor ↔ m ∈ o.requestor := by
  unfold updateRequestors at h
  dsimp only at h
  split_ifs at h
  cases h
  have hml : m ∉ last := fun hml => hl m hml hm
  have hme : m ∉ expected := fun hme => he m hme hm
  simp [findOutDPURequestors, mem_filter, hml, hme]

theorem updateRequestors_frames (hl : ∀ x ∈ last, x ∉ dpus) (he : ∀ x ∈ expected, x ∉ dpus)
    (h : updateRequestors name expected last o = some new) : Frames dpus name o new := by
  have ho := @updateRequestors_requestor dpus name o new expected last hl he h
  unfold updateRequestors at h
  dsimp only at h
  split_ifs at h
  cases h
  exact ⟨rfl, rfl, rfl, fun m hm _ => ho hm⟩

theorem updateRequestors_servicesOnly (hs : ServicesOnly dpus o) (he : ∀ x ∈ expected, x ∉ dpus)
    (h : updateRequestors name expected last o = some new) : ServicesOnly dpus new := by
  unfold updateRequestors at h
  dsimp only at h
  split_ifs at h
  cases h
  exact servicesOnly_update hs fun x hx => he x (mem_sortStrings.mp hx)

end Writers

end DocaPlatform.NodeMaintenance
