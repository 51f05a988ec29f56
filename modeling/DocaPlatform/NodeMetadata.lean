import DocaPlatform.Runs

/-!
# Labels and annotations of the Nodes in a DPU cluster

The DPUSet controller writes the wanted labels and annotations into the spec of a DPU, and the DPU
controller brings them to the Node. Both record what they applied last in annotations, and take
away what they applied and is no longer wanted.
-/
namespace DocaPlatform.NodeMetadata

open Runs Option List

/-- A map of the source; the first entry of a key counts. -/
abbrev Map (α : Type) := List (String × α)

variable {α β : Type} {m m' : Map α} {k : String}

def Map.get (m : Map α) (key : String) : Option α := m.lookup key

def Map.delete (m : Map α) (keys : List String) : Map α := m.filter fun kv => kv.1 ∉ keys

/-- `reflect.DeepEqual`. -/
def Map.same [DecidableEq α] (m m' : Map α) : Bool :=
  (m.map Prod.fst ++ m'.map Prod.fst).all fun key => m.get key = m'.get key

/-- The keys of the old map that the new one has not. -/
def getRemovedLabels (oldLabels : Map α) (newLabels : Map β) : List String :=
  (oldLabels.map Prod.fst).filter fun key => (newLabels.get key).isNone

/-- What was applied last gives way to the new entries. -/
def applyOver (last : Map β) (new m : Map α) : Map α :=
  (new ++ m).delete (getRemovedLabels last new)

theorem Map.get_append : (m ++ m').get k = (m.get k).or (m'.get k) := lookup_append

theorem Map.get_cons {j : String} {a : α} :
    Map.get ((j, a) :: m) k = if k = j then some a else m.get k := by
  rw [Map.get, lookup_cons]
  by_cases h : k = j
  · simp [h]
  · rw [beq_eq_false_iff_ne.mpr h, if_neg h]
    rfl

theorem Map.isSome_get : (m.get k).isSome = true ↔ k ∈ m.map Prod.fst := by
  rw [Map.get, lookup_isSome_iff]
  simp

theorem Map.same_iff [DecidableEq α] : m.same m' = true ↔ ∀ k, m.get k = m'.get k := by
  unfold Map.same
  simp only [List.all_eq_true, mem_append, decide_eq_true_eq, ← Map.isSome_get]
  refine ⟨fun h k => ?_, fun h k _ => h k⟩
  by_cases hk : (m.get k).isSome = true ∨ (m'.get k).isSome = true
  · exact h k hk
  · simp only [not_or, Bool.not_eq_true, isSome_eq_false_iff,
      isNone_iff_eq_none] at hk
    rw [hk.1, hk.2]

theorem Map.get_delete {keys : List String} :
    (m.delete keys).get k = if k ∈ keys then none else m.get k := by
  induction m with
  | nil => simp [Map.delete, Map.get]
  | cons kv m ih =>
    obtain ⟨j, a⟩ := kv
    by_cases hmem : j ∈ keys
    · have hdel : Map.delete ((j, a) :: m) keys = Map.delete m keys := by simp [Map.delete, hmem]
      rw [hdel, ih, Map.get_cons]
      split_ifs <;> simp_all
    · have hdel : Map.delete ((j, a) :: m) keys = (j, a) :: Map.delete m keys := by
        simp [Map.delete, hmem]
      rw [hdel, Map.get_cons, ih, Map.get_cons]
      split_ifs <;> simp_all

theorem get_applyOver {last : Map β} {new : Map α} :
    (applyOver last new m).get k =
      (new.get k).or (if (last.get k).isSome = true then none else m.get k) := by
  have hmem : k ∈ getRemovedLabels last new ↔ (last.get k).isSome = true ∧ new.get k = none := by
    simp [getRemovedLabels, Map.isSome_get]
  unfold applyOver
  rw [Map.get_delete, Map.get_append]
  cases hn : new.get k <;> simp [hmem, hn]

/-! ## The Node in the DPU cluster -/

/-- The value of an annotation: a text, or a map as JSON. -/
inductive Value where
  | text (s : String)
  | json (m : Map String)
  deriving DecidableEq, Repr

structure Node where
  labels : Map String
  annotations : Map Value
  deriving Repr

def lastAppliedLabelsOnDPUKey : String := "provisioning.dpu.nvidia.com/last-applied-labels-on-dpu"

def lastAppliedAnnotationsOnDPUKey : String :=
  "provisioning.dpu.nvidia.com/last-applied-annotations-on-dpu"

/-- The map under an annotation, empty if there is none; a text that is no map is an error. -/
def readMap (annotations : Map Value) (key : String) : Option (Map String) :=
  match annotations.get key with
  | none => some []
  | some (.json m) => some m
  | some (.text _) => none

def texts (m : Map String) : Map Value := m.map fun kv => (kv.1, .text kv.2)

def updateLabelsAndAnnotationsToNode (node : Node) (labels annotations : Map String) :
    Option Node := do
  let oldLabels ← readMap node.annotations lastAppliedLabelsOnDPUKey
  let recorded := (lastAppliedLabelsOnDPUKey, .json labels) :: node.annotations
  let oldAnn ← readMap recorded lastAppliedAnnotationsOnDPUKey
  return {
    labels := applyOver oldLabels labels node.labels
    annotations := (lastAppliedAnnotationsOnDPUKey, .json annotations) ::
      applyOver oldAnn (texts annotations) recorded }

def needUpdateLabelsOnNodeInDPUCluster (node : Node) (labels : Map String) : Option Bool :=
  (readMap node.annotations lastAppliedLabelsOnDPUKey).map fun last => !labels.same last

def needUpdateAnnotationsOnNodeInDPUCluster (node : Node) (annotations : Map String) :
    Option Bool :=
  (readMap node.annotations lastAppliedAnnotationsOnDPUKey).map fun last => !annotations.same last

def isRecordKey (key : String) : Bool :=
  key = lastAppliedLabelsOnDPUKey || key = lastAppliedAnnotationsOnDPUKey

/-- The Node, and the maps of the last call. No code reads those. -/
structure World where
  node : Node
  labels : Map String
  annotations : Map String

inductive Event where
  | call (labels annotations : Map String)
  /-- Others write or delete labels and annotations. -/
  | editLabel (key : String) (value : Option String)
  | editAnnotations (key : String) (value : Option String)

/-- A write of one entry. -/
def Map.edit (m : Map α) (key : String) : Option α → Map α
  | none => m.delete [key]
  | some a => (key, a) :: m

def World.exec (w : World) : Event → Option World
  | .call labels annotations =>
    (updateLabelsAndAnnotationsToNode w.node labels annotations).map (⟨·, labels, annotations⟩)
  | .editLabel key value => some { w with node.labels := w.node.labels.edit key value }
  | .editAnnotations key value =>
    some { w with node.annotations := w.node.annotations.edit key (value.map .text) }

/-- Nobody else writes the two records. -/
def World.allowed (_ : World) : Event → Bool
  | .call _ annotations => annotations.all fun kv => !isRecordKey kv.1
  | .editLabel _ _ => true
  | .editAnnotations key _ => !isRecordKey key

def Step (w : World) (e : Event) (w' : World) : Prop := w.exec e = some w'

/-- A Node that was not labelled yet. -/
structure Init (w : World) : Prop where
  records : ∀ key, isRecordKey key = true → w.node.annotations.get key = none
  labels : w.labels = []
  annotations : w.annotations = []

/-- The records on the Node are those of the last call. -/
structure Recorded (w : World) : Prop where
  labels : readMap w.node.annotations lastAppliedLabelsOnDPUKey = some w.labels
  annotations : readMap w.node.annotations lastAppliedAnnotationsOnDPUKey = some w.annotations
  other : ∀ k, isRecordKey k = true → w.annotations.get k = none

/-- What a call makes of the Node. -/
structure Owned (w : World) (labels annotations : Map String) (node : Node) : Prop where
  labels_desired : ∀ k v, labels.get k = some v → node.labels.get k = some v
  annotations_desired : ∀ k v, annotations.get k = some v → node.annotations.get k = some (.text v)
  labels_removed : ∀ k v, w.labels.get k = some v → labels.get k = none →
    node.labels.get k = none
  annotations_removed : ∀ k v, w.annotations.get k = some v → annotations.get k = none →
    node.annotations.get k = none
  labels_kept : ∀ k, w.labels.get k = none → labels.get k = none →
    node.labels.get k = w.node.labels.get k
  annotations_kept : ∀ k, isRecordKey k = false → w.annotations.get k = none →
    annotations.get k = none → node.annotations.get k = w.node.annotations.get k
  labels_settled : needUpdateLabelsOnNodeInDPUCluster node labels = some false
  annotations_settled : needUpdateAnnotationsOnNodeInDPUCluster node annotations = some false

theorem get_texts {m : Map String} : (texts m).get k = (m.get k).map .text := by
  induction m with
  | nil => rfl
  | cons kv m ih =>
    obtain ⟨j, v⟩ := kv
    change Map.get ((j, Value.text v) :: texts m) k = _
    rw [Map.get_cons, Map.get_cons, ih]
    split_ifs <;> rfl

variable {w w' : World} {labels annotations : Map String}

theorem Init.recorded (h : Init w) : Recorded w where
  labels := by rw [readMap, h.records _ rfl, h.labels]
  annotations := by rw [readMap, h.records _ rfl, h.annotations]
  other k _ := by rw [h.annotations]; rfl

theorem get_eq_none_of_isRecordKey (h : (annotations.all fun kv => !isRecordKey kv.1) = true)
    (hk : isRecordKey k = true) : annotations.get k = none := by
  by_contra hne
  obtain ⟨kv, hkv, rfl⟩ :=
    List.mem_map.mp (Map.isSome_get.mp (isSome_iff_ne_none.mpr hne))
  simpa [hk] using List.all_eq_true.mp h kv hkv

/-- What a call makes of each annotation, next to the two records. -/
theorem update_eq (h : Recorded w) (hown : ∀ k, isRecordKey k = true → annotations.get k = none) :
    ∃ node, updateLabelsAndAnnotationsToNode w.node labels annotations = some node ∧
      node.labels = applyOver w.labels labels w.node.labels ∧
      node.annotations.get lastAppliedLabelsOnDPUKey = some (.json labels) ∧
      node.annotations.get lastAppliedAnnotationsOnDPUKey = some (.json annotations) ∧
      ∀ k, isRecordKey k = false → node.annotations.get k =
        (applyOver w.annotations (texts annotations) w.node.annotations).get k := by
  have hne : lastAppliedLabelsOnDPUKey ≠ lastAppliedAnnotationsOnDPUKey := by decide
  have hold : readMap ((lastAppliedLabelsOnDPUKey, .json labels) :: w.node.annotations)
      lastAppliedAnnotationsOnDPUKey = some w.annotations := by
    rw [← h.annotations, readMap, readMap, Map.get_cons, if_neg hne.symm]
  refine ⟨⟨applyOver w.labels labels w.node.labels,
    (lastAppliedAnnotationsOnDPUKey, .json annotations) :: applyOver w.annotations
      (texts annotations) ((lastAppliedLabelsOnDPUKey, .json labels) :: w.node.annotations)⟩,
    ?_, rfl, ?_, ?_, ?_⟩
  · simp [updateLabelsAndAnnotationsToNode, h.labels, hold]
  · rw [Map.get_cons, if_neg hne, get_applyOver, get_texts, hown _ rfl, h.other _ rfl, Map.get_cons]
    simp
  · rw [Map.get_cons, if_pos rfl]
  · intro k hk
    simp only [isRecordKey, Bool.or_eq_false_iff, decide_eq_false_iff_not] at hk
    rw [Map.get_cons, if_neg hk.2, get_applyOver, get_applyOver, Map.get_cons, if_neg hk.1]

theorem Recorded.step {e : Event} (h : Recorded w) (hok : w.allowed e = true)
    (hs : Step w e w') : Recorded w' := by
  cases e with
  | call labels annotations =>
    have hown := fun k => @get_eq_none_of_isRecordKey k annotations hok
    obtain ⟨node, hnode, -, hl, ha, -⟩ := @update_eq w labels annotations h hown
    simp only [Step, World.exec, hnode, map_some, some.injEq] at hs
    subst hs
    exact ⟨by rw [readMap, hl], by rw [readMap, ha], hown⟩
  | editLabel key value =>
    cases hs
    exact { h with }
  | editAnnotations key value =>
    have hkeep : ∀ k, isRecordKey k = true →
        (w.node.annotations.edit key (value.map .text)).get k = w.node.annotations.get k := by
      intro k hk
      have hne : k ≠ key := by
        rintro rfl
        simp [World.allowed, hk] at hok
      cases value <;> simp [Map.edit, Map.get_delete, Map.get_cons, hne]
    cases hs
    exact ⟨by rw [← h.labels, readMap, readMap, hkeep _ rfl],
      by rw [← h.annotations, readMap, readMap, hkeep _ rfl], h.other⟩

/-- In every run each call gives the wanted entries, takes away what the call before it applied and
is no longer wanted, leaves everything else alone, and leaves nothing to update. -/
theorem node_metadata_owned (hr : Reachable Init (Restrict (fun w e => w.allowed e = true) Step) w)
    (hown : (annotations.all fun kv => !isRecordKey kv.1) = true) :
    ∃ node, updateLabelsAndAnnotationsToNode w.node labels annotations = some node ∧
      Owned w labels annotations node := by
  have h : Recorded w :=
    hr.invariant (fun _ hi => hi.recorded) fun _ _ _ _ hinv hs => hinv.step hs.1 hs.2
  obtain ⟨node, hnode, hlabels, hl, ha, hother⟩ :=
    @update_eq w labels annotations h fun k => get_eq_none_of_isRecordKey hown
  have hnot : ∀ k v, annotations.get k = some v → isRecordKey k = false := by
    intro k v hv
    by_contra hk
    rw [get_eq_none_of_isRecordKey hown (by simpa using hk)] at hv
    cases hv
  refine ⟨node, hnode, ⟨?_, ?_, ?_, ?_, ?_, ?_, ?_, ?_⟩⟩
  · intro k v hv
    rw [hlabels, get_applyOver, hv, some_or]
  · intro k v hv
    rw [hother k (hnot k v hv), get_applyOver, get_texts, hv]
    rfl
  · intro k v hv hnone
    rw [hlabels, get_applyOver, hnone, hv]
    rfl
  · intro k v hv hnone
    have hk : isRecordKey k = false := by
      by_contra hk
      rw [h.other k (by simpa using hk)] at hv
      cases hv
    rw [hother k hk, get_applyOver, get_texts, hnone, hv]
    rfl
  · intro k hlast hnone
    rw [hlabels, get_applyOver, hnone, hlast]
    rfl
  · intro k hk hlast hnone
    rw [hother k hk, get_applyOver, get_texts, hnone, hlast]
    rfl
  · rw [needUpdateLabelsOnNodeInDPUCluster, readMap, hl]
    simp [Map.same_iff]
  · rw [needUpdateAnnotationsOnNodeInDPUCluster, readMap, ha]
    simp [Map.same_iff]

def plainWorld : World := ⟨⟨[("zone", "a")], []⟩, [], []⟩

/-- A label is applied, somebody writes another one, and the first one is no longer wanted. -/
theorem applied_label_owned :
    ∃ w, Reachable Init (Restrict (fun w e => w.allowed e = true) Step) w ∧
      w.labels = [("tier", "edge")] ∧
      ∃ node, updateLabelsAndAnnotationsToNode w.node [] [("note", "n")] = some node ∧
        Owned w [] [("note", "n")] node := by
  obtain ⟨w, hr, hw⟩ := Reachable.exists_of_runIf
    (show Init plainWorld from ⟨fun _ _ => rfl, rfl, rfl⟩) World.allowed World.exec
    [.call [("tier", "edge")] [], .editLabel "zone" (some "b")] World.labels [("tier", "edge")]
    (by decide +kernel)
  exact ⟨w, hr, hw, node_metadata_owned hr (by decide)⟩

/-! ## The spec of the DPU -/

structure ClusterSpec where
  nodeLabels : Map String
  nodeAnnotations : Map String

/-- What the template of the DPUSet and the DPUDevice say about the Node. -/
structure Source (σ : Type) where
  template : ClusterSpec
  device : ClusterSpec
  selector : Option σ

/-- The template and the device must agree on the keys they share. -/
def mergeMaps (template device : Map String) : Option (Map String) :=
  if device.all fun kv => (template.get kv.1).all (· = kv.2) then some (device ++ template)
  else none

variable {σ : Type}

def Source.userLabels (s : Source σ) : Map String := s.device.nodeLabels ++ s.template.nodeLabels

def Source.userAnnotations (s : Source σ) : Map String :=
  s.device.nodeAnnotations ++ s.template.nodeAnnotations

def mergeDPUClusterNodeMetadata (s : Source σ) : Option (Map String × Map String) := do
  let labels ← mergeMaps s.template.nodeLabels s.device.nodeLabels
  let annotations ← mergeMaps s.template.nodeAnnotations s.device.nodeAnnotations
  return (labels, annotations)

/-- `Spec.Cluster` of a DPU, and the two records. -/
structure DPU (σ : Type) where
  nodeLabels : Map String
  nodeAnnotations : Map String
  selector : Option σ
  lastLabels : Map String
  lastAnnotations : Map String

/-- The labels that `buildDPUClusterNodeLabels` puts over those of the user. -/
def systemLabels (dpuNodeName dpuDeviceNamespace dpfVersion : String) : Map String :=
  [("provisioning.dpu.nvidia.com/dpunode-name", dpuNodeName),
    ("provisioning.dpu.nvidia.com/dpunode-namespace", dpuDeviceNamespace),
    ("operator.dpu.nvidia.com/dpf-version", dpfVersion)]

def createDPU (system : Map String) (s : Source σ) : Option (DPU σ) :=
  (mergeDPUClusterNodeMetadata s).map fun (labels, annotations) =>
    ⟨system ++ labels, annotations, s.selector, labels, annotations⟩

/-- A map with its record, updated if the new map is not the recorded one. -/
def updateMap (current : Map String × Map String) (new : Map String) : Map String × Map String :=
  if new.same current.2 then current else (applyOver current.2 new current.1, new)

def updateLabelsAndAnnotationsForDPU (dpu : DPU σ) (s : Source σ) : Option (DPU σ) :=
  (mergeDPUClusterNodeMetadata s).map fun (labels, annotations) =>
    let (nodeLabels, lastLabels) := updateMap (dpu.nodeLabels, dpu.lastLabels) labels
    let (nodeAnnotations, lastAnnotations) :=
      updateMap (dpu.nodeAnnotations, dpu.lastAnnotations) annotations
    ⟨nodeLabels, nodeAnnotations, s.selector, lastLabels, lastAnnotations⟩

theorem merge_eq_some {s : Source σ} {r : Map String × Map String}
    (h : mergeDPUClusterNodeMetadata s = some r) : r = (s.userLabels, s.userAnnotations) := by
  simp only [mergeDPUClusterNodeMetadata, mergeMaps, bind_eq_bind, bind_eq_some_iff,
    ite_none_right_eq_some, some.injEq] at h
  obtain ⟨labels, ⟨-, rfl⟩, annotations, ⟨-, rfl⟩, hr⟩ := h
  cases hr
  rfl

/-- The user maps have not changed since the first one. -/
def Unchanged (first : Map String) (later : List (Map String)) : Prop :=
  ∀ m ∈ later, ∀ k, m.get k = first.get k

/-- A map with its record, after a creation and some updates. -/
structure Updated (system first : Map String) (later : List (Map String))
    (r : Map String × Map String) : Prop where
  record : ∀ k, r.2.get k = (later.getLastD first).get k
  created : Unchanged first later → ∀ k, r.1.get k = (system ++ first).get k
  updated : ¬Unchanged first later → ∀ k, r.1.get k = ((later.getLastD first).get k).or
    (if ∀ m ∈ first :: later, m.get k = none then system.get k else none)

theorem getLastD_mem (first : α) (later : List α) : later.getLastD first ∈ first :: later := by
  induction later using List.reverseRecOn <;> simp

theorem getLastD_map (f : α → β) (first : α) (later : List α) :
    (later.map f).getLastD (f first) = f (later.getLastD first) := by
  induction later using List.reverseRecOn <;> simp

theorem Updated.step {system first new : Map String} {later : List (Map String)}
    {r : Map String × Map String} (h : Updated system first later r) :
    Updated system first (later ++ [new]) (updateMap r new) := by
  have hlast := getLastD_mem first later
  generalize hcur : later.getLastD first = cur at hlast
  have hrec : ∀ k, r.2.get k = cur.get k := hcur ▸ h.record
  have hall : Unchanged first (later ++ [new]) ↔
      Unchanged first later ∧ ∀ k, new.get k = first.get k := by
    simp [Unchanged, or_imp, forall_and]
  have hsame : Unchanged first later → ∀ k, cur.get k = first.get k := fun hu k =>
    (mem_cons.mp hlast).elim (fun he => he ▸ rfl) fun hm => hu cur hm k
  have hnever (k : String) : (∀ m ∈ first :: (later ++ [new]), m.get k = none) ↔
      (∀ m ∈ first :: later, m.get k = none) ∧ new.get k = none := by
    simp [or_imp, forall_and, and_assoc]
  unfold updateMap
  split_ifs with hs
  · rw [Map.same_iff] at hs
    have hcn : ∀ k, new.get k = cur.get k := fun k => (hs k).trans (hrec k)
    refine ⟨fun k => ?_, fun hu => h.created (hall.mp hu).1, fun hu k => ?_⟩
    · rw [hrec, ← hcn, getLastD_concat]
    · have hu' : ¬Unchanged first later :=
        fun hl => hu (hall.mpr ⟨hl, fun k => (hcn k).trans (hsame hl k)⟩)
      have hn : (∀ m ∈ first :: later, m.get k = none) → new.get k = none :=
        fun hm => (hcn k).trans (hm cur hlast)
      rw [h.updated hu' k, hcur, getLastD_concat, hcn]
      simp only [hnever, ← hcn, and_iff_left_of_imp hn]
  · refine ⟨fun k => by rw [getLastD_concat], fun hu => absurd ?_ hs, fun _ k => ?_⟩
    · obtain ⟨hl, hn⟩ := hall.mp hu
      exact Map.same_iff.mpr fun k => by rw [hn, hrec, hsame hl]
    · rw [get_applyOver, hrec, getLastD_concat]
      simp only [hnever]
      cases hn : new.get k with
      | some v => rfl
      | none =>
        simp only [none_or, and_true]
        cases hc : cur.get k with
        | some v =>
          have hm : ¬∀ m ∈ first :: later, m.get k = none :=
            fun hm => some_ne_none v (hc.symm.trans (hm cur hlast))
          rw [if_neg hm]
          rfl
        | none =>
          by_cases hu : Unchanged first later
          · have hf : first.get k = none := (hsame hu k).symm.trans hc
            have hm : ∀ m ∈ first :: later, m.get k = none :=
              forall_mem_cons.mpr ⟨hf, fun m hm => (hu m hm k).trans hf⟩
            rw [if_pos hm, h.created hu k, Map.get_append, hf, or_none]
            rfl
          · rw [h.updated hu k, hcur, hc]
            rfl

theorem updated_foldl (system first : Map String) (later : List (Map String)) :
    Updated system first later (later.foldl updateMap (system ++ first, first)) := by
  induction later using List.reverseRecOn with
  | nil => exact ⟨fun _ => rfl, fun _ _ => rfl, fun h => absurd nofun h⟩
  | append_singleton later new ih =>
    rw [foldl_append]
    exact ih.step

/-- The map is what its creation from the last user map would be. -/
theorem updated_iff {system first : Map String} {later : List (Map String)}
    {r : Map String × Map String} (h : Updated system first later r) :
    (∀ k, r.1.get k = (system ++ later.getLastD first).get k) ↔
      Unchanged first later ∨ ∀ k v, system.get k = some v →
        (later.getLastD first).get k = some v ∨ ∀ m ∈ first :: later, m.get k = none := by
  by_cases hu : Unchanged first later
  · have hl : ∀ k, (later.getLastD first).get k = first.get k := fun k =>
      (mem_cons.mp (getLastD_mem first later)).elim (fun he => by rw [he]) (hu _ · k)
    exact iff_of_true (fun k => by rw [h.created hu, Map.get_append, Map.get_append, hl]) (.inl hu)
  · rw [or_iff_right hu]
    refine forall_congr' fun k => ?_
    rw [h.updated hu k, Map.get_append]
    cases hs : system.get k with
    | none => simp
    | some v =>
      cases hc : (later.getLastD first).get k with
      | some u =>
        have hm : ¬∀ m ∈ first :: later, m.get k = none :=
          fun hm => some_ne_none u (hc.symm.trans (hm _ (getLastD_mem first later)))
        simp only [some_or, some.injEq, forall_eq', or_iff_left hm]
      | none => by_cases hm : ∀ m ∈ first :: later, m.get k = none <;> simp

/-- The updates of a DPU are updates of its two maps; the selector is the last one. -/
theorem foldlM_update {later : List (Source σ)} {dpu₀ dpu : DPU σ}
    (h : later.foldlM updateLabelsAndAnnotationsForDPU dpu₀ = some dpu) :
    (dpu.nodeLabels, dpu.lastLabels) =
        (later.map Source.userLabels).foldl updateMap (dpu₀.nodeLabels, dpu₀.lastLabels) ∧
      (dpu.nodeAnnotations, dpu.lastAnnotations) = (later.map Source.userAnnotations).foldl
        updateMap (dpu₀.nodeAnnotations, dpu₀.lastAnnotations) ∧
      dpu.selector = (later.map Source.selector).getLastD dpu₀.selector := by
  induction later generalizing dpu₀ with
  | nil =>
    cases h
    exact ⟨rfl, rfl, rfl⟩
  | cons s later ih =>
    rw [foldlM_cons] at h
    obtain ⟨dpu₁, hd, h⟩ := bind_eq_some_iff.mp h
    obtain ⟨r, hr, rfl⟩ := map_eq_some_iff.mp hd
    cases merge_eq_some hr
    obtain ⟨hl, ha, hs⟩ := ih h
    exact ⟨hl, ha, by rw [hs, map_cons, getLastD_cons]⟩

/-- After any updates the DPU is as a creation from the last source would make it, unless a label of
the user that is under a key of the system labels comes with another value or goes, or takes effect
at all. -/
theorem updates_agree_with_creation_iff {system : Map String} {first : Source σ}
    {later : List (Source σ)} {dpu₀ dpu fresh : DPU σ} (hfirst : createDPU system first = some dpu₀)
    (hlater : later.foldlM updateLabelsAndAnnotationsForDPU dpu₀ = some dpu)
    (hfresh : createDPU system (later.getLastD first) = some fresh) :
    ((∀ k, dpu.nodeLabels.get k = fresh.nodeLabels.get k) ∧
        (∀ k, dpu.nodeAnnotations.get k = fresh.nodeAnnotations.get k) ∧
        dpu.selector = fresh.selector) ↔
      (∀ s ∈ later, ∀ k, s.userLabels.get k = first.userLabels.get k) ∨
        ∀ k v, system.get k = some v → (later.getLastD first).userLabels.get k = some v ∨
          ∀ s ∈ first :: later, s.userLabels.get k = none := by
  obtain ⟨r, hr, rfl⟩ := map_eq_some_iff.mp hfirst
  cases merge_eq_some hr
  obtain ⟨r', hr', rfl⟩ := map_eq_some_iff.mp hfresh
  cases merge_eq_some hr'
  obtain ⟨hl, ha, hs⟩ := foldlM_update hlater
  have hlab := updated_iff
    (hl ▸ updated_foldl system first.userLabels (later.map Source.userLabels))
  have hann := updated_iff
    (ha ▸ updated_foldl [] first.userAnnotations (later.map Source.userAnnotations))
  rw [getLastD_map] at hlab hann
  simp only [Unchanged, List.forall_mem_map, ← map_cons] at hlab
  rw [← hlab]
  refine and_iff_left ⟨hann.mpr (.inr nofun), ?_⟩
  rw [hs]
  exact getLastD_map Source.selector first later

def source (labels : Map String) : Source Unit := ⟨⟨labels, []⟩, ⟨[], []⟩, none⟩

def sampleSystem : Map String := systemLabels "node-1" "dpf-operator-system" "v1"

theorem tier_change_agrees :
    ∃ dpu₀ dpu fresh, createDPU sampleSystem (source [("tier", "edge")]) = some dpu₀ ∧
      [source [("zone", "a")]].foldlM updateLabelsAndAnnotationsForDPU dpu₀ = some dpu ∧
      createDPU sampleSystem (source [("zone", "a")]) = some fresh ∧
      ∀ k, dpu.nodeLabels.get k = fresh.nodeLabels.get k := by
  have hn : ∀ k ∈ sampleSystem.map Prod.fst, ∀ m ∈ [[("tier", "edge")], [("zone", "a")]],
      Map.get m k = none := by decide
  refine ⟨_, _, _, rfl, rfl, rfl, ((@updates_agree_with_creation_iff Unit sampleSystem
    (source [("tier", "edge")]) [source [("zone", "a")]] _ _ _ rfl rfl rfl).mpr (.inr ?_)).1⟩
  intro k v hv
  have hk := hn k (Map.isSome_get.mp (by rw [hv]; rfl))
  exact .inr (by simpa [source, Source.userLabels] using hk)

/-- A user label under the key of the version: it is hidden at the creation, but not by an
update. -/
theorem version_label_diverges :
    let own := source [("operator.dpu.nvidia.com/dpf-version", "mine")]
    (((createDPU sampleSystem (source [])).bind (updateLabelsAndAnnotationsForDPU · own)).map
        (·.nodeLabels.get "operator.dpu.nvidia.com/dpf-version"),
      (createDPU sampleSystem own).map (·.nodeLabels.get "operator.dpu.nvidia.com/dpf-version")) =
      (some (some "mine"), some (some "v1")) := by
  decide +kernel

end DocaPlatform.NodeMetadata
