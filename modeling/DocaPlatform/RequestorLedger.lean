import DocaPlatform.NodeMaintenance
import DocaPlatform.Runs

/-!
# The requestors of a DPUNodeMaintenance under concurrent writers

The DPU controller, the DPUReady controller and the DPUDeployment node controller read the object
and write its list of requestors later. Next to the object a ledger records what the writers mean
to do to the list, one whole write at a time. The DPU controller's writes carry the resource version
they are based on, so they do what they mean. `SerialPatcher` sends the whole list without it.
-/
namespace DocaPlatform.RequestorLedger

open InPlaceReconfig NodeMaintenance ObjectStore Runs List Function

def getRequestorForDPUObjectVersion (parentDPUDeploymentNameLabelValue version : Name) : Name :=
  parentDPUDeploymentNameLabelValue ++ "_" ++ version

structure NodeSelectorRequirement where
  key : String
  values : List String

/-- `ServiceDaemonSet` with its `NodeSelector`, a list of terms. -/
structure ServiceDaemonSet where
  nodeSelector : Option (List (List NodeSelectorRequirement))

/-- A DPUService, or a DPUServiceChain without the daemon set. A missing label reads as empty. -/
structure DPUObject where
  name : Name
  parentDPUDeploymentName : Name
  serviceDaemonSet : Option ServiceDaemonSet

def DPUObject.potentialRequestor (s : DPUObject) : Name :=
  getRequestorForDPUObjectVersion s.parentDPUDeploymentName s.name

/-- The body of the loops over the DPUServices and DPUServiceChains. -/
def dropRequestor (potentialRequestor : Name) (o : DPUNodeMaintenance) : DPUNodeMaintenance :=
  if !o.requestor.contains potentialRequestor then o
  else { o with requestor := o.requestor.filter fun requestor => requestor != potentialRequestor }

/-- The loops of `patchDPUNodeMaintenanceObjects`, over what is ready. -/
def patchDPUNodeMaintenanceObjects (dpuServices dpuServiceChains : List DPUObject)
    (o : DPUNodeMaintenance) : DPUNodeMaintenance :=
  let afterServices := dpuServices.foldl (fun o s => dropRequestor s.potentialRequestor o) o
  dpuServiceChains.foldl (fun o s => dropRequestor s.potentialRequestor o) afterServices

def getDPUServiceVersionLabelKeyFromDPUService (dpuService : DPUObject)
    (dpuServiceVersion : String) : Except String String :=
  match dpuService.serviceDaemonSet with
  | none =>
    .error ("spec.ServiceDaemonSet can't be nil for DPUService " ++ dpuService.name ++
      " owned by a DPUDeployment")
  | some daemonSet =>
    match daemonSet.nodeSelector with
    | none =>
      .error ("spec.ServiceDaemonSet.NodeSelector can't be nil for DPUService " ++ dpuService.name)
    | some terms =>
      match terms.flatten.find? fun req => req.values.contains dpuServiceVersion with
      | some req => .ok req.key
      | none => .error ("no key exists that match version " ++ dpuServiceVersion)

abbrev NodeLabels := String → Option String

def addNodeLabel (node : NodeLabels) (key value : String) : NodeLabels :=
  update node key (some value)

/-- The loop of `handleDPUNodeMaintenanceObjects` for one object. -/
def handleDPUServices (node : NodeLabels) (o : DPUNodeMaintenance) :
    List DPUObject → Except String (NodeLabels × DPUNodeMaintenance)
  | [] => .ok (node, o)
  | dpuService :: rest =>
    if !o.requestor.contains dpuService.potentialRequestor then handleDPUServices node o rest
    else
      match getDPUServiceVersionLabelKeyFromDPUService dpuService dpuService.name with
      | .error err =>
        .error ("failed to find DPUService version label key for DPUService " ++ dpuService.name ++
          ": " ++ err)
      | .ok key =>
        handleDPUServices (addNodeLabel node key dpuService.name)
          (dropRequestor dpuService.potentialRequestor o) rest

/-- `handleDPUNodeMaintenanceObjects` for one object: nothing is done before the node effect is
applied. -/
def handleDPUNodeMaintenanceObjects (node : NodeLabels) (dpuServices : List DPUObject)
    (o : DPUNodeMaintenance) : Except String (NodeLabels × Option DPUNodeMaintenance) :=
  if !o.nodeEffectApplied then .ok (node, none)
  else do
    let (node, o) ← handleDPUServices node o dpuServices
    .ok (node, some o)

/-! ## Writes -/

/-- A write under way of a worker that read the version `v`: what is written, whether the write
carries the resource version, and what it means: the names that it takes out and those that it puts
in. -/
structure Pending (v : Version DPUNodeMaintenance) where
  new : DPUNodeMaintenance
  checked : Bool
  removed : List Name
  added : List Name
  meant : ∀ x, x ∈ new.requestor ↔ x ∈ added ∨ x ∈ v.content.requestor ∧ x ∉ removed
  /-- An unchecked write only takes names out, of those that were read. -/
  drops : checked = false → added = [] ∧ ∀ x ∈ removed, x ∈ v.content.requestor

theorem addRequestorAndUpdateForce_meant (name : Name) (r : Request) (o : DPUNodeMaintenance)
    (x : Name) :
    x ∈ (addRequestorAndUpdateForce name r o).requestor ↔
      x ∈ name :: r.additional ∨ x ∈ o.requestor ∧ x ∉ ([] : List Name) := by
  simp only [addRequestorAndUpdateForce, mem_removeDuplicates, mem_append, not_mem_nil,
    not_false_eq_true, and_true]
  exact or_comm

variable {o new : DPUNodeMaintenance} {w : World}

theorem updateRequestors_meant {name : Name} {expected last : List Name}
    (h : updateRequestors name expected last o = some new) (x : Name) :
    x ∈ new.requestor ↔ x ∈ expected ∨ x ∈ o.requestor ∧ x ∉ last := by
  unfold updateRequestors at h
  dsimp only at h
  split_ifs at h
  cases h
  simp [findOutDPURequestors]

theorem removeRequestor_meant {name : Name} (h : removeRequestor name o = some new) (x : Name) :
    x ∈ new.requestor ↔ x ∈ ([] : List Name) ∨ x ∈ o.requestor ∧ x ∉ [name] := by
  unfold removeRequestor at h
  dsimp only at h
  split_ifs at h
  cases h
  simp

/-- `addRequestorAndUpdateForce` read the object. -/
def joinAfter (name : Name) (r : Request) (v : Version DPUNodeMaintenance) : Option (Pending v) :=
  if isDPUInRequestor v.content name then none
  else
    some
      { new := addRequestorAndUpdateForce name r v.content
        checked := true
        removed := []
        added := name :: r.additional
        meant := addRequestorAndUpdateForce_meant name r v.content
        drops := by simp }

/-- `UpdateDPUNodeMaintenanceRequestors` read the object. -/
def updateAfter (name : Name) (expected : List Name) (v : Version DPUNodeMaintenance) :
    Option (Pending v) :=
  match v.content.lastApplied name with
  | none => none
  | some last =>
    match h : updateRequestors name expected last v.content with
    | none => none
    | some new =>
      some
        { new := new
          checked := true
          removed := last
          added := expected
          meant := updateRequestors_meant h
          drops := by simp }

/-- `RemoveRequestorFromDPUNodeMaintenance` read the object. -/
def removeAfter (name : Name) (v : Version DPUNodeMaintenance) : Option (Pending v) :=
  match h : removeRequestor name v.content with
  | none => none
  | some new =>
    some
      { new := new
        checked := true
        removed := [name]
        added := []
        meant := removeRequestor_meant h
        drops := by simp }

/-- A `SerialPatcher` between what was read and what a controller made of it. -/
def serialPatch (v : Version DPUNodeMaintenance) (new : DPUNodeMaintenance)
    (h : new.requestor.Sublist v.content.requestor) : Pending v where
  new := new
  checked := false
  removed := v.content.requestor.filter fun x => !new.requestor.contains x
  added := []
  meant x := by
    have hmem : x ∈ new.requestor → x ∈ v.content.requestor := fun hx => h.subset hx
    simp only [not_mem_nil, false_or, mem_filter, not_and]
    constructor
    · intro hx
      exact ⟨hmem hx, fun _ => by simpa using hx⟩
    · rintro ⟨hx, hkept⟩
      simpa using hkept hx
  drops _ := ⟨rfl, fun _ hx => mem_of_mem_filter hx⟩

theorem dropRequestor_sublist (x : Name) (o : DPUNodeMaintenance) :
    (dropRequestor x o).requestor.Sublist o.requestor := by
  unfold dropRequestor
  split_ifs
  · exact List.Sublist.refl _
  · exact filter_sublist

theorem foldl_dropRequestor_sublist (objects : List DPUObject) (o : DPUNodeMaintenance) :
    (objects.foldl (fun o s => dropRequestor s.potentialRequestor o) o).requestor.Sublist
      o.requestor := by
  induction objects generalizing o with
  | nil => exact List.Sublist.refl _
  | cons s rest ih => exact (ih _).trans (dropRequestor_sublist _ o)

theorem patchDPUNodeMaintenanceObjects_sublist (services chains : List DPUObject)
    (o : DPUNodeMaintenance) :
    (patchDPUNodeMaintenanceObjects services chains o).requestor.Sublist o.requestor :=
  (foldl_dropRequestor_sublist chains _).trans (foldl_dropRequestor_sublist services o)

theorem handleDPUServices_sublist {services : List DPUObject} {node node' : NodeLabels}
    (h : handleDPUServices node o services = .ok (node', new)) :
    new.requestor.Sublist o.requestor := by
  induction services generalizing node o with
  | nil =>
    simp only [handleDPUServices, Except.ok.injEq, Prod.mk.injEq] at h
    rw [h.2]
  | cons s rest ih =>
    unfold handleDPUServices at h
    split_ifs at h
    · exact ih h
    · split at h
      · simp at h
      · exact (ih h).trans (dropRequestor_sublist _ o)

theorem handleDPUNodeMaintenanceObjects_sublist {services : List DPUObject}
    {node node' : NodeLabels}
    (h : handleDPUNodeMaintenanceObjects node services o = .ok (node', some new)) :
    new.requestor.Sublist o.requestor := by
  unfold handleDPUNodeMaintenanceObjects at h
  split_ifs at h
  · simp at h
  · obtain ⟨⟨n, x⟩, hl, heq⟩ := bind_eq_ok.mp h
    simp only [Except.ok.injEq, Prod.mk.injEq, Option.some.injEq] at heq
    rw [← heq.2]
    exact handleDPUServices_sublist hl

/-- The DPUReady controller read the object, and found these services and chains ready.
`getDPUNodeMaintenanceObjects` passes over an object whose node effect is not applied. -/
def readyAfter (services chains : List DPUObject) (v : Version DPUNodeMaintenance) :
    Option (Pending v) :=
  if !v.content.nodeEffectApplied then none
  else
    some (serialPatch v (patchDPUNodeMaintenanceObjects services chains v.content)
      (patchDPUNodeMaintenanceObjects_sublist services chains v.content))

/-- The DPUDeployment node controller read the object. -/
def nodeAfter (node : NodeLabels) (services : List DPUObject) (v : Version DPUNodeMaintenance) :
    Option (Pending v) :=
  match h : handleDPUNodeMaintenanceObjects node services v.content with
  | .ok (_, some new) => some (serialPatch v new (handleDPUNodeMaintenanceObjects_sublist h))
  | _ => none

/-- The object after the write; `none` if it fails. A `SerialPatcher` without a change sends
nothing. -/
def Pending.send {v : Version DPUNodeMaintenance} (p : Pending v)
    (slot : Slot DPUNodeMaintenance) : Option (Slot DPUNodeMaintenance) :=
  if p.checked then (slot.replace v p.new).toOption
  else if p.new.requestor = v.content.requestor then some slot
  else (slot.amend fun o => { o with requestor := p.new.requestor }).toOption

/-! ## Runs -/

structure World where
  slot : Slot DPUNodeMaintenance
  /-- The writes under way, of any number of workers. -/
  pending : ℕ → Option (Sigma Pending)
  /-- The names that were put in and not taken out since. -/
  ledger : Finset Name

inductive Event where
  | create (name : Name) (request : Request)
  | join (worker : ℕ) (name : Name) (request : Request)
  | update (worker : ℕ) (name : Name) (expected : List Name)
  | remove (worker : ℕ) (name : Name)
  | ready (worker : ℕ) (services chains : List DPUObject)
  | node (worker : ℕ) (labels : NodeLabels) (services : List DPUObject)
  | write (worker : ℕ)
  /-- A worker stops, or its request fails. -/
  | stop (worker : ℕ)
  /-- Others write the object, except for the list. -/
  | touch (finalizer deleting nodeEffectApplied : Bool) (force : Option Bool)
  /-- The object is gone. -/
  | erase

/-- A worker reads the object, and has a write to make or not. -/
def World.begin (w : World) (worker : ℕ)
    (after : (v : Version DPUNodeMaintenance) → Option (Pending v)) : World :=
  { w with
    pending := update w.pending worker
      (w.slot.stored.bind fun v => (after v).map (Sigma.mk v)) }

def World.write (w : World) (worker : ℕ) : Option World :=
  match w.pending worker with
  | none => none
  | some ⟨_, p⟩ =>
    let done := { w with pending := update w.pending worker none }
    match p.send w.slot with
    | none => some done
    | some slot =>
      some { done with slot := slot, ledger := w.ledger \ p.removed.toFinset ∪ p.added.toFinset }

def World.exec (w : World) : Event → Option World
  | .create name request =>
    match w.slot.create (createDPUNodeMaintenance name request) with
    | .error _ => some w
    | .ok slot => some { w with slot := slot, ledger := (request.additional ++ [name]).toFinset }
  | .join worker name request => some (w.begin worker (joinAfter name request))
  | .update worker name expected => some (w.begin worker (updateAfter name expected))
  | .remove worker name => some (w.begin worker (removeAfter name))
  | .ready worker services chains => some (w.begin worker (readyAfter services chains))
  | .node worker labels services => some (w.begin worker (nodeAfter labels services))
  | .write worker => w.write worker
  | .stop worker => some { w with pending := update w.pending worker none }
  | .touch finalizer deleting nodeEffectApplied force =>
    match w.slot.amend fun o =>
      { o with
        finalizer := finalizer, deleting := deleting, nodeEffectApplied := nodeEffectApplied
        force := force } with
    | .error _ => none
    | .ok slot => some { w with slot := slot }
  | .erase => some { w with slot := w.slot.erase, ledger := ∅ }

structure Init (w : World) : Prop where
  slot : w.slot = Slot.empty
  pending : ∀ worker, w.pending worker = none
  ledger : w.ledger = ∅

def Step (w : World) (e : Event) (w' : World) : Prop := w.exec e = some w'

def World.requestors (w : World) : List Name :=
  (w.slot.content.map DPUNodeMaintenance.requestor).getD []

/-- What a `SerialPatcher` does not take out is stored now if and only if it was read. -/
def World.allowed (w : World) : Event → Bool
  | .write worker =>
    match w.pending worker, w.slot.content with
    | some ⟨v, p⟩, some o =>
      p.checked || decide (p.new.requestor = v.content.requestor) ||
        decide (o.requestor.toFinset \ p.removed.toFinset =
          v.content.requestor.toFinset \ p.removed.toFinset)
    | _, _ => true
  | _ => true

structure Inv (w : World) : Prop where
  current : w.slot.Current
  saw : ∀ worker p, w.pending worker = some p → w.slot.Saw p.1
  ledger : ∀ x, x ∈ w.requestors ↔ x ∈ w.ledger

theorem requestors_of_content (h : w.slot.content = some o) : w.requestors = o.requestor := by
  simp [World.requestors, h]

theorem requestors_of_none (h : w.slot.content = none) : w.requestors = [] := by
  simp [World.requestors, h]

/-- A worker that stops, or that reads. -/
theorem Inv.setPending (h : Inv w) (worker : ℕ) {p : Option (Sigma Pending)}
    (hp : ∀ q, p = some q → w.slot.Saw q.1) :
    Inv { w with pending := update w.pending worker p } where
  current := h.current
  saw := (forall_update_iff w.pending fun _ p => ∀ q, p = some q → w.slot.Saw q.1).mpr
    ⟨hp, fun i _ => h.saw i⟩
  ledger := h.ledger

theorem Inv.begin (h : Inv w) (worker : ℕ)
    (after : (v : Version DPUNodeMaintenance) → Option (Pending v)) :
    Inv (w.begin worker after) := by
  refine h.setPending worker fun q hq => ?_
  obtain ⟨v, hv, ha⟩ := Option.bind_eq_some_iff.mp hq
  obtain ⟨p, _, rfl⟩ := Option.map_eq_some_iff.mp ha
  exact h.current.saw hv

/-- A write of the object that does to the list what the ledger says. -/
theorem Inv.put (h : Inv w) (o : DPUNodeMaintenance) {ledger : Finset Name}
    (hl : ∀ x, x ∈ o.requestor ↔ x ∈ ledger) :
    Inv { w with slot := w.slot.put o, ledger := ledger } where
  current := Slot.Current.put w.slot o
  saw worker p hp := (h.saw worker p hp).put o
  ledger x := by
    rw [requestors_of_content (o := o) (Slot.content_put w.slot o)]
    exact hl x

theorem Inv.write {w' : World} {worker : ℕ} (h : Inv w) (hok : w.allowed (.write worker) = true)
    (hex : w.write worker = some w') : Inv w' := by
  unfold World.write at hex
  split at hex
  · simp at hex
  rename_i v p hp
  have hd := h.setPending worker (p := none) (by simp)
  have hl : ∀ x, x ∈ w.ledger \ p.removed.toFinset ∪ p.added.toFinset ↔
      x ∈ p.added ∨ x ∈ w.requestors ∧ x ∉ p.removed := by
    intro x
    rw [h.ledger x]
    simp only [Finset.mem_union, Finset.mem_sdiff, mem_toFinset]
    exact or_comm
  dsimp only at hex
  cases hse : p.send w.slot with
  | none =>
    rw [hse] at hex
    cases hex
    exact hd
  | some slot =>
    rw [hse] at hex
    cases hex
    unfold Pending.send at hse
    by_cases hc : p.checked = true
    · -- The write went through, so what was read is what is stored.
      rw [if_pos hc, toOption_eq_some, (h.saw worker _ hp).replace_eq_ok] at hse
      obtain ⟨hst, rfl⟩ := hse
      refine hd.put p.new fun x => ?_
      rw [p.meant x, hl x, requestors_of_content (Slot.content_of_stored hst)]
    · rw [if_neg hc] at hse
      obtain ⟨ha, hr⟩ := p.drops (by simpa using hc)
      split_ifs at hse with hs
      · cases hse
        refine ⟨hd.current, hd.saw, fun x => ?_⟩
        rw [hl x, ha]
        have hk : x ∉ p.removed := fun hx => by
          have hn : x ∈ p.new.requestor := hs ▸ hr x hx
          rcases (p.meant x).mp hn with hin | ⟨_, hou⟩
          · simp [ha] at hin
          · exact hou hx
        simp only [not_mem_nil, false_or, hk, not_false_eq_true, and_true]
        rfl
      · rw [toOption_eq_some, Slot.amend_eq_ok] at hse
        obtain ⟨o, ho, rfl⟩ := hse
        refine hd.put _ fun x => ?_
        have he : o.requestor.toFinset \ p.removed.toFinset =
            v.content.requestor.toFinset \ p.removed.toFinset := by
          simpa [World.allowed, hp, ho, hc, hs] using hok
        have hx := Finset.ext_iff.mp he x
        simp only [Finset.mem_sdiff, mem_toFinset] at hx
        rw [hl x, requestors_of_content ho, hx]
        exact p.meant x

theorem Inv.step {w' : World} {e : Event} (h : Inv w) (hok : w.allowed e = true)
    (he : w.exec e = some w') : Inv w' := by
  cases e with
  | create name request =>
    simp only [World.exec] at he
    split at he
    · cases he
      exact h
    · rename_i slot hc
      cases he
      obtain ⟨_, rfl⟩ := Slot.create_eq_ok.mp hc
      exact h.put _ fun x => (mem_toFinset).symm
  | join worker name request | update worker name expected | remove worker name
  | ready worker services chains | node worker labels services =>
    cases he
    exact h.begin worker _
  | write worker => exact h.write hok he
  | stop worker =>
    cases he
    exact h.setPending worker (by simp)
  | touch finalizer deleting applied force =>
    simp only [World.exec] at he
    split at he
    · simp at he
    · rename_i slot ha
      cases he
      obtain ⟨o, ho, rfl⟩ := Slot.amend_eq_ok.mp ha
      refine h.put _ fun x => ?_
      rw [← h.ledger x, requestors_of_content ho]
  | erase =>
    cases he
    refine ⟨Slot.Current.erase w.slot, fun worker p hp => (h.saw worker p hp).erase, fun x => ?_⟩
    rw [requestors_of_none (Slot.content_erase w.slot)]
    simp

theorem Init.inv (h : Init w) : Inv w where
  current := by
    rw [h.slot]
    exact Slot.Current.empty
  saw worker p hp := by simp [h.pending worker] at hp
  ledger x := by
    rw [requestors_of_none (by simp [h.slot]), h.ledger]
    simp

/-- If nothing but what it takes out itself changes in the list between the read and the write of a
`SerialPatcher`, the list holds, whatever the interleaving, the names that some writer put in and
none took out since. -/
theorem requestors_match_ledger {w : World}
    (h : Reachable Init (Restrict (fun w e => w.allowed e = true) Step) w) (x : Name) :
    x ∈ w.requestors ↔ x ∈ w.ledger := by
  have hinv : Inv w := Reachable.invariant (P := Inv) (fun _ hs => hs.inv)
    (fun _ _ _ _ hs ht => hs.step ht.1 ht.2) h
  exact hinv.ledger x

def emptyWorld : World := ⟨Slot.empty, fun _ => none, ∅⟩

theorem emptyWorld_init : Init emptyWorld := ⟨rfl, fun _ => rfl, rfl⟩

/-- A service of a DPUDeployment, with the requestor `d_s`. -/
def service : DPUObject := ⟨"s", "d", none⟩

/-- A DPU creates the object with the service as an additional requestor, and the node effect is
applied. -/
def applied : List Event := [.create "dpu-a" ⟨["d_s"], false⟩, .touch true false true (some false)]

/-- Whether the second DPU is in the list, and whether it should be. -/
def secondDPU (w : World) : Bool × Bool :=
  (w.requestors.contains "dpu-b", decide ("dpu-b" ∈ w.ledger))

theorem secondDPU_iff {listed meant : Bool} (h : secondDPU w = (listed, meant)) :
    ("dpu-b" ∈ w.requestors ↔ listed = true) ∧ ("dpu-b" ∈ w.ledger ↔ meant = true) := by
  simp only [secondDPU, Prod.mk.injEq] at h
  obtain ⟨rfl, rfl⟩ := h
  simp

/-- The second DPU joins, and the service is taken out by a worker that read the list after it. -/
theorem joined_requestor_listed :
    ∃ w, Reachable Init (Restrict (fun w e => w.allowed e = true) Step) w ∧
      "dpu-b" ∈ w.ledger ∧ "dpu-b" ∈ w.requestors := by
  obtain ⟨w, hr, hw⟩ := Reachable.exists_of_runIf emptyWorld_init World.allowed World.exec
    (applied ++ [.join 1 "dpu-b" ⟨[], false⟩, .write 1, .ready 0 [service] [], .write 0]) secondDPU
    (true, true) (by decide +kernel)
  have hm := (secondDPU_iff hw).2.mpr rfl
  exact ⟨w, hr, hm, (requestors_match_ledger hr "dpu-b").mpr hm⟩

/-- The DPUReady controller reads the list, and before it takes the service out, the second DPU
joins: it is lost. Or the second DPU leaves: it is back. -/
theorem serial_patch_overwrites_list :
    (∃ w, Reachable Init Step w ∧ "dpu-b" ∈ w.ledger ∧ "dpu-b" ∉ w.requestors) ∧
      ∃ w, Reachable Init Step w ∧ "dpu-b" ∉ w.ledger ∧ "dpu-b" ∈ w.requestors := by
  constructor
  · obtain ⟨w, hr, hw⟩ := Reachable.exists_of_run emptyWorld_init World.exec
      (applied ++ [.ready 0 [service] [], .join 1 "dpu-b" ⟨[], false⟩, .write 1, .write 0])
      secondDPU (false, true) (by decide +kernel)
    obtain ⟨hl, hm⟩ := secondDPU_iff hw
    exact ⟨w, hr, hm.mpr rfl, fun hx => by simpa using hl.mp hx⟩
  · obtain ⟨w, hr, hw⟩ := Reachable.exists_of_run emptyWorld_init World.exec
      (applied ++ [.join 1 "dpu-b" ⟨[], false⟩, .write 1, .ready 0 [service] [],
        .remove 1 "dpu-b", .write 1, .write 0]) secondDPU (true, false) (by decide +kernel)
    obtain ⟨hl, hm⟩ := secondDPU_iff hw
    exact ⟨w, hr, fun hx => by simpa using hm.mp hx, hl.mpr rfl⟩

end DocaPlatform.RequestorLedger
