import DocaPlatform.KeyedStore

/-!
# The DPUNodeMaintenance controller

One reconcile of a DPUNodeMaintenance over the cluster it reads and writes: the limit on
unavailable DPUNodes, the node effects and their removal, the condition on the DPUNode that tells
the reconciles of other nodes, and the deferred patch. Every remote call of the reconcile may fail.
-/
namespace DocaPlatform.MaintenanceController

open KeyedStore Function

abbrev Name := String

/-! ## Objects -/

structure Taint where
  key : String
  value : String
  effect : String

/-- `Action`: validation lets through exactly one member. -/
inductive Action where
  | taint (taint : Taint)
  | noEffect
  | customLabel (labels : List (String × String)) (nonempty : labels ≠ [])
  | drain
  | customAction (configMap : Name) (nonempty : configMap ≠ "")
  | hold

structure NodeEffect where
  action : Action
  force : Option Bool

/-- The reason of the condition NodeEffectApplied. -/
inductive Reason where
  | success
  | pending
  | nodeEffectSyncInProgress
  | nodeEffectIsProcessing
  | error
  deriving DecidableEq

structure Condition where
  status : Bool
  reason : Reason
  deriving DecidableEq

structure DPUNodeMaintenance where
  finalizer : Bool
  deleting : Bool
  /-- The annotation `wait-for-external-nodeeffect`. -/
  holdNodeEffect : Option String
  dpuNodeName : Name
  nodeEffect : Option NodeEffect
  requestor : List Name
  nodeEffectApplied : Option Condition
  nodeEffectSyncStartTime : Option ℤ
  multiDPUOperationsSyncWaitTime : Option ℤ
  maxUnavailableDPUNodes : Option ℤ

structure DPUNode where
  /-- `IsDPUNodeReady`. -/
  ready : Bool
  nodeEffectInProgress : Bool
  kubeNodeRef : Option Name
  dpus : ℕ

structure Node where
  taints : List Taint
  labels : String → Option String

/-- The drain request, an object of the maintenance operator. -/
structure NodeMaintenance where
  finalizer : Bool
  deleting : Bool
  /-- `checkNodeMaintenanceProgress`. -/
  ready : Bool

inductive JobConditionType where
  | complete
  | failed
  | other
  deriving DecidableEq

structure Job where
  conditions : List (JobConditionType × Bool)
  startTime : Option ℤ

/-- What a node effect is made of: Nodes, NodeMaintenances, Jobs and ConfigMaps by their names. Of
a ConfigMap only is kept whether a pod can be read from it. -/
structure Cluster where
  nodes : Name → Option Node
  nodeMaintenances : Name → Option NodeMaintenance
  jobs : Name → Option Job
  configMaps : Name → Option Bool

structure Options where
  multiDPUOperationsSyncWaitTime : ℤ
  maxUnavailableDPUNodes : ℤ

structure World where
  options : Options
  cluster : Cluster
  dpuNodes : Store Name DPUNode
  maintenances : Store Name DPUNodeMaintenance
  /-- The controller put the effect of the DPUNodeMaintenance on its node and did not remove it
  since. No function reads it. -/
  started : Name → Bool

inductive Call where
  | getDPUNodeMaintenance
  | deleteDPUNodeMaintenance
  /-- The three requests of the deferred patch. -/
  | patchConditions
  | patchObject
  | patchStatus
  /-- `reconcileDelete`, with requestors left. -/
  | getDPUNodeOfRequestors
  | getDPUNode
  | getNode
  | listDPUNodes
  /-- `updateDPUNodeEffectInProgress`. -/
  | getDPUNodeInProgress
  | updateDPUNodeStatus
  | getNodeMaintenance
  | createNodeMaintenance
  | patchNodeMaintenance
  | deleteNodeMaintenance
  | updateNode
  | patchNode
  /-- `removeNodeEffectCustomLabel`, once the labels are off the Node. -/
  | getDPUNodeLabels
  | patchDPUNodeLabels
  | getJob
  | getConfigMap
  | createJob
  | deleteJob
  deriving DecidableEq

def DPUNodeMaintenance.isNodeEffectApplied (m : DPUNodeMaintenance) : Bool :=
  m.nodeEffectApplied.any (·.status)

def DPUNodeMaintenance.addTrue (m : DPUNodeMaintenance) : DPUNodeMaintenance :=
  { m with nodeEffectApplied := some ⟨true, .success⟩ }

def DPUNodeMaintenance.addFalse (reason : Reason) (m : DPUNodeMaintenance) : DPUNodeMaintenance :=
  { m with nodeEffectApplied := some ⟨false, reason⟩ }

/-- The condition says that the effect is being applied. -/
def DPUNodeMaintenance.isProcessing (m : DPUNodeMaintenance) : Bool :=
  m.nodeEffectApplied = some ⟨false, .nodeEffectIsProcessing⟩

def defaultMaxUnavailableDPUNodes : ℤ := 50

def ensureStatusDefaults (options : Options) (m : DPUNodeMaintenance) : DPUNodeMaintenance :=
  let defaultMaxUnavailable :=
    if options.maxUnavailableDPUNodes < 1 then defaultMaxUnavailableDPUNodes
    else options.maxUnavailableDPUNodes
  { m with
    multiDPUOperationsSyncWaitTime :=
      some (m.multiDPUOperationsSyncWaitTime.getD options.multiDPUOperationsSyncWaitTime)
    maxUnavailableDPUNodes :=
      match m.maxUnavailableDPUNodes with
      | none => some defaultMaxUnavailable
      | some n => if n < 1 then some defaultMaxUnavailable else some n }

def Action.onNode : Action → Bool
  | .customLabel _ _ | .taint _ | .drain => true
  | _ => false

/-- The Node of a DPUNode, or that there is none; no answer where the reconcile ends with an
error. -/
def readNode (ok : Call → Bool) (c : Cluster) (action : Action) (dpuNode : DPUNode) :
    Option (Option (Name × Node)) :=
  match dpuNode.kubeNodeRef with
  | some ref => if ok .getNode then (c.nodes ref).map fun node => some (ref, node) else none
  | none => if action.onNode then none else some none

def countOtherNotReadyDPUNodes (w : World) (dpuNodeName : Name) : ℕ :=
  w.dpuNodes.items.countP fun dn =>
    dn.1 != dpuNodeName && (!dn.2.ready || dn.2.nodeEffectInProgress)

/-- Whether to proceed, and the object with the condition that says why not. -/
def checkMaxUnavailableAndSyncWaitTime (ok : Call → Bool) (now : ℤ) (w : World)
    (m : DPUNodeMaintenance) (nodeEffect : NodeEffect) (dpuNode : DPUNode) :
    Bool × DPUNodeMaintenance :=
  if nodeEffect.force = some false then
    if !ok .listDPUNodes then (false, m)
    else
      let nodeNotReadyCount : ℤ := countOtherNotReadyDPUNodes w m.dpuNodeName
      let checks := m.nodeEffectApplied.all fun c =>
        !c.status && c.reason != .nodeEffectIsProcessing
      if checks && m.maxUnavailableDPUNodes.any (· ≤ nodeNotReadyCount) then
        (false, m.addFalse .pending)
      else if dpuNode.dpus > 1 &&
          now - m.nodeEffectSyncStartTime.getD now < m.multiDPUOperationsSyncWaitTime.getD 0 then
        (false, m.addFalse .nodeEffectSyncInProgress)
      else (true, m)
  else (true, m)

def updateDPUNodeEffectInProgress (ok : Call → Bool) (dpuNodeName : Name) (w : World) : World :=
  if ok .getDPUNodeInProgress && ok .updateDPUNodeStatus then
    { w with
      dpuNodes := w.dpuNodes.modify dpuNodeName fun d => { d with nodeEffectInProgress := true } }
  else w

/-! ## The node effects -/

/-- How the attempt to apply an effect ends. -/
inductive Result where
  | requeue
  | failed
  | done

/-- An attempt to apply an effect: the cluster and the object after it. -/
structure Attempt where
  cluster : Cluster
  object : DPUNodeMaintenance
  result : Result
  /-- The attempt put the effect on the node; only `World.started` follows it. -/
  wrote : Bool

def reconcileDrain (ok : Call → Bool) (c : Cluster) (m : DPUNodeMaintenance) : Attempt :=
  if !ok .getNodeMaintenance then ⟨c, m, .failed, false⟩
  else
    match c.nodeMaintenances m.dpuNodeName with
    | none =>
      if !ok .createNodeMaintenance then ⟨c, m, .failed, false⟩
      else
        ⟨{ c with
            nodeMaintenances :=
              update c.nodeMaintenances m.dpuNodeName (some ⟨false, false, false⟩) },
          m, .requeue, true⟩
    | some maintenance => ⟨c, m, if maintenance.ready then .done else .requeue, false⟩

def reconcileTaint (ok : Call → Bool) (c : Cluster) (m : DPUNodeMaintenance) (taint : Taint)
    (ref : Name) (node : Node) : Attempt :=
  if node.taints.any (·.key = taint.key) then ⟨c, m, .done, false⟩
  else if !ok .updateNode then ⟨c, m, .failed, false⟩
  else
    ⟨{ c with
        nodes := update c.nodes ref
          (some { node with taints := node.taints ++ [taint] }) },
      m, .done, true⟩

/-- `AddLabelsToObject`; the patcher sends nothing without a change. -/
def reconcileCustomLabel (ok : Call → Bool) (c : Cluster) (m : DPUNodeMaintenance)
    (labels : List (String × String)) (ref : Name) (node : Node) : Attempt :=
  if labels.all fun kv => node.labels kv.1 = some kv.2 then ⟨c, m, .done, false⟩
  else if !ok .patchNode then ⟨c, m, .failed, false⟩
  else
    let changed : String → Option String :=
      labels.foldl (fun l kv => update l kv.1 (some kv.2)) node.labels
    ⟨{ c with nodes := update c.nodes ref (some { node with labels := changed }) },
      m, .done, true⟩

/-- `processJobConditions`: no answer is an error. -/
def processJobConditions (now : ℤ) (job : Job) : List (JobConditionType × Bool) → Option Bool
  | [] => some false
  | condition :: rest =>
    if condition = (.complete, true) then some true
    else if condition = (.failed, true) then none
    else if job.startTime.any fun startTime => now - startTime > 600 then none
    else processJobConditions now job rest

/-- The name that `GenerateDPUNodeMaintenanceObjectName` gives to the Job. -/
def jobName (dpuNodeName configMap : Name) : Name := dpuNodeName ++ "-custom-action-" ++ configMap

def createCustomActionJob (ok : Call → Bool) (c : Cluster) (name configMap : Name) :
    Option Cluster :=
  if ok .getConfigMap && c.configMaps configMap = some true && ok .createJob then
    some { c with jobs := update c.jobs name (some ⟨[], none⟩) }
  else none

def reconcileCustomAction (ok : Call → Bool) (now : ℤ) (c : Cluster) (m : DPUNodeMaintenance)
    (configMap : Name) : Attempt :=
  let name := jobName m.dpuNodeName configMap
  if !ok .getJob then ⟨c, m, .failed, false⟩
  else
    match c.jobs name with
    | none =>
      match createCustomActionJob ok c name configMap with
      | none => ⟨c, m, .failed, false⟩
      | some c' => ⟨c', m, .requeue, true⟩
    | some job =>
      match processJobConditions now job job.conditions with
      | none => ⟨c, m, .failed, false⟩
      | some jobSuccess => ⟨c, m, if jobSuccess then .done else .requeue, false⟩

/-- `strconv.ParseBool`. -/
def parseBool (s : String) : Option Bool :=
  if s ∈ ["1", "t", "T", "TRUE", "true", "True"] then some true
  else if s ∈ ["0", "f", "F", "FALSE", "false", "False"] then some false
  else none

/-- The annotation is set on the object in memory: the deferred patch writes it. -/
def reconcileHold (c : Cluster) (m : DPUNodeMaintenance) : Attempt :=
  match m.holdNodeEffect with
  | none => ⟨c, { m with holdNodeEffect := some "true" }, .requeue, false⟩
  | some val =>
    match parseBool val with
    | none => ⟨c, m, .failed, false⟩
    | some waiting => ⟨c, m, if waiting then .requeue else .done, false⟩

/-- The switch of `reconcile`. An effect on the Node does not get here without one. -/
def applyNodeEffect (ok : Call → Bool) (now : ℤ) (c : Cluster) (m : DPUNodeMaintenance)
    (host : Option (Name × Node)) : Action → Attempt
  | .drain => reconcileDrain ok c m
  | .taint taint =>
    match host with
    | some (ref, node) => reconcileTaint ok c m taint ref node
    | none => ⟨c, m, .failed, false⟩
  | .customLabel labels _ =>
    match host with
    | some (ref, node) => reconcileCustomLabel ok c m labels ref node
    | none => ⟨c, m, .failed, false⟩
  | .customAction configMap _ => reconcileCustomAction ok now c m configMap
  | .hold => reconcileHold c m
  | .noEffect => ⟨c, m, .done, false⟩

/-- The condition that follows from the attempt, and whether the DPUNode is told. -/
def Attempt.conclude (a : Attempt) : DPUNodeMaintenance × Bool :=
  match a.result with
  | .requeue => (a.object.addFalse .nodeEffectIsProcessing, true)
  | .failed => (a.object.addFalse .error, false)
  | .done => (a.object.addTrue, true)

def World.start (w : World) (name : Name) (wrote : Bool) : World :=
  if wrote then { w with started := update w.started name true } else w

/-- `reconcile` from the node effect on. -/
def proceed (ok : Call → Bool) (now : ℤ) (name : Name) (w : World) (m : DPUNodeMaintenance)
    (nodeEffect : NodeEffect) (host : Option (Name × Node)) : World × DPUNodeMaintenance :=
  match nodeEffect.action with
  | .noEffect => (updateDPUNodeEffectInProgress ok m.dpuNodeName w, m.addTrue)
  | action =>
    let a := applyNodeEffect ok now w.cluster m host action
    let w' := { w with cluster := a.cluster }.start name a.wrote
    (if a.conclude.2 then updateDPUNodeEffectInProgress ok m.dpuNodeName w' else w', a.conclude.1)

def DPUNodeMaintenance.startSync (now : ℤ) (m : DPUNodeMaintenance) : DPUNodeMaintenance :=
  { m with nodeEffectSyncStartTime := some (m.nodeEffectSyncStartTime.getD now) }

/-- The calls that `reconcile` makes, and the object it leaves to the deferred patch. -/
def reconcile (ok : Call → Bool) (now : ℤ) (name : Name) (w : World) (m : DPUNodeMaintenance) :
    World × DPUNodeMaintenance :=
  if m.isNodeEffectApplied then (w, m.addTrue)
  else
    match m.nodeEffect with
    | none => (w, m)
    | some nodeEffect =>
      if !ok .getDPUNode then (w, m)
      else
        match w.dpuNodes.get m.dpuNodeName with
        | none => (w, m)
        | some dpuNode =>
          match readNode ok w.cluster nodeEffect.action dpuNode with
          | none => (w, m)
          | some host =>
            match checkMaxUnavailableAndSyncWaitTime ok now w (m.startSync now) nodeEffect
              dpuNode with
            | (false, m) => (w, m)
            | (true, m) => proceed ok now name w m nodeEffect host

/-! ## Removal -/

/-- Removals return the cluster and whether they went through. -/
def removeNodeEffectTaint (ok : Call → Bool) (c : Cluster) (taint : Taint) (ref : Name)
    (node : Node) : Cluster × Bool :=
  if !node.taints.any (·.key = taint.key) then (c, true)
  else if !ok .patchNode then (c, false)
  else
    ({ c with
        nodes := update c.nodes ref
          (some { node with taints := node.taints.eraseP (·.key = taint.key) }) }, true)

def removeNodeEffectDrain (ok : Call → Bool) (c : Cluster) (nodeName : Name) : Cluster × Bool :=
  if !ok .getNodeMaintenance then (c, false)
  else
    match c.nodeMaintenances nodeName with
    | none => (c, true)
    | some maintenance =>
      if ok .patchNodeMaintenance && ok .deleteNodeMaintenance then
        ({ c with
            nodeMaintenances := update c.nodeMaintenances nodeName
              (if maintenance.finalizer then some { maintenance with deleting := true }
              else none) }, true)
      else (c, false)

/-- The labels are off the Node also where clearing them from the DPUNode fails. -/
def removeNodeEffectCustomLabel (ok : Call → Bool) (c : Cluster) (labels : List (String × String))
    (ref : Name) (node : Node) : Cluster × Bool :=
  if !ok .patchNode then (c, false)
  else
    let cleared : String → Option String :=
      labels.foldl (fun l kv => update l kv.1 none) node.labels
    ({ c with nodes := update c.nodes ref (some { node with labels := cleared }) },
      ok .getDPUNodeLabels && ok .patchDPUNodeLabels)

def removeNodeEffectCustomAction (ok : Call → Bool) (c : Cluster) (name : Name) :
    Cluster × Bool :=
  if !ok .getJob then (c, false)
  else
    match c.jobs name with
    | none => (c, true)
    | some _ =>
      if ok .deleteJob then ({ c with jobs := update c.jobs name none }, true)
      else (c, false)

def removeFromHost (ok : Call → Bool) (c : Cluster) (dpuNodeName : Name)
    (host : Option (Name × Node)) : Action → Cluster × Bool
  | .noEffect | .hold => (c, true)
  | .drain =>
    match host with
    | some (ref, _) => removeNodeEffectDrain ok c ref
    | none => (c, false)
  | .taint taint =>
    match host with
    | some (ref, node) => removeNodeEffectTaint ok c taint ref node
    | none => (c, false)
  | .customLabel labels _ =>
    match host with
    | some (ref, node) => removeNodeEffectCustomLabel ok c labels ref node
    | none => (c, false)
  | .customAction configMap _ =>
    removeNodeEffectCustomAction ok c (jobName dpuNodeName configMap)

def handleNodeEffectRemoval (ok : Call → Bool) (w : World) (m : DPUNodeMaintenance) :
    Cluster × Bool :=
  match m.nodeEffect with
  | none => (w.cluster, false)
  | some nodeEffect =>
    if !ok .getDPUNode then (w.cluster, false)
    else
      match w.dpuNodes.get m.dpuNodeName with
      | none =>
        match nodeEffect.action with
        | .noEffect | .hold => (w.cluster, true)
        | _ => (w.cluster, false)
      | some dpuNode =>
        match readNode ok w.cluster nodeEffect.action dpuNode with
        | none => (w.cluster, false)
        | some host => removeFromHost ok w.cluster m.dpuNodeName host nodeEffect.action

/-- Nothing of the effect stays. A drain is requested under the name of the DPUNode and removed
under the name of the Node. -/
def lifted (c : Cluster) (m : DPUNodeMaintenance) : Bool :=
  match m.nodeEffect with
  | some ⟨.drain, _⟩ => (c.nodeMaintenances m.dpuNodeName).all (·.deleting)
  | _ => true

/-- `reconcileDelete` from the removal on. -/
def removeAndUnfinalize (ok : Call → Bool) (name : Name) (w : World) (m : DPUNodeMaintenance) :
    World × DPUNodeMaintenance :=
  match handleNodeEffectRemoval ok w m with
  | (c, false) => ({ w with cluster := c }, m)
  | (c, true) =>
    ({ w with
        cluster := c
        started := if lifted c m then update w.started name false else w.started },
      { m with finalizer := false })

def reconcileDelete (ok : Call → Bool) (name : Name) (w : World) (m : DPUNodeMaintenance) :
    World × DPUNodeMaintenance :=
  if m.requestor = [] then removeAndUnfinalize ok name w m
  else if !ok .getDPUNodeOfRequestors then (w, m)
  else
    match w.dpuNodes.get m.dpuNodeName with
    | some _ => (w, m)
    | none => removeAndUnfinalize ok name w { m with requestor := [] }

def World.modify (w : World) (name : Name) (f : DPUNodeMaintenance → DPUNodeMaintenance) : World :=
  { w with maintenances := w.maintenances.modify name f }

/-- The object is gone, and with it the NodeMaintenance that it owns. -/
def World.drop (w : World) (name : Name) : World :=
  { w with
    maintenances := w.maintenances.erase name
    started := update w.started name false }

def World.delete (w : World) (name : Name) : World :=
  match w.maintenances.get name with
  | none => w
  | some m => if m.finalizer then w.modify name ({ · with deleting := true }) else w.drop name

/-- The stored object after the deferred patch: conditions first, then metadata and spec, then the
rest of the status. Each is a request of its own. -/
def patched (ok : Call → Bool) (m stored : DPUNodeMaintenance) : DPUNodeMaintenance :=
  { stored with
    nodeEffectApplied :=
      if ok .patchConditions then m.nodeEffectApplied else stored.nodeEffectApplied
    finalizer := if ok .patchObject then m.finalizer else stored.finalizer
    holdNodeEffect := if ok .patchObject then m.holdNodeEffect else stored.holdNodeEffect
    requestor := if ok .patchObject then m.requestor else stored.requestor
    nodeEffectSyncStartTime :=
      if ok .patchStatus then m.nodeEffectSyncStartTime else stored.nodeEffectSyncStartTime
    multiDPUOperationsSyncWaitTime :=
      if ok .patchStatus then m.multiDPUOperationsSyncWaitTime
      else stored.multiDPUOperationsSyncWaitTime
    maxUnavailableDPUNodes :=
      if ok .patchStatus then m.maxUnavailableDPUNodes else stored.maxUnavailableDPUNodes }

/-- The annotation is new: the patch of the object puts the hold on the node. -/
def newHold (read m : DPUNodeMaintenance) : Bool :=
  read.holdNodeEffect.isNone && m.holdNodeEffect.isSome

/-- A deleted object goes with its finalizer. -/
def deferredPatch (ok : Call → Bool) (name : Name) (read m : DPUNodeMaintenance) (w : World) :
    World :=
  match w.maintenances.get name with
  | none => w
  | some stored =>
    let w' := (w.modify name (patched ok m)).start name (ok .patchObject && newHold read m)
    if stored.deleting && !(patched ok m stored).finalizer then w'.drop name else w'

/-- `Reconcile` between reading the object and the deferred patch. -/
def reconcileObject (ok : Call → Bool) (now : ℤ) (name : Name) (w : World)
    (m : DPUNodeMaintenance) : World × DPUNodeMaintenance :=
  if !m.deleting && !m.finalizer then (w, { m with finalizer := true })
  else if m.deleting then reconcileDelete ok name w m
  else if m.requestor = [] then
    (if ok .deleteDPUNodeMaintenance then w.delete name else w, m)
  else reconcile ok now name w m

def World.reconcile (w : World) (ok : Call → Bool) (now : ℤ) (name : Name) : World :=
  if !ok .getDPUNodeMaintenance then w
  else
    match w.maintenances.get name with
    | none => w
    | some read =>
      let (w', m) := reconcileObject ok now name w (ensureStatusDefaults w.options read)
      deferredPatch ok name read m w'

/-! ## What an attempt can do -/

/-- What the effect makes is there before the attempt, and not finished: a NodeMaintenance, a Job or
the annotation. -/
def unfinished (now : ℤ) (c : Cluster) (m : DPUNodeMaintenance) : Action → Bool
  | .drain => (c.nodeMaintenances m.dpuNodeName).any (!·.ready)
  | .customAction configMap _ =>
    (c.jobs (jobName m.dpuNodeName configMap)).any fun job =>
      processJobConditions now job job.conditions = some false
  | .hold => m.holdNodeEffect.any fun val => parseBool val = some true
  | _ => false

def setsHold (m : DPUNodeMaintenance) : Action → Bool
  | .hold => m.holdNodeEffect.isNone
  | _ => false

structure Attempt.Spec (now : ℤ) (c : Cluster) (m : DPUNodeMaintenance) (action : Action)
    (a : Attempt) : Prop where
  object : a.object = { m with holdNodeEffect := a.object.holdNodeEffect }
  wrote : a.wrote = true → a.result ≠ .failed
  held : newHold m a.object = true → setsHold m action = true ∧ a.result ≠ .failed
  requeue : a.result = .requeue →
    a.wrote = true ∨ newHold m a.object = true ∨ unfinished now c m action = true

section Attempts

variable {ok : Call → Bool} {now : ℤ} {c : Cluster} {m : DPUNodeMaintenance} {action : Action}

@[simp] theorem newHold_self (m : DPUNodeMaintenance) : newHold m m = false := by
  cases h : m.holdNodeEffect <;> simp [newHold, h]

/-- An attempt that leaves the object alone. -/
theorem Attempt.Spec.of_object {c' : Cluster} {result : Result} {wrote : Bool}
    (hw : wrote = true → result ≠ .failed)
    (hr : result = .requeue → wrote = true ∨ unfinished now c m action = true) :
    Attempt.Spec now c m action ⟨c', m, result, wrote⟩ where
  object := rfl
  wrote := hw
  held h := by simp at h
  requeue h := (hr h).imp_right .inr

theorem Attempt.Spec.failed : Attempt.Spec now c m action ⟨c, m, .failed, false⟩ :=
  .of_object nofun nofun

theorem Attempt.Spec.done {c' : Cluster} {wrote : Bool} :
    Attempt.Spec now c m action ⟨c', m, .done, wrote⟩ :=
  .of_object (fun _ => nofun) nofun

theorem reconcileDrain_spec : (reconcileDrain ok c m).Spec now c m .drain := by
  unfold reconcileDrain
  cases h : c.nodeMaintenances m.dpuNodeName with
  | none =>
    dsimp only
    split_ifs
    · exact .failed
    · exact .failed
    · exact .of_object (fun _ => nofun) fun _ => .inl rfl
  | some maintenance =>
    dsimp only
    split_ifs with hg hr
    · exact .failed
    · exact .done
    · refine .of_object nofun fun _ => .inr ?_
      simpa [unfinished, h] using hr

theorem reconcileTaint_spec {taint : Taint} {ref : Name} {node : Node} :
    (reconcileTaint ok c m taint ref node).Spec now c m (.taint taint) := by
  unfold reconcileTaint
  split_ifs
  · exact .done
  · exact .failed
  · exact .done

theorem reconcileCustomLabel_spec {labels : List (String × String)} {ref : Name} {node : Node} :
    (reconcileCustomLabel ok c m labels ref node).Spec now c m action := by
  unfold reconcileCustomLabel
  split_ifs
  · exact .done
  · exact .failed
  · exact .done

theorem reconcileCustomAction_spec {configMap : Name} {nonempty : configMap ≠ ""} :
    (reconcileCustomAction ok now c m configMap).Spec now c m
      (.customAction configMap nonempty) := by
  unfold reconcileCustomAction
  dsimp only
  split_ifs
  · exact .failed
  · cases h : c.jobs (jobName m.dpuNodeName configMap) with
    | none =>
      cases createCustomActionJob ok c (jobName m.dpuNodeName configMap) configMap with
      | none => exact .failed
      | some c' => exact .of_object (fun _ => nofun) fun _ => .inl rfl
    | some job =>
      dsimp only
      cases hj : processJobConditions now job job.conditions with
      | none => exact .failed
      | some jobSuccess =>
        cases jobSuccess with
        | true => exact .done
        | false =>
          refine .of_object nofun fun _ => .inr ?_
          simp [unfinished, h, hj]

theorem reconcileHold_spec : (reconcileHold c m).Spec now c m .hold := by
  unfold reconcileHold
  cases h : m.holdNodeEffect with
  | none =>
    refine ⟨rfl, nofun, fun _ => ⟨?_, nofun⟩, fun _ => .inr (.inl ?_)⟩
    · simp [setsHold, h]
    · simp [newHold, h]
  | some val =>
    dsimp only
    cases hv : parseBool val with
    | none => exact .failed
    | some waiting =>
      cases waiting with
      | false => exact .done
      | true =>
        refine .of_object nofun fun _ => .inr ?_
        simp [unfinished, h, hv]

theorem applyNodeEffect_spec {host : Option (Name × Node)} :
    (applyNodeEffect ok now c m host action).Spec now c m action := by
  cases action with
  | drain => exact reconcileDrain_spec
  | taint taint =>
    cases host with
    | none => exact .failed
    | some host => exact reconcileTaint_spec
  | customLabel labels nonempty =>
    cases host with
    | none => exact .failed
    | some host => exact reconcileCustomLabel_spec
  | customAction configMap nonempty => exact reconcileCustomAction_spec
  | hold => exact reconcileHold_spec
  | noEffect => exact .done

end Attempts

/-! ## What a reconcile can do -/

section Passes

variable {ok : Call → Bool} {now : ℤ} {name : Name} {w : World} {m : DPUNodeMaintenance}

variable {b told : Bool} {k n : Name} {nodeEffect : NodeEffect}

@[simp] theorem World.start_maintenances : (w.start name b).maintenances = w.maintenances := by
  cases b <;> rfl

@[simp] theorem World.start_started_self :
    (w.start name b).started name = (b || w.started name) := by
  cases b <;> simp [World.start]

theorem World.start_started_of_ne (h : k ≠ name) : (w.start name b).started k = w.started k := by
  cases b <;> simp [World.start, h]

def DPUNode.mark (d : DPUNode) : DPUNode := { d with nodeEffectInProgress := true }

def World.tell (w : World) (dpuNodeName : Name) (told : Bool) : World :=
  if told then { w with dpuNodes := w.dpuNodes.modify dpuNodeName DPUNode.mark } else w

/-- The two calls of `updateDPUNodeEffectInProgress` go through. -/
def tells (ok : Call → Bool) : Bool := ok .getDPUNodeInProgress && ok .updateDPUNodeStatus

/-- A reconcile that got past the limit: the effect comes on the node, now or with the patch, or it
does not; the DPUNode is told, or it is not. -/
structure Move (ok : Call → Bool) (now : ℤ) (c : Cluster) (m : DPUNodeMaintenance)
    (action : Action) where
  cluster : Cluster
  wrote : Bool
  told : Bool
  object : DPUNodeMaintenance
  rest : object = { m with
    holdNodeEffect := object.holdNodeEffect, nodeEffectApplied := object.nodeEffectApplied }
  held : newHold m object = true → setsHold m action = true
  tells : tells ok = true → wrote = true ∨ newHold m object = true → told = true
  processing : object.isProcessing = true →
    wrote = true ∨ newHold m object = true ∨ unfinished now c m action = true

def Move.apply {action : Action} (mv : Move ok now w.cluster m action) (name : Name) :
    World × DPUNodeMaintenance :=
  (({ w with cluster := mv.cluster }.start name mv.wrote).tell m.dpuNodeName mv.told, mv.object)

theorem Attempt.Spec.move {action : Action} {a : Attempt} (h : a.Spec now w.cluster m action) :
    ∃ mv : Move ok now w.cluster m action, mv.apply name =
      (if a.conclude.2 then
          updateDPUNodeEffectInProgress ok m.dpuNodeName
            ({ w with cluster := a.cluster }.start name a.wrote)
        else { w with cluster := a.cluster }.start name a.wrote, a.conclude.1) := by
  obtain ⟨ho, hw, hh, hr⟩ := h
  obtain ⟨c', m', result, wrote⟩ := a
  dsimp only at ho hw hh hr
  cases result with
  | requeue =>
    refine ⟨⟨c', wrote, tells ok, m'.addFalse .nodeEffectIsProcessing, ?_, fun h => (hh h).1,
      fun h _ => h, fun _ => hr rfl⟩, rfl⟩
    rw [ho]
    rfl
  | failed =>
    refine ⟨⟨c', wrote, false, m'.addFalse .error, ?_, fun h => (hh h).1, fun _ h => ?_, nofun⟩,
      rfl⟩
    · rw [ho]
      rfl
    · exact h.elim (fun h => absurd rfl (hw h)) fun h => absurd rfl (hh h).2
  | done =>
    refine ⟨⟨c', wrote, tells ok, m'.addTrue, ?_, fun h => (hh h).1, fun h _ => h, nofun⟩, rfl⟩
    rw [ho]
    rfl

theorem proceed_move {host : Option (Name × Node)} :
    ∃ mv : Move ok now w.cluster m nodeEffect.action,
      proceed ok now name w m nodeEffect host = mv.apply name := by
  obtain ⟨action, force⟩ := nodeEffect
  have hs := @applyNodeEffect_spec ok now w.cluster m action host
  obtain ⟨mv, hmv⟩ := hs.move
  refine ⟨mv, ?_⟩
  rw [hmv]
  cases action <;> rfl

/-- What lets a reconcile past the limit: force, the effect being applied already, or few enough
DPUNodes that are not ready. -/
def Admitted (w : World) (m : DPUNodeMaintenance) (nodeEffect : NodeEffect) : Prop :=
  nodeEffect.force = some false → m.isProcessing = true ∨
    ∀ max, m.maxUnavailableDPUNodes = some max →
      (countOtherNotReadyDPUNodes w m.dpuNodeName : ℤ) < max

/-- A check that does not let the reconcile pass leaves a condition that says so, or none. -/
theorem check_stops {dpuNode : DPUNode} {m' : DPUNodeMaintenance}
    (h : checkMaxUnavailableAndSyncWaitTime ok now w m nodeEffect dpuNode = (false, m')) :
    m' = { m with nodeEffectApplied := m'.nodeEffectApplied } ∧
      (m'.isProcessing = true → m.isProcessing = true) := by
  unfold checkMaxUnavailableAndSyncWaitTime at h
  dsimp only at h
  split_ifs at h
  · cases h
    exact ⟨rfl, id⟩
  · cases h
    exact ⟨rfl, nofun⟩
  · cases h
    exact ⟨rfl, nofun⟩
  · cases h
  · cases h

theorem check_proceeds {dpuNode : DPUNode} {m' : DPUNodeMaintenance}
    (hm : m.isNodeEffectApplied = false)
    (h : checkMaxUnavailableAndSyncWaitTime ok now w m nodeEffect dpuNode = (true, m')) :
    m' = m ∧ Admitted w m nodeEffect := by
  unfold checkMaxUnavailableAndSyncWaitTime at h
  dsimp only at h
  split_ifs at h with hfo hli hl hs
  · cases h
  · cases h
  · cases h
  · cases h
    refine ⟨rfl, fun _ => ?_⟩
    by_cases hp : m.isProcessing = true
    · exact .inl hp
    · -- any other condition has the limit checked
      right
      intro max hma
      have hch : (m.nodeEffectApplied.all fun c =>
          !c.status && c.reason != .nodeEffectIsProcessing) = true := by
        cases hc : m.nodeEffectApplied with
        | none => rfl
        | some c =>
          have hst : c.status = false := by
            simpa [DPUNodeMaintenance.isNodeEffectApplied, hc] using hm
          have hr : c.reason ≠ .nodeEffectIsProcessing := by
            intro hr
            apply hp
            obtain ⟨status, reason⟩ := c
            simp only at hst hr
            simp [DPUNodeMaintenance.isProcessing, hc, hst, hr]
          simp [hst, hr]
      rw [hch, hma] at hl
      simpa using hl
  · cases h
    exact ⟨rfl, fun hf => absurd hf hfo⟩

/-- What a reconcile can do between reading the object and the deferred patch. -/
inductive Handled (ok : Call → Bool) (now : ℤ) (name : Name) (w : World)
    (m : DPUNodeMaintenance) : World × DPUNodeMaintenance → Prop where
  /-- Only the object in memory changes. -/
  | quiet {m' : DPUNodeMaintenance} (hold : m'.holdNodeEffect = m.holdNodeEffect)
      (processing : m'.isProcessing = true → m.isProcessing = true) : Handled ok now name w m (w, m')
  | removed {m' : DPUNodeMaintenance} {c : Cluster} {started : Name → Bool}
      (deleting : m.deleting = true) (hold : m'.holdNodeEffect = m.holdNodeEffect)
      (stops : started = w.started ∨ started = update w.started name false) :
      Handled ok now name w m ({ w with cluster := c, started := started }, m')
  | deleted (finalizer : m.finalizer = true) : Handled ok now name w m (w.delete name, m)
  | moved {nodeEffect : NodeEffect} (deleting : m.deleting = false)
      (effect : m.nodeEffect = some nodeEffect) (admitted : Admitted w m nodeEffect)
      (mv : Move ok now w.cluster (m.startSync now) nodeEffect.action) :
      Handled ok now name w m (mv.apply name)

theorem reconcile_handled (hd : m.deleting = false) :
    Handled ok now name w m (reconcile ok now name w m) := by
  have hi : Handled ok now name w m (w, m) := .quiet rfl id
  unfold reconcile
  by_cases hap : m.isNodeEffectApplied = true
  · rw [if_pos hap]
    exact .quiet rfl nofun
  rw [if_neg hap]
  rw [Bool.not_eq_true] at hap
  cases he : m.nodeEffect with
  | none => exact hi
  | some nodeEffect =>
    dsimp only
    by_cases hg : (!ok .getDPUNode) = true
    · rw [if_pos hg]
      exact hi
    rw [if_neg hg]
    cases w.dpuNodes.get m.dpuNodeName with
    | none => exact hi
    | some dpuNode =>
      dsimp only
      cases readNode ok w.cluster nodeEffect.action dpuNode with
      | none => exact hi
      | some host =>
        dsimp only
        generalize hc :
          checkMaxUnavailableAndSyncWaitTime ok now w (m.startSync now) nodeEffect dpuNode = r
        obtain ⟨b, m'⟩ := r
        cases b with
        | false =>
          obtain ⟨hr, hp⟩ := check_stops hc
          refine .quiet ?_ hp
          rw [hr]
          rfl
        | true =>
          have hst : (m.startSync now).isNodeEffectApplied = false := hap
          obtain ⟨rfl, ha⟩ := check_proceeds hst hc
          obtain ⟨mv, hmv⟩ := @proceed_move ok now name w (m.startSync now) nodeEffect host
          dsimp only
          rw [hmv]
          exact .moved hd he ha mv

theorem removeAndUnfinalize_handled {requestor : List Name} (hd : m.deleting = true) :
    Handled ok now name w m (removeAndUnfinalize ok name w { m with requestor := requestor }) := by
  unfold removeAndUnfinalize
  split
  · exact .removed hd rfl (.inl rfl)
  · refine .removed hd rfl ?_
    split_ifs
    · exact .inr rfl
    · exact .inl rfl

theorem reconcileDelete_handled (hd : m.deleting = true) :
    Handled ok now name w m (reconcileDelete ok name w m) := by
  have hi : Handled ok now name w m (w, m) := .quiet rfl id
  unfold reconcileDelete
  split_ifs
  · exact removeAndUnfinalize_handled hd
  · exact hi
  · cases w.dpuNodes.get m.dpuNodeName with
    | none => exact removeAndUnfinalize_handled hd
    | some dpuNode => exact hi

theorem reconcileObject_handled : Handled ok now name w m (reconcileObject ok now name w m) := by
  unfold reconcileObject
  by_cases ha : (!m.deleting && !m.finalizer) = true
  · rw [if_pos ha]
    exact .quiet rfl id
  rw [if_neg ha]
  by_cases hd : m.deleting = true
  · rw [if_pos hd]
    exact reconcileDelete_handled hd
  rw [if_neg hd]
  rw [Bool.not_eq_true] at hd
  split_ifs
  · exact .deleted (by simpa [hd] using ha)
  · exact .quiet rfl id
  · exact reconcile_handled hd

theorem World.start_modify {f : DPUNodeMaintenance → DPUNodeMaintenance} :
    (w.modify name f).start name b = (w.start name b).modify name f := by
  cases b <;> rfl

theorem World.start_tell : (w.start name b).tell n told = (w.tell n told).start name b := by
  cases b <;> cases told <;> rfl

@[simp] theorem World.tell_maintenances : (w.tell n told).maintenances = w.maintenances := by
  cases told <;> rfl

@[simp] theorem World.tell_started : (w.tell n told).started = w.started := by
  cases told <;> rfl

theorem World.drop_started (h : (w.drop name).started k = true) :
    w.started k = true ∧ k ≠ name := by
  by_cases hk : k = name
  · subst hk
    simp [World.drop] at h
  · exact ⟨by simpa [World.drop, hk] using h, hk⟩

theorem World.delete_started (h : (w.delete name).started k = true) : w.started k = true := by
  unfold World.delete at h
  split at h
  · exact h
  · split_ifs at h
    · exact h
    · exact (World.drop_started h).1

theorem deferredPatch_started {read : DPUNodeMaintenance}
    (h : (deferredPatch ok name read m w).started k = true) :
    w.started k = true ∨ k = name ∧ newHold read m = true := by
  have hst : ((w.modify name (patched ok m)).start name
      (ok .patchObject && newHold read m)).started k = true →
      w.started k = true ∨ k = name ∧ newHold read m = true := by
    intro hst
    by_cases hk : k = name
    · subst hk
      simp only [World.start_started_self, Bool.or_eq_true, Bool.and_eq_true] at hst
      exact hst.elim (fun h => .inr ⟨rfl, h.2⟩) .inl
    · rw [World.start_started_of_ne hk] at hst
      exact .inl hst
  unfold deferredPatch at h
  split at h
  · exact .inl h
  · dsimp only at h
    split_ifs at h
    · exact hst (World.drop_started h).1
    · exact hst h

theorem Move.apply_started {action : Action} (mv : Move ok now w.cluster m action)
    (h : (mv.apply name).1.started k = true) : w.started k = true ∨ k = name ∧ mv.wrote = true := by
  simp only [Move.apply, World.tell_started] at h
  by_cases hk : k = name
  · subst hk
    simp only [World.start_started_self, Bool.or_eq_true] at h
    exact h.elim (fun h => .inr ⟨rfl, h⟩) .inl
  · rw [World.start_started_of_ne hk] at h
    exact .inl h

end Passes

end DocaPlatform.MaintenanceController
