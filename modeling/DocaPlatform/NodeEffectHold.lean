import DocaPlatform.NodeMaintenance
import DocaPlatform.Runs

/-!
# The node-effect hold

The DPUs of one node and the DPUNodeMaintenance controller, interleaved call by call. A reconcile
of a DPU is a thread that holds what it read; each of its calls to the API server is one step, and
so is each call of the DPUNodeMaintenance controller. What a reconcile does with the DPU itself is
`DpuPhases.reconcile`; here it finds out, through its calls, whether the node effect is applied and
whether the DPUNodeMaintenance is gone.
-/
namespace DocaPlatform.NodeEffectHold

open InPlaceReconfig DpuPhases NodeMaintenance ObjectStore

/-- The attempts of `retry.DefaultRetry`. -/
def retrySteps : ℕ := 5

/-- The next call that a reconcile of a DPU makes. -/
inductive Call where
  /-- `UpdateDPUNodeMaintenanceRequestors`: read the object, then update it. -/
  | updateGet (attempts : ℕ)
  | updateWrite (attempts : ℕ) (read : Version DPUNodeMaintenance) (new : DPUNodeMaintenance)
  | handle
  /-- `holdForUpgrade`: read the object. -/
  | holdGet
  /-- `NodeEffect`: read the object, or create it. -/
  | effectGet
  | create
  /-- `addRequestorAndUpdateForce`, after `NodeEffect` read `first`: read again, then patch. -/
  | joinGet (first : DPUNodeMaintenance) (attempts : ℕ)
  | joinPatch (first : DPUNodeMaintenance) (attempts : ℕ) (current : Version DPUNodeMaintenance)
  /-- `NodeEffectRemoval`: read the object. -/
  | removalGet
  /-- `RemoveRequestorFromDPUNodeMaintenance`: read the object, then update it. `timedOut` is what
  the timeout check that follows will say. -/
  | removeGet (timedOut : Bool) (attempts : ℕ)
  | removeWrite (timedOut : Bool) (attempts : ℕ) (read : Version DPUNodeMaintenance)
      (new : DPUNodeMaintenance)
  /-- The status patch; `completed` if the handler went through `handleNodeEffectCompletion`. -/
  | statusPatch (next : DPUStatus) (completed : Bool)

/-- A reconcile under way: the DPU it read, what it finds around it, and its next call. -/
structure Thread where
  dpu : DPU
  request : Request
  env : Surroundings
  /-- The node effect is a hold and a DPF upgrade is in progress. -/
  upgrading : Bool
  next : Call

/-- A DPU of the node. -/
structure Site where
  dpu : DPU
  request : Request
  thread : Option Thread
  /-- The DPU left Node Effect through `handleNodeEffectCompletion` and did not call
  `RemoveRequestorFromDPUNodeMaintenance` since. -/
  holding : Bool

inductive MaintenanceCall where
  | addFinalizer
  | delete
  /-- `reconcileDelete`: the object has requestors, read the DPUNode. -/
  | getNode
  /-- `handleNodeEffectRemoval`; `cleared` if the requestors were dropped for a missing DPUNode. -/
  | removeEffect (cleared : Bool)
  /-- The patch that removes the finalizer. -/
  | unfinalize (cleared : Bool)
  | apply
  /-- The patch that sets the condition NodeEffectApplied. -/
  | report
  deriving DecidableEq

structure World where
  /-- The names of the DPUs that share the object. -/
  dpus : List Name
  sites : Name → Site
  slot : Slot DPUNodeMaintenance
  maintenance : Option MaintenanceCall
  /-- The DPUNode exists. -/
  dpuNode : Bool
  /-- The node effect of the stored object is on the host: applied and not removed. -/
  effect : Bool

/-! ## A reconcile of a DPU -/

/-- The reconcile ends with the status that `reconcile` decides on. -/
def Thread.conclude (t : Thread) (env : Surroundings) (completed : Bool) : Thread :=
  { t with next := .statusPatch (reconcile env t.dpu).1 completed }

/-- Node Effect, or Node Effect Removal, waits. -/
def Thread.wait (t : Thread) : Thread :=
  t.conclude { t.env with effectApplied := false, maintenanceGone := false, removalTimedOut := false }
    false

/-- `NodeEffect` reaches `handleNodeEffectCompletion` if the object it read first says so. -/
def Thread.afterJoin (t : Thread) (first : DPUNodeMaintenance) : Thread :=
  if first.nodeEffectApplied then t.conclude { t.env with effectApplied := true } true else t.wait

/-- After `RemoveRequestorFromDPUNodeMaintenance`. -/
def Thread.afterRemove (t : Thread) (timedOut : Bool) : Thread :=
  t.conclude { t.env with maintenanceGone := false, removalTimedOut := timedOut } false

/-- Whether the handler goes to the DPUNodeMaintenance, and with which call. -/
def Thread.dispatch (t : Thread) : Thread :=
  if (startInPlaceReconfig t.env.now t.dpu).isSome then t.conclude t.env false
  else
    match t.dpu.status.phase with
    | .nodeEffect =>
      if t.dpu.deleting then t.conclude t.env false
      else if t.upgrading then { t with next := .holdGet }
      else { t with next := .effectGet }
    | .nodeEffectRemoval =>
      if t.dpu.deleting || !t.env.node.isOk || t.env.metadataDiffers then t.conclude t.env false
      else { t with next := .removalGet }
    | .error =>
      if t.dpu.deleting then t.conclude t.env false
      else { t with next := .removeGet false retrySteps }
    | .deleting => { t with next := .removeGet false retrySteps }
    | _ => t.conclude t.env false

def holdForUpgrade (name : Name) : Option DPUNodeMaintenance → Bool
  | none => true
  | some o => o.deleting || !isDPUInRequestor o name || !o.nodeEffectApplied

/-- A conflict ends an attempt of `RetryOnConflict`; every other error ends the reconcile. -/
def retry (t : Thread) (attempts : ℕ) (again : ℕ → Call) : WriteError → Option Thread
  | .conflict => if attempts ≤ 1 then none else some { t with next := again (attempts - 1) }
  | _ => none

/-- One call of a reconcile: the object after it, and how the reconcile goes on. -/
def Thread.call (name : Name) (t : Thread) (slot : Slot DPUNodeMaintenance) :
    Slot DPUNodeMaintenance × Option Thread :=
  match t.next with
  | .updateGet attempts =>
    match slot.stored with
    | none => (slot, some { t with next := .handle })
    | some v =>
      match v.content.lastApplied name with
      | none => (slot, some { t with next := .handle })
      | some last =>
        -- the list of the DPU is sorted in place
        let t := { t with request.additional := sortStrings t.request.additional }
        match updateRequestors name t.request.additional last v.content with
        | none => (slot, some { t with next := .handle })
        | some new => (slot, some { t with next := .updateWrite attempts v new })
  | .updateWrite attempts read new =>
    match slot.replace read new with
    | .ok slot' => (slot', some { t with next := .handle })
    | .error e => (slot, retry t attempts .updateGet e)
  | .handle => (slot, some t.dispatch)
  | .holdGet =>
    if holdForUpgrade name slot.content then (slot, some t.wait)
    else (slot, some { t with next := .effectGet })
  | .effectGet =>
    match slot.content with
    | none => (slot, some { t with next := .create })
    | some o =>
      if o.deleting then (slot, some t.wait)
      else if isDPUInRequestor o name then (slot, some (t.afterJoin o))
      else (slot, some { t with next := .joinGet o retrySteps })
  | .create =>
    -- that the object exists by now is no error
    match slot.create (createDPUNodeMaintenance name t.request) with
    | .ok slot' => (slot', some t.wait)
    | .error _ => (slot, some t.wait)
  | .joinGet first attempts =>
    match slot.stored with
    | none => (slot, none)
    | some v =>
      if isDPUInRequestor v.content name then (slot, some (t.afterJoin first))
      else (slot, some { t with next := .joinPatch first attempts v })
  | .joinPatch first attempts current =>
    match slot.replace current (addRequestorAndUpdateForce name t.request current.content) with
    | .ok slot' => (slot', some (t.afterJoin first))
    | .error e => (slot, retry t attempts (.joinGet first) e)
  | .removalGet =>
    match slot.content with
    | none => (slot, some (t.conclude { t.env with maintenanceGone := true } false))
    | some o =>
      (slot, some { t with next := .removeGet (!o.deleting && t.env.removalTimedOut) retrySteps })
  | .removeGet timedOut attempts =>
    match slot.stored with
    | none => (slot, some (t.afterRemove timedOut))
    | some v =>
      match removeRequestor name v.content with
      | none => (slot, some (t.afterRemove timedOut))
      | some new => (slot, some { t with next := .removeWrite timedOut attempts v new })
  | .removeWrite timedOut attempts read new =>
    match slot.replace read new with
    | .ok slot' => (slot', some (t.afterRemove timedOut))
    | .error e => (slot, retry t attempts (.removeGet timedOut) e)
  | .statusPatch _ _ => (slot, none)

/-- The thread is in `RemoveRequestorFromDPUNodeMaintenance`. -/
def Call.removes : Call → Bool
  | .removeGet _ _ | .removeWrite _ _ _ _ => true
  | _ => false

/-! ## Runs -/

inductive SiteEvent where
  | edit (request : Request)
  | delete
  /-- Other controllers and the agent write the status, except for the phase. -/
  | touch (status : DPUStatus)
  /-- A reconcile starts and reads the DPU. -/
  | reconcile (env : Surroundings) (upgrading : Bool)
  | call
  /-- The reconcile ends early: a call failed, or the controller restarted. -/
  | stop
  /-- The finalizer of a deleted DPU is removed, and a new DPU gets its name. -/
  | recreate (dpu : DPU) (request : Request)

inductive Event where
  | site (name : Name) (e : SiteEvent)
  /-- A reconcile of the DPUNodeMaintenance controller starts and reads the object. -/
  | maintenanceReconcile
  /-- Its next call; `done` if the node effect is applied or removed by it. -/
  | maintenanceCall (done : Bool)
  | maintenanceStop
  | deleteDPUNode

/-- The status patch of a thread, on the DPU. -/
def Site.finish (s : Site) (t : Thread) : Site :=
  match t.next with
  | .statusPatch next completed =>
    { s with dpu := { s.dpu with status := next }, thread := none,
             holding := s.holding || completed }
  | _ => s

/-- The site after a call that leaves the thread `next`. -/
def Site.resume (s : Site) (next : Option Thread) : Site :=
  { s with thread := next,
           holding := s.holding && !(next.any fun t => t.next.removes) }

def Site.exec (name : Name) (s : Site) (slot : Slot DPUNodeMaintenance) :
    SiteEvent → Option (Site × Slot DPUNodeMaintenance)
  | .edit request => some ({ s with request := request }, slot)
  | .delete => some ({ s with dpu := { s.dpu with deleting := true } }, slot)
  | .touch status =>
    if status.phase = s.dpu.status.phase then
      some ({ s with dpu := { s.dpu with status := status } }, slot)
    else none
  | .reconcile env upgrading =>
    match s.thread with
    | some _ => none
    | none =>
      some ({ s with thread := some ⟨s.dpu, s.request, env, upgrading, .updateGet retrySteps⟩ },
        slot)
  | .call =>
    match s.thread with
    | none => none
    | some t =>
      match t.next with
      | .statusPatch _ _ => some (s.finish t, slot)
      | _ => some (s.resume (t.call name slot).2, (t.call name slot).1)
  | .stop => if s.thread.isSome then some ({ s with thread := none }, slot) else none
  | .recreate dpu request =>
    match s.thread with
    | some t =>
      match t.next with
      | .statusPatch _ _ =>
        if t.dpu.status.phase = .deleting && dpu.status.phase = .initializing && !dpu.deleting then
          some (⟨dpu, request, none, false⟩, slot)
        else none
      | _ => none
    | none => none

/-- A reconcile of the DPUNodeMaintenance controller, from the object it reads to its first
call. -/
def maintenanceDispatch (o : DPUNodeMaintenance) : Option MaintenanceCall :=
  if !o.deleting && !o.finalizer then some .addFinalizer
  else if o.deleting then
    if o.requestor.isEmpty then some (.removeEffect false) else some .getNode
  else if o.requestor.isEmpty then some .delete
  else if o.nodeEffectApplied then none
  else some .apply

/-- `Client.Delete`: an object with a finalizer stays, marked as being deleted. -/
def deleteObject (slot : Slot DPUNodeMaintenance) : Slot DPUNodeMaintenance :=
  match slot.content with
  | none => slot
  | some o => if o.finalizer then slot.put { o with deleting := true } else slot.erase

/-- The patch that removes the finalizer: an object that is being deleted is gone. -/
def removeFinalizer (slot : Slot DPUNodeMaintenance) (cleared : Bool) : Slot DPUNodeMaintenance :=
  match slot.content with
  | none => slot
  | some o =>
    if o.deleting then slot.erase
    else
      slot.put { o with finalizer := false, requestor := if cleared then [] else o.requestor }

def patchObject (slot : Slot DPUNodeMaintenance) (f : DPUNodeMaintenance → DPUNodeMaintenance) :
    Slot DPUNodeMaintenance :=
  match slot.amend f with
  | .ok slot' => slot'
  | .error _ => slot

def World.maintain (w : World) (done : Bool) : MaintenanceCall → World
  | .addFinalizer =>
    { w with slot := patchObject w.slot ({ · with finalizer := true }), maintenance := none }
  | .delete => { w with slot := deleteObject w.slot, maintenance := none }
  | .getNode =>
    { w with maintenance := if w.dpuNode then none else some (.removeEffect true) }
  | .removeEffect cleared =>
    if done then { w with effect := false, maintenance := some (.unfinalize cleared) }
    else { w with maintenance := none }
  | .unfinalize cleared =>
    { w with slot := removeFinalizer w.slot cleared, maintenance := none }
  | .apply =>
    if done then { w with effect := true, maintenance := some .report }
    else { w with maintenance := none }
  | .report =>
    { w with slot := patchObject w.slot ({ · with nodeEffectApplied := true }),
             maintenance := none }

def World.exec (w : World) : Event → Option World
  | .site name e =>
    if name ∈ w.dpus then
      ((w.sites name).exec name w.slot e).map fun r =>
        { w with sites := Function.update w.sites name r.1, slot := r.2 }
    else none
  | .maintenanceReconcile =>
    match w.maintenance with
    | some _ => none
    | none => some { w with maintenance := w.slot.content.bind maintenanceDispatch }
  | .maintenanceCall done => w.maintenance.map (w.maintain done)
  | .maintenanceStop => some { w with maintenance := none }
  | .deleteDPUNode => some { w with dpuNode := false }

/-- At the start there is no DPUNodeMaintenance, and no reconcile is under way. -/
structure Init (w : World) : Prop where
  slot : w.slot = Slot.empty
  maintenance : w.maintenance = none
  effect : w.effect = false
  threads : ∀ n, (w.sites n).thread = none
  holding : ∀ n, (w.sites n).holding = false

def Step (w : World) (e : Event) (w' : World) : Prop := w.exec e = some w'

/-- The patch of a DPU that joins and found the node effect applied before lands on an object that
is not being deleted and whose node effect is applied. -/
def joinsLive (slot : Slot DPUNodeMaintenance) : Call → Bool
  | .joinPatch first _ current =>
    !first.nodeEffectApplied ||
      slot.stored.all fun v =>
        v.resourceVersion != current.resourceVersion ||
          !v.content.deleting && v.content.nodeEffectApplied
  | _ => true

/-- The condition on a step: a reconcile starts with additional requestors that are no DPUs of the
node, and joining meets `joinsLive`. -/
def World.allowed (w : World) : Event → Bool
  | .site name (.reconcile _ _) => (w.sites name).request.additional.all fun x => !w.dpus.contains x
  | .site name .call => (w.sites name).thread.all fun t => joinsLive w.slot t.next
  | _ => true

end DocaPlatform.NodeEffectHold
