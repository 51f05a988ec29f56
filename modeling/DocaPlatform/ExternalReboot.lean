import DocaPlatform.ScriptReboot

/-!
# External reboots of a DPUNode

A node that somebody else reboots. The DPUNode controller asks for the reboot with an annotation on
the DPUNode, and the removal of the annotation is the answer, for all DPUs of the node in phase
Rebooting. Every call of a pass and of the DPU controller is a step of its own, every read returns
the current state, every call may fail, and a user adds and removes the annotation at any time.
-/
namespace DocaPlatform.ExternalReboot

open InPlaceReconfig (Phase)
open ScriptReboot (Name RebootPhase Reason RebootStatus DPUStatus Handling handle mergeField_eq
  merge_rebootStatus merge_current rebooting_of_merge isProvisioningPhase entersRebooting
  isDPUReason handle_rebootStatus updateDPURebootStatus)
open Runs Function Option List

/-- What became of the annotation since a DPU entered Rebooting for its current cycle; no party
reads it. -/
inductive Acknowledgement where
  /-- It has not been on the DPUNode. -/
  | unseen
  | present
  /-- It was there, and somebody other than the controller removed it. -/
  | removed
  deriving DecidableEq

structure DPU where
  status : DPUStatus
  /-- `none` before the first cycle. -/
  ack : Option Acknowledgement

def DPU.fresh : DPU := ⟨⟨.initializing, .initializing, ⟨.unset, .empty⟩⟩, none⟩

/-- The next call of a pass. `annotated` is what the pass read on the DPUNode, and `scope` are the
DPUs that it listed. -/
inductive Pass where
  /-- `GetDPUPhases`. -/
  | phases (annotated : Bool) (todo : List Name) (seen : List Phase)
  /-- `GetDPUsWithPhase`, for phase Rebooting. -/
  | list (annotated : Bool) (seen : List Phase) (todo : List Name)
      (inScope : List (Name × RebootStatus))
  /-- The patch of the DPUNode at the end of the pass, with the annotation. -/
  | annotate
  /-- `UpdateDPURebootStatus` for the first of `todo`: the read. -/
  | write (scope todo : List Name) (phase : RebootPhase) (reason : Reason)
  /-- `UpdateDPURebootStatus`: the patch of what was read. -/
  | patch (name : Name) (base next : RebootStatus) (scope todo : List Name) (phase : RebootPhase)
      (reason : Reason)

/-- `HandleRebootSync` once it has the snapshot of the phases. -/
def afterPhases (annotated : Bool) (names : List Name) (seen : List Phase) : Option Pass :=
  if .rebooting ∈ seen then some (.list annotated seen names []) else none

/-- The DPU has been told to wait for the reboot, or that it is done. -/
def showsProgress (rs : RebootStatus) : Bool :=
  rs.phase = .succeeded ||
    rs.phase = .pending && rs.reason = .waitingForManualPowerCycleOrReboot

/-- `updateDPURebootStatus` of the controller, for those that are left. -/
def writeRest (scope todo : List Name) (phase : RebootPhase) (reason : Reason) : Option Pass :=
  if todo.isEmpty then none else some (.write scope todo phase reason)

def processExternalReboot (annotated : Bool) (inScope : List (Name × RebootStatus)) :
    Option Pass :=
  let names := inScope.map (·.1)
  if inScope.all fun p => showsProgress p.2 then
    if annotated then none else writeRest names names .succeeded .empty
  else if !annotated then some .annotate
  else writeRest names names .pending .waitingForManualPowerCycleOrReboot

/-- `HandleRebootSync` once the DPUs in phase Rebooting are listed. -/
def afterList (annotated : Bool) (names : List Name) (seen : List Phase)
    (inScope : List (Name × RebootStatus)) : Option Pass :=
  if 1 < names.length && seen.any isProvisioningPhase then none
  else if inScope.isEmpty then none
  else if inScope.any fun p => p.2.phase = .waitForShutdown then none
  else processExternalReboot annotated inScope

/-- `rebootNode` after an error of `processExternalReboot`, and after one of its own. -/
def afterError (scope : List Name) (phase : RebootPhase) : Option Pass :=
  if phase = .failed then none
  else writeRest scope scope .failed .failedToProcessExternalReboot

/-! ## Runs -/

structure World where
  /-- `DPUNode.Spec.DPUs`. -/
  names : List Name
  annotated : Bool
  dpus : Name → Option DPU
  /-- What a reconcile of a DPU read, and what it wants. -/
  reconciles : Name → Option (DPUStatus × DPUStatus)
  pass : Option Pass

def World.setDPU (w : World) (n : Name) (d : Option DPU) : World :=
  { w with dpus := update w.dpus n d }

/-- The annotation comes to the DPUNode. -/
def Acknowledgement.added : Acknowledgement → Acknowledgement
  | .unseen => .present
  | a => a

/-- Somebody other than the controller takes the annotation away. -/
def Acknowledgement.taken : Acknowledgement → Acknowledgement
  | .present => .removed
  | a => a

def World.mapAck (w : World) (f : Acknowledgement → Acknowledgement) : World :=
  { w with dpus := fun n => (w.dpus n).map fun d => { d with ack := d.ack.map f } }

def World.addAnnotation (w : World) : World :=
  { w.mapAck Acknowledgement.added with annotated := true }

def World.removeAnnotation (w : World) : World :=
  if w.annotated then { w.mapAck Acknowledgement.taken with annotated := false } else w

/-- One call of the pass; `ok` is false if the call fails. -/
def World.passCall (w : World) (ok : Bool) : Option World :=
  match w.pass with
  | none => none
  | some (.phases annotated [] seen) =>
    some { w with pass := afterPhases annotated w.names seen }
  | some (.phases annotated (n :: todo) seen) =>
    if !ok then some { w with pass := none }
    else
      some { w with
        pass := some (.phases annotated todo (seen ++ ((w.dpus n).map (·.status.phase)).toList)) }
  | some (.list annotated seen [] inScope) =>
    some { w with pass := afterList annotated w.names seen inScope }
  | some (.list annotated seen (n :: todo) inScope) =>
    if !ok then some { w with pass := none }
    else
      match w.dpus n with
      | none => some { w with pass := some (.list annotated seen todo inScope) }
      | some d =>
        if d.status.phase = .rebooting then
          some { w with
            pass := some (.list annotated seen todo (inScope ++ [(n, d.status.rebootStatus)])) }
        else some { w with pass := some (.list annotated seen todo inScope) }
  | some .annotate =>
    if !ok then some { w with pass := none } else some { w.addAnnotation with pass := none }
  | some (.write _ [] _ _) => some { w with pass := none }
  | some (.write scope (n :: todo) phase reason) =>
    match w.dpus n with
    | none => some { w with pass := afterError scope phase }
    | some d =>
      if !ok then some { w with pass := afterError scope phase }
      else
        some { w with pass := some (.patch n d.status.rebootStatus
          (updateDPURebootStatus d.status.rebootStatus phase reason) scope todo phase reason) }
  | some (.patch n base next scope todo phase reason) =>
    match w.dpus n with
    | none => some { w with pass := afterError scope phase }
    | some d =>
      if !ok then some { w with pass := afterError scope phase }
      else
        let status := { d.status with rebootStatus := base.merge next d.status.rebootStatus }
        some { w.setDPU n (some { d with status := status }) with
          pass := writeRest scope todo phase reason }

def World.dpuPatch (w : World) (n : Name) : Option World :=
  match w.reconciles n, w.dpus n with
  | none, _ => none
  | some _, none => some { w with reconciles := update w.reconciles n none }
  | some (base, next), some d =>
    let ack :=
      if entersRebooting base next then
        some (if w.annotated then Acknowledgement.present else .unseen)
      else d.ack
    some { w.setDPU n (some ⟨base.merge next d.status, ack⟩) with
      reconciles := update w.reconciles n none }

inductive Event where
  | passStart
  | passCall (ok : Bool)
  | dpuRead (n : Name) (handling : Handling)
  | dpuPatch (n : Name)
  | dpuStop (n : Name)
  | dpuGone (n : Name)
  | dpuNew (n : Name)
  | annotationAdd
  | annotationRemove

def World.exec (w : World) : Event → Option World
  | .passStart =>
    match w.pass with
    | some _ => none
    | none => some { w with pass := some (.phases w.annotated w.names []) }
  | .passCall ok => w.passCall ok
  | .dpuRead n handling =>
    match w.reconciles n, w.dpus n with
    | none, some d =>
      (handle d.status handling).map fun next =>
        { w with reconciles := update w.reconciles n (some (d.status, next)) }
    | _, _ => none
  | .dpuPatch n => w.dpuPatch n
  | .dpuStop n => some { w with reconciles := update w.reconciles n none }
  | .dpuGone n => some (w.setDPU n none)
  | .dpuNew n => if (w.dpus n).isSome then none else some (w.setDPU n (some DPU.fresh))
  | .annotationAdd => some w.addAnnotation
  | .annotationRemove => some w.removeAnnotation

def Step (w : World) (e : Event) (w' : World) : Prop := w.exec e = some w'

/-- At the start nothing is under way, and the DPUs are new. -/
structure Init (w : World) : Prop where
  dpus : ∀ n d, w.dpus n = some d → d = DPU.fresh
  reconciles : ∀ n, w.reconciles n = none
  pass : w.pass = none

def Pass.covers (n : Name) : Pass → Bool
  | .list _ _ _ inScope => n ∈ inScope.map (·.1)
  | .write _ todo _ _ => n ∈ todo
  | .patch m _ _ _ todo _ _ => n = m || n ∈ todo
  | _ => false

/-- The pass has read the annotation and is still to look at the DPU. -/
def Pass.readAnnotation (n : Name) : Pass → Bool
  | .phases annotated _ _ => annotated
  | .list annotated _ todo _ => annotated && decide (n ∈ todo)
  | _ => false

/-- The condition on a step. -/
def World.allowed (w : World) : Event → Bool
  | .dpuPatch n =>
    match w.reconciles n with
    | some (base, next) =>
      !entersRebooting base next ||
        w.pass.all (fun p => !p.covers n && (!p.readAnnotation n || w.annotated)) &&
          (w.dpus n).all fun d => d.status.rebootStatus = base.rebootStatus
    | none => true
  | .dpuNew n => w.pass.all fun p => !p.covers n
  | _ => true

/-- The annotation has been on the DPUNode since the DPU entered. -/
def Seen (ack : Option Acknowledgement) : Prop := ack = some .present ∨ ack = some .removed

def Marked (rs : RebootStatus) : Prop :=
  rs.reason = .waitingForManualPowerCycleOrReboot ∨ rs.phase = .succeeded

/-- What the reboot status of a DPU says about the annotation. -/
structure Backed (ack : Option Acknowledgement) (rs : RebootStatus) : Prop where
  waiting : rs.reason = .waitingForManualPowerCycleOrReboot → Seen ack
  succeeded : rs.phase = .succeeded → ack = some .removed

/-- The annotation has come further. -/
structure Grows (ack ack' : Option Acknowledgement) : Prop where
  seen : Seen ack → Seen ack'
  removed : ack = some .removed → ack' = some .removed

variable {phase : RebootPhase} {reason : Reason}

section Backed

variable {ack ack' : Option Acknowledgement} {rs base next : RebootStatus}

theorem marked_of_showsProgress (h : showsProgress rs = true) : Marked rs := by
  simp only [showsProgress, Bool.or_eq_true, Bool.and_eq_true, decide_eq_true_eq] at h
  rcases h with hs | ⟨-, hw⟩
  · exact .inr hs
  · exact .inl hw

theorem not_marked_of_dpuReason (hr : isDPUReason rs.reason = true)
    (hph : rs.phase ≠ .succeeded) : ¬ Marked rs := by
  rintro (hw | hs)
  · rw [hw] at hr
    cases hr
  · exact hph hs

theorem Backed.of_not_marked (h : ¬ Marked rs) : Backed ack rs :=
  ⟨fun hr => absurd (.inl hr) h, fun hp => absurd (.inr hp) h⟩

theorem Backed.seen (h : Backed ack rs) (hm : Marked rs) : Seen ack := by
  rcases hm with hw | hs
  · exact h.waiting hw
  · exact .inr (h.succeeded hs)

theorem Backed.mono (h : Backed ack rs) (hg : Grows ack ack') : Backed ack' rs :=
  ⟨fun hr => hg.seen (h.waiting hr), fun hp => hg.removed (h.succeeded hp)⟩

theorem Grows.refl (ack : Option Acknowledgement) : Grows ack ack := ⟨id, id⟩

/-- A merge patch takes each field from the stored status or from the new one. -/
theorem marked_merge (h : Marked (base.merge next rs)) : Marked rs ∨ Marked next := by
  rcases h with hr | hph
  · rcases mergeField_eq base.reason next.reason rs.reason with hm | hm
    · exact .inl (.inl (hm.symm.trans hr))
    · exact .inr (.inl (hm.symm.trans hr))
  · rcases mergeField_eq base.phase next.phase rs.phase with hm | hm
    · exact .inl (.inr (hm.symm.trans hph))
    · exact .inr (.inr (hm.symm.trans hph))

theorem Backed.merge (hc : Backed ack rs) (hn : Backed ack next) :
    Backed ack (base.merge next rs) := by
  refine ⟨fun hr => ?_, fun hph => ?_⟩
  · rcases mergeField_eq base.reason next.reason rs.reason with hm | hm
    · exact hc.waiting (hm.symm.trans hr)
    · exact hn.waiting (hm.symm.trans hr)
  · rcases mergeField_eq base.phase next.phase rs.phase with hm | hm
    · exact hc.succeeded (hm.symm.trans hph)
    · exact hn.succeeded (hm.symm.trans hph)

theorem Backed.update (hb : Backed ack base) (hn : Backed ack ⟨phase, reason⟩) :
    Backed ack (updateDPURebootStatus base phase reason) := by
  unfold ScriptReboot.updateDPURebootStatus
  split_ifs with h
  · exact ⟨hb.waiting, hn.succeeded⟩
  · exact hn

theorem grows_added (ack : Option Acknowledgement) : Grows ack (ack.map .added) := by
  refine ⟨fun hs => ?_, fun hr => ?_⟩
  · rcases hs with rfl | rfl
    · exact .inl rfl
    · exact .inr rfl
  · rw [hr]
    rfl

theorem grows_taken (ack : Option Acknowledgement) : Grows ack (ack.map .taken) := by
  refine ⟨fun hs => ?_, fun hr => ?_⟩
  · rcases hs with rfl | rfl
    · exact .inr rfl
    · exact .inr rfl
  · rw [hr]
    rfl

end Backed

/-! ## The invariant -/

/-- What the read of the annotation says about the DPUs that are still to be looked at. -/
structure Reads (w : World) (annotated : Bool) (ahead : Name → Prop) : Prop where
  absent : annotated = false → ∀ n d, w.dpus n = some d → Marked d.status.rebootStatus →
    d.ack = some .removed
  present : annotated = true → ∀ n d, w.dpus n = some d → ahead n →
    d.status.phase = .rebooting → Seen d.ack

/-- What it says about a DPU that is listed with a reboot status. -/
structure Lists (annotated : Bool) (ack : Option Acknowledgement) (rs : RebootStatus) : Prop where
  absent : annotated = false → showsProgress rs = true → ack = some .removed
  present : annotated = true → Seen ack

/-- What a pass knows of the DPUs that it deals with. -/
def Pass.Knows (w : World) : Pass → Prop
  | .phases annotated _ _ => Reads w annotated fun _ => True
  | .list annotated _ todo inScope =>
    Reads w annotated (· ∈ todo) ∧
      ∀ p ∈ inScope, ∀ d, w.dpus p.1 = some d → Lists annotated d.ack p.2
  | .annotate => True
  | .write _ todo phase reason =>
    ∀ n ∈ todo, ∀ d, w.dpus n = some d → Backed d.ack ⟨phase, reason⟩
  | .patch n _ next _ todo phase reason =>
    (∀ d, w.dpus n = some d → Backed d.ack next) ∧
      ∀ m ∈ todo, ∀ d, w.dpus m = some d → Backed d.ack ⟨phase, reason⟩

/-- A reconcile of a DPU keeps the reboot status, or gives one that is not marked; the latter
whenever it starts a cycle. -/
structure ReconcileInv (base next : DPUStatus) : Prop where
  status : next.rebootStatus = base.rebootStatus ∨ ¬ Marked next.rebootStatus
  enters : entersRebooting base next = true → ¬ Marked next.rebootStatus

structure Inv (w : World) : Prop where
  entered : ∀ n d, w.dpus n = some d → d.status.phase = .rebooting → d.ack ≠ none
  present : ∀ n d, w.dpus n = some d → d.ack = some .present → w.annotated = true
  rebooting : ∀ n d, w.dpus n = some d → d.status.phase = .rebooting → w.annotated = true →
    Seen d.ack
  backed : ∀ n d, w.dpus n = some d → Backed d.ack d.status.rebootStatus
  reconciles : ∀ n base next, w.reconciles n = some (base, next) → ReconcileInv base next
  pass : ∀ p, w.pass = some p → p.Knows w

theorem DPU.fresh_not_marked : ¬ Marked DPU.fresh.status.rebootStatus := by
  rintro (h | h) <;> cases h

variable {w w' : World}

/-- What the invariant says about one DPU. -/
structure Fits (annotated : Bool) (d : DPU) : Prop where
  entered : d.status.phase = .rebooting → d.ack ≠ none
  present : d.ack = some .present → annotated = true
  rebooting : d.status.phase = .rebooting → annotated = true → Seen d.ack
  backed : Backed d.ack d.status.rebootStatus

theorem DPU.fresh_fits (annotated : Bool) : Fits annotated DPU.fresh :=
  ⟨nofun, nofun, nofun, .of_not_marked DPU.fresh_not_marked⟩

theorem Inv.fits (h : Inv w) {n : Name} {d : DPU} (hd : w.dpus n = some d) : Fits w.annotated d :=
  ⟨h.entered n d hd, h.present n d hd, h.rebooting n d hd, h.backed n d hd⟩

theorem Inv.of_fits (hd : ∀ n d, w.dpus n = some d → Fits w.annotated d)
    (hr : ∀ n base next, w.reconciles n = some (base, next) → ReconcileInv base next)
    (hp : ∀ p, w.pass = some p → p.Knows w) : Inv w :=
  ⟨fun n d h => (hd n d h).entered, fun n d h => (hd n d h).present,
    fun n d h => (hd n d h).rebooting, fun n d h => (hd n d h).backed, hr, hp⟩

theorem Init.inv (h : Init w) : Inv w := by
  refine .of_fits (fun n d hd => h.dpus n d hd ▸ DPU.fresh_fits _) ?_ ?_
  · intro n base next hr
    rw [h.reconciles n] at hr
    cases hr
  · intro p hp
    rw [h.pass] at hp
    cases hp

/-- A DPU at two times between which it has not entered Rebooting. -/
structure Goes (d d' : DPU) : Prop where
  ack : Grows d.ack d'.ack
  phase : d'.status.phase = .rebooting → d.status.phase = .rebooting
  marked : Marked d'.status.rebootStatus → Marked d.status.rebootStatus

/-- A DPU that the pass does not deal with has started a cycle, or is a new object. -/
structure Comes (p : Pass) (n : Name) (d' : DPU) : Prop where
  covers : p.covers n = false
  marked : ¬ Marked d'.status.rebootStatus
  seen : d'.status.phase = .rebooting → p.readAnnotation n = true → Seen d'.ack

variable {annotated : Bool} {todo : List Name} {inScope : List (Name × RebootStatus)} {n : Name}

theorem Reads.mono {ahead : Name → Prop} (h : Reads w annotated ahead)
    (hdp : ∀ n d', w'.dpus n = some d' → (∃ d, w.dpus n = some d ∧ Goes d d') ∨
      (¬ Marked d'.status.rebootStatus ∧ (d'.status.phase = .rebooting → annotated = true →
      ahead n → Seen d'.ack))) :
    Reads w' annotated ahead := by
  constructor
  · intro ha n d' hd' hm
    rcases hdp n d' hd' with ⟨d, hd, hg⟩ | ⟨hn, -⟩
    · exact hg.ack.removed (h.absent ha n d hd (hg.marked hm))
    · exact absurd hm hn
  · intro hp n d' hd' hah hph
    rcases hdp n d' hd' with ⟨d, hd, hg⟩ | ⟨-, hs⟩
    · exact hg.ack.seen (h.present hp n d hd hah (hg.phase hph))
    · exact hs hph hp hah

theorem Pass.Knows.mono {p : Pass} (h : p.Knows w)
    (hdp : ∀ n d', w'.dpus n = some d' →
      (∃ d, w.dpus n = some d ∧ Goes d d') ∨ Comes p n d') : p.Knows w' := by
  have hgo : ∀ n d', p.covers n = true → w'.dpus n = some d' →
      ∃ d, w.dpus n = some d ∧ Goes d d' := by
    intro n d' hco hd'
    rcases hdp n d' hd' with hgo | hc
    · exact hgo
    · exact absurd hco (by simp [hc.covers])
  have hw : ∀ (todo : List Name) (rs : RebootStatus), (∀ n ∈ todo, p.covers n = true) →
      (∀ n ∈ todo, ∀ d, w.dpus n = some d → Backed d.ack rs) →
      ∀ n ∈ todo, ∀ d', w'.dpus n = some d' → Backed d'.ack rs := by
    intro todo rs hco hall n hn d' hd'
    obtain ⟨d, hd, hg⟩ := hgo n d' (hco n hn) hd'
    exact (hall n hn d hd).mono hg.ack
  cases p with
  | annotate => trivial
  | phases annotated todo seen =>
    refine Reads.mono h fun n d' hd' => ?_
    rcases hdp n d' hd' with hg | hc
    · exact .inl hg
    · exact .inr ⟨hc.marked, fun hph han _ => hc.seen hph han⟩
  | list annotated seen todo inScope =>
    constructor
    · refine Reads.mono h.1 fun n d' hd' => ?_
      rcases hdp n d' hd' with hg | hc
      · exact .inl hg
      · exact .inr ⟨hc.marked, fun hph han hmem =>
          hc.seen hph (by simp [Pass.readAnnotation, han, hmem])⟩
    · intro q hq d' hd'
      have hco : (Pass.list annotated seen todo inScope).covers q.1 = true := by
        simpa [Pass.covers] using ⟨q.2, hq⟩
      obtain ⟨d, hd, hg⟩ := hgo q.1 d' hco hd'
      have hl := h.2 q hq d hd
      exact ⟨fun ha hp => hg.ack.removed (hl.absent ha hp), fun ha => hg.ack.seen (hl.present ha)⟩
  | write scope todo phase reason =>
    exact hw todo _ (fun n hn => by simpa [Pass.covers] using hn) h
  | patch n base next scope todo phase reason =>
    refine ⟨fun d' hd' => ?_, hw todo _ (fun m hm => by simp [Pass.covers, hm]) h.2⟩
    obtain ⟨d, hd, hg⟩ := hgo n d' (by simp [Pass.covers]) hd'
    exact (h.1 d hd).mono hg.ack

/-! ### Steps of a pass -/

theorem Inv.passGoes (h : Inv w) (p : Option Pass) (hp : ∀ q, p = some q → q.Knows w) :
    Inv { w with pass := p } where
  entered := h.entered
  present := h.present
  rebooting := h.rebooting
  backed := h.backed
  reconciles := h.reconciles
  pass := by
    intro q hq
    have hk := hp q hq
    cases q with
    | phases annotated todo seen => exact Reads.mk hk.absent hk.present
    | list annotated seen todo inScope =>
      exact ⟨Reads.mk hk.1.absent hk.1.present, hk.2⟩
    | annotate => trivial
    | write scope todo phase reason => exact hk
    | patch n base next scope todo phase reason => exact hk

theorem knows_writeRest {scope : List Name}
    (h : ∀ n ∈ todo, ∀ d, w.dpus n = some d → Backed d.ack ⟨phase, reason⟩) (q : Pass)
    (hq : writeRest scope todo phase reason = some q) : q.Knows w := by
  unfold writeRest at hq
  split_ifs at hq
  cases hq
  exact h

theorem knows_afterError (scope : List Name) (phase : RebootPhase) (q : Pass)
    (hq : afterError scope phase = some q) : q.Knows w := by
  unfold afterError at hq
  split_ifs at hq
  exact knows_writeRest (fun _ _ _ _ => .of_not_marked (by rintro (h | h) <;> cases h)) q hq

theorem knows_processExternalReboot
    (h : ∀ p ∈ inScope, ∀ d, w.dpus p.1 = some d → Lists annotated d.ack p.2) (q : Pass)
    (hq : processExternalReboot annotated inScope = some q) : q.Knows w := by
  unfold processExternalReboot at hq
  dsimp only at hq
  split_ifs at hq with hpr ha ha
  · refine knows_writeRest (fun n hn d hd => ?_) q hq
    obtain ⟨p, hp, rfl⟩ := List.mem_map.mp hn
    have hsh : showsProgress p.2 = true := List.all_eq_true.mp hpr p hp
    have hre := (h p hp d hd).absent (Bool.eq_false_iff.mpr ha) hsh
    exact ⟨fun hr => (by cases hr), fun _ => hre⟩
  · cases hq
    trivial
  · refine knows_writeRest (fun n hn d hd => ?_) q hq
    obtain ⟨p, hp, rfl⟩ := List.mem_map.mp hn
    have hs := (h p hp d hd).present (by simpa using ha)
    exact ⟨fun _ => hs, fun hp => (by cases hp)⟩

theorem knows_afterList {names : List Name} {seen : List Phase}
    (h : ∀ p ∈ inScope, ∀ d, w.dpus p.1 = some d → Lists annotated d.ack p.2) (q : Pass)
    (hq : afterList annotated names seen inScope = some q) : q.Knows w := by
  unfold afterList at hq
  split_ifs at hq
  exact knows_processExternalReboot h q hq

theorem dpus_setDPU {m : Name} {o : Option DPU} {d : DPU} (h : (w.setDPU n o).dpus m = some d) :
    (m = n ∧ o = some d) ∨ w.dpus m = some d := by
  change update w.dpus n o m = some d at h
  by_cases hm : m = n
  · subst hm
    rw [update_self] at h
    exact .inl ⟨rfl, h⟩
  · rw [update_of_ne hm] at h
    exact .inr h

theorem Inv.setDPU (h : Inv w) {d' : DPU} (hf : Fits w.annotated d')
    (hpa : ∀ p, w.pass = some p → (∃ d, w.dpus n = some d ∧ Goes d d') ∨ Comes p n d') :
    Inv (w.setDPU n (some d')) := by
  have hd : ∀ m e, (w.setDPU n (some d')).dpus m = some e →
      (m = n ∧ e = d') ∨ w.dpus m = some e := by
    intro m e he
    rcases dpus_setDPU he with ⟨hm, he⟩ | he
    · exact .inl ⟨hm, (some.inj he).symm⟩
    · exact .inr he
  refine .of_fits (fun m e he => ?_) h.reconciles fun p hp => ?_
  · rcases hd m e he with ⟨rfl, rfl⟩ | he
    · exact hf
    · exact h.fits he
  · refine (h.pass p hp).mono fun m e he => ?_
    rcases hd m e he with ⟨rfl, rfl⟩ | he
    · exact hpa p hp
    · exact .inl ⟨e, he, ⟨.refl _, id, id⟩⟩

theorem Inv.passPatch (h : Inv w) {base next : RebootStatus} {scope : List Name} {d : DPU}
    (hpa : w.pass = some (.patch n base next scope todo phase reason)) (hd : w.dpus n = some d) :
    Inv { w.setDPU n (some { d with status :=
            { d.status with rebootStatus := base.merge next d.status.rebootStatus } }) with
          pass := writeRest scope todo phase reason } := by
  obtain ⟨hn, ht⟩ := h.pass _ hpa
  have hqu : Inv { w with pass := none } := h.passGoes none fun q hq => by cases hq
  have hs : Inv (World.setDPU { w with pass := none } n (some { d with status :=
      { d.status with rebootStatus := base.merge next d.status.rebootStatus } })) :=
    hqu.setDPU { h.fits hd with backed := (h.backed n d hd).merge (hn d hd) }
      fun p hp => by cases hp
  refine hs.passGoes _ (knows_writeRest fun m hm e he => ?_)
  rcases dpus_setDPU he with ⟨rfl, hso⟩ | hold
  · cases hso
    exact ht m hm d hd
  · exact ht m hm e hold

theorem Inv.mapAck (h : Inv w) {f : Acknowledgement → Acknowledgement}
    (hg : ∀ ack : Option Acknowledgement, Grows ack (ack.map f))
    (hpr : ∀ d : DPU, d.ack.map f = some .present → annotated = true)
    (hs : ∀ n d, w.dpus n = some d → d.status.phase = .rebooting → annotated = true →
      Seen (d.ack.map f)) :
    Inv { w.mapAck f with annotated := annotated } := by
  have hdp : ∀ n d', (w.mapAck f).dpus n = some d' →
      ∃ d, w.dpus n = some d ∧ d' = { d with ack := d.ack.map f } := by
    intro n d' hd'
    obtain ⟨d, hd, rfl⟩ := map_eq_some_iff.mp hd'
    exact ⟨d, hd, rfl⟩
  refine .of_fits (fun n d' hd' => ?_) h.reconciles fun p hp => ?_
  · obtain ⟨d, hd, rfl⟩ := hdp n d' hd'
    exact ⟨fun hph => by simpa using h.entered n d hd hph, hpr d, hs n d hd,
      (h.backed n d hd).mono (hg _)⟩
  · refine (h.pass p hp).mono fun n d' hd' => ?_
    obtain ⟨d, hd, rfl⟩ := hdp n d' hd'
    exact .inl ⟨d, hd, ⟨hg _, id, id⟩⟩

theorem Inv.addAnnotation (h : Inv w) : Inv w.addAnnotation := by
  refine h.mapAck grows_added (fun _ _ => rfl) fun n d hd hph _ => ?_
  obtain ⟨a, ha⟩ := ne_none_iff_exists'.mp (h.entered n d hd hph)
  rw [ha]
  cases a with
  | unseen => exact .inl rfl
  | present => exact .inl rfl
  | removed => exact .inr rfl

theorem Inv.removeAnnotation (h : Inv w) : Inv w.removeAnnotation := by
  unfold World.removeAnnotation
  split_ifs with han
  · refine h.mapAck grows_taken (fun d hac => ?_) fun _ _ _ _ hc => by cases hc
    obtain ⟨a, -, ha⟩ := map_eq_some_iff.mp hac
    cases a <;> cases ha
  · exact h

/-- A DPU is looked at, and listed if it is in phase Rebooting. -/
theorem Pass.Knows.look {seen : List Phase}
    (h : (Pass.list annotated seen (n :: todo) inScope).Knows w) :
    (Pass.list annotated seen todo inScope).Knows w ∧
      ∀ d, w.dpus n = some d → d.status.phase = .rebooting →
        (Pass.list annotated seen todo (inScope ++ [(n, d.status.rebootStatus)])).Knows w := by
  obtain ⟨hr, hl⟩ := h
  have hre : Reads w annotated (· ∈ todo) :=
    ⟨hr.absent, fun ha m d hd hm => hr.present ha m d hd (mem_cons_of_mem n hm)⟩
  refine ⟨⟨hre, hl⟩, fun d hd hph => ⟨hre, fun p hp e he => ?_⟩⟩
  rcases mem_append.mp hp with hp | hp
  · exact hl p hp e he
  · obtain rfl := mem_singleton.mp hp
    cases hd.symm.trans he
    exact ⟨fun ha hs => hr.absent ha n d hd (marked_of_showsProgress hs),
      fun ha => hr.present ha n d hd mem_cons_self hph⟩

theorem Inv.passCall (h : Inv w) {ok : Bool} (hst : w.passCall ok = some w') : Inv w' := by
  have hn : Inv { w with pass := none } := h.passGoes none fun q hq => by cases hq
  unfold World.passCall at hst
  split at hst
  · cases hst
  · rename_i annotated seen hpa
    cases hst
    refine h.passGoes _ fun q hq => ?_
    have hr : Reads w annotated fun _ => True := h.pass _ hpa
    unfold afterPhases at hq
    split_ifs at hq
    cases hq
    exact ⟨⟨hr.absent, fun ha n d hd _ => hr.present ha n d hd trivial⟩,
      nofun⟩
  · rename_i annotated n todo seen hpa
    split_ifs at hst
    · cases hst
      exact hn
    · cases hst
      refine h.passGoes _ fun q hq => ?_
      cases hq
      have hr : Reads w annotated fun _ => True := h.pass _ hpa
      exact hr
  · rename_i annotated seen inScope hpa
    cases hst
    exact h.passGoes _ (knows_afterList (h.pass _ hpa).2)
  · rename_i annotated seen n todo inScope hpa
    obtain ⟨hs, ht⟩ := Pass.Knows.look (h.pass _ hpa)
    split_ifs at hst
    · cases hst
      exact hn
    · split at hst
      · cases hst
        exact h.passGoes _ fun q hq => some.inj hq ▸ hs
      · rename_i d hd
        split_ifs at hst with hph
        · cases hst
          exact h.passGoes _ fun q hq => some.inj hq ▸ ht d hd hph
        · cases hst
          exact h.passGoes _ fun q hq => some.inj hq ▸ hs
  · split_ifs at hst
    · cases hst
      exact hn
    · cases hst
      exact h.addAnnotation.passGoes none fun q hq => by cases hq
  · cases hst
    exact hn
  · rename_i scope n todo phase reason hpa
    have hk := h.pass _ hpa
    split at hst
    · cases hst
      exact h.passGoes _ (knows_afterError scope phase)
    · rename_i d hd
      split_ifs at hst
      · cases hst
        exact h.passGoes _ (knows_afterError scope phase)
      · cases hst
        refine h.passGoes _ fun q hq => ?_
        cases hq
        refine ⟨fun e he => ?_, fun m hm => hk m (mem_cons_of_mem n hm)⟩
        cases hd.symm.trans he
        exact (h.backed n d hd).update (hk n mem_cons_self d hd)
  · rename_i n base next scope todo phase reason hpa
    split at hst
    · cases hst
      exact h.passGoes _ (knows_afterError scope phase)
    · rename_i d hd
      split_ifs at hst
      · cases hst
        exact h.passGoes _ (knows_afterError scope phase)
      · cases hst
        exact h.passPatch hpa hd

/-! ### The other steps -/

theorem handle_inv {s next : DPUStatus} {handling : Handling} (h : handle s handling = some next) :
    ReconcileInv s next := by
  rcases handle_rebootStatus h with ⟨hk, hen⟩ | ⟨hr, hph⟩
  · exact ⟨.inl hk, fun he => by simp [hen] at he⟩
  · have hn := not_marked_of_dpuReason hr hph
    exact ⟨.inr hn, fun _ => hn⟩

theorem Inv.setReconcile (h : Inv w) {r : Option (DPUStatus × DPUStatus)}
    (hr : ∀ base next, r = some (base, next) → ReconcileInv base next) :
    Inv { w with reconciles := update w.reconciles n r } where
  entered := h.entered
  present := h.present
  rebooting := h.rebooting
  backed := h.backed
  reconciles := (forall_update_iff w.reconciles fun _ r => ∀ base next,
    r = some (base, next) → ReconcileInv base next).mpr ⟨hr, fun m _ => h.reconciles m⟩
  pass := by
    intro p hp
    exact (h.pass p hp).mono fun m d hd => .inl ⟨d, hd, ⟨.refl _, id, id⟩⟩

theorem Inv.dpuPatch (h : Inv w) (hok : w.allowed (.dpuPatch n) = true)
    (hst : w.dpuPatch n = some w') : Inv w' := by
  unfold World.dpuPatch at hst
  simp only [World.allowed] at hok
  split at hst
  · cases hst
  · cases hst
    exact h.setReconcile (by simp)
  · rename_i base next d hr hd
    have hinv := h.reconciles n base next hr
    simp only [hr, hd, all_some] at hok
    cases he : entersRebooting base next with
    | true =>
      simp only [he, if_true] at hst
      cases hst
      have hg : w.pass.all
          (fun p => !p.covers n && (!p.readAnnotation n || w.annotated)) = true ∧
          d.status.rebootStatus = base.rebootStatus := by
        simpa [he] using hok
      have hno : ¬ Marked (base.merge next d.status).rebootStatus := by
        change ¬ Marked (base.rebootStatus.merge next.rebootStatus d.status.rebootStatus)
        rw [hg.2, merge_current]
        exact hinv.enters he
      have hse : Inv (w.setDPU n (some ⟨base.merge next d.status,
          some (if w.annotated then Acknowledgement.present else .unseen)⟩)) := by
        refine h.setDPU ⟨fun _ => by simp, fun ha => ?_, fun _ han => ?_, .of_not_marked hno⟩
          fun p hp => .inr ?_
        · by_contra han
          simp [han] at ha
        · exact .inl (by simp [han])
        · rw [hp, all_some, Bool.and_eq_true, Bool.not_eq_true'] at hg
          refine ⟨hg.1.1, hno, fun _ hre => ?_⟩
          have han : w.annotated = true := by simpa [hre] using hg.1.2
          exact .inl (by simp [han])
      exact hse.setReconcile (by simp)
    | false =>
      simp only [he, Bool.false_eq_true, if_false] at hst
      cases hst
      have hph := @rebooting_of_merge base next d.status he
      have hma : Marked (base.merge next d.status).rebootStatus →
          Marked d.status.rebootStatus := by
        intro hm
        rcases hinv.status with hs | hs
        · exact merge_rebootStatus hs ▸ hm
        · exact (marked_merge hm).resolve_right hs
      have hb : Backed d.ack (base.merge next d.status).rebootStatus := by
        rcases hinv.status with hs | hs
        · exact (merge_rebootStatus hs).symm ▸ h.backed n d hd
        · exact (h.backed n d hd).merge (.of_not_marked hs)
      have hse : Inv (w.setDPU n (some ⟨base.merge next d.status, d.ack⟩)) :=
        h.setDPU ⟨fun hp => h.entered n d hd (hph hp), h.present n d hd,
          fun hp => h.rebooting n d hd (hph hp), hb⟩ fun p _ => .inl ⟨d, hd, ⟨.refl _, hph, hma⟩⟩
      exact hse.setReconcile (by simp)

theorem Inv.dpuGone (h : Inv w) (n : Name) : Inv (w.setDPU n none) := by
  have hdp : ∀ m d, (w.setDPU n none).dpus m = some d → w.dpus m = some d := by
    intro m d hd
    rcases dpus_setDPU hd with ⟨-, he⟩ | he
    · cases he
    · exact he
  refine .of_fits (fun m d hd => h.fits (hdp m d hd)) h.reconciles fun p hp => ?_
  exact (h.pass p hp).mono fun m d hd => .inl ⟨d, hdp m d hd, ⟨.refl _, id, id⟩⟩

theorem Inv.passStart (h : Inv w) :
    Inv { w with pass := some (.phases w.annotated w.names []) } := by
  refine h.passGoes _ fun q hq => ?_
  cases hq
  constructor
  · intro ha n d hd hm
    rcases (h.backed n d hd).seen hm with hp | hr
    · rw [h.present n d hd hp] at ha
      cases ha
    · exact hr
  · exact fun hp n d hd _ hph => h.rebooting n d hd hph hp

theorem Inv.step (h : Inv w) {e : Event} (hok : w.allowed e = true) (hst : Step w e w') :
    Inv w' := by
  cases e with simp only [Step, World.exec] at hst
  | passStart =>
    split at hst
    · cases hst
    · cases hst
      exact h.passStart
  | passCall ok => exact h.passCall hst
  | dpuRead n handling =>
    split at hst
    · obtain ⟨next, hn, rfl⟩ := map_eq_some_iff.mp hst
      refine h.setReconcile fun base next' hr => ?_
      obtain ⟨rfl, rfl⟩ := Prod.mk.inj (some.inj hr)
      exact handle_inv hn
    · cases hst
  | dpuPatch n => exact h.dpuPatch hok hst
  | dpuStop n =>
    cases hst
    exact h.setReconcile (by simp)
  | dpuGone n =>
    cases hst
    exact h.dpuGone n
  | dpuNew n =>
    split_ifs at hst with hs
    cases hst
    refine h.setDPU (DPU.fresh_fits _) fun p hp => .inr ?_
    have hc : (w.pass.all fun p => !p.covers n) = true := hok
    rw [hp, all_some, Bool.not_eq_true'] at hc
    exact ⟨hc, DPU.fresh_not_marked, nofun⟩
  | annotationAdd =>
    cases hst
    exact h.addAnnotation
  | annotationRemove =>
    cases hst
    exact h.removeAnnotation

/-- The next call of the pass writes the reboot status Succeeded for the DPU. -/
def WritesSucceeded (w : World) (n : Name) : Prop :=
  ∃ base next scope todo phase reason,
    w.pass = some (.patch n base next scope todo phase reason) ∧ next.phase = .succeeded

def twoDPUs : World where
  names := ["a", "b"]
  annotated := false
  dpus := fun n => if n = "a" ∨ n = "b" then some DPU.fresh else none
  reconciles := fun _ => none
  pass := none

theorem twoDPUs_init : Init twoDPUs := by
  refine ⟨fun n d hd => ?_, fun _ => rfl, rfl⟩
  simp only [twoDPUs] at hd
  split_ifs at hd
  exact (some.inj hd).symm

/-- The DPU comes to DPU Config, where the agent asks for a power cycle. -/
def enterEvents (n : Name) : List Event :=
  [.dpuRead n (.move .dpuConfig), .dpuPatch n,
    .dpuRead n (.enter (some ⟨some .powerCycle, some .powerCycle⟩) false), .dpuPatch n]

/-- Whether Succeeded is written next for the DPU, and what became of the annotation. -/
def writeOf (n : Name) (w : World) : Bool × Option Acknowledgement :=
  (match w.pass with
    | some (.patch m _ next _ _ _ _) => m = n && next.phase = .succeeded
    | _ => false,
   (w.dpus n).bind DPU.ack)

theorem of_writeOf {a : Acknowledgement} (h : writeOf n w = (true, some a)) :
    WritesSucceeded w n ∧ ∃ d, w.dpus n = some d ∧ d.ack = some a := by
  obtain ⟨hw, ha⟩ := Prod.mk.inj h
  constructor
  · split at hw
    · rename_i m base next scope todo phase reason hp
      obtain ⟨hm, hph⟩ := Bool.and_eq_true_iff.mp hw
      obtain rfl := of_decide_eq_true hm
      exact ⟨base, next, scope, todo, phase, reason, hp, of_decide_eq_true hph⟩
    · cases hw
  · exact bind_eq_some_iff.mp ha

end DocaPlatform.ExternalReboot
