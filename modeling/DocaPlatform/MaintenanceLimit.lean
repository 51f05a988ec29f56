import DocaPlatform.MaintenanceController
import DocaPlatform.Runs

/-!
# The limit on node effects across nodes

DPUNodeMaintenance reconciles one after the other over any number of nodes, with what others write
in between. A node effect that is on its node shows in the condition of the DPUNode, which the
reconciles of all other nodes count; so the limit that they check bounds the effects themselves.
-/
namespace DocaPlatform.MaintenanceLimit

open MaintenanceController KeyedStore Runs Function Option Store

/-! ## The runs -/

/-- What the pass of the DPUNode controller makes of a DPUNode. `maintenanceExists` says that a
DPUNodeMaintenance names it, `others` what the other checks of `noneDPUInNodeEffectOrRebooting`
say. -/
def refresh (maintenanceExists others : Bool) (d : DPUNode) : DPUNode :=
  let inProgress := maintenanceExists && d.nodeEffectInProgress
  { d with nodeEffectInProgress := inProgress, ready := !inProgress && others }

def defaultForce (nodeEffect : NodeEffect) : NodeEffect :=
  { nodeEffect with force := some (nodeEffect.force.getD false) }

def newMaintenance (dpuNodeName : Name) (nodeEffect : Option NodeEffect) (requestor : List Name)
    (holdNodeEffect : Option String) : DPUNodeMaintenance where
  finalizer := false
  deleting := false
  holdNodeEffect := holdNodeEffect
  dpuNodeName := dpuNodeName
  nodeEffect := nodeEffect.map defaultForce
  requestor := requestor
  nodeEffectApplied := none
  nodeEffectSyncStartTime := none
  multiDPUOperationsSyncWaitTime := none
  maxUnavailableDPUNodes := none

inductive Event where
  /-- A reconcile of the DPUNodeMaintenance controller; `ok` says which calls go through. -/
  | reconcile (ok : Call → Bool) (now : ℤ) (name : Name)
  | create (name dpuNodeName : Name) (nodeEffect : Option NodeEffect) (requestor : List Name)
      (holdNodeEffect : Option String)
  /-- Others write the object: force, the requestors, the annotation. -/
  | edit (name : Name) (force : Bool) (requestor : List Name) (holdNodeEffect : Option String)
  | delete (name : Name)
  /-- A pass of the DPUNode controller. -/
  | refresh (dpuNodeName : Name) (others : Bool)
  /-- The DPUs of the DPUNode or its Node change. -/
  | describe (dpuNodeName : Name) (kubeNodeRef : Option Name) (dpus : ℕ)
  /-- A DPUNode that no DPUNodeMaintenance names yet. -/
  | join (dpuNodeName : Name) (dpuNode : DPUNode)
  | leave (dpuNodeName : Name)
  /-- Others write Nodes, NodeMaintenances, Jobs and ConfigMaps. -/
  | cluster (cluster : Cluster)
  | restart (options : Options)

/-- A DPUNodeMaintenance names the DPUNode. -/
def maintained (w : World) (dpuNodeName : Name) : Bool :=
  w.maintenances.items.any fun o => o.2.dpuNodeName = dpuNodeName

def exec (w : World) : Event → Option World
  | .reconcile ok now name => some (w.reconcile ok now name)
  | .create name dpuNodeName nodeEffect requestor holdNodeEffect =>
    match w.maintenances.get name with
    | some _ => none
    | none =>
      some { w with
        maintenances := w.maintenances.put name
          (newMaintenance dpuNodeName nodeEffect requestor holdNodeEffect) }
  | .edit name force requestor holdNodeEffect =>
    some (w.modify name fun m => { m with
      nodeEffect := m.nodeEffect.map ({ · with force := some force })
      requestor := requestor, holdNodeEffect := holdNodeEffect })
  | .delete name => some (w.delete name)
  | .refresh dpuNodeName others =>
    some { w with
      dpuNodes := w.dpuNodes.modify dpuNodeName (refresh (maintained w dpuNodeName) others) }
  | .describe dpuNodeName kubeNodeRef dpus =>
    some { w with
      dpuNodes := w.dpuNodes.modify dpuNodeName
        ({ · with kubeNodeRef := kubeNodeRef, dpus := dpus }) }
  | .join dpuNodeName dpuNode =>
    if maintained w dpuNodeName then none
    else some { w with dpuNodes := w.dpuNodes.put dpuNodeName dpuNode }
  | .leave dpuNodeName => some { w with dpuNodes := w.dpuNodes.erase dpuNodeName }
  | .cluster cluster => some { w with cluster := cluster }
  | .restart options => some { w with options := options }

def Step (w : World) (e : Event) (w' : World) : Prop := exec w e = some w'

/-- Before the first DPUNodeMaintenance. -/
structure Init (w : World) : Prop where
  maintenances : ∀ name, w.maintenances.get name = none
  started : ∀ name, w.started name = false

/-- The reconcile reports a started effect to the DPUNode, does not take over an unfinished one, and
does not store that a hold is being applied without the hold. -/
def reports (w : World) (ok : Call → Bool) (now : ℤ) (name : Name) (m : DPUNodeMaintenance)
    (action : Action) : Bool :=
  tells ok && (w.started name || !unfinished now w.cluster m action) &&
    (ok .patchObject || !ok .patchConditions || !setsHold m action)

def allowed (w : World) : Event → Bool
  | .reconcile ok now name =>
    (w.maintenances.get name).all fun m =>
      m.nodeEffect.all fun nodeEffect => reports w ok now name m nodeEffect.action
  | _ => true

/-- A node effect is on the node of the DPUNode: started and not removed. -/
def effectOn (w : World) (dpuNodeName : Name) : Bool :=
  w.maintenances.items.any fun o => o.2.dpuNodeName = dpuNodeName && w.started o.1

/-- The other DPUNodes that are not ready or have an effect on them. -/
def unavailableOthers (w : World) (dpuNodeName : Name) : ℕ :=
  w.dpuNodes.items.countP fun dn => dn.1 != dpuNodeName && (!dn.2.ready || effectOn w dn.1)

/-- The limit of the object, with the default where it has none yet. -/
def limit (w : World) (m : DPUNodeMaintenance) : ℤ :=
  ((ensureStatusDefaults w.options m).maxUnavailableDPUNodes).getD 0

def forced (m : DPUNodeMaintenance) : Bool := m.nodeEffect.any (·.force = some true)

/-- The step is the first to put the effect of the object on its node. -/
structure Starts (w : World) (e : Event) (k : Name) (m : DPUNodeMaintenance) : Prop where
  object : w.maintenances.get k = some m
  before : w.started k = false
  after : ∃ w', Step w e w' ∧ w'.started k = true

/-- The DPUNode of the object says that an effect is in progress. -/
def Marked (w : World) (m : DPUNodeMaintenance) : Prop :=
  ∀ d, w.dpuNodes.get m.dpuNodeName = some d → d.nodeEffectInProgress = true

structure Inv (w : World) : Prop where
  /-- An effect that is on its node shows in the condition of the DPUNode. -/
  marked : ∀ k, w.started k = true → ∃ m, w.maintenances.get k = some m ∧ Marked w m
  /-- What is being applied was started. -/
  processing : ∀ k m, w.maintenances.get k = some m → m.deleting = false →
    m.isProcessing = true → w.started k = true
  force : ∀ k m nodeEffect, w.maintenances.get k = some m → m.nodeEffect = some nodeEffect →
    nodeEffect.force ≠ none

section Limit

variable {w w' : World} {ok : Call → Bool} {now : ℤ} {name k : Name} {m s : DPUNodeMaintenance}

theorem effectOn_iff {dpuNodeName : Name} : effectOn w dpuNodeName = true ↔
    ∃ k m, w.maintenances.get k = some m ∧ m.dpuNodeName = dpuNodeName ∧ w.started k = true := by
  simp [effectOn, mem_items]

/-- What the check counts has all that the limit is about. -/
theorem unavailableOthers_le (h : Inv w) (dpuNodeName : Name) :
    unavailableOthers w dpuNodeName ≤ countOtherNotReadyDPUNodes w dpuNodeName := by
  apply List.countP_mono_left
  rintro ⟨n, d⟩ hmem hc
  simp only [Bool.and_eq_true, Bool.or_eq_true] at hc ⊢
  refine ⟨hc.1, hc.2.imp_right fun he => ?_⟩
  obtain ⟨k, m, hm, rfl, hs⟩ := effectOn_iff.mp he
  obtain ⟨m', hm', hma⟩ := h.marked k hs
  cases hm.symm.trans hm'
  exact hma d (mem_items.mp hmem)

/-! ## What keeps the invariant -/

/-- Writes of DPUNodes that leave the condition where a DPUNodeMaintenance needs it. -/
theorem Inv.withDPUNodes {dpuNodes : Store Name DPUNode} (h : Inv w)
    (hke : ∀ k m, w.maintenances.get k = some m → Marked w m →
      Marked { w with dpuNodes := dpuNodes } m) : Inv { w with dpuNodes := dpuNodes } := by
  refine ⟨fun k hk => ?_, h.processing, h.force⟩
  obtain ⟨m, hm, hma⟩ := h.marked k hk
  exact ⟨m, hm, hke k m hm hma⟩

/-- Writing a DPUNode so that the condition stays. -/
theorem Marked.modify {n : Name} {f : DPUNode → DPUNode}
    (hf : n = m.dpuNodeName → ∀ d, d.nodeEffectInProgress = true →
      (f d).nodeEffectInProgress = true)
    (h : Marked w m) : Marked { w with dpuNodes := w.dpuNodes.modify n f } m := by
  intro d hd
  obtain ⟨d', hd', ⟨hn, rfl⟩ | ⟨-, rfl⟩⟩ := exists_of_modify hd
  · exact hf hn.symm d' (h d' hd')
  · exact h d hd'

theorem Inv.tell {n : Name} {told : Bool} (h : Inv w) : Inv (w.tell n told) := by
  cases told with
  | false => exact h
  | true => exact h.withDPUNodes fun _ _ _ => Marked.modify fun _ _ _ => rfl

theorem marked_tell : Marked (w.tell m.dpuNodeName true) m := by
  intro d hd
  obtain ⟨d', -, ⟨-, rfl⟩ | ⟨hn, -⟩⟩ := exists_of_modify hd
  · rfl
  · exact absurd rfl hn

theorem Inv.start {b : Bool} (h : Inv w) (hs : w.maintenances.get name = some s)
    (hma : b = true → Marked w s) : Inv (w.start name b) := by
  cases b with
  | false => exact h
  | true =>
    refine ⟨fun k hk => ?_, fun k m hm hd hm' => ?_, h.force⟩
    · by_cases hkn : k = name
      · subst hkn
        exact ⟨s, hs, hma rfl⟩
      · rw [World.start_started_of_ne hkn] at hk
        exact h.marked k hk
    · by_cases hkn : k = name
      · subst hkn
        simp
      · rw [World.start_started_of_ne hkn]
        exact h.processing k m hm hd hm'

theorem Inv.drop (h : Inv w) : Inv (w.drop name) := by
  have hg : ∀ k m, (w.drop name).maintenances.get k = some m →
      k ≠ name ∧ w.maintenances.get k = some m := by
    intro k m hm
    simp only [World.drop, get_erase] at hm
    split_ifs at hm with hk
    exact ⟨hk, hm⟩
  refine ⟨fun k hk => ?_, fun k m hm hd hp => ?_, fun k m e hm => ?_⟩
  · obtain ⟨hs, hne⟩ := World.drop_started hk
    obtain ⟨m, hm, hma⟩ := h.marked k hs
    exact ⟨m, by simp [World.drop, get_erase, hne, hm], hma⟩
  · obtain ⟨hne, hm⟩ := hg k m hm
    simpa [World.drop, hne] using h.processing k m hm hd hp
  · exact h.force k m e (hg k m hm).2

/-- Writes of one object. A condition that says that the effect is being applied is old, or the
effect was started. -/
theorem Inv.modify {f : DPUNodeMaintenance → DPUNodeMaintenance} (h : Inv w)
    (hn : ∀ m, (f m).dpuNodeName = m.dpuNodeName)
    (hp : ∀ m, w.maintenances.get name = some m → (f m).deleting = false →
      (f m).isProcessing = true → w.started name = true)
    (hf : ∀ m, w.maintenances.get name = some m → ∀ e, (f m).nodeEffect = some e →
      e.force ≠ none) : Inv (w.modify name f) := by
  refine ⟨fun k hk => ?_, fun k m hm => ?_, fun k m e hm => ?_⟩
  · obtain ⟨m, hm, hma⟩ := h.marked k hk
    by_cases hkn : k = name
    · subst hkn
      refine ⟨f m, by simp [World.modify, hm], fun d hd => hma d ?_⟩
      rwa [hn] at hd
    · exact ⟨m, (get_modify_of_ne hkn).trans hm, hma⟩
  · obtain ⟨m', hm', ⟨rfl, rfl⟩ | ⟨-, rfl⟩⟩ := exists_of_modify hm
    · exact hp m' hm'
    · exact h.processing k m hm'
  · obtain ⟨m', hm', ⟨rfl, rfl⟩ | ⟨-, rfl⟩⟩ := exists_of_modify hm
    · exact hf m' hm' e
    · exact h.force k m e hm'

theorem Inv.delete (h : Inv w) : Inv (w.delete name) := by
  unfold World.delete
  split
  · exact h
  · split_ifs
    · exact h.modify (fun _ => rfl) (fun _ _ => nofun) fun m hm e => h.force name m e hm
    · exact h.drop

theorem Inv.stop (h : Inv w) (hs : w.maintenances.get name = some s) (hde : s.deleting = true) :
    Inv { w with started := update w.started name false } := by
  refine ⟨fun k hk => ?_, fun k m hm hd hp => ?_, h.force⟩
  · dsimp only at hk
    by_cases hkn : k = name
    · subst hkn
      simp at hk
    · rw [update_of_ne hkn] at hk
      exact h.marked k hk
  · by_cases hkn : k = name
    · subst hkn
      cases hs.symm.trans hm
      rw [hde] at hd
      cases hd
    · dsimp only
      rw [update_of_ne hkn]
      exact h.processing k m hm hd hp

variable {read : DPUNodeMaintenance}

theorem newHold_of_eq (h : m.holdNodeEffect = read.holdNodeEffect) : newHold read m = false := by
  cases hold : read.holdNodeEffect <;> simp [newHold, h, hold]

theorem Inv.deferredPatch (h : Inv w)
    (hh : ∀ s, w.maintenances.get name = some s → newHold read m = true → Marked w s)
    (hpr : ∀ s, w.maintenances.get name = some s → s.deleting = false →
      ok .patchConditions = true → m.isProcessing = true → w.started name = true ∨
      ok .patchObject = true ∧ newHold read m = true) :
    Inv (deferredPatch ok name read m w) := by
  unfold MaintenanceController.deferredPatch
  cases hs : w.maintenances.get name with
  | none => exact h
  | some s =>
    have hst : Inv (w.start name (ok .patchObject && newHold read m)) := by
      refine h.start hs fun hb => hh s hs ?_
      exact ((Bool.and_eq_true _ _).mp hb).2
    have hp : Inv ((w.start name (ok .patchObject && newHold read m)).modify name
        (patched ok m)) := by
      refine hst.modify (fun _ => rfl) (fun m' hm' hd hm => ?_) fun m' hm' e =>
        hst.force name m' e hm'
      rw [World.start_maintenances] at hm'
      by_cases hc : ok .patchConditions = true
      · have hm : m.isProcessing = true := by
          simpa [patched, hc, DPUNodeMaintenance.isProcessing] using hm
        have hn := hpr m' hm' hd hc hm
        simpa [or_comm] using hn
      · have hm : m'.isProcessing = true := by
          simpa [patched, hc, DPUNodeMaintenance.isProcessing] using hm
        simp [h.processing name m' hm' hd hm]
    dsimp only
    rw [World.start_modify]
    split_ifs
    · exact hp.drop
    · exact hp

/-- A patch of an object whose annotation did not change. -/
theorem Inv.patchOld (h : Inv w) (hold : m.holdNodeEffect = read.holdNodeEffect)
    (hp : ∀ s, w.maintenances.get name = some s → s.deleting = false →
      m.isProcessing = true → w.started name = true) :
    Inv (MaintenanceController.deferredPatch ok name read m w) := by
  have hn := newHold_of_eq hold
  refine h.deferredPatch (fun s _ hnew' => ?_) fun s hs hd _ hm =>
    .inl (hp s hs hd hm)
  rw [hn] at hnew'
  cases hnew'

theorem delete_deleting (hr : w.maintenances.get name = some read)
    (hf : read.finalizer = true) (hs : (w.delete name).maintenances.get name = some s) :
    s.deleting = true := by
  unfold World.delete at hs
  rw [hr] at hs
  simp only [hf, if_true, World.modify, get_modify_self, hr, map_some,
    some.injEq] at hs
  rw [← hs]

theorem Inv.move {action : Action} (h : Inv w) (hs : w.maintenances.get name = some s)
    (hn : s.dpuNodeName = m.dpuNodeName) (mv : Move ok now w.cluster m action)
    (ht : tells ok = true) : Inv (mv.apply name).1 := by
  have hc : Inv { w with cluster := mv.cluster } := ⟨h.marked, h.processing, h.force⟩
  unfold Move.apply
  rw [World.start_tell]
  refine hc.tell.start (by simpa using hs) fun hw => ?_
  rw [mv.tells ht (.inl hw), ← hn]
  exact marked_tell

/-- A reconcile that reports what it starts keeps the invariant. -/
theorem Inv.handled {r : World × DPUNodeMaintenance} (h : Inv w)
    (hre : w.maintenances.get name = some read)
    (hok : ∀ e, read.nodeEffect = some e → reports w ok now name read e.action = true)
    (hr : Handled ok now name w (ensureStatusDefaults w.options read) r) :
    Inv (MaintenanceController.deferredPatch ok name read r.2 r.1) := by
  cases hr with
  | quiet hold processing =>
    refine h.patchOld hold fun s hs hd hm => ?_
    cases hre.symm.trans hs
    exact h.processing name read hre hd (processing hm)
  | @removed m' c started deleting hold stops =>
    have hinv : Inv { w with cluster := c, started := started } := by
      rcases stops with rfl | rfl
      · exact ⟨h.marked, h.processing, h.force⟩
      · have hst := h.stop hre deleting
        exact ⟨hst.marked, hst.processing, hst.force⟩
    refine hinv.patchOld hold fun s hs hd _ => ?_
    cases hre.symm.trans hs
    cases deleting.symm.trans hd
  | deleted finalizer =>
    refine h.delete.patchOld rfl fun s hs hd _ => ?_
    cases (delete_deleting hre finalizer hs).symm.trans hd
  | moved deleting effect admitted mv =>
    have hrep := hok _ effect
    simp only [reports, Bool.and_eq_true, Bool.or_eq_true, Bool.not_eq_true'] at hrep
    obtain ⟨⟨ht, hu⟩, hh⟩ := hrep
    have hma : (mv.apply name).1.maintenances = w.maintenances := by simp [Move.apply]
    have hno : read.dpuNodeName =
        ((ensureStatusDefaults w.options read).startSync now).dpuNodeName := rfl
    refine (h.move hre hno mv ht).deferredPatch (fun s hs hn => ?_)
      fun s hs hd hc hm => ?_
    · -- the hold comes with the patch, after the DPUNode was told
      rw [hma] at hs
      cases hre.symm.trans hs
      have hto : mv.told = true := mv.tells ht (.inr hn)
      simp only [Move.apply, hto]
      exact marked_tell
    · rcases mv.processing hm with hw | hn | ho
      · left
        simp [Move.apply, hw]
      · have hse : setsHold read _ = true := mv.held hn
        right
        simp only [hc, hse, Bool.true_eq_false, or_false] at hh
        exact ⟨hh, hn⟩
      · left
        have ho : unfinished now w.cluster read _ = true := ho
        rw [ho] at hu
        simp [Move.apply, hu.resolve_right (by simp)]

theorem Inv.reconcile (h : Inv w) (hok : allowed w (.reconcile ok now name) = true) :
    Inv (w.reconcile ok now name) := by
  unfold World.reconcile
  split_ifs
  · exact h
  · cases hr : w.maintenances.get name with
    | none => exact h
    | some read =>
      simp only [allowed, hr, all_some] at hok
      refine h.handled hr (fun e he => ?_) reconcileObject_handled
      rw [he] at hok
      exact hok

theorem maintained_of_get (hm : w.maintenances.get k = some m) :
    maintained w m.dpuNodeName = true :=
  List.any_eq_true.mpr ⟨(k, m), mem_items.mpr hm, by simp⟩

theorem Inv.create {n : DPUNodeMaintenance} (h : Inv w) (hn : w.maintenances.get name = none)
    (hc : n.nodeEffectApplied = none) (hf : ∀ e, n.nodeEffect = some e → e.force ≠ none) :
    Inv { w with maintenances := w.maintenances.put name n } := by
  refine ⟨fun k hk => ?_, fun k m hm => ?_, fun k m e hm => ?_⟩
  · obtain ⟨m, hm, hma⟩ := h.marked k hk
    have hkn : k ≠ name := by
      rintro rfl
      cases hn.symm.trans hm
    exact ⟨m, by rw [get_put_of_ne hkn, hm], hma⟩
  · rcases eq_of_put hm with ⟨rfl, rfl⟩ | ⟨-, hm⟩
    · intro _ hp
      simp [DPUNodeMaintenance.isProcessing, hc] at hp
    · exact h.processing k m hm
  · rcases eq_of_put hm with ⟨rfl, rfl⟩ | ⟨-, hm⟩
    · exact hf e
    · exact h.force k m e hm

theorem Inv.step {e : Event} (h : Inv w) (hok : allowed w e = true) (hs : Step w e w') :
    Inv w' := by
  cases e with
  | reconcile ok now name =>
    cases hs
    exact h.reconcile hok
  | create name dpuNodeName nodeEffect requestor holdNodeEffect =>
    unfold Step exec at hs
    cases hg : w.maintenances.get name with
    | some m => simp [hg] at hs
    | none =>
      simp only [hg] at hs
      cases hs
      refine h.create hg rfl fun e he => ?_
      obtain ⟨e', -, rfl⟩ := map_eq_some_iff.mp he
      simp [defaultForce]
  | edit name force requestor holdNodeEffect =>
    cases hs
    refine h.modify (fun _ => rfl) (fun m hm => h.processing name m hm) fun m hm e he => ?_
    obtain ⟨e', -, rfl⟩ := map_eq_some_iff.mp he
    simp
  | delete name =>
    cases hs
    exact h.delete
  | refresh dpuNodeName others =>
    cases hs
    refine h.withDPUNodes fun k m hm => Marked.modify fun hn d hd => ?_
    subst hn
    simp [refresh, maintained_of_get hm, hd]
  | describe dpuNodeName kubeNodeRef dpus =>
    cases hs
    exact h.withDPUNodes fun k m hm => Marked.modify fun _ _ hd => hd
  | join dpuNodeName dpuNode =>
    unfold Step exec at hs
    dsimp only at hs
    split_ifs at hs with hma
    cases hs
    refine h.withDPUNodes fun k m hm hmar d hd => ?_
    have hne : m.dpuNodeName ≠ dpuNodeName := by
      rintro rfl
      exact hma (maintained_of_get hm)
    exact hmar d (by simpa [get_put_of_ne hne] using hd)
  | leave dpuNodeName =>
    cases hs
    refine h.withDPUNodes fun k m hm hmar d hd => ?_
    simp only [get_erase] at hd
    split_ifs at hd
    exact hmar d hd
  | cluster cluster | restart options =>
    cases hs
    exact ⟨h.marked, h.processing, h.force⟩

theorem inv_of_reachable
    (h : Reachable Init (Restrict (fun w e => allowed w e = true) Step) w) : Inv w := by
  refine Reachable.invariant (fun w hi => ?_) (fun w e w' _ hw hs => ?_) h
  · refine ⟨fun k hk => ?_, fun k m hm => ?_, fun k m e hm => ?_⟩
    · cases (hi.started k).symm.trans hk
    · cases (hi.maintenances k).symm.trans hm
    · cases (hi.maintenances k).symm.trans hm
  · exact hw.step hs.1 hs.2

/-! ## What starts an effect -/

/-- A reconcile starts only the effect of its own object, and only past the limit. -/
theorem handled_starts {r : World × DPUNodeMaintenance} (hr : Handled ok now name w m r)
    (hk : r.1.started k = true ∨ k = name ∧ newHold m r.2 = true) (hw : w.started k = false) :
    k = name ∧ m.deleting = false ∧ ∃ e, m.nodeEffect = some e ∧ Admitted w m e := by
  -- where the annotation is old, an effect that is on after the calls was on before them
  have hold : m.holdNodeEffect = r.2.holdNodeEffect → r.1.started k = true := by
    intro hold
    refine hk.resolve_right fun h => ?_
    rw [newHold_of_eq hold.symm] at h
    cases h.2
  cases hr with
  | quiet hs =>
    cases hw.symm.trans (hold hs.symm)
  | removed hd hs stops =>
    have hst := hold hs.symm
    rcases stops with rfl | rfl
    · cases hw.symm.trans hst
    · dsimp only at hst
      by_cases hkn : k = name
      · subst hkn
        simp at hst
      · rw [update_of_ne hkn] at hst
        cases hw.symm.trans hst
  | deleted =>
    cases hw.symm.trans (World.delete_started (hold rfl))
  | moved hd effect admitted mv =>
    refine ⟨?_, hd, _, effect, admitted⟩
    rcases hk with hst | hn
    · rcases mv.apply_started hst with hb | hwr
      · cases hw.symm.trans hb
      · exact hwr.1
    · exact hn.1

theorem reconcile_starts (hm : w.maintenances.get k = some m) (hw : w.started k = false)
    (h : (w.reconcile ok now name).started k = true) :
    m.deleting = false ∧
      ∃ e, m.nodeEffect = some e ∧ Admitted w (ensureStatusDefaults w.options m) e := by
  unfold World.reconcile at h
  split_ifs at h
  · cases hw.symm.trans h
  · cases hr : w.maintenances.get name with
    | none =>
      rw [hr] at h
      cases hw.symm.trans h
    | some read =>
      rw [hr] at h
      obtain ⟨rfl, hd, e, he, ha⟩ :=
        handled_starts reconcileObject_handled (deferredPatch_started h) hw
      cases hm.symm.trans hr
      exact ⟨hd, e, he, ha⟩

theorem exists_reconcile_of_starts {e : Event} (h : Starts w e k m) :
    ∃ ok now name, e = .reconcile ok now name ∧ (w.reconcile ok now name).started k = true := by
  obtain ⟨-, hb, w', hs, ha⟩ := h
  cases e with
  | reconcile ok now name =>
    cases hs
    exact ⟨ok, now, name, rfl, ha⟩
  | create name dpuNodeName nodeEffect requestor holdNodeEffect =>
    unfold Step exec at hs
    dsimp only at hs
    split at hs
    · cases hs
    · cases hs
      cases hb.symm.trans ha
  | delete name =>
    cases hs
    cases hb.symm.trans (World.delete_started ha)
  | join dpuNodeName dpuNode =>
    unfold Step exec at hs
    dsimp only at hs
    split_ifs at hs
    cases hs
    cases hb.symm.trans ha
  | edit | refresh | describe | leave | cluster | restart =>
    cases hs
    cases hb.symm.trans ha

theorem maxUnavailableDPUNodes_ensureStatusDefaults :
    (ensureStatusDefaults w.options m).maxUnavailableDPUNodes = some (limit w m) := by
  unfold limit ensureStatusDefaults
  cases m.maxUnavailableDPUNodes with
  | none => rfl
  | some n =>
    dsimp only
    split_ifs <;> rfl

/-- In a run whose reconciles report what they start, an effect that is not forced comes on its node
only while fewer other DPUNodes than the limit are not ready or have an effect on them. -/
theorem effect_starts_below_limit {e : Event}
    (hr : Reachable Init (Restrict (fun w e => allowed w e = true) Step) w)
    (hstarts : Starts w e k m) (hforced : forced m = false) :
    (unavailableOthers w m.dpuNodeName : ℤ) < limit w m := by
  have hinv := inv_of_reachable hr
  obtain ⟨ok, now, name, -, hst⟩ := exists_reconcile_of_starts hstarts
  obtain ⟨hd, nodeEffect, he, ha⟩ :=
    reconcile_starts hstarts.object hstarts.before hst
  have hfo : nodeEffect.force = some false := by
    have hs := hinv.force k m nodeEffect hstarts.object he
    have hno : nodeEffect.force ≠ some true := by simpa [forced, he] using hforced
    cases hf : nodeEffect.force with
    | none => exact absurd hf hs
    | some b =>
      cases b with
      | false => rfl
      | true => exact absurd hf hno
  rcases ha hfo with hp | hc
  · -- an effect that is being applied is on its node already
    have hb := hinv.processing k m hstarts.object hd hp
    cases hstarts.before.symm.trans hb
  · have hl := hc _ maxUnavailableDPUNodes_ensureStatusDefaults
    have hle := unavailableOthers_le hinv m.dpuNodeName
    have hn : (ensureStatusDefaults w.options m).dpuNodeName = m.dpuNodeName := rfl
    rw [hn] at hl
    omega

end Limit

def readyNode (name : Name) : DPUNode := ⟨true, false, some name, 1⟩

def twoNodes (maxUnavailable : ℤ) : World where
  options := ⟨0, maxUnavailable⟩
  cluster :=
    { nodes := fun _ => some ⟨[], fun _ => none⟩
      nodeMaintenances := fun _ => none
      jobs := fun _ => none
      configMaps := fun _ => none }
  dpuNodes := (Store.empty.put "a" (readyNode "a")).put "b" (readyNode "b")
  maintenances := Store.empty
  started := fun _ => false

theorem twoNodes_init (maxUnavailable : ℤ) : Init (twoNodes maxUnavailable) :=
  ⟨fun _ => rfl, fun _ => rfl⟩

/-- A DPUNodeMaintenance with a taint, under the name of its node, and its first reconcile. -/
def taintEvents (name : Name) : List Event :=
  [.create name name (some ⟨.taint ⟨"dpu", "updating", "NoSchedule"⟩, none⟩) ["dpu"] none,
    .reconcile (fun _ => true) 0 name]

/-- Whether the next reconcile of the object starts its effect, and what the limit says. -/
structure Outlook where
  before : Bool
  after : Option Bool
  forced : Bool
  others : ℕ
  limit : ℤ
  deriving DecidableEq

def outlook (name : Name) (w : World) : Option Outlook :=
  (w.maintenances.get name).map fun m =>
    { before := w.started name
      after := (exec w (.reconcile (fun _ => true) 0 name)).map (·.started name)
      forced := forced m
      others := unavailableOthers w m.dpuNodeName
      limit := limit w m }

theorem starts_of_outlook {w : World} {name : Name} {others : ℕ} {l : ℤ}
    (h : outlook name w = some ⟨false, some true, false, others, l⟩) :
    ∃ m, Starts w (.reconcile (fun _ => true) 0 name) name m ∧ forced m = false ∧
      unavailableOthers w m.dpuNodeName = others ∧ limit w m = l := by
  obtain ⟨m, hm, hou⟩ := map_eq_some_iff.mp h
  simp only [Outlook.mk.injEq] at hou
  obtain ⟨hb, ha, hf, ho, hl⟩ := hou
  obtain ⟨w', hw', hs⟩ := map_eq_some_iff.mp ha
  exact ⟨m, ⟨hm, hb, w', hw', hs⟩, hf, ho, hl⟩

/-- With a limit of two the second node is tainted while the first one is. -/
theorem second_taint_below_limit : ∃ w m,
    Reachable Init (Restrict (fun w e => allowed w e = true) Step) w ∧
      Starts w (.reconcile (fun _ => true) 0 "b") "b" m ∧ unavailableOthers w m.dpuNodeName = 1 ∧
      (unavailableOthers w m.dpuNodeName : ℤ) < limit w m := by
  obtain ⟨w, hr, hw⟩ :=
    Reachable.exists_of_runIf (twoNodes_init 2) allowed exec
      (taintEvents "a" ++ .reconcile (fun _ => true) 0 "a" :: taintEvents "b") (outlook "b")
      (some ⟨false, some true, false, 1, 2⟩) (by decide +kernel)
  obtain ⟨m, hs, hf, ho, -⟩ := starts_of_outlook hw
  exact ⟨w, m, hr, hs, ho, effect_starts_below_limit hr hs hf⟩

/-- With a limit of one the second node is tainted while the first one is, once the update of the
first DPUNode failed. -/
theorem second_taint_at_limit : ∃ w m, Reachable Init Step w ∧
    Starts w (.reconcile (fun _ => true) 0 "b") "b" m ∧ forced m = false ∧
      ¬ (unavailableOthers w m.dpuNodeName : ℤ) < limit w m := by
  obtain ⟨w, hr, hw⟩ :=
    Reachable.exists_of_run (twoNodes_init 1) exec
      (taintEvents "a" ++ .reconcile (· ≠ .updateDPUNodeStatus) 0 "a" :: taintEvents "b")
      (outlook "b") (some ⟨false, some true, false, 1, 1⟩) (by decide +kernel)
  obtain ⟨m, hs, hf, ho, hl⟩ := starts_of_outlook hw
  refine ⟨w, m, hr, hs, hf, ?_⟩
  rw [ho, hl]
  decide

end DocaPlatform.MaintenanceLimit
