import DocaPlatform.ClusterAllocator
import DocaPlatform.Runs

/-!
# Capacity of the DPUClusters

The allocator together with the two controllers that feed it. A reconcile of a DPU and one of a
DPUCluster read their object and go on with their copy; calls of the allocator take place between
those of others, and every write may fail. A DPUCluster that is gone may be created again under its
old name with another UID, and finalizers of others can keep it after the one of the DPUCluster
controller was removed.
-/
namespace DocaPlatform.ClusterCapacity

open LabelSelectors ClusterAllocator Runs List Function ClusterCache

/-- A reconcile of the DPUCluster controller, with the copy it works on. -/
inductive ClusterStage where
  | idle
  | got (dc : DPUCluster)
  /-- `reconcileDelete` after `SaveCluster`. -/
  | saved (dc : DPUCluster)
  /-- `reconcileDelete` after it found no DPU in the cluster. -/
  | listed (dc : DPUCluster)
  /-- `reconcileDelete` after `RemoveCluster`. -/
  | removed (dc : DPUCluster)
  deriving DecidableEq, Repr

inductive DPUStage where
  | got
  /-- After `SaveAssignedDPU`. -/
  | saved
  | done
  deriving DecidableEq, Repr

/-- A reconcile of the DPU controller: the object that the deferred patch compares with, and the
one that is worked on. -/
structure DPUReconcile where
  base : DPU
  copy : DPU
  stage : DPUStage
  /-- The patch inside `Allocate` has failed. -/
  failed : Bool
  deriving DecidableEq, Repr

structure World where
  dpus : List DPU
  dpuUIDs : List ℕ
  clusters : List DPUCluster
  /-- The UIDs that were given to DPUClusters. -/
  clusterUIDs : List ℕ
  cache : ClusterCache
  synced : Bool
  /-- The copy of each cluster in its last `SaveCluster`. -/
  lastSaved : ℕ → Option DPUCluster
  clusterReconciles : NamespacedName → ClusterStage
  dpuReconciles : ℕ → Option DPUReconcile

namespace World

variable (w : World)

def saveCluster (dc : DPUCluster) : World :=
  { w with
    cache := w.cache.saveCluster dc
    lastSaved := update w.lastSaved dc.uid (some dc) }

def saveDPU (dpu : DPU) : World := { w with cache := w.cache.saveDPU dpu }

def setStage (nn : NamespacedName) (stage : ClusterStage) : World :=
  { w with clusterReconciles := update w.clusterReconciles nn stage }

def setReconcile (uid : ℕ) (t : Option DPUReconcile) : World :=
  { w with dpuReconciles := update w.dpuReconciles uid t }

def updateCluster (uid : ℕ) (f : DPUCluster → DPUCluster) : World :=
  { w with clusters := w.clusters.map fun c => if c.uid = uid then f c else c }

/-- The API server takes a patch of the cluster of a DPU: name and namespace are immutable once
they are set. -/
def accepts (uid : ℕ) (nn : NamespacedName) : Bool :=
  w.dpus.any fun d => d.uid = uid && (d.cluster.name = "" || d.cluster.name = nn.name) &&
    (d.cluster.ns = "" || d.cluster.ns = nn.ns)

def assign (uid : ℕ) (nn : NamespacedName) : World :=
  { w with dpus := w.dpus.map fun d => if d.uid = uid then { d with cluster := nn } else d }

/-- `syncAssignedDPUs`, in which either list may fail. -/
def syncAssignedDPUs (clustersListed dpusListed : Bool) : World :=
  if clustersListed then
    let listed := w.clusters.foldl World.saveCluster w
    if dpusListed then { w.dpus.foldl World.saveDPU listed with synced := true } else listed
  else w

/-- The first `Allocate` syncs. -/
def ensureSynced (clustersListed dpusListed : Bool) : World :=
  if w.synced then w else w.syncAssignedDPUs clustersListed dpusListed

/-- `Allocate` for the copy of a DPU, with the order in which the entries of the cache are visited
and whether the patch gets through. Next to the world it gives the result, if there is no error. -/
def allocate (uid : ℕ) (clustersListed dpusListed : Bool) (entries : List ClusterInfo)
    (patched : Bool) : Option (World × Option NamespacedName) :=
  match w.dpuReconciles uid with
  | none => none
  | some t =>
    -- `Initializing` calls it only for a DPU that is not being deleted and has no cluster.
    if t.stage ≠ .saved || t.copy.deleting || t.copy.cluster.name ≠ "" then none
    else
      let w₁ := w.ensureSynced clustersListed dpusListed
      if !w₁.synced then some (w₁.setReconcile uid (some { t with stage := .done }), none)
      else if !entries.isPerm w₁.cache.clusterInfoMap then none
      else match getFeasibleClusterBinPacking entries t.copy.selector with
        | .error _ => some (w₁.setReconcile uid (some { t with stage := .done }), none)
        | .ok ci =>
          let nn := ci.cluster.nn
          let t' := { t with copy := { t.copy with cluster := nn }, stage := .done }
          if patched && w₁.accepts uid nn then
            some ({ (w₁.assign uid nn).setReconcile uid (some t') with
              cache := w₁.cache.addAllocated ci.cluster.uid uid }, some nn)
          else some (w₁.setReconcile uid (some { t' with failed := true }), none)

/-- The stored DPUs that are not being deleted and name the cluster, apart from one. -/
def assignedDPUs (nn : NamespacedName) (uid : ℕ) : List DPU :=
  w.dpus.filter fun d => !d.deleting && d.cluster = nn && d.uid ≠ uid

end World

inductive Event where
  | createDPU (d : DPU)
  | deleteDPU (uid : ℕ)
  | purgeDPU (uid : ℕ)
  | createCluster (c : DPUCluster)
  | editCluster (uid : ℕ) (labels : Labels) (maxNodes : ℕ)
  /-- The status update at the end of a reconcile that has seen the finalizer. -/
  | setPhase (uid : ℕ) (phase : ClusterPhase)
  | deleteCluster (uid : ℕ)
  | purgeCluster (uid : ℕ)
  | getCluster (nn : NamespacedName)
  | saveCluster (nn : NamespacedName) (updated : Bool)
  | listDPUs (nn : NamespacedName)
  | removeCluster (nn : NamespacedName)
  | finishCluster (nn : NamespacedName) (updated : Bool)
  | getDPU (uid : ℕ)
  | saveAssignedDPU (uid : ℕ)
  | allocate (uid : ℕ) (clustersListed dpusListed : Bool) (entries : List ClusterInfo)
      (patched : Bool)
  | releaseDPU (uid : ℕ)
  | finishDPU (uid : ℕ) (patched : Bool)

def World.exec (w : World) : Event → Option World
  | .createDPU d =>
    if d.uid ∈ w.dpuUIDs || d.deleting then none
    else some { w with dpus := w.dpus ++ [d], dpuUIDs := d.uid :: w.dpuUIDs }
  | .deleteDPU uid =>
    some { w with dpus := w.dpus.map fun d =>
      if d.uid = uid then { d with deleting := true } else d }
  | .purgeDPU uid =>
    some { w with dpus := w.dpus.filter fun d => !(d.uid = uid && d.deleting) }
  | .createCluster c =>
    if c.uid ∈ w.clusterUIDs || w.clusters.any (·.nn = c.nn) || c.nn.name = "" ||
        c.phase ≠ .pending || c.deleting then none
    else some { w with clusters := w.clusters ++ [c], clusterUIDs := c.uid :: w.clusterUIDs }
  | .editCluster uid labels maxNodes =>
    some (w.updateCluster uid fun c => { c with labels := labels, maxNodes := maxNodes })
  | .setPhase uid phase =>
    some (w.updateCluster uid fun c => if c.finalizer then { c with phase := phase } else c)
  | .deleteCluster uid => some (w.updateCluster uid fun c => { c with deleting := true })
  | .purgeCluster uid =>
    some { w with clusters := w.clusters.filter fun c =>
      !(c.uid = uid && c.deleting && !c.finalizer) }
  | .getCluster nn =>
    match w.clusterReconciles nn, w.clusters.find? (·.nn = nn) with
    | .idle, some dc => some (w.setStage nn (.got dc))
    | _, _ => none
  | .saveCluster nn updated =>
    match w.clusterReconciles nn with
    | .got dc =>
      if dc.deleting then some ((w.saveCluster dc).setStage nn (.saved dc))
      else if dc.finalizer then some ((w.saveCluster dc).setStage nn .idle)
      else if updated && w.clusters.contains dc then
        some (((w.updateCluster dc.uid fun c => { c with finalizer := true }).saveCluster
          { dc with finalizer := true }).setStage nn .idle)
      else some (w.setStage nn .idle)
    | _ => none
  | .listDPUs nn =>
    match w.clusterReconciles nn with
    | .saved dc =>
      if w.dpus.any (·.cluster = nn) then some (w.setStage nn .idle)
      else some (w.setStage nn (.listed dc))
    | _ => none
  | .removeCluster nn =>
    match w.clusterReconciles nn with
    | .listed dc =>
      some ({ w with cache := w.cache.removeCluster dc }.setStage nn (.removed dc))
    | _ => none
  | .finishCluster nn updated =>
    match w.clusterReconciles nn with
    | .removed dc =>
      if updated && w.clusters.contains dc then
        some ((w.updateCluster dc.uid fun c => { c with finalizer := false }).setStage nn .idle)
      else some (w.setStage nn .idle)
    | _ => none
  | .getDPU uid =>
    match w.dpuReconciles uid, w.dpus.find? (·.uid = uid) with
    | none, some d => some (w.setReconcile uid (some ⟨d, d, .got, false⟩))
    | _, _ => none
  | .saveAssignedDPU uid =>
    match w.dpuReconciles uid with
    | some t =>
      if t.stage = .got then
        some ((w.saveDPU t.copy).setReconcile uid (some { t with stage := .saved }))
      else none
    | none => none
  | .allocate uid clustersListed dpusListed entries patched =>
    (w.allocate uid clustersListed dpusListed entries patched).map Prod.fst
  | .releaseDPU uid =>
    match w.dpuReconciles uid with
    | some t =>
      if t.stage = .saved && t.copy.deleting then
        some ({ w with cache := w.cache.releaseDPU t.copy }.setReconcile uid
          (some { t with stage := .done }))
      else none
    | none => none
  | .finishDPU uid patched =>
    match w.dpuReconciles uid with
    | some t =>
      if patched && t.copy.cluster ≠ t.base.cluster && w.accepts uid t.copy.cluster then
        some ((w.assign uid t.copy.cluster).setReconcile uid none)
      else some (w.setReconcile uid none)
    | none => none

def Step (w : World) (e : Event) (w' : World) : Prop := w.exec e = some w'

/-- A new process on any stored objects. -/
structure Init (w : World) : Prop where
  dpuUIDs : (w.dpus.map DPU.uid).Nodup ∧ ∀ d ∈ w.dpus, d.uid ∈ w.dpuUIDs
  clusterUIDs : ∀ c ∈ w.clusters, c.uid ∈ w.clusterUIDs
  uid : ∀ c ∈ w.clusters, ∀ c' ∈ w.clusters, c.uid = c'.uid → c = c'
  nn : ∀ c ∈ w.clusters, ∀ c' ∈ w.clusters, c.nn = c'.nn → c = c'
  name : ∀ c ∈ w.clusters, c.nn.name ≠ ""
  /-- The phase is only written behind the finalizer, which is only removed from a cluster that is
  being deleted. -/
  ready : ∀ c ∈ w.clusters, c.phase = .ready → c.deleting = true ∨ c.finalizer = true
  cache : w.cache = newCache
  synced : w.synced = false
  clusterReconciles : w.clusterReconciles = fun _ => .idle
  dpuReconciles : w.dpuReconciles = fun _ => none

/-- The steps in which a DPU does not get a cluster past the cache: it is not created with one, a
cluster is not created under a name that a DPU carries, and the deferred patch does not write what
`Allocate` could not. -/
def World.allowed (w : World) : Event → Bool
  | .createDPU d => d.cluster.name = ""
  | .createCluster c => !w.dpus.any fun d => !d.deleting && d.cluster = c.nn
  | .finishDPU uid patched => !((w.dpuReconciles uid).any DPUReconcile.failed && patched)
  | _ => true

/-! ## Copies of clusters -/

def ClusterStage.copy : ClusterStage → Option DPUCluster
  | .idle => none
  | .got dc | .saved dc | .listed dc | .removed dc => some dc

/-- The copy of a reconcile that has told the cache about the deletion. -/
def ClusterStage.closing : ClusterStage → Option DPUCluster
  | .idle | .got _ => none
  | .saved dc | .listed dc | .removed dc => some dc

/-- The copy of a reconcile that has found no DPU in the cluster. -/
def ClusterStage.vacant : ClusterStage → Option DPUCluster
  | .listed dc | .removed dc => some dc
  | _ => none

variable {stage : ClusterStage}

theorem ClusterStage.copy_of_closing {dc : DPUCluster} (h : stage.closing = some dc) :
    stage.copy = some dc := by
  cases stage <;> first | exact h | cases h

theorem ClusterStage.closing_of_vacant {dc : DPUCluster} (h : stage.vacant = some dc) :
    stage.closing = some dc := by
  cases stage <;> first | exact h | cases h

/-- A copy of a cluster that may be out of date: it was read from the cluster with its UID, and a
deletion is not taken back. While it shows the finalizer and no deletion, the cluster is there. -/
structure IsCopy (clusters : List DPUCluster) (uids : List ℕ) (dc : DPUCluster) : Prop where
  uid : dc.uid ∈ uids
  name : dc.nn.name ≠ ""
  ready : dc.phase = .ready → dc.deleting = true ∨ dc.finalizer = true
  stored : ∀ c ∈ clusters, c.uid = dc.uid → c.nn = dc.nn ∧ (dc.deleting = true → c.deleting = true)
  held : dc.finalizer = true → dc.deleting = false →
    ∃ c ∈ clusters, c.uid = dc.uid ∧ c.finalizer = true

/-- What holds of the stored clusters and of their copies. -/
structure Clusters (clusters : List DPUCluster) (uids : List ℕ) (copies : List DPUCluster)
    (stages : NamespacedName → ClusterStage) (lastSaved : ℕ → Option DPUCluster) : Prop where
  uid : ∀ c ∈ clusters, ∀ c' ∈ clusters, c.uid = c'.uid → c = c'
  nn : ∀ c ∈ clusters, ∀ c' ∈ clusters, c.nn = c'.nn → c = c'
  name : ∀ c ∈ clusters, c.nn.name ≠ ""
  stored : ∀ c ∈ clusters, c.uid ∈ uids ∧
    (c.phase = .ready → c.deleting = true ∨ c.finalizer = true)
  cached : ∀ dc ∈ copies, IsCopy clusters uids dc ∧ lastSaved dc.uid = some dc
  read : ∀ nn dc, (stages nn).copy = some dc → dc.nn = nn ∧ IsCopy clusters uids dc
  closing : ∀ nn dc, (stages nn).closing = some dc → dc.deleting = true ∧
    ∀ dc' ∈ copies, dc'.uid = dc.uid → dc'.deleting = true
  /-- No two reconciles work on one cluster. -/
  own : ∀ nn dc, (stages nn).copy = some dc → ∀ nn' dc', (stages nn').copy = some dc' →
    dc'.uid = dc.uid → nn' = nn

variable {f : DPUCluster → DPUCluster} {cache : ClusterCache} {nn : NamespacedName}

section Copies

variable {clusters clusters' copies copies' : List DPUCluster} {uids : List ℕ}
  {stages : NamespacedName → ClusterStage} {lastSaved : ℕ → Option DPUCluster}

variable {c dc : DPUCluster}

/-- The copies stay copies when the clusters are rewritten one by one. -/
theorem IsCopy.map (h : IsCopy clusters uids dc)
    (hf : ∀ c, (f c).uid = c.uid ∧ (f c).nn = c.nn ∧ (c.deleting = true → (f c).deleting = true))
    (hh : ∀ c ∈ clusters, c.uid = dc.uid → dc.deleting = false → c.finalizer = true →
      (f c).finalizer = true) : IsCopy (clusters.map f) uids dc :=
  { h with
    stored := fun c' hc' heq => by
      obtain ⟨c, hc, rfl⟩ := mem_map.mp hc'
      obtain ⟨hu, hnn, hde⟩ := hf c
      obtain ⟨hnn₀, hd₀⟩ := h.stored c hc (hu.symm.trans heq)
      exact ⟨hnn.trans hnn₀, fun hd => hde (hd₀ hd)⟩
    held := fun hfi hde => by
      obtain ⟨c, hc, hu, hc'⟩ := h.held hfi hde
      exact ⟨f c, mem_map_of_mem hc, (hf c).1.trans hu, hh c hc hu hde hc'⟩ }

/-- Names and UIDs stay unique when the clusters are rewritten one by one, and when one with a new
name or UID comes. -/
theorem unique_map {α : Type} {g : DPUCluster → α}
    (h : ∀ c ∈ clusters, ∀ c' ∈ clusters, g c = g c' → c = c') (hf : ∀ c, g (f c) = g c) :
    ∀ c ∈ clusters.map f, ∀ c' ∈ clusters.map f, g c = g c' → c = c' := by
  intro c hc c' hc' heq
  obtain ⟨a, ha, rfl⟩ := mem_map.mp hc
  obtain ⟨b, hb, rfl⟩ := mem_map.mp hc'
  rw [hf a, hf b] at heq
  rw [h a ha b hb heq]

theorem unique_concat {α : Type} {g : DPUCluster → α}
    (h : ∀ c ∈ clusters, ∀ c' ∈ clusters, g c = g c' → c = c') (hn : ∀ c' ∈ clusters, g c' ≠ g c) :
    ∀ a ∈ clusters ++ [c], ∀ b ∈ clusters ++ [c], g a = g b → a = b := by
  intro a ha b hb heq
  rcases mem_append.mp ha with ha' | ha' <;> rcases mem_append.mp hb with hb' | hb'
  · exact h a ha' b hb' heq
  · rw [mem_singleton.mp hb'] at heq
    exact absurd heq (hn a ha')
  · rw [mem_singleton.mp ha'] at heq
    exact absurd heq.symm (hn b hb')
  · rw [mem_singleton.mp ha', mem_singleton.mp hb']

theorem IsCopy.filter (h : IsCopy clusters uids dc) {p : DPUCluster → Bool}
    (hp : ∀ c, c.finalizer = true → p c = true) : IsCopy (clusters.filter p) uids dc :=
  { h with
    stored := fun c hc heq => h.stored c (mem_filter.mp hc).1 heq
    held := fun hf hd => by
      obtain ⟨c, hc, hu, hc'⟩ := h.held hf hd
      exact ⟨c, mem_filter.mpr ⟨hc, hp c hc'⟩, hu, hc'⟩ }

/-- A cluster with a new UID and a free name comes. -/
theorem IsCopy.concat (h : IsCopy clusters uids dc) (hc : c.uid ∉ uids) :
    IsCopy (clusters ++ [c]) (c.uid :: uids) dc where
  uid := mem_cons_of_mem _ h.uid
  name := h.name
  ready := h.ready
  stored := forall_mem_append.mpr ⟨h.stored, forall_mem_singleton.mpr fun heq =>
    absurd (heq ▸ h.uid) hc⟩
  held hf hd := by
    obtain ⟨c', hc', hh⟩ := h.held hf hd
    exact ⟨c', mem_append_left _ hc', hh⟩

/-- A copy is saved. A reconcile that has told the cache about the deletion is not undone. -/
theorem Clusters.saveCluster (h : Clusters clusters uids cache.copies stages lastSaved)
    (hco : IsCopy clusters uids dc)
    (hc : ∀ nn dc', (stages nn).closing = some dc' → dc.uid = dc'.uid → dc.deleting = true) :
    Clusters clusters uids (cache.saveCluster dc).copies stages
      (update lastSaved dc.uid (some dc)) :=
  { h with
    cached := fun dc' hdc' => by
      rcases mem_copies_saveCluster.mp hdc' with rfl | ⟨hdc', hne⟩
      · exact ⟨hco, update_self ..⟩
      · rw [update_of_ne hne]
        exact h.cached dc' hdc'
    closing := fun nn dc₀ hdc₀ => by
      refine ⟨(h.closing nn dc₀ hdc₀).1, fun dc' hdc' heq => ?_⟩
      rcases mem_copies_saveCluster.mp hdc' with rfl | ⟨hdc', -⟩
      · exact hc nn dc₀ hdc₀ heq
      · exact (h.closing nn dc₀ hdc₀).2 dc' hdc' heq }

variable (h : Clusters clusters uids copies stages lastSaved)

include h

theorem Clusters.isCopy (hc : c ∈ clusters) :
    IsCopy clusters uids c where
  uid := (h.stored c hc).1
  name := h.name c hc
  ready := (h.stored c hc).2
  stored c' hc' heq := by
    obtain rfl := h.uid c' hc' c hc heq
    exact ⟨rfl, id⟩
  held hf _ := ⟨c, hc, rfl, hf⟩

/-- A cluster with room in the cache is there. -/
theorem Clusters.stored_of_ready
    (hdc : dc ∈ copies) (hr : dc.phase = .ready) (hd : dc.deleting = false) :
    ∃ c ∈ clusters, c.uid = dc.uid ∧ c.nn = dc.nn := by
  obtain ⟨hco, -⟩ := h.cached dc hdc
  have hf : dc.finalizer = true :=
    (hco.ready hr).resolve_left (by simp [hd])
  obtain ⟨c, hc, hu, -⟩ := hco.held hf hd
  exact ⟨c, hc, hu, (hco.stored c hc hu).1⟩

theorem Clusters.map
    (hf : ∀ c, (f c).uid = c.uid ∧ (f c).nn = c.nn ∧ (c.deleting = true → (f c).deleting = true))
    (hr : ∀ c ∈ clusters, (f c).phase = .ready → (f c).deleting = true ∨ (f c).finalizer = true)
    (hca : ∀ dc ∈ copies, ∀ c ∈ clusters, c.uid = dc.uid → dc.deleting = false →
      c.finalizer = true → (f c).finalizer = true)
    (hre : ∀ nn dc, (stages nn).copy = some dc → ∀ c ∈ clusters, c.uid = dc.uid →
      dc.deleting = false → c.finalizer = true → (f c).finalizer = true) :
    Clusters (clusters.map f) uids copies stages lastSaved where
  uid := unique_map h.uid fun c => (hf c).1
  nn := unique_map h.nn fun c => (hf c).2.1
  name := forall_mem_map.mpr fun c hc => (hf c).2.1 ▸ h.name c hc
  stored := forall_mem_map.mpr fun c hc => ⟨(hf c).1 ▸ (h.stored c hc).1, hr c hc⟩
  cached dc hdc := ⟨(h.cached dc hdc).1.map hf (hca dc hdc), (h.cached dc hdc).2⟩
  read nn dc hdc := ⟨(h.read nn dc hdc).1, (h.read nn dc hdc).2.map hf (hre nn dc hdc)⟩
  closing := h.closing
  own := h.own

theorem Clusters.filter {p : DPUCluster → Bool} (hp : ∀ c, c.finalizer = true → p c = true) :
    Clusters (clusters.filter p) uids copies stages lastSaved where
  uid c hc c' hc' := h.uid c (mem_filter.mp hc).1 c' (mem_filter.mp hc').1
  nn c hc c' hc' := h.nn c (mem_filter.mp hc).1 c' (mem_filter.mp hc').1
  name c hc := h.name c (mem_filter.mp hc).1
  stored c hc := h.stored c (mem_filter.mp hc).1
  cached dc hdc := ⟨(h.cached dc hdc).1.filter hp, (h.cached dc hdc).2⟩
  read nn dc hdc := ⟨(h.read nn dc hdc).1, (h.read nn dc hdc).2.filter hp⟩
  closing := h.closing
  own := h.own

theorem Clusters.concat (hu : c.uid ∉ uids)
    (hnn : ∀ c' ∈ clusters, c'.nn ≠ c.nn) (hn : c.nn.name ≠ "") (hph : c.phase = .pending) :
    Clusters (clusters ++ [c]) (c.uid :: uids) copies stages lastSaved where
  uid := unique_concat h.uid fun a ha heq => hu (heq ▸ (h.stored a ha).1)
  nn := unique_concat h.nn hnn
  name := forall_mem_append.mpr ⟨h.name, forall_mem_singleton.mpr hn⟩
  stored := by
    refine forall_mem_append.mpr ⟨fun a ha => ?_, forall_mem_singleton.mpr ?_⟩
    · exact ⟨mem_cons_of_mem _ (h.stored a ha).1, (h.stored a ha).2⟩
    · exact ⟨mem_cons_self, fun hr => absurd (hph.symm.trans hr) (by decide)⟩
  cached dc hdc := ⟨(h.cached dc hdc).1.concat hu, (h.cached dc hdc).2⟩
  read nn dc hdc := ⟨(h.read nn dc hdc).1, (h.read nn dc hdc).2.concat hu⟩
  closing := h.closing
  own := h.own

theorem Clusters.of_copies_subset
    (hs : copies' ⊆ copies) : Clusters clusters uids copies' stages lastSaved :=
  { h with
    cached := fun dc hdc => h.cached dc (hs hdc)
    closing := fun nn dc hdc =>
      ⟨(h.closing nn dc hdc).1, fun dc' hdc' => (h.closing nn dc hdc).2 dc' (hs hdc')⟩ }

theorem Clusters.setStage (hr : ∀ dc, stage.copy = some dc → dc.nn = nn ∧ IsCopy clusters uids dc)
    (hc : ∀ dc, stage.closing = some dc → dc.deleting = true ∧
      ∀ dc' ∈ copies, dc'.uid = dc.uid → dc'.deleting = true)
    (ho : ∀ dc, stage.copy = some dc → ∀ nn' dc', (stages nn').copy = some dc' →
      dc'.uid = dc.uid → nn' = nn) :
    Clusters clusters uids copies (update stages nn stage) lastSaved :=
  { h with
    read := (forall_update_iff stages fun nn stage => ∀ dc, stage.copy = some dc →
      dc.nn = nn ∧ IsCopy clusters uids dc).mpr ⟨hr, fun nn' _ => h.read nn'⟩
    closing := (forall_update_iff stages fun _ stage => ∀ dc, stage.closing = some dc →
      dc.deleting = true ∧ ∀ dc' ∈ copies, dc'.uid = dc.uid → dc'.deleting = true).mpr
      ⟨hc, fun nn' _ => h.closing nn'⟩
    own := fun nn₁ dc₁ hdc₁ nn₂ dc₂ hdc₂ hu => by
      by_cases h₁ : nn₁ = nn <;> by_cases h₂ : nn₂ = nn
      · rw [h₁, h₂]
      · rw [h₁, update_self] at hdc₁
        rw [update_of_ne h₂] at hdc₂
        exact (ho dc₁ hdc₁ nn₂ dc₂ hdc₂ hu).trans h₁.symm
      · rw [update_of_ne h₁] at hdc₁
        rw [h₂, update_self] at hdc₂
        exact h₂.trans (ho dc₂ hdc₂ nn₁ dc₁ hdc₁ hu.symm).symm
      · rw [update_of_ne h₁] at hdc₁
        rw [update_of_ne h₂] at hdc₂
        exact h.own nn₁ dc₁ hdc₁ nn₂ dc₂ hdc₂ hu }

end Copies

/-! ## Assigned DPUs -/

structure Names (d : DPU) (c : DPUCluster) : Prop where
  deleting : d.deleting = false
  cluster : d.cluster = c.nn

/-- All copies under the name of the cluster are its own, and the index finds its entry. -/
structure Sole (cache : ClusterCache) (stages : NamespacedName → ClusterStage) (c : DPUCluster) :
    Prop where
  cached : ∀ dc ∈ cache.copies, dc.nn = c.nn → dc.uid = c.uid
  read : ∀ dc, (stages c.nn).copy = some dc → dc.uid = c.uid
  indexed : ∀ dc ∈ cache.copies, dc.uid = c.uid → cache.idxByName c.nn = some c.uid

/-- A reconcile of a DPU: it has not missed that a deletion was taken back, and a cluster that its
`Allocate` wrote is stored. -/
structure Reconciling (dpus : List DPU) (uids : List ℕ) (uid : ℕ) (t : DPUReconcile) : Prop where
  same : t.copy.uid = uid
  used : uid ∈ uids
  deleting : t.copy.deleting = true → ∀ d ∈ dpus, d.uid = uid → d.deleting = true
  written : t.failed = false → t.copy.cluster ≠ t.base.cluster →
    ∀ d ∈ dpus, d.uid = uid → d.cluster = t.copy.cluster

structure Inv (w : World) : Prop where
  clusters : Clusters w.clusters w.clusterUIDs w.cache.copies w.clusterReconciles w.lastSaved
  nodup : (w.dpus.map DPU.uid).Nodup
  used : ∀ d ∈ w.dpus, d.uid ∈ w.dpuUIDs
  /-- After the sync the entry of a stored cluster has all DPUs that are assigned to it. -/
  recorded : w.synced = true → ∀ ci ∈ w.cache.clusterInfoMap, ∀ c ∈ w.clusters,
    c.uid = ci.cluster.uid → ∀ d ∈ w.dpus, Names d c → d.uid ∈ ci.dpus
  /-- After the sync only a cluster with an entry has DPUs. -/
  registered : w.synced = true → ∀ c ∈ w.clusters, ∀ d ∈ w.dpus, Names d c →
    ∃ dc ∈ w.cache.copies, dc.uid = c.uid
  /-- No DPU comes to a cluster whose entry is about to be removed. -/
  vacant : ∀ nn dc, (w.clusterReconciles nn).vacant = some dc → (∃ c ∈ w.clusters, c.uid = dc.uid) →
    ∀ d ∈ w.dpus, d.deleting = false → d.cluster ≠ nn
  sole : w.synced = false → ∀ c ∈ w.clusters, ∀ d ∈ w.dpus, Names d c →
    Sole w.cache w.clusterReconciles c
  reconcile : ∀ uid t, w.dpuReconciles uid = some t → Reconciling w.dpus w.dpuUIDs uid t

theorem Init.inv {w : World} (h : Init w) : Inv w := by
  have hco : w.cache.copies = [] := by rw [h.cache]; rfl
  refine ⟨⟨h.uid, h.nn, h.name, fun c hc => ⟨h.clusterUIDs c hc, h.ready c hc⟩, ?_, ?_, ?_, ?_⟩,
    h.dpuUIDs.1, h.dpuUIDs.2, ?_, ?_, ?_, ?_, ?_⟩
  · rw [hco]
    exact nofun
  · rw [h.clusterReconciles]
    exact nofun
  · rw [h.clusterReconciles]
    exact nofun
  · rw [h.clusterReconciles]
    exact nofun
  · exact fun hs => absurd (h.synced.symm.trans hs) (by decide)
  · exact fun hs => absurd (h.synced.symm.trans hs) (by decide)
  · rw [h.clusterReconciles]
    exact nofun
  · intro _ c hc d hd hnm
    refine ⟨?_, ?_, ?_⟩
    · rw [hco]
      exact nofun
    · rw [h.clusterReconciles]
      exact nofun
    · rw [hco]
      exact nofun
  · rw [h.dpuReconciles]
    exact nofun

namespace Inv

variable {w : World}

/-- The clusters are rewritten or go; their names and UIDs stay. -/
theorem withClusters (h : Inv w) {clusters : List DPUCluster}
    (hcl : Clusters clusters w.clusterUIDs w.cache.copies w.clusterReconciles w.lastSaved)
    (hsa : ∀ c' ∈ clusters, ∃ c ∈ w.clusters, c.uid = c'.uid ∧ c.nn = c'.nn) :
    Inv { w with clusters := clusters } :=
  { h with
    clusters := hcl
    recorded := fun hs ci hci c' hc' hu d hd hnm => by
      obtain ⟨c, hc, hcu, hcn⟩ := hsa c' hc'
      exact h.recorded hs ci hci c hc (hcu.trans hu) d hd
        ⟨hnm.deleting, hnm.cluster.trans hcn.symm⟩
    registered := fun hs c' hc' d hd hnm => by
      obtain ⟨c, hc, hcu, hcn⟩ := hsa c' hc'
      rw [← hcu]
      exact h.registered hs c hc d hd ⟨hnm.deleting, hnm.cluster.trans hcn.symm⟩
    vacant := fun nn dc hdc ⟨c', hc', hu⟩ => by
      obtain ⟨c, hc, hcu, -⟩ := hsa c' hc'
      exact h.vacant nn dc hdc ⟨c, hc, hcu.trans hu⟩
    sole := fun hs c' hc' d hd hnm => by
      obtain ⟨c, hc, hcu, hcn⟩ := hsa c' hc'
      obtain ⟨hca, hr, hi⟩ := h.sole hs c hc d hd
        ⟨hnm.deleting, hnm.cluster.trans hcn.symm⟩
      rw [hcu, hcn] at hca hr hi
      exact ⟨hca, hr, hi⟩ }

variable {uid : ℕ}

theorem updateCluster (h : Inv w)
    (hf : ∀ c, (f c).uid = c.uid ∧ (f c).nn = c.nn ∧ (c.deleting = true → (f c).deleting = true))
    (hr : ∀ c ∈ w.clusters, c.uid = uid → (f c).phase = .ready →
      (f c).deleting = true ∨ (f c).finalizer = true)
    (hh : ∀ c ∈ w.clusters, c.uid = uid → c.finalizer = true → (f c).finalizer = true ∨
      ((∀ dc ∈ w.cache.copies, dc.uid = uid → dc.deleting = true) ∧
        ∀ nn dc, (w.clusterReconciles nn).copy = some dc → dc.uid = uid → dc.deleting = true)) :
    Inv (w.updateCluster uid f) := by
  have hg : ∀ c, (if c.uid = uid then f c else c).uid = c.uid ∧
      (if c.uid = uid then f c else c).nn = c.nn ∧
      (c.deleting = true → (if c.uid = uid then f c else c).deleting = true) := by
    intro c
    split_ifs
    · exact hf c
    · exact ⟨rfl, rfl, id⟩
  have hk : ∀ dc, (dc ∈ w.cache.copies ∨ ∃ nn, (w.clusterReconciles nn).copy = some dc) →
      ∀ c ∈ w.clusters, c.uid = dc.uid → dc.deleting = false → c.finalizer = true →
        (if c.uid = uid then f c else c).finalizer = true := by
    intro dc hdc c hc hu hd hfi
    split_ifs with heq
    · refine (hh c hc heq hfi).resolve_right fun hcl => ?_
      rcases hdc with hdc | ⟨nn, hdc⟩
      · simp [hcl.1 dc hdc (hu.symm.trans heq)] at hd
      · simp [hcl.2 nn dc hdc (hu.symm.trans heq)] at hd
    · exact hfi
  refine h.withClusters (h.clusters.map hg ?_ (fun dc hdc => hk dc (.inl hdc))
    fun nn dc hdc => hk dc (.inr ⟨nn, hdc⟩)) ?_
  · intro c hc
    split_ifs with heq
    · exact hr c hc heq
    · exact (h.clusters.stored c hc).2
  · intro c' hc'
    obtain ⟨c, hc, rfl⟩ := mem_map.mp hc'
    exact ⟨c, hc, (hg c).1.symm, (hg c).2.1.symm⟩

variable {nn : NamespacedName} {dc : DPUCluster}

theorem setStage (h : Inv w)
    (hr : ∀ dc, stage.copy = some dc → dc.nn = nn ∧ IsCopy w.clusters w.clusterUIDs dc)
    (hcl : ∀ dc, stage.closing = some dc → dc.deleting = true ∧ ∀ dc' ∈ w.cache.copies,
      dc'.uid = dc.uid → dc'.deleting = true)
    (hv : ∀ dc, stage.vacant = some dc → (∃ c ∈ w.clusters, c.uid = dc.uid) → ∀ d ∈ w.dpus,
      d.deleting = false → d.cluster ≠ nn)
    (hso : ∀ dc, stage.copy = some dc → w.synced = false → ∀ c ∈ w.clusters, c.nn = nn →
      ∀ d ∈ w.dpus, Names d c → dc.uid = c.uid)
    (ho : ∀ dc, stage.copy = some dc → ∀ nn' dc', (w.clusterReconciles nn').copy = some dc' →
      dc'.uid = dc.uid → nn' = nn) : Inv (w.setStage nn stage) :=
  { h with
    clusters := h.clusters.setStage hr hcl ho
    vacant := (forall_update_iff w.clusterReconciles fun nn stage => ∀ dc,
      stage.vacant = some dc → (∃ c ∈ w.clusters, c.uid = dc.uid) → ∀ d ∈ w.dpus,
        d.deleting = false → d.cluster ≠ nn).mpr ⟨hv, fun nn' _ => h.vacant nn'⟩
    sole := fun hs c hc d hd hnm => by
      obtain ⟨hca, hread', hi⟩ := h.sole hs c hc d hd hnm
      refine ⟨hca, fun dc hdc => ?_, hi⟩
      by_cases heq : c.nn = nn
      · have hdc' : stage.copy = some dc := by simpa [World.setStage, heq] using hdc
        exact hso dc hdc' hs c hc heq d hd hnm
      · have hdc' : (w.clusterReconciles c.nn).copy = some dc := by
          simpa [World.setStage, update_of_ne heq] using hdc
        exact hread' dc hdc' }

theorem setIdle (h : Inv w) (nn : NamespacedName) : Inv (w.setStage nn .idle) :=
  h.setStage nofun nofun nofun nofun nofun

theorem advance (h : Inv w) (hdc : (w.clusterReconciles nn).copy = some dc)
    (hst : stage.copy = some dc)
    (hcl : dc.deleting = true ∧ ∀ dc' ∈ w.cache.copies, dc'.uid = dc.uid → dc'.deleting = true)
    (hv : ∀ dc, stage.vacant = some dc → (∃ c ∈ w.clusters, c.uid = dc.uid) → ∀ d ∈ w.dpus,
      d.deleting = false → d.cluster ≠ nn) : Inv (w.setStage nn stage) := by
  refine h.setStage ?_ ?_ hv ?_ ?_
  · intro dc' hdc'
    cases hst.symm.trans hdc'
    exact h.clusters.read nn dc hdc
  · intro dc' hdc'
    obtain rfl := Option.some.inj (hst.symm.trans (ClusterStage.copy_of_closing hdc'))
    exact hcl
  · rintro dc' hdc' hs c hc rfl d hd hnm
    cases hst.symm.trans hdc'
    exact (h.sole hs c hc d hd hnm).read dc hdc
  · intro dc' hdc'
    cases hst.symm.trans hdc'
    exact h.clusters.own nn dc hdc

theorem saveCluster (h : Inv w) (hco : IsCopy w.clusters w.clusterUIDs dc)
    (hcl : ∀ nn dc', (w.clusterReconciles nn).closing = some dc' → dc.uid = dc'.uid →
      dc.deleting = true)
    (hso : w.synced = false → ∀ c ∈ w.clusters, c.nn = dc.nn → ∀ d ∈ w.dpus, Names d c →
      dc.uid = c.uid) :
    Inv (w.saveCluster dc) where
  clusters := h.clusters.saveCluster hco hcl
  nodup := h.nodup
  used := h.used
  recorded hs ci hci c hc hu d hd hnm := by
    rcases mem_saveCluster hci with ⟨ci₀, hci₀, hu₀, hdp⟩ | ⟨hn, hno⟩
    · rw [← hdp]
      exact h.recorded hs ci₀ hci₀ c hc (hu.trans hu₀.symm) d hd hnm
    · obtain ⟨dc', hdc', huid'⟩ := h.registered hs c hc d hd hnm
      exact absurd (huid'.trans (hu.trans hn)) (hno dc' hdc')
  registered hs c hc d hd hnm := by
    obtain ⟨dc', hdc', hu⟩ := h.registered hs c hc d hd hnm
    by_cases heq : dc'.uid = dc.uid
    · exact ⟨dc, mem_copies_saveCluster.mpr (.inl rfl), heq.symm.trans hu⟩
    · exact ⟨dc', mem_copies_saveCluster.mpr (.inr ⟨hdc', heq⟩), hu⟩
  vacant := h.vacant
  sole hs c hc d hd hnm := by
    obtain ⟨hca, hr, hin⟩ := h.sole hs c hc d hd hnm
    refine ⟨?_, hr, ?_⟩
    · intro dc' hdc' hnn
      rcases mem_copies_saveCluster.mp hdc' with rfl | ⟨hdc', -⟩
      · exact hso hs c hc hnn.symm d hd hnm
      · exact hca dc' hdc' hnn
    · intro dc' hdc' hu
      change (w.cache.saveCluster dc).idxByName c.nn = some c.uid
      by_cases hkn : ∃ known ∈ w.cache.copies, known.uid = c.uid
      · obtain ⟨known, hkn, hku⟩ := hkn
        rcases @idxByName_saveCluster w.cache dc c.nn with hi | ⟨hnn, hi⟩
        · exact hi.trans (hin known hkn hku)
        · rw [hi, hso hs c hc hnn d hd hnm]
      · -- The entry is new: the save puts it into the index.
        have hdc : dc' = dc := by
          rcases mem_copies_saveCluster.mp hdc' with heq | ⟨hold, -⟩
          · exact heq
          · exact absurd ⟨dc', hold, hu⟩ hkn
        subst hdc
        have hn : ∀ known ∈ w.cache.copies, known.uid ≠ dc'.uid :=
          fun known hk heq => hkn ⟨known, hk, heq.trans hu⟩
        have hi := idxByName_saveCluster_new hn
        rwa [← (hco.stored c hc hu.symm).1, hu] at hi
  reconcile := h.reconcile

/-- The entries of the cache are rewritten, and none loses a DPU that is assigned to its cluster. -/
theorem withCache (h : Inv w) (hco : cache.copies = w.cache.copies)
    (hin : cache.idxByName = w.cache.idxByName)
    (hke : ∀ ci ∈ cache.clusterInfoMap, ∃ ci₀ ∈ w.cache.clusterInfoMap,
      ci₀.cluster = ci.cluster ∧ ∀ d ∈ w.dpus, d.deleting = false → d.uid ∈ ci₀.dpus →
        d.uid ∈ ci.dpus) : Inv { w with cache := cache } :=
  { h with
    clusters := hco ▸ h.clusters
    recorded := fun hs ci hci c hc hu d hd hnm => by
      obtain ⟨ci₀, hci₀, hcl, hk⟩ := hke ci hci
      exact hk d hd hnm.deleting
        (h.recorded hs ci₀ hci₀ c hc (by rw [hu, hcl]) d hd hnm)
    registered := hco ▸ h.registered
    sole := fun hs c hc d hd hnm => by
      obtain ⟨hca, hr, hi⟩ := h.sole hs c hc d hd hnm
      rw [← hco] at hca hi
      exact ⟨hca, hr, hin ▸ hi⟩ }

theorem saveDPU (h : Inv w) (dpu : DPU) : Inv (w.saveDPU dpu) := by
  refine h.withCache (copies_saveDPU dpu) (idxByName_saveDPU dpu) ?_
  intro ci hci
  obtain ⟨ci₀, hci₀, hc, hs, -⟩ := mem_saveDPU hci
  exact ⟨ci₀, hci₀, hc, fun d _ _ hd => hs hd⟩

theorem removeCluster (h : Inv w) (hdc : w.clusterReconciles nn = .listed dc) :
    Inv { w with cache := w.cache.removeCluster dc } := by
  have hr : (w.clusterReconciles nn).copy = some dc := by rw [hdc]; rfl
  have hv : (w.clusterReconciles nn).vacant = some dc := by rw [hdc]; rfl
  have hnn : dc.nn = nn := (h.clusters.read nn dc hr).1
  refine ⟨h.clusters.of_copies_subset ?_, h.nodup, h.used, ?_, ?_, h.vacant, ?_, h.reconcile⟩
  · exact fun dc' hdc' => (mem_copies_removeCluster.mp hdc').1
  · exact fun hs ci hci => h.recorded hs ci (mem_filter.mp hci).1
  · intro hs c hc d hd hnm
    obtain ⟨dc', hdc', hu⟩ := h.registered hs c hc d hd hnm
    refine ⟨dc', mem_copies_removeCluster.mpr ⟨hdc', fun heq => ?_⟩, hu⟩
    -- The cluster of the copy is still there, so it was seen without DPUs.
    have hst : c.uid = dc.uid := hu.symm.trans heq
    have hcn := ((h.clusters.read nn dc hr).2.stored c hc hst).1
    exact h.vacant nn dc hv ⟨c, hc, hst⟩ d hd hnm.deleting
      (hnm.cluster.trans (hcn.trans hnn))
  · intro hs c hc d hd hnm
    obtain ⟨hca, hread', hi⟩ := h.sole hs c hc d hd hnm
    refine ⟨fun dc' hdc' => hca dc' (mem_copies_removeCluster.mp hdc').1, hread', ?_⟩
    intro dc' hdc' hu
    have hne : c.nn ≠ dc.nn := by
      intro heq
      have hread'' : (w.clusterReconciles c.nn).copy = some dc := by rw [heq, hnn]; exact hr
      exact h.vacant nn dc hv ⟨c, hc, (hread' dc hread'').symm⟩ d hd hnm.deleting
        (hnm.cluster.trans (heq.trans hnn))
    exact (update_of_ne hne ..).trans
      (hi dc' (mem_copies_removeCluster.mp hdc').1 hu)

/-- No DPU is created, moved to another cluster or taken back from its deletion. -/
theorem withDPUs (h : Inv w) {dpus : List DPU} (hnd : (dpus.map DPU.uid).Nodup)
    (hsa : ∀ d' ∈ dpus, ∃ d ∈ w.dpus, d.uid = d'.uid ∧ d.cluster = d'.cluster ∧
      (d.deleting = true → d'.deleting = true)) :
    Inv { w with dpus := dpus } := by
  have hnm : ∀ d' ∈ dpus, ∀ c, Names d' c → ∃ d ∈ w.dpus, d.uid = d'.uid ∧ Names d c := by
    intro d' hd' c hn
    obtain ⟨d, hd, hu, hcl, hde⟩ := hsa d' hd'
    refine ⟨d, hd, hu, ?_, hcl.trans hn.cluster⟩
    by_contra hco
    exact absurd hn.deleting (by simp [hde (by simpa using hco)])
  refine ⟨h.clusters, hnd, ?_, ?_, ?_, ?_, ?_, ?_⟩
  · intro d' hd'
    obtain ⟨d, hd, hu, -⟩ := hsa d' hd'
    exact hu ▸ h.used d hd
  · intro hs ci hci c hc hu d' hd' hn
    obtain ⟨d, hd, hdu, hn'⟩ := hnm d' hd' c hn
    exact hdu ▸ h.recorded hs ci hci c hc hu d hd hn'
  · intro hs c hc d' hd' hn
    obtain ⟨d, hd, -, hn'⟩ := hnm d' hd' c hn
    exact h.registered hs c hc d hd hn'
  · intro nn dc hdc hst d' hd' hde hcl
    obtain ⟨d, hd, -, hsame', hm⟩ := hsa d' hd'
    refine h.vacant nn dc hdc hst d hd ?_ (hsame'.trans hcl)
    by_contra hco
    simp [hm (by simpa using hco)] at hde
  · intro hs c hc d' hd' hn
    obtain ⟨d, hd, -, hn'⟩ := hnm d' hd' c hn
    exact h.sole hs c hc d hd hn'
  · intro uid t ht
    obtain ⟨hsame', hus, hde, hw⟩ := h.reconcile uid t ht
    refine ⟨hsame', hus, ?_, ?_⟩
    · intro htd d' hd' hdu
      obtain ⟨d, hd, hu, -, hm⟩ := hsa d' hd'
      exact hm (hde htd d hd (hu.trans hdu))
    · intro hf hne d' hd' hdu
      obtain ⟨d, hd, hu, hcl, -⟩ := hsa d' hd'
      exact hcl.symm.trans (hw hf hne d hd (hu.trans hdu))

theorem setReconcile (h : Inv w) {t : Option DPUReconcile}
    (ht : ∀ t', t = some t' → Reconciling w.dpus w.dpuUIDs uid t') : Inv (w.setReconcile uid t) :=
  { h with
    reconcile := (forall_update_iff w.dpuReconciles fun uid t => ∀ t', t = some t' →
      Reconciling w.dpus w.dpuUIDs uid t').mpr ⟨ht, fun uid' _ => h.reconcile uid'⟩ }

theorem advanceDPU (h : Inv w) {t : DPUReconcile} (ht : w.dpuReconciles uid = some t)
    (stage : DPUStage) : Inv (w.setReconcile uid (some { t with stage := stage })) := by
  refine h.setReconcile fun t' ht' => ?_
  cases ht'
  exact { h.reconcile uid t ht with }

end Inv

/-! ## The sync -/

theorem foldl_saveCluster_eq (clusters : List DPUCluster) (w : World) :
    ∃ lastSaved, clusters.foldl World.saveCluster w = { w with
        cache := clusters.foldl ClusterCache.saveCluster w.cache
        lastSaved := lastSaved } := by
  induction clusters generalizing w with
  | nil => exact ⟨w.lastSaved, rfl⟩
  | cons c rest ih =>
    obtain ⟨lastSaved, hr⟩ := ih (w.saveCluster c)
    exact ⟨lastSaved, hr⟩

theorem foldl_saveDPU_eq (dpus : List DPU) (w : World) :
    dpus.foldl World.saveDPU w = { w with cache := dpus.foldl ClusterCache.saveDPU w.cache } := by
  induction dpus generalizing w with
  | nil => rfl
  | cons d rest ih => exact ih (w.saveDPU d)

variable {w w' : World} {dc : DPUCluster} {uid : ℕ} {ci : ClusterInfo} {t : DPUReconcile}

theorem Inv.foldl_saveDPU (h : Inv w) (dpus : List DPU) : Inv (dpus.foldl World.saveDPU w) := by
  induction dpus generalizing w with
  | nil => exact h
  | cons d rest ih => exact ih (h.saveDPU d)

theorem Inv.saveCluster_stored (h : Inv w) {c : DPUCluster} (hc : c ∈ w.clusters) :
    Inv (w.saveCluster c) := by
  refine h.saveCluster (h.clusters.isCopy hc) ?_ ?_
  · intro nn dc hdc hu
    have hr := (h.clusters.read nn dc (ClusterStage.copy_of_closing hdc)).2
    exact (hr.stored c hc hu).2 (h.clusters.closing nn dc hdc).1
  · intro _ c' hc' hnn d hd hnm
    rw [h.clusters.nn c' hc' c hc hnn]

theorem Inv.foldl_saveCluster (h : Inv w) {clusters : List DPUCluster}
    (hs : ∀ c ∈ clusters, c ∈ w.clusters) : Inv (clusters.foldl World.saveCluster w) := by
  induction clusters generalizing w with
  | nil => exact h
  | cons c rest ih =>
    exact ih (h.saveCluster_stored (hs c mem_cons_self)) fun c' hc' =>
      hs c' (mem_cons_of_mem c hc')

theorem exists_uid_saveCluster (h : dc.uid = uid ∨ ∃ dc' ∈ cache.copies, dc'.uid = uid) :
    ∃ dc' ∈ (cache.saveCluster dc).copies, dc'.uid = uid := by
  by_cases heq : dc.uid = uid
  · exact ⟨dc, mem_copies_saveCluster.mpr (.inl rfl), heq⟩
  · obtain ⟨dc', hdc', hu⟩ := h.resolve_left heq
    refine ⟨dc', mem_copies_saveCluster.mpr (.inr ⟨hdc', fun hs => ?_⟩), hu⟩
    exact heq (hs.symm.trans hu)

theorem foldl_saveCluster_registers (clusters : List DPUCluster) (cache : ClusterCache) (uid : ℕ)
    (h : (∃ c ∈ clusters, c.uid = uid) ∨ ∃ dc ∈ cache.copies, dc.uid = uid) :
    ∃ dc ∈ (clusters.foldl ClusterCache.saveCluster cache).copies, dc.uid = uid := by
  induction clusters generalizing cache with
  | nil => exact h.resolve_left (by simp)
  | cons c rest ih =>
    refine ih (cache.saveCluster c) ?_
    rcases h with ⟨c', hc', hu⟩ | hold
    · rcases mem_cons.mp hc' with rfl | hc'
      · exact .inr (exists_uid_saveCluster (.inl hu))
      · exact .inl ⟨c', hc', hu⟩
    · exact .inr (exists_uid_saveCluster (.inr hold))

/-- Every DPU of the list is in the entry that the index finds for it. -/
theorem foldl_saveDPU_records (dpus : List DPU) (cache : ClusterCache)
    (h : ci ∈ (dpus.foldl ClusterCache.saveDPU cache).clusterInfoMap) :
    ∃ ci₀ ∈ cache.clusterInfoMap, ci₀.cluster = ci.cluster ∧ ci₀.dpus ⊆ ci.dpus ∧
      ∀ d ∈ dpus, d.deleting = false → d.cluster.name ≠ "" →
        cache.idxByName d.cluster = some ci.cluster.uid → d.uid ∈ ci.dpus := by
  induction dpus generalizing cache with
  | nil => exact ⟨ci, h, rfl, fun x hx => hx, nofun⟩
  | cons a rest ih =>
    obtain ⟨ci₁, hci₁, hc₁, hs₁, hr⟩ := ih (cache.saveDPU a) h
    obtain ⟨ci₀, hci₀, hc₀, hs₀, ha⟩ := mem_saveDPU hci₁
    refine ⟨ci₀, hci₀, hc₀.trans hc₁, fun x hx => hs₁ (hs₀ hx), ?_⟩
    intro d hd hde hn hi
    rcases mem_cons.mp hd with rfl | hd
    · rw [← hc₁] at hi
      exact hs₁ (ha hde hn hi)
    · exact hr d hd hde hn (by rwa [idxByName_saveDPU])

theorem copies_foldl_saveDPU (dpus : List DPU) (cache : ClusterCache) :
    (dpus.foldl ClusterCache.saveDPU cache).copies = cache.copies := by
  induction dpus generalizing cache with
  | nil => rfl
  | cons d rest ih => exact (ih (cache.saveDPU d)).trans (copies_saveDPU d)

theorem Inv.syncAssignedDPUs (h : Inv w) (hs : w.synced = false)
    (clustersListed dpusListed : Bool) : Inv (w.syncAssignedDPUs clustersListed dpusListed) := by
  unfold World.syncAssignedDPUs
  split_ifs
  · have h₁ : Inv (w.clusters.foldl World.saveCluster w) := h.foldl_saveCluster fun _ hc => hc
    have h₂ := h₁.foldl_saveDPU w.dpus
    obtain ⟨lastSaved, heq⟩ := foldl_saveCluster_eq w.clusters w
    rw [foldl_saveDPU_eq, heq] at h₂
    rw [heq] at h₁
    dsimp only
    rw [foldl_saveDPU_eq, heq]
    refine ⟨h₂.clusters, h₂.nodup, h₂.used, ?_, ?_, h₂.vacant, nofun, h₂.reconcile⟩
    · intro _ ci hci c hc hu d hd hnm
      obtain ⟨ci₀, hci₀, hcl, -, hr⟩ := foldl_saveDPU_records w.dpus _ hci
      have hi := (h₁.sole hs c hc d hd hnm).indexed ci₀.cluster
        (mem_copies hci₀) (by rw [hcl, hu])
      refine hr d hd hnm.deleting ?_ ?_
      · rw [hnm.cluster]
        exact h.clusters.name c hc
      · rw [hnm.cluster, ← hu]
        exact hi
    · intro _ c hc d hd hnm
      obtain ⟨dc, hdc, hu⟩ := foldl_saveCluster_registers w.clusters w.cache c.uid
        (.inl ⟨c, hc, rfl⟩)
      exact ⟨dc, by rwa [← copies_foldl_saveDPU w.dpus] at hdc, hu⟩
  · exact h.foldl_saveCluster fun _ hc => hc
  · exact h

/-! ## Allocation -/

/-- The cache and the store agree on the cluster of an entry with room. -/
theorem Inv.stored_of_feasible (h : Inv w) (hci : ci ∈ w.cache.clusterInfoMap)
    (hf : ci.feasible = true) :
    ∃ c ∈ w.clusters, c.uid = ci.cluster.uid ∧ c.nn = ci.cluster.nn := by
  simp only [ClusterInfo.feasible, Bool.and_eq_true, Bool.not_eq_true', decide_eq_true_eq]
    at hf
  exact h.clusters.stored_of_ready (mem_copies hci) hf.1.2 hf.1.1

/-- An assignment that goes through the cache. -/
theorem Inv.assign (h : Inv w) (hs : w.synced = true) (hci : ci ∈ w.cache.clusterInfoMap)
    (hfe : ci.feasible = true) (ht : w.dpuReconciles uid = some t)
    (hdele : t.copy.deleting = false) :
    Inv { (w.assign uid ci.cluster.nn).setReconcile uid
        (some { t with copy := { t.copy with cluster := ci.cluster.nn }, stage := .done }) with
      cache := w.cache.addAllocated ci.cluster.uid uid } := by
  obtain ⟨c₀, hc₀, hu₀, hnn₀⟩ := h.stored_of_feasible hci hfe
  have hco : (w.cache.addAllocated ci.cluster.uid uid).copies = w.cache.copies :=
    copies_addAllocated ..
  have hdp : ∀ d' ∈ (w.assign uid ci.cluster.nn).dpus,
      (d'.uid = uid ∧ d'.cluster = ci.cluster.nn) ∨ (d'.uid ≠ uid ∧ d' ∈ w.dpus) := by
    intro d' hd'
    obtain ⟨d, hd, rfl⟩ := mem_map.mp hd'
    split_ifs with heq
    · exact .inl ⟨heq, rfl⟩
    · exact .inr ⟨heq, hd⟩
  have hui : (w.assign uid ci.cluster.nn).dpus.map DPU.uid = w.dpus.map DPU.uid := by
    simp only [World.assign, map_map]
    refine map_congr_left fun d _ => ?_
    dsimp only [Function.comp]
    split_ifs <;> rfl
  -- A stored cluster that the DPU names is the one of the entry.
  have hsa : ∀ c ∈ w.clusters, c.nn = ci.cluster.nn → c = c₀ :=
    fun c hc hnn => h.clusters.nn c hc c₀ hc₀ (hnn.trans hnn₀.symm)
  refine ⟨?_, ?_, ?_, ?_, ?_, ?_, fun hsy => absurd (hs.symm.trans hsy) (by decide), ?_⟩
  · exact hco.symm ▸ h.clusters
  · exact hui.symm ▸ h.nodup
  · intro d' hd'
    have hmem : d'.uid ∈ w.dpus.map DPU.uid := hui ▸ mem_map_of_mem hd'
    obtain ⟨d, hd, hdu⟩ := mem_map.mp hmem
    exact hdu ▸ h.used d hd
  · intro _ ci' hci' c hc hu d' hd' hnm
    obtain ⟨ci₁, hci₁, hclu, hsu, hn⟩ := mem_addAllocated hci'
    rcases hdp d' hd' with ⟨hdu, hdn⟩ | ⟨-, hd⟩
    · obtain rfl := hsa c hc (hnm.cluster.symm.trans hdn)
      rw [hdu]
      exact hn (hu.symm.trans hu₀)
    · exact hsu (h.recorded hs ci₁ hci₁ c hc (by rw [hclu, hu]) d' hd hnm)
  · intro _ c hc d' hd' hnm
    rcases hdp d' hd' with ⟨-, hdn⟩ | ⟨-, hd⟩
    · obtain rfl := hsa c hc (hnm.cluster.symm.trans hdn)
      exact ⟨ci.cluster, hco ▸ mem_copies hci, hu₀.symm⟩
    · obtain ⟨dc, hdc, hu⟩ := h.registered hs c hc d' hd hnm
      exact ⟨dc, hco ▸ hdc, hu⟩
  · intro nn dc hdc hst d' hd' hd'deleting hclu
    rcases hdp d' hd' with ⟨-, hdn⟩ | ⟨-, hd⟩
    · -- The reconcile of the same cluster would have told the cache about its deletion.
      obtain ⟨c, hc, hu⟩ := hst
      have hclos := ClusterStage.closing_of_vacant hdc
      obtain ⟨hr, hcopy⟩ := h.clusters.read nn dc (ClusterStage.copy_of_closing hclos)
      have hcn : c.nn = ci.cluster.nn := by
        rw [(hcopy.stored c hc hu).1, hr, ← hclu, hdn]
      have hcl := (h.clusters.closing nn dc hclos).2 ci.cluster (mem_copies hci)
        (by rw [← hu₀, ← hsa c hc hcn, hu])
      simp [ClusterInfo.feasible, hcl] at hfe
    · exact h.vacant nn dc hdc hst d' hd hd'deleting hclu
  · intro uid' t' ht'
    change update w.dpuReconciles uid _ uid' = some t' at ht'
    by_cases heq : uid' = uid
    · subst heq
      rw [update_self] at ht'
      cases ht'
      obtain ⟨hsame', hus, -, -⟩ := h.reconcile uid' t ht
      refine ⟨hsame', hus, fun hd => ?_, fun _ _ d' hd' hdu => ?_⟩
      · exact absurd (hdele.symm.trans hd) (by decide)
      · rcases hdp d' hd' with ⟨-, hdn⟩ | ⟨hne, -⟩
        · exact hdn
        · exact absurd hdu hne
    · rw [update_of_ne heq] at ht'
      obtain ⟨hsame', hus, hde, hw⟩ := h.reconcile uid' t' ht'
      refine ⟨hsame', hus, fun hd d' hd' hdu => ?_, fun hf hne d' hd' hdu => ?_⟩
      · rcases hdp d' hd' with ⟨hduid', -⟩ | ⟨-, hd''⟩
        · exact absurd (hdu.symm.trans hduid') heq
        · exact hde hd d' hd'' hdu
      · rcases hdp d' hd' with ⟨hduid', -⟩ | ⟨-, hd''⟩
        · exact absurd (hdu.symm.trans hduid') heq
        · exact hw hf hne d' hd'' hdu

theorem Inv.ensureSynced (h : Inv w) (clustersListed dpusListed : Bool) :
    Inv (w.ensureSynced clustersListed dpusListed) := by
  unfold World.ensureSynced
  split_ifs with hs
  · exact h
  · exact h.syncAssignedDPUs (by simpa using hs) clustersListed dpusListed

theorem syncAssignedDPUs_frame (w : World) (clustersListed dpusListed : Bool) :
    (w.syncAssignedDPUs clustersListed dpusListed).dpuReconciles = w.dpuReconciles ∧
      (w.syncAssignedDPUs clustersListed dpusListed).dpus = w.dpus := by
  unfold World.syncAssignedDPUs
  obtain ⟨lastSaved, heq⟩ := foldl_saveCluster_eq w.clusters w
  split_ifs
  · dsimp only
    rw [foldl_saveDPU_eq, heq]
    exact ⟨rfl, rfl⟩
  · rw [heq]
    exact ⟨rfl, rfl⟩
  · exact ⟨rfl, rfl⟩

theorem ensureSynced_frame (w : World) (clustersListed dpusListed : Bool) :
    (w.ensureSynced clustersListed dpusListed).dpuReconciles = w.dpuReconciles ∧
      (w.ensureSynced clustersListed dpusListed).dpus = w.dpus := by
  unfold World.ensureSynced
  split_ifs
  · exact ⟨rfl, rfl⟩
  · exact syncAssignedDPUs_frame ..

/-- What `Allocate` does: it gives up, its patch fails, or it assigns the DPU to an entry with room
that the selector matches. -/
theorem World.allocate_cases {clustersListed dpusListed patched : Bool} {entries : List ClusterInfo}
    {result : Option NamespacedName}
    (h : w.allocate uid clustersListed dpusListed entries patched = some (w', result)) :
    ∃ t w₁, w.dpuReconciles uid = some t ∧ t.copy.deleting = false ∧
      w₁ = w.ensureSynced clustersListed dpusListed ∧
      ((result = none ∧ w' = w₁.setReconcile uid (some { t with stage := .done })) ∨
        ∃ ci, w₁.synced = true ∧ ci ∈ w₁.cache.clusterInfoMap ∧ ci.feasible = true ∧
          (∃ selector, requirements t.copy.selector = .ok selector ∧
            matchesAll selector ci.cluster.labels = true) ∧
          ((result = none ∧ w' = w₁.setReconcile uid (some { t with
              copy := { t.copy with cluster := ci.cluster.nn }, stage := .done, failed := true })) ∨
            (result = some ci.cluster.nn ∧ w' = { (w₁.assign uid ci.cluster.nn).setReconcile uid
                (some { t with copy := { t.copy with cluster := ci.cluster.nn }, stage := .done })
              with cache := w₁.cache.addAllocated ci.cluster.uid uid }))) := by
  unfold World.allocate at h
  split at h
  · cases h
  · rename_i t ht
    by_cases hsk : (t.stage ≠ .saved || t.copy.deleting || t.copy.cluster.name ≠ "") = true
    · rw [if_pos hsk] at h
      cases h
    rw [if_neg hsk] at h
    have hd : t.copy.deleting = false := by
      simp only [Bool.or_eq_true, not_or, Bool.not_eq_true] at hsk
      exact hsk.1.2
    refine ⟨t, w.ensureSynced clustersListed dpusListed, ht, hd, rfl, ?_⟩
    dsimp only at h
    split_ifs at h with hsy hpe
    · cases h
      exact .inl ⟨rfl, rfl⟩
    · split at h
      · cases h
        exact .inl ⟨rfl, rfl⟩
      · rename_i ci hfo
        obtain ⟨hmem, hf, hs⟩ := getFeasibleClusterBinPacking_ok hfo
        have hm : ci ∈ (w.ensureSynced clustersListed dpusListed).cache.clusterInfoMap :=
          (isPerm_iff.mp (by simpa using hpe)).mem_iff.mp hmem
        refine .inr ⟨ci, by simpa using hsy, hm, hf, hs, ?_⟩
        split_ifs at h with hp
        · cases h
          exact .inr ⟨rfl, rfl⟩
        · cases h
          exact .inl ⟨rfl, rfl⟩

theorem Inv.allocate (h : Inv w) {clustersListed dpusListed patched : Bool}
    {entries : List ClusterInfo} {result : Option NamespacedName}
    (hst : w.allocate uid clustersListed dpusListed entries patched = some (w', result)) :
    Inv w' := by
  obtain ⟨t, w₁, ht, hd, rfl, hc⟩ := World.allocate_cases hst
  have h₁ := h.ensureSynced clustersListed dpusListed
  rw [← (ensureSynced_frame w clustersListed dpusListed).1] at ht
  obtain ⟨-, rfl⟩ | ⟨ci, hs, hci, hfe, -, ⟨-, rfl⟩ | ⟨-, rfl⟩⟩ := hc
  · exact h₁.advanceDPU ht .done
  · refine h₁.setReconcile fun t' ht' => ?_
    cases ht'
    exact { h₁.reconcile uid t ht with written := nofun }
  · exact h₁.assign hs hci hfe ht hd

/-! ## Runs -/

theorem Inv.createDPU (h : Inv w) {d : DPU} (hu : d.uid ∉ w.dpuUIDs) (hn : d.cluster.name = "") :
    Inv { w with dpus := w.dpus ++ [d], dpuUIDs := d.uid :: w.dpuUIDs } := by
  have hold : ∀ d' ∈ w.dpus ++ [d], ∀ c ∈ w.clusters, Names d' c → d' ∈ w.dpus := by
    intro d' hd' c hc hnm
    rcases mem_append.mp hd' with hd' | hd'
    · exact hd'
    · rw [mem_singleton.mp hd'] at hnm
      exact absurd (hnm.cluster ▸ hn) (h.clusters.name c hc)
  refine ⟨h.clusters, ?_, ?_, ?_, ?_, ?_, ?_, ?_⟩
  · rw [map_append]
    refine nodup_append.mpr ⟨h.nodup, nodup_singleton _, ?_⟩
    intro a ha b hb heq
    obtain ⟨d', hd', rfl⟩ := mem_map.mp ha
    have hb' : b = d.uid := by simpa using hb
    exact hu (hb' ▸ heq ▸ h.used d' hd')
  · exact forall_mem_append.mpr ⟨fun d' hd' => mem_cons_of_mem _ (h.used d' hd'),
      forall_mem_singleton.mpr mem_cons_self⟩
  · exact fun hs ci hci c hc hcu d' hd' hnm =>
      h.recorded hs ci hci c hc hcu d' (hold d' hd' c hc hnm) hnm
  · exact fun hs c hc d' hd' hnm => h.registered hs c hc d' (hold d' hd' c hc hnm) hnm
  · intro nn dc hdc hst
    refine forall_mem_append.mpr ⟨h.vacant nn dc hdc hst, forall_mem_singleton.mpr ?_⟩
    intro _ hcl
    obtain ⟨rfl, hco⟩ := h.clusters.read nn dc
      (ClusterStage.copy_of_closing (ClusterStage.closing_of_vacant hdc))
    exact hco.name (hcl ▸ hn)
  · exact fun hs c hc d' hd' hnm => h.sole hs c hc d' (hold d' hd' c hc hnm) hnm
  · intro uid t ht
    obtain ⟨hsa, hus, hd, hw⟩ := h.reconcile uid t ht
    have hne : d.uid ≠ uid := fun heq => hu (heq ▸ hus)
    refine ⟨hsa, mem_cons_of_mem _ hus, fun htd => ?_, fun hf hc => ?_⟩
    · exact forall_mem_append.mpr ⟨hd htd, forall_mem_singleton.mpr (absurd · hne)⟩
    · exact forall_mem_append.mpr ⟨hw hf hc, forall_mem_singleton.mpr (absurd · hne)⟩

theorem Inv.createCluster (h : Inv w) {c : DPUCluster} (hu : c.uid ∉ w.clusterUIDs)
    (hnn : ∀ c' ∈ w.clusters, c'.nn ≠ c.nn) (hn : c.nn.name ≠ "") (hph : c.phase = .pending)
    (hf : ∀ d ∈ w.dpus, ¬ Names d c) :
    Inv { w with clusters := w.clusters ++ [c], clusterUIDs := c.uid :: w.clusterUIDs } := by
  have hold : ∀ c' ∈ w.clusters ++ [c], ∀ d ∈ w.dpus, Names d c' → c' ∈ w.clusters := by
    intro c' hc' d hd hnm
    rcases mem_append.mp hc' with hc' | hc'
    · exact hc'
    · exact absurd (mem_singleton.mp hc' ▸ hnm) (hf d hd)
  refine ⟨h.clusters.concat hu hnn hn hph, h.nodup, h.used, ?_, ?_, ?_, ?_, h.reconcile⟩
  · exact fun hs ci hci c' hc' hcu d hd hnm =>
      h.recorded hs ci hci c' (hold c' hc' d hd hnm) hcu d hd hnm
  · exact fun hs c' hc' d hd hnm => h.registered hs c' (hold c' hc' d hd hnm) d hd hnm
  · intro nn dc hdc hst
    refine h.vacant nn dc hdc ?_
    obtain ⟨c', hc', hcu⟩ := hst
    rcases mem_append.mp hc' with hc' | hc'
    · exact ⟨c', hc', hcu⟩
    · have hc := (h.clusters.read nn dc
        (ClusterStage.copy_of_closing (ClusterStage.closing_of_vacant hdc))).2
      rw [mem_singleton.mp hc'] at hcu
      exact absurd (hcu ▸ hc.uid) hu
  · exact fun hs c' hc' d hd hnm => h.sole hs c' (hold c' hc' d hd hnm) d hd hnm

/-- The copy of the only reconcile of a cluster may be saved. -/
theorem Inv.saveCluster_got (h : Inv w) (hdc : w.clusterReconciles nn = .got dc) :
    Inv (w.saveCluster dc) := by
  have hr : (w.clusterReconciles nn).copy = some dc := by rw [hdc]; rfl
  obtain ⟨hnn, hco⟩ := h.clusters.read nn dc hr
  refine h.saveCluster hco ?_ ?_
  · intro nn' dc' hdc' hu
    obtain rfl := h.clusters.own nn dc hr nn' dc' (ClusterStage.copy_of_closing hdc') hu.symm
    rw [hdc] at hdc'
    cases hdc'
  · intro hs c hc hcn d hd hnm
    exact (h.sole hs c hc d hd hnm).read dc (by rw [hcn, hnn]; exact hr)

/-- The reconcile adds the finalizer to the cluster it has read, and saves it. -/
theorem Inv.saveCluster_finalizer (h : Inv w) (hdc : dc ∈ w.clusters) :
    Inv ((w.updateCluster dc.uid fun c => { c with finalizer := true }).saveCluster
      { dc with finalizer := true }) := by
  have h₁ : Inv (w.updateCluster dc.uid fun c => { c with finalizer := true }) :=
    h.updateCluster (fun c => ⟨rfl, rfl, id⟩) (fun _ _ _ _ => .inr rfl)
      fun _ _ _ _ => .inl rfl
  refine h₁.saveCluster_stored (mem_map.mpr ⟨dc, hdc, ?_⟩)
  rw [if_pos rfl]

theorem Inv.finishCluster (h : Inv w) (hdc : w.clusterReconciles nn = .removed dc)
    (hs : dc ∈ w.clusters) :
    Inv (w.updateCluster dc.uid fun c => { c with finalizer := false }) := by
  have hclos : (w.clusterReconciles nn).closing = some dc := by rw [hdc]; rfl
  have hr := ClusterStage.copy_of_closing hclos
  obtain ⟨hd, hcl⟩ := h.clusters.closing nn dc hclos
  refine h.updateCluster (fun c => ⟨rfl, rfl, id⟩) ?_ ?_
  · intro c hc hu _
    obtain rfl := h.clusters.uid c hc dc hs hu
    exact .inl hd
  · intro c hc hu _
    refine .inr ⟨hcl, fun nn' dc' hdc' huid' => ?_⟩
    obtain rfl := h.clusters.own nn dc hr nn' dc' hdc' huid'
    cases hr.symm.trans hdc'
    exact hd

theorem Inv.releaseDPU (h : Inv w) (ht : w.dpuReconciles uid = some t)
    (hdele : t.copy.deleting = true) : Inv { w with cache := w.cache.releaseDPU t.copy } := by
  obtain ⟨hs, -, hde, -⟩ := h.reconcile uid t ht
  refine h.withCache (copies_releaseDPU t.copy)
    (idxByName_releaseDPU t.copy) ?_
  intro ci hci
  obtain ⟨ci₀, hci₀, hc, hk⟩ := mem_releaseDPU hci
  refine ⟨ci₀, hci₀, hc, fun d hd hd' hmem => hk d.uid hmem fun heq => ?_⟩
  simp [hde hdele d hd (heq.trans hs)] at hd'

theorem Inv.finishDPU (h : Inv w) (ht : w.dpuReconciles uid = some t) (hf : t.failed = false)
    (hne : t.copy.cluster ≠ t.base.cluster) : Inv (w.assign uid t.copy.cluster) := by
  -- The patch inside `Allocate` has already written the cluster.
  have hs : (w.assign uid t.copy.cluster).dpus = w.dpus := by
    refine (map_congr_left fun d hd => ?_).trans (map_id w.dpus)
    split_ifs with hu
    · rw [← (h.reconcile uid t ht).written hf hne d hd hu]
      rfl
    · rfl
  have hw : w.assign uid t.copy.cluster = { w with dpus := (w.assign uid t.copy.cluster).dpus } :=
    rfl
  rw [hw, hs]
  exact h

theorem Inv.step {e : Event} (h : Inv w) (hall : w.allowed e = true) (hs : Step w e w') :
    Inv w' := by
  cases e with simp only [Step, World.exec] at hs
  | createDPU d =>
    split_ifs at hs with hsk
    cases hs
    simp only [Bool.or_eq_true, decide_eq_true_eq, not_or] at hsk
    exact h.createDPU hsk.1 (by simpa [World.allowed] using hall)
  | deleteDPU uid =>
    cases hs
    refine h.withDPUs ?_ ?_
    · rw [map_map]
      refine (map_congr_left fun d _ => ?_) ▸ h.nodup
      dsimp only [Function.comp]
      split_ifs <;> rfl
    · intro d' hd'
      obtain ⟨d, hd, rfl⟩ := mem_map.mp hd'
      refine ⟨d, hd, ?_⟩
      split_ifs
      · exact ⟨rfl, rfl, fun _ => rfl⟩
      · exact ⟨rfl, rfl, id⟩
  | purgeDPU uid =>
    cases hs
    refine h.withDPUs (h.nodup.sublist (filter_sublist.map _)) ?_
    exact fun d' hd' => ⟨d', (mem_filter.mp hd').1, rfl, rfl, id⟩
  | createCluster c =>
    split_ifs at hs with hsk
    cases hs
    simp only [Bool.or_eq_true, decide_eq_true_eq, not_or, Bool.not_eq_true, any_eq_false,
      not_not] at hsk
    obtain ⟨⟨⟨⟨hu, hnn⟩, hn⟩, hph⟩, -⟩ := hsk
    refine h.createCluster hu (fun c' hc' => by simpa using hnn c' hc') hn hph ?_
    intro d hd hnm
    have hfr : ∀ d ∈ w.dpus, d.deleting = false → d.cluster ≠ c.nn := by
      simpa [World.allowed] using hall
    exact hfr d hd hnm.deleting hnm.cluster
  | editCluster uid labels maxNodes =>
    cases hs
    exact h.updateCluster (fun c => ⟨rfl, rfl, id⟩) (fun c hc _ => (h.clusters.stored c hc).2)
      fun c hc _ hf => .inl hf
  | setPhase uid phase =>
    cases hs
    refine h.updateCluster (fun c => ?_) (fun c hc _ => ?_) fun c hc _ hf => .inl ?_
    · split_ifs
      · exact ⟨rfl, rfl, id⟩
      · exact ⟨rfl, rfl, id⟩
    · split_ifs with hfi
      · exact fun _ => .inr hfi
      · exact (h.clusters.stored c hc).2
    · rw [if_pos hf]
      exact hf
  | deleteCluster uid =>
    cases hs
    exact h.updateCluster (fun c => ⟨rfl, rfl, fun _ => rfl⟩) (fun _ _ _ _ => .inl rfl)
      fun c hc _ hf => .inl hf
  | purgeCluster uid =>
    cases hs
    refine h.withClusters (h.clusters.filter fun c hf => by simp [hf]) ?_
    exact fun c' hc' => ⟨c', (mem_filter.mp hc').1, rfl, rfl⟩
  | getCluster nn =>
    split at hs
    · rename_i dc hi hfind
      cases hs
      have hdc : dc ∈ w.clusters := mem_of_find?_eq_some hfind
      have hnn : dc.nn = nn := by simpa using find?_some hfind
      refine h.setStage ?_ nofun nofun ?_ ?_
      · intro dc' hdc'
        cases hdc'
        exact ⟨hnn, h.clusters.isCopy hdc⟩
      · intro dc' hdc' _ c hc hcn d hd hnm
        cases hdc'
        rw [h.clusters.nn c hc dc hdc (hcn.trans hnn.symm)]
      · intro dc' hdc' nn' dc'' hdc'' hu
        cases hdc'
        obtain ⟨hnn', hco⟩ := h.clusters.read nn' dc'' hdc''
        rw [← hnn', ← hnn, (hco.stored dc hdc hu.symm).1]
    · cases hs
  | saveCluster nn updated =>
    split at hs
    · rename_i dc hdc
      have hr : (w.clusterReconciles nn).copy = some dc := by rw [hdc]; rfl
      split_ifs at hs with hde hfi hup
      · cases hs
        refine (h.saveCluster_got hdc).advance hr rfl ⟨hde, ?_⟩ nofun
        intro dc' hdc' hu
        rcases mem_copies_saveCluster.mp hdc' with rfl | ⟨-, hne⟩
        · exact hde
        · exact absurd hu hne
      · cases hs
        exact (h.saveCluster_got hdc).setIdle nn
      · cases hs
        refine (h.saveCluster_finalizer ?_).setIdle nn
        simpa using (Bool.and_eq_true_iff.mp hup).2
      · cases hs
        exact h.setIdle nn
    · cases hs
  | listDPUs nn =>
    split at hs
    · rename_i dc hdc
      have hclos : (w.clusterReconciles nn).closing = some dc := by rw [hdc]; rfl
      split_ifs at hs with ha
      · cases hs
        exact h.setIdle nn
      · cases hs
        refine h.advance (ClusterStage.copy_of_closing hclos) rfl
          (h.clusters.closing nn dc hclos) ?_
        intro _ _ _ d hd _ hclu
        exact ha (any_eq_true.mpr ⟨d, hd, decide_eq_true hclu⟩)
    · cases hs
  | removeCluster nn =>
    split at hs
    · rename_i dc hdc
      cases hs
      have hclos : (w.clusterReconciles nn).closing = some dc := by rw [hdc]; rfl
      obtain ⟨hde, hcl⟩ := h.clusters.closing nn dc hclos
      refine (h.removeCluster hdc).advance (ClusterStage.copy_of_closing hclos) rfl
        ⟨hde, ?_⟩ ?_
      · exact fun dc' hdc' => hcl dc' (mem_copies_removeCluster.mp hdc').1
      · intro dc' hdc'
        have hv : (w.clusterReconciles nn).vacant = some dc' := by rw [hdc]; exact hdc'
        exact h.vacant nn dc' hv
    · cases hs
  | finishCluster nn updated =>
    split at hs
    · rename_i dc hdc
      split_ifs at hs with hup
      · cases hs
        refine (h.finishCluster hdc ?_).setIdle nn
        simpa using (Bool.and_eq_true_iff.mp hup).2
      · cases hs
        exact h.setIdle nn
    · cases hs
  | getDPU uid =>
    split at hs
    · rename_i d hno hfind
      cases hs
      have hd : d ∈ w.dpus := mem_of_find?_eq_some hfind
      have hu : d.uid = uid := by simpa using find?_some hfind
      refine h.setReconcile fun t' ht' => ?_
      cases ht'
      refine ⟨hu, hu ▸ h.used d hd, fun hde d' hd' huid' => ?_, fun _ hne => absurd rfl hne⟩
      have hsa : d' = d := inj_on_of_nodup_map h.nodup hd' hd (huid'.trans hu.symm)
      rw [hsa]
      exact hde
    · cases hs
  | saveAssignedDPU uid =>
    split at hs
    · rename_i t ht
      split_ifs at hs
      cases hs
      exact (h.saveDPU t.copy).advanceDPU ht .saved
    · cases hs
  | allocate uid clustersListed dpusListed entries patched =>
    obtain ⟨⟨w₁, result⟩, hst, rfl⟩ := Option.map_eq_some_iff.mp hs
    exact h.allocate hst
  | releaseDPU uid =>
    split at hs
    · rename_i t ht
      split_ifs at hs with hstg
      cases hs
      exact (h.releaseDPU ht (Bool.and_eq_true_iff.mp hstg).2).advanceDPU ht .done
    · cases hs
  | finishDPU uid patched =>
    split at hs
    · rename_i t ht
      split_ifs at hs with hp
      · cases hs
        simp only [Bool.and_eq_true, decide_eq_true_eq] at hp
        have hfa : t.failed = false := by
          simpa [World.allowed, ht, hp.1.1] using hall
        exact (h.finishDPU ht hfa hp.1.2).setReconcile nofun
      · cases hs
        exact h.setReconcile nofun
    · cases hs

/-- The DPUs that are assigned to a stored cluster are in its entry, so they are no more than it
has. -/
theorem Inv.assignedDPUs_length_le (h : Inv w) (hs : w.synced = true)
    (hci : ci ∈ w.cache.clusterInfoMap) (hf : ci.feasible = true) (uid : ℕ) :
    (w.assignedDPUs ci.cluster.nn uid).length ≤ ci.dpus.length := by
  obtain ⟨c, hc, hu, hnn⟩ := h.stored_of_feasible hci hf
  have hnd : ((w.assignedDPUs ci.cluster.nn uid).map DPU.uid).Nodup :=
    h.nodup.sublist (filter_sublist.map _)
  have hsu : (w.assignedDPUs ci.cluster.nn uid).map DPU.uid ⊆ ci.dpus := by
    intro x hx
    obtain ⟨d, hd, rfl⟩ := mem_map.mp hx
    obtain ⟨hd, hk⟩ := mem_filter.mp hd
    simp only [Bool.and_eq_true, Bool.not_eq_true', decide_eq_true_eq] at hk
    exact h.recorded hs ci hci c hc hu d hd ⟨hk.1.1, hk.1.2.trans hnn.symm⟩
  simpa using (subperm_of_subset hnd hsu).length_le

theorem assignedDPUs_assign (w : World) (uid : ℕ) (nn nn' : NamespacedName) :
    (w.assign uid nn).assignedDPUs nn' uid = w.assignedDPUs nn' uid := by
  unfold World.assignedDPUs World.assign
  rw [filter_map]
  have hk : ∀ d ∈ w.dpus, ((fun d : DPU => !d.deleting && decide (d.cluster = nn') &&
      decide (d.uid ≠ uid)) ∘ fun d => if d.uid = uid then { d with cluster := nn } else d) d =
      (!d.deleting && decide (d.cluster = nn') && decide (d.uid ≠ uid)) := by
    intro d _
    dsimp only [Function.comp]
    split_ifs with heq
    · simp [heq]
    · rfl
  rw [filter_congr hk]
  refine (map_congr_left fun d hd => ?_).trans (map_id _)
  have hne : d.uid ≠ uid := by
    have := (mem_filter.mp hd).2
    simp only [Bool.and_eq_true, decide_eq_true_eq] at this
    exact this.2
  rw [if_neg hne]
  rfl

/-- In a run in which DPUs get their clusters through the cache, `Allocate` assigns a DPU only to a
cluster that has room for it and that is ready, not being deleted and matched by the selector of
the DPU in the copy that was saved last. -/
theorem allocation_within_capacity {w w' : World} {uid : ℕ}
    {clustersListed dpusListed patched : Bool} {entries : List ClusterInfo} {nn : NamespacedName}
    (hreach : Reachable Init (Restrict (fun w e => w.allowed e = true) Step) w)
    (hstep : w.allocate uid clustersListed dpusListed entries patched = some (w', some nn)) :
    ∃ c t selector, w'.lastSaved c.uid = some c ∧ c.nn = nn ∧ w.dpuReconciles uid = some t ∧
      requirements t.copy.selector = .ok selector ∧ matchesAll selector c.labels = true ∧
      c.phase = .ready ∧ c.deleting = false ∧ (w'.assignedDPUs nn uid).length < c.maxNodes := by
  have hinv : Inv w :=
    hreach.invariant (fun _ hi => hi.inv) fun _ _ _ _ hinv hs => hinv.step hs.1 hs.2
  obtain ⟨t, w₁, ht, -, rfl, hc⟩ := World.allocate_cases hstep
  have h₁ := hinv.ensureSynced clustersListed dpusListed
  obtain ⟨hn, -⟩ | ⟨ci, hs, hci, hf, ⟨selector, hse, hm⟩, ⟨hn, -⟩ | ⟨hre, rfl⟩⟩ := hc
  · cases hn
  · cases hn
  · cases hre
    have hle := h₁.assignedDPUs_length_le hs hci hf uid
    simp only [ClusterInfo.feasible, Bool.and_eq_true, Bool.not_eq_true', decide_eq_true_eq]
      at hf
    obtain ⟨⟨hd, hr⟩, hro⟩ := hf
    refine ⟨ci.cluster, t, selector, (h₁.clusters.cached _ (mem_copies hci)).2, rfl,
      ht, hse, hm, hr, hd, ?_⟩
    change ((World.assign _ uid ci.cluster.nn).assignedDPUs ci.cluster.nn uid).length < _
    rw [assignedDPUs_assign]
    exact lt_of_le_of_lt hle hro

def sampleCluster (maxNodes : ℕ) : DPUCluster :=
  ⟨1, ⟨"dpf-operator-system", "tenant"⟩, [("site", "a")], maxNodes, .ready, true, false⟩

def sampleDPU (uid : ℕ) : DPU := ⟨uid, ⟨"", ""⟩, some ⟨[("site", "a")], []⟩, false⟩

def sampleWorld (maxNodes : ℕ) : World where
  dpus := [sampleDPU 1, sampleDPU 2]
  dpuUIDs := [1, 2]
  clusters := [sampleCluster maxNodes]
  clusterUIDs := [1]
  cache := newCache
  synced := false
  lastSaved := fun _ => none
  clusterReconciles := fun _ => .idle
  dpuReconciles := fun _ => none

theorem sampleWorld_init (maxNodes : ℕ) : Init (sampleWorld maxNodes) where
  dpuUIDs := by simp [sampleWorld, sampleDPU]
  clusterUIDs := by simp [sampleWorld, sampleCluster]
  uid := by simp [sampleWorld]
  nn := by simp [sampleWorld]
  name := by simp [sampleWorld, sampleCluster]
  ready := by simp [sampleWorld, sampleCluster]
  cache := rfl
  synced := rfl
  clusterReconciles := rfl
  dpuReconciles := rfl

/-- The first DPU is reconciled, and the second one is about to be assigned. -/
def oneAfterTheOther (maxNodes : ℕ) (patched : Bool) : List Event :=
  [.getDPU 1, .saveAssignedDPU 1, .allocate 1 true true [⟨sampleCluster maxNodes, []⟩] patched,
    .finishDPU 1 true, .getDPU 2, .saveAssignedDPU 2]

/-- With room for two DPUs the second one is assigned next to the first one. -/
theorem second_dpu_within_capacity :
    ∃ w w', Reachable Init (Restrict (fun w e => w.allowed e = true) Step) w ∧
      w.allocate 2 true true [⟨sampleCluster 2, [1]⟩] true = some (w', some (sampleCluster 2).nn) ∧
      ∃ c t selector, w'.lastSaved c.uid = some c ∧ c.nn = (sampleCluster 2).nn ∧
        w.dpuReconciles 2 = some t ∧
        requirements t.copy.selector = .ok selector ∧ matchesAll selector c.labels = true ∧
        c.phase = .ready ∧ c.deleting = false ∧
        (w'.assignedDPUs (sampleCluster 2).nn 2).length < c.maxNodes := by
  obtain ⟨w, hr, hw⟩ := Reachable.exists_of_runIf (sampleWorld_init 2) World.allowed World.exec
    (oneAfterTheOther 2 true)
    (fun w => (w.allocate 2 true true [⟨sampleCluster 2, [1]⟩] true).map Prod.snd)
    (some (some (sampleCluster 2).nn)) (by decide +kernel)
  obtain ⟨⟨w', result⟩, hs, rfl⟩ := Option.map_eq_some_iff.mp hw
  exact ⟨w, w', hr, hs, allocation_within_capacity hr hs⟩

/-- The cluster of the first DPU is written by the deferred patch after `Allocate` failed to write
it: it is not in the cache, and the second DPU takes the only place as well. -/
theorem deferred_patch_exceeds_capacity :
    ∃ w w' c, Reachable Init Step w ∧
      w.allocate 2 true true [⟨c, []⟩] true = some (w', some c.nn) ∧
      w'.lastSaved c.uid = some c ∧ ¬ (w'.assignedDPUs c.nn 2).length < c.maxNodes := by
  obtain ⟨w, hr, hw⟩ := Reachable.exists_of_run (sampleWorld_init 1) World.exec
    (oneAfterTheOther 1 false)
    (fun w => (w.allocate 2 true true [⟨sampleCluster 1, []⟩] true).map fun r =>
      (r.2, r.1.lastSaved 1, (r.1.assignedDPUs (sampleCluster 1).nn 2).length))
    (some (some (sampleCluster 1).nn, some (sampleCluster 1), 1)) (by decide +kernel)
  obtain ⟨⟨w', result⟩, hst, ho⟩ := Option.map_eq_some_iff.mp hw
  simp only [Prod.mk.injEq] at ho
  obtain ⟨rfl, hs, hl⟩ := ho
  exact ⟨w, w', sampleCluster 1, hr, hst, hs, by rw [hl]; decide⟩

end DocaPlatform.ClusterCapacity
