import Mathlib.Data.List.Perm.Subperm
import Mathlib.Data.Rat.Defs
import Mathlib.Algebra.Order.Field.Rat
import DocaPlatform.LabelSelectors

/-!
# The allocator of DPUClusters

The cache from which `Allocate` picks a DPUCluster for a DPU: the clusters with the DPUs that are
assigned to them, by UID, and an index of the same entries by name.
-/
namespace DocaPlatform.ClusterAllocator

open LabelSelectors List Function

/-- `types.NamespacedName`. -/
structure NamespacedName where
  ns : String
  name : String
  deriving DecidableEq, Repr

inductive ClusterPhase where
  | pending
  | creating
  | ready
  | notReady
  | failed
  deriving DecidableEq, Repr

/-- `DPUCluster`, with the finalizer of the DPUCluster controller. -/
structure DPUCluster where
  uid : ℕ
  nn : NamespacedName
  labels : Labels
  maxNodes : ℕ
  phase : ClusterPhase
  finalizer : Bool
  deleting : Bool
  deriving DecidableEq, Repr

/-- `DPU`, as far as it is assigned to a cluster; an empty name stands for none. -/
structure DPU where
  uid : ℕ
  cluster : NamespacedName
  selector : Option LabelSelector
  deleting : Bool
  deriving DecidableEq, Repr

/-- `ClusterInfo`, with the UIDs of its DPUs. -/
structure ClusterInfo where
  cluster : DPUCluster
  dpus : List ℕ
  deriving DecidableEq, Repr

/-- `ClusterCache`. The index holds the UIDs of the entries it points to. -/
structure ClusterCache where
  clusterInfoMap : List ClusterInfo
  idxByName : NamespacedName → Option ℕ

def newCache : ClusterCache := ⟨[], fun _ => none⟩

namespace ClusterCache

variable (c : ClusterCache)

/-- `addAllocated` of the entry with this UID. -/
def addAllocated (cluster dpu : ℕ) : ClusterCache :=
  { c with clusterInfoMap := c.clusterInfoMap.map fun ci =>
      if ci.cluster.uid = cluster then { ci with dpus := ci.dpus.insert dpu } else ci }

def saveDPU (dpu : DPU) : ClusterCache :=
  if dpu.deleting || dpu.cluster.name = "" then c
  else match c.idxByName dpu.cluster with
    | none => c
    | some cluster => c.addAllocated cluster dpu.uid

def saveCluster (dc : DPUCluster) : ClusterCache :=
  if c.clusterInfoMap.any (·.cluster.uid = dc.uid) then
    { c with clusterInfoMap := c.clusterInfoMap.map fun ci =>
        if ci.cluster.uid = dc.uid then { ci with cluster := dc } else ci }
  else
    { clusterInfoMap := c.clusterInfoMap ++ [⟨dc, []⟩]
      idxByName := update c.idxByName dc.nn (some dc.uid) }

def removeCluster (dc : DPUCluster) : ClusterCache where
  clusterInfoMap := c.clusterInfoMap.filter (·.cluster.uid ≠ dc.uid)
  idxByName := update c.idxByName dc.nn none

def releaseDPU (dpu : DPU) : ClusterCache :=
  match c.idxByName dpu.cluster with
  | none => c
  | some cluster =>
    { c with clusterInfoMap := c.clusterInfoMap.map fun ci =>
        if ci.cluster.uid = cluster then { ci with dpus := ci.dpus.filter (· ≠ dpu.uid) } else ci }

end ClusterCache

/-- The checks on one entry in the loop of `getFeasibleClusterBinPacking`. -/
def ClusterInfo.feasible (ci : ClusterInfo) : Bool :=
  !ci.cluster.deleting && ci.cluster.phase = .ready && ci.dpus.length < ci.cluster.maxNodes

def ClusterInfo.ratio (ci : ClusterInfo) : ℚ := ci.dpus.length / ci.cluster.maxNodes

/-- The loop of `getFeasibleClusterBinPacking` over the entries that the selector matches. -/
def binPack : Option ClusterInfo → ℚ → List ClusterInfo → Option ClusterInfo
  | bestCluster, _, [] => bestCluster
  | bestCluster, maxRatio, ci :: rest =>
    if ci.feasible && maxRatio < ci.ratio then binPack (some ci) ci.ratio rest
    else binPack bestCluster maxRatio rest

/-- `getFeasibleClusterBinPacking`, over the entries in the order in which the map yields them. -/
def getFeasibleClusterBinPacking (entries : List ClusterInfo)
    (labelSelector : Option LabelSelector) : Except String ClusterInfo :=
  match requirements labelSelector with
  | .error e => .error ("failed to parse label selector: " ++ e)
  | .ok selector =>
    match binPack none (-1) (entries.filter fun ci => matchesAll selector ci.cluster.labels) with
    | some ci => .ok ci
    | none => .error "no feasible cluster found"

theorem binPack_mem {best : Option ClusterInfo} {maxRatio : ℚ} {entries : List ClusterInfo}
    {ci : ClusterInfo} (h : binPack best maxRatio entries = some ci) :
    best = some ci ∨ (ci ∈ entries ∧ ci.feasible = true) := by
  induction entries generalizing best maxRatio with
  | nil => exact .inl h
  | cons a rest ih =>
    unfold binPack at h
    split_ifs at h with ha
    · rcases ih h with heq | ⟨hmem, hf⟩
      · cases heq
        exact .inr ⟨mem_cons_self, (Bool.and_eq_true_iff.mp ha).1⟩
      · exact .inr ⟨mem_cons_of_mem a hmem, hf⟩
    · rcases ih h with heq | ⟨hmem, hf⟩
      · exact .inl heq
      · exact .inr ⟨mem_cons_of_mem a hmem, hf⟩

/-- The chosen entry is one of the cache with room for a DPU that the selector matches. -/
theorem getFeasibleClusterBinPacking_ok {entries : List ClusterInfo}
    {labelSelector : Option LabelSelector} {ci : ClusterInfo}
    (h : getFeasibleClusterBinPacking entries labelSelector = .ok ci) :
    ci ∈ entries ∧ ci.feasible = true ∧
      ∃ selector, requirements labelSelector = .ok selector ∧
        matchesAll selector ci.cluster.labels = true := by
  unfold getFeasibleClusterBinPacking at h
  split at h
  · cases h
  · rename_i selector hs
    split at h
    · rename_i ci' hp
      cases h
      obtain ⟨hmem, hf⟩ := (binPack_mem hp).resolve_left (by simp)
      obtain ⟨he, hm⟩ := mem_filter.mp hmem
      exact ⟨he, hf, selector, hs, hm⟩
    · cases h

/-! ## The copies in the cache -/

namespace ClusterCache

variable {c : ClusterCache}

def copies (c : ClusterCache) : List DPUCluster := c.clusterInfoMap.map ClusterInfo.cluster

variable {ci : ClusterInfo} {dc : DPUCluster}

theorem mem_copies (h : ci ∈ c.clusterInfoMap) : ci.cluster ∈ c.copies :=
  mem_map_of_mem h

@[simp] theorem copies_addAllocated (cluster dpu : ℕ) :
    (c.addAllocated cluster dpu).copies = c.copies := by
  unfold copies addAllocated
  rw [map_map]
  refine map_congr_left fun ci _ => ?_
  dsimp only [Function.comp]
  split_ifs <;> rfl

@[simp] theorem copies_saveDPU (dpu : DPU) : (c.saveDPU dpu).copies = c.copies := by
  unfold saveDPU
  split_ifs
  · rfl
  · split
    · rfl
    · exact copies_addAllocated ..

@[simp] theorem idxByName_saveDPU (dpu : DPU) : (c.saveDPU dpu).idxByName = c.idxByName := by
  unfold saveDPU
  split_ifs
  · rfl
  · split <;> rfl

@[simp] theorem copies_releaseDPU (dpu : DPU) : (c.releaseDPU dpu).copies = c.copies := by
  unfold releaseDPU
  split
  · rfl
  · unfold copies
    rw [map_map]
    refine map_congr_left fun ci _ => ?_
    dsimp only [Function.comp]
    split_ifs <;> rfl

@[simp] theorem idxByName_releaseDPU (dpu : DPU) : (c.releaseDPU dpu).idxByName = c.idxByName := by
  unfold releaseDPU
  split <;> rfl

theorem mem_copies_saveCluster {dc' : DPUCluster} :
    dc' ∈ (c.saveCluster dc).copies ↔ dc' = dc ∨ (dc' ∈ c.copies ∧ dc'.uid ≠ dc.uid) := by
  unfold saveCluster copies
  split_ifs with ha
  · obtain ⟨known, hk, hu⟩ := any_eq_true.mp ha
    have hu : known.cluster.uid = dc.uid := of_decide_eq_true hu
    constructor
    · intro h
      obtain ⟨ci', hci', rfl⟩ := mem_map.mp h
      obtain ⟨ci, hci, rfl⟩ := mem_map.mp hci'
      split_ifs with heq
      · exact .inl rfl
      · exact .inr ⟨mem_map_of_mem hci, heq⟩
    · rintro (rfl | ⟨h, hne⟩)
      · exact mem_map.mpr ⟨_, mem_map_of_mem hk, by rw [if_pos hu]⟩
      · obtain ⟨ci, hci, rfl⟩ := mem_map.mp h
        exact mem_map.mpr ⟨_, mem_map_of_mem hci, by rw [if_neg hne]⟩
  · have hne : ∀ ci ∈ c.clusterInfoMap, ci.cluster.uid ≠ dc.uid := by
      intro ci hci heq
      exact ha (any_eq_true.mpr ⟨ci, hci, decide_eq_true heq⟩)
    constructor
    · intro h
      obtain ⟨ci, hci, rfl⟩ := mem_map.mp h
      rcases mem_append.mp hci with hci | hci
      · exact .inr ⟨mem_map_of_mem hci, hne ci hci⟩
      · exact .inl (by rw [mem_singleton.mp hci])
    · rintro (rfl | ⟨h, -⟩)
      · exact mem_map.mpr
          ⟨⟨dc', []⟩, mem_append_right _ (mem_singleton.mpr rfl), rfl⟩
      · obtain ⟨ci, hci, rfl⟩ := mem_map.mp h
        exact mem_map_of_mem (mem_append_left _ hci)

/-- A save writes the index only for an entry that is new. -/
theorem idxByName_saveCluster (dc : DPUCluster) (nn : NamespacedName) :
    (c.saveCluster dc).idxByName nn = c.idxByName nn ∨
      (nn = dc.nn ∧ (c.saveCluster dc).idxByName nn = some dc.uid) := by
  unfold saveCluster
  split_ifs with ha
  · exact .inl rfl
  · by_cases hnn : nn = dc.nn
    · subst hnn
      exact .inr ⟨rfl, update_self ..⟩
    · exact .inl (update_of_ne hnn ..)

theorem idxByName_saveCluster_new (h : ∀ dc' ∈ c.copies, dc'.uid ≠ dc.uid) :
    (c.saveCluster dc).idxByName dc.nn = some dc.uid := by
  unfold saveCluster
  split_ifs with ha
  · obtain ⟨ci, hci, hu⟩ := any_eq_true.mp ha
    exact absurd (of_decide_eq_true hu) (h _ (mem_copies hci))
  · exact update_self ..

/-- The DPUs of the entries stay in a save of a cluster; an entry that is new has none. -/
theorem mem_saveCluster (h : ci ∈ (c.saveCluster dc).clusterInfoMap) :
    (∃ ci₀ ∈ c.clusterInfoMap, ci₀.cluster.uid = ci.cluster.uid ∧ ci₀.dpus = ci.dpus) ∨
      (ci.cluster.uid = dc.uid ∧ ∀ dc' ∈ c.copies, dc'.uid ≠ dc.uid) := by
  unfold saveCluster at h
  split_ifs at h with ha
  · obtain ⟨ci₀, hci₀, rfl⟩ := mem_map.mp h
    refine .inl ⟨ci₀, hci₀, ?_⟩
    split_ifs with heq
    · exact ⟨heq, rfl⟩
    · exact ⟨rfl, rfl⟩
  · rcases mem_append.mp h with h | h
    · exact .inl ⟨ci, h, rfl, rfl⟩
    · refine .inr ⟨by rw [mem_singleton.mp h], ?_⟩
      intro dc' hdc' heq
      obtain ⟨ci', hci', rfl⟩ := mem_map.mp hdc'
      exact ha (any_eq_true.mpr ⟨ci', hci', decide_eq_true heq⟩)

theorem mem_copies_removeCluster {dc' : DPUCluster} :
    dc' ∈ (c.removeCluster dc).copies ↔ dc' ∈ c.copies ∧ dc'.uid ≠ dc.uid := by
  unfold copies removeCluster
  constructor
  · intro h
    obtain ⟨ci, hci, rfl⟩ := mem_map.mp h
    obtain ⟨hmem, hne⟩ := mem_filter.mp hci
    exact ⟨mem_map_of_mem hmem, of_decide_eq_true hne⟩
  · rintro ⟨h, hne⟩
    obtain ⟨ci, hci, rfl⟩ := mem_map.mp h
    exact mem_map_of_mem (mem_filter.mpr ⟨hci, decide_eq_true hne⟩)

theorem mem_addAllocated {cluster dpu : ℕ} (h : ci ∈ (c.addAllocated cluster dpu).clusterInfoMap) :
    ∃ ci₀ ∈ c.clusterInfoMap, ci₀.cluster = ci.cluster ∧ ci₀.dpus ⊆ ci.dpus ∧
      (ci.cluster.uid = cluster → dpu ∈ ci.dpus) := by
  obtain ⟨ci₀, hci₀, rfl⟩ := mem_map.mp h
  refine ⟨ci₀, hci₀, ?_⟩
  split_ifs with heq
  · exact ⟨rfl, fun x hx => mem_insert_of_mem hx, fun _ => mem_insert_self⟩
  · exact ⟨rfl, fun x hx => hx, fun h => absurd h heq⟩

theorem mem_saveDPU {dpu : DPU} (h : ci ∈ (c.saveDPU dpu).clusterInfoMap) :
    ∃ ci₀ ∈ c.clusterInfoMap, ci₀.cluster = ci.cluster ∧ ci₀.dpus ⊆ ci.dpus ∧
      (dpu.deleting = false → dpu.cluster.name ≠ "" →
        c.idxByName dpu.cluster = some ci.cluster.uid → dpu.uid ∈ ci.dpus) := by
  unfold saveDPU at h
  split_ifs at h with hs
  · refine ⟨ci, h, rfl, fun x hx => hx, fun hd hn _ => ?_⟩
    simp [hd, hn] at hs
  · split at h
    · rename_i hno
      exact ⟨ci, h, rfl, fun x hx => hx, fun _ _ hi => absurd (hno.symm.trans hi) (by simp)⟩
    · rename_i cluster hi
      obtain ⟨ci₀, hci₀, hc, hsu, hnew⟩ := mem_addAllocated h
      refine ⟨ci₀, hci₀, hc, hsu, fun _ _ heq => hnew ?_⟩
      exact (Option.some.inj (hi.symm.trans heq)).symm

theorem mem_releaseDPU {dpu : DPU} (h : ci ∈ (c.releaseDPU dpu).clusterInfoMap) :
    ∃ ci₀ ∈ c.clusterInfoMap, ci₀.cluster = ci.cluster ∧
      ∀ x ∈ ci₀.dpus, x ≠ dpu.uid → x ∈ ci.dpus := by
  unfold releaseDPU at h
  split at h
  · exact ⟨ci, h, rfl, fun x hx _ => hx⟩
  · obtain ⟨ci₀, hci₀, rfl⟩ := mem_map.mp h
    refine ⟨ci₀, hci₀, ?_⟩
    split_ifs
    · exact ⟨rfl, fun x hx hne => mem_filter.mpr ⟨hx, decide_eq_true hne⟩⟩
    · exact ⟨rfl, fun x hx _ => hx⟩

end ClusterCache

end DocaPlatform.ClusterAllocator
