import DocaPlatform.SriovPlan
import DocaPlatform.Spans
import Mathlib.Data.String.Basic

/-!
# The configuration of the SR-IOV device plugin

The planned SFs and VFs that belong to a pool are advertised as ranges of numbers on their ports.
-/
namespace DocaPlatform.DevicePlugin
open Spans SriovPlan List

/-- The loop of `compressRanges`, with the last range. -/
def compressLoop (last : Span) : List ℕ → List Span
  | [] => [last]
  | n :: rest =>
    if n = last.hi then compressLoop last rest
    else if h : n = last.hi + 1 then compressLoop ⟨last.lo, n, h ▸ last.le.step⟩ rest
    else last :: compressLoop ⟨n, n, le_rfl⟩ rest

def compressRanges (nums : List ℕ) : List Span :=
  match nums.insertionSort (· ≤ ·) with
  | [] => []
  | n :: rest => compressLoop ⟨n, n, le_rfl⟩ rest

def sortedKeys (keys : List String) : List String := keys.dedup.insertionSort (· ≤ ·)

/-- With the ranges on each port, as the selector names them. -/
structure DevicePluginResource where
  resourceName : String
  deviceType : String
  ranges : List (String × List Span)

def DevicePluginResource.pfNames (r : DevicePluginResource) : List String :=
  r.ranges.flatMap fun (netdev, l) =>
    l.map fun s => netdev ++ "#" ++ toString s.lo ++ "-" ++ toString s.hi

/-- The numbers come as `addPoolNum` gets them, with their pools and ports. -/
def poolResources (nums : List (String × String × ℕ)) (deviceType : String) :
    List DevicePluginResource :=
  (sortedKeys (nums.map (·.1))).map fun pool =>
    let ports := (nums.filter (·.1 = pool)).map (·.2)
    ⟨pool, deviceType, (sortedKeys (ports.map (·.1))).map fun netdev =>
      (netdev, compressRanges ((ports.filter (·.1 = netdev)).map (·.2)))⟩

def buildDevicePluginConfig (sfs : List PlannedSF) (vfs : List PlannedVF) :
    List DevicePluginResource :=
  poolResources ((sfs.filter (·.poolName ≠ "")).map fun sf => (sf.poolName, sf.netdev, sf.sfNum))
    "auxNetDevice" ++
  poolResources ((vfs.filter (·.poolName ≠ "")).flatMap fun vf =>
    (range' vf.index vf.count).map (vf.poolName, vf.netdev, ·)) "netDevice"

theorem compressLoop_eq {last : Span} {l : List ℕ} (h : (last.hi :: l).Pairwise (· ≤ ·)) :
    compressLoop last l = mergeFrom last (l.map fun n => ⟨n, n, le_rfl⟩) := by
  induction l generalizing last with
  | nil => rfl
  | cons n rest ih =>
    obtain ⟨hn, hr⟩ := pairwise_cons.mp h
    have hle := hn n mem_cons_self
    rw [compressLoop, map_cons, mergeFrom]
    split_ifs with he hm ht hm hm
    · rw [ih (he ▸ hr)]
      simp [Span.extend, he]
    · exact absurd (he.le.trans last.hi.le_succ) hm
    · rw [ih hr]
      simp [Span.extend, hle]
    · exact absurd ht.le hm
    · exact absurd (Nat.le_antisymm hm (Nat.lt_of_le_of_ne hle (Ne.symm he))) ht
    · rw [ih hr]

/-- The loop merges the numbers, each taken as a span. -/
theorem compressRanges_eq (nums : List ℕ) :
    compressRanges nums = Spans.merge (nums.map fun n => ⟨n, n, le_rfl⟩) := by
  have hs := pairwise_insertionSort (· ≤ ·) nums
  have hm := map_insertionSort (· ≤ ·) (fun s t : Span => s.lo ≤ t.lo) (fun n => ⟨n, n, le_rfl⟩)
    nums fun _ _ _ _ => Iff.rfl
  rw [Spans.merge, sortByLo, ← hm, compressRanges]
  split
  next h =>
    rw [h]
    rfl
  next n rest h =>
    rw [h] at hs ⊢
    exact compressLoop_eq hs

/-- A resource of the pool for devices of the type has a range with the number on the port. -/
def Advertised (config : List DevicePluginResource) (deviceType pool netdev : String) (n : ℕ) :
    Prop :=
  ∃ r ∈ config, r.deviceType = deviceType ∧ r.resourceName = pool ∧
    ∃ l, (netdev, l) ∈ r.ranges ∧ Covers l n

variable {sfs : List PlannedSF} {vfs : List PlannedVF} {config config' : List DevicePluginResource}
  {type deviceType pool pool' netdev : String} {n : ℕ}

theorem advertised_poolResources {nums : List (String × String × ℕ)} :
    Advertised (poolResources nums type) deviceType pool netdev n ↔
      type = deviceType ∧ (pool, netdev, n) ∈ nums := by
  have hc : ∀ nums, Covers (compressRanges nums) n ↔ n ∈ nums := by
    intro nums
    rw [compressRanges_eq, covers_merge]
    simp [Covers, mem_span, ← le_antisymm_iff, eq_comm]
  constructor
  · rintro ⟨_, hr, rfl, rfl, l, hl, hn⟩
    obtain ⟨pool, -, rfl⟩ := mem_map.mp hr
    obtain ⟨netdev, -, ⟨⟩⟩ := mem_map.mp hl
    exact ⟨rfl, by simpa using (hc _).mp hn⟩
  · rintro ⟨ht, h⟩
    have hp : pool ∈ sortedKeys (nums.map (·.1)) := by simpa [sortedKeys] using ⟨_, _, h⟩
    refine ⟨_, mem_map_of_mem hp, ht, rfl, _, mem_map_of_mem ?_, (hc _).mpr (by simpa using h)⟩
    simpa [sortedKeys] using ⟨n, h⟩

theorem advertised_append : Advertised (config ++ config') deviceType pool netdev n ↔
    Advertised config deviceType pool netdev n ∨ Advertised config' deviceType pool netdev n := by
  simp [Advertised, or_and_right, exists_or]

theorem advertised_sf :
    Advertised (buildDevicePluginConfig sfs vfs) "auxNetDevice" pool netdev n ↔
      ∃ sf ∈ sfs, sf.poolName ≠ "" ∧ sf.poolName = pool ∧ sf.netdev = netdev ∧ sf.sfNum = n := by
  simp [buildDevicePluginConfig, advertised_append, advertised_poolResources, and_assoc]

/-- Exactly the planned SFs and VFs that belong to a pool are advertised, under that pool and on
their ports, and the ranges of a port are in order and not adjacent. -/
theorem devicePlugin_config_exact (sfs : List PlannedSF) (vfs : List PlannedVF) :
    (∀ pool netdev n,
      Advertised (buildDevicePluginConfig sfs vfs) "auxNetDevice" pool netdev n ↔
        ∃ sf ∈ sfs, sf.poolName ≠ "" ∧ sf.poolName = pool ∧ sf.netdev = netdev ∧ sf.sfNum = n) ∧
    (∀ pool netdev n, Advertised (buildDevicePluginConfig sfs vfs) "netDevice" pool netdev n ↔
      ∃ vf ∈ vfs, vf.poolName ≠ "" ∧ vf.index ≤ n ∧ n < vf.index + vf.count ∧
        vf.poolName = pool ∧ vf.netdev = netdev) ∧
    ∀ r ∈ buildDevicePluginConfig sfs vfs, ∀ x ∈ r.ranges, Separated x.2 := by
  refine ⟨fun _ _ _ => advertised_sf, fun pool netdev n => ?_, fun r hr x hx => ?_⟩
  · simp [buildDevicePluginConfig, advertised_append, advertised_poolResources, and_assoc]
  · obtain ⟨nums, type, hr⟩ : ∃ nums type, r ∈ poolResources nums type :=
      (mem_append.mp hr).elim (⟨_, _, ·⟩) (⟨_, _, ·⟩)
    obtain ⟨pool, -, rfl⟩ := mem_map.mp hr
    obtain ⟨netdev, -, rfl⟩ := mem_map.mp hx
    exact compressRanges_eq _ ▸ separated_merge _

/-- From the plan to the device plugin: no SF on a port is advertised under two pools. -/
theorem sf_advertised_under_one_pool {parseMAC : String → Except String (List ℕ)}
    {groups : List SFGroup} {ports : List NICPort} (hports : (ports.map NICPort.netdev).Nodup)
    (h : resolveSFs parseMAC groups ports = .ok sfs)
    (hp : Advertised (buildDevicePluginConfig sfs vfs) "auxNetDevice" pool netdev n)
    (hp' : Advertised (buildDevicePluginConfig sfs vfs) "auxNetDevice" pool' netdev n) :
    pool = pool' := by
  obtain ⟨sf, hsf, -, rfl, hd, hn⟩ := advertised_sf.mp hp
  obtain ⟨sf', hsf', -, rfl, hd', hn'⟩ := advertised_sf.mp hp'
  obtain ⟨g, -, port, hport, hde, hne, -⟩ := planned_port h hsf
  obtain ⟨g', -, port', hport', hde', hne', -⟩ := planned_port h hsf'
  -- one netdev, so one port, on which the numbers of the plan are distinct
  obtain rfl : port = port' := inj_on_of_nodup_map hports
    ((selectPorts_sublist ports g.device).subset hport)
    ((selectPorts_sublist ports g'.device).subset hport') (by rw [← hne, hd, ← hd', hne'])
  obtain ⟨runs, -, -, -, hon⟩ := resolveSFs_on h
  have heq : sf = sf' := inj_on_of_nodup_map (hon port.pciAddress).2.1
    (mem_filter.mpr ⟨hsf, decide_eq_true hde⟩) (mem_filter.mpr ⟨hsf', decide_eq_true hde'⟩)
    (hn.trans hn'.symm)
  rw [heq]

theorem sample_sf_advertised_under_one_pool :
    ∃ sfs, resolveSFs (fun _ => .error "") sampleGroups samplePorts = .ok sfs ∧
      ∀ pool pool', Advertised (buildDevicePluginConfig sfs []) "auxNetDevice" pool "p0" 0 →
        Advertised (buildDevicePluginConfig sfs []) "auxNetDevice" pool' "p0" 0 →
        pool = pool' := by
  have ho : (resolveSFs (fun _ => .error "") sampleGroups samplePorts).toOption.isSome := by
    decide +kernel
  obtain ⟨sfs, hs⟩ := Option.isSome_iff_exists.mp ho
  have h := Runs.toOption_eq_some.mp hs
  exact ⟨sfs, h, fun _ _ => sf_advertised_under_one_pool (by decide) h⟩

end DocaPlatform.DevicePlugin
