import DocaPlatform.InPlaceReconfig

/-!
# The rolling update of a DPUSet

One pass of a DPUSet with the RollingUpdate strategy: DPUs are created for the selected devices that
have none, DPUs of devices that are not selected are deleted, and DPUs that drifted from the template
are deleted within a budget. Maps are lists in the order in which they are iterated.
-/
namespace DocaPlatform.RollingUpdate

open InPlaceReconfig List

inductive DPUDriftReason where
  | bfb
  | dpuFlavor
  | secureBoot
  | blueFieldSoftware
  | clusterSelector
  deriving DecidableEq

/-- The template of a DPUSet. -/
structure DPUTemplateSpec where
  bfb : Option String
  /-- `isTemplateMode`. -/
  templateMode : Bool
  dpuFlavor : Option String
  secureBoot : Option Bool
  blueFieldSoftware : Option String
  /-- The namespaces and names of the DPUClusters that the cluster selector matches. -/
  cluster : Option (List (String × String))

structure DPUSpec where
  dpuDeviceName : String
  bfb : Option String
  dpuFlavor : String
  secureBoot : Option Bool
  blueFieldSoftware : Option String
  /-- Namespace and name of the DPUCluster. -/
  cluster : String × String
  deriving DecidableEq

structure OwnedDPU where
  spec : DPUSpec
  dpu : DPU
  /-- The DPU has a finalizer, so that it stays while it is being deleted. -/
  finalizer : Bool
  /-- The generated flavor diverged from its template (`templateEval.disrupt`). -/
  disrupt : Bool
  deriving DecidableEq

abbrev OwnedDPU.device (d : OwnedDPU) : String := d.spec.dpuDeviceName

def matchDPUClusterSelector (matching : List (String × String)) (cluster : String × String) : Bool :=
  cluster.1 = "" || cluster.2 = "" || cluster ∈ matching

def computeDPUDrift (t : DPUTemplateSpec) (d : OwnedDPU) : List DPUDriftReason :=
  (if t.bfb.any (· ≠ d.spec.bfb.getD "") then [.bfb] else []) ++
  (if t.templateMode then if d.disrupt then [.dpuFlavor] else []
    else if t.dpuFlavor.getD "" ≠ d.spec.dpuFlavor then [.dpuFlavor] else []) ++
  (if t.secureBoot ≠ d.spec.secureBoot then [.secureBoot] else []) ++
  (if t.blueFieldSoftware.any (· ≠ d.spec.blueFieldSoftware.getD "") then [.blueFieldSoftware]
    else []) ++
  (if t.cluster.any (!matchDPUClusterSelector · d.spec.cluster) then [.clusterSelector] else [])

/-! ## A pass -/

structure DPUDevice where
  name : String
  blueField4 : Bool
  deriving DecidableEq

structure DPUSet where
  template : DPUTemplateSpec
  astraEnabled : Option Bool
  /-- `MaxUnavailableDPUNodes` of the controller. -/
  maxUnavailableDPUNodes : ℤ

def DPUSet.isAstraEnabledForNonBlueField4 (set : DPUSet) (device : DPUDevice) : Bool :=
  set.astraEnabled = some true && !device.blueField4

/-- What a pass finds: the selected devices, the DPUs of the DPUSet, and the devices for which a DPU
exists that is not one of them. -/
structure Inventory where
  devices : List DPUDevice
  dpus : List OwnedDPU
  foreign : List String
  devices_nodup : (devices.map DPUDevice.name).Nodup
  dpus_nodup : (dpus.map OwnedDPU.device).Nodup
  foreign_not_owned : ∀ d ∈ dpus, d.device ∉ foreign

/-- The DPU that `createDPU` creates. -/
def newDPU (set : DPUSet) (device : DPUDevice) : OwnedDPU where
  spec := ⟨device.name, set.template.bfb.filter (· ≠ ""), set.template.dpuFlavor.getD "",
    set.template.secureBoot, set.template.blueFieldSoftware.filter (· ≠ ""), ("", "")⟩
  dpu := ⟨device.name, 0, 0, false,
    ⟨.initializing, none, none, none, false, none, none, none, none, false, none⟩⟩
  finalizer := false
  disrupt := false

/-- `createMissingDPUs`: the DPUs after it and the number of those that others own, or nothing if a
call fails. `owned` is the map that the pass started with. -/
def createMissingDPUs (set : DPUSet) (foreign : List String) (owned : List OwnedDPU)
    (fails : DPUDevice → Bool) : List DPUDevice → List OwnedDPU → ℕ → Option (List OwnedDPU × ℕ)
  | [], dpus, others => some (dpus, others)
  | device :: rest, dpus, others =>
    if device.name ∈ owned.map OwnedDPU.device then
      if fails device then none else createMissingDPUs set foreign owned fails rest dpus others
    else if set.isAstraEnabledForNonBlueField4 device then
      createMissingDPUs set foreign owned fails rest dpus others
    else if fails device then none
    else if device.name ∈ foreign then
      createMissingDPUs set foreign owned fails rest dpus (others + 1)
    else createMissingDPUs set foreign owned fails rest (dpus ++ [newDPU set device]) others

/-- What `Delete` leaves of an object: with a finalizer it stays, with its deletion timestamp set. -/
def OwnedDPU.deleted (e : OwnedDPU) : Option OwnedDPU :=
  if e.finalizer then some { e with dpu := { e.dpu with deleting := true } } else none

/-- `Delete`. -/
def deleteDPU (d : OwnedDPU) (dpus : List OwnedDPU) : List OwnedDPU :=
  dpus.filterMap fun e => if e.device = d.device then e.deleted else some e

def deleteStaleDPUs (devices : List DPUDevice) (fails : OwnedDPU → Bool) :
    List OwnedDPU → List OwnedDPU → Option (List OwnedDPU)
  | [], dpus => some dpus
  | d :: rest, dpus =>
    if d.device ∈ devices.map DPUDevice.name then deleteStaleDPUs devices fails rest dpus
    else if fails d then none
    else deleteStaleDPUs devices fails rest (deleteDPU d dpus)

def provisionableDPUCount (set : DPUSet) (devices : List DPUDevice) (others : ℕ) : ℕ :=
  devices.length - (others + devices.countP set.isAstraEnabledForNonBlueField4)

/-- The limit of `rolloutRolling`. -/
def maxUnavailable (set : DPUSet) (total : ℕ) : ℕ :=
  if set.maxUnavailableDPUNodes < 1 then 1
  else if (total : ℤ) < set.maxUnavailableDPUNodes then total
  else set.maxUnavailableDPUNodes.toNat

def occupiesSlot (d : OwnedDPU) : Bool := isUnavailable d.dpu || inProgressStillReady d.dpu

/-- The second loop of `rolloutRolling`, over the DPUs that are left to visit. -/
def rolloutLoop (set : DPUSet) (fails : OwnedDPU → Bool) (limit : ℕ) :
    ℕ → List OwnedDPU → List OwnedDPU → List OwnedDPU
  | _, [], dpus => dpus
  | unavailable, d :: rest, dpus =>
    if (computeDPUDrift set.template d).isEmpty then
      rolloutLoop set fails limit unavailable rest dpus
    else if !occupiesSlot d && limit ≤ unavailable then
      rolloutLoop set fails limit unavailable rest dpus
    else if fails d then dpus
    else
      rolloutLoop set fails limit (if occupiesSlot d then unavailable else unavailable + 1) rest
        (deleteDPU d dpus)

/-- `rolloutRolling` on the DPUs `order`, which are all of `dpus`: the DPUs after it. -/
def rolloutRolling (set : DPUSet) (total : ℕ) (fails : OwnedDPU → Bool)
    (order dpus : List OwnedDPU) : List OwnedDPU :=
  rolloutLoop set fails (maxUnavailable set total)
    (total - order.length + order.countP occupiesSlot) order dpus

/-- A pass up to the rollout: the DPUs and the number of provisionable devices. The devices and the
DPUs that the pass found are iterated in the given orders. -/
def beforeRollout (set : DPUSet) (s : Inventory) (createFails : DPUDevice → Bool)
    (deleteFails : OwnedDPU → Bool) (devices : List DPUDevice) (owned : List OwnedDPU) :
    Option (List OwnedDPU × ℕ) := do
  let (dpus, others) ← createMissingDPUs set s.foreign owned createFails devices s.dpus 0
  let dpus ← deleteStaleDPUs s.devices deleteFails owned dpus
  return (dpus, provisionableDPUCount set s.devices others)

/-- The device is one that the DPUSet is expected to own a DPU for. -/
def expects (set : DPUSet) (s : Inventory) (device : DPUDevice) : Bool :=
  !set.isAstraEnabledForNonBlueField4 device && device.name ∉ s.foreign

def expectedNames (set : DPUSet) (s : Inventory) : List String :=
  (s.devices.filter (expects set s)).map DPUDevice.name

/-- The DPU is Ready, not being deleted and not marked for an in-place reconfiguration. -/
def isAvailable (d : OwnedDPU) : Bool :=
  d.dpu.status.ready.any (·.status = .isTrue) && !d.dpu.deleting &&
    !reconfigInProgress d.dpu.status.dpuReconfig

def dpuOf (dpus : List OwnedDPU) (name : String) : Option OwnedDPU :=
  dpus.find? fun d => d.device = name

def unavailableDevices (set : DPUSet) (s : Inventory) (dpus : List OwnedDPU) : ℕ :=
  (expectedNames set s).countP fun name => !(dpuOf dpus name).any isAvailable

/-- The DPU is neither available nor does it take a slot: its Ready condition is Unknown. -/
def isUncounted (d : OwnedDPU) : Bool := !isAvailable d && !occupiesSlot d

def isExpected (set : DPUSet) (s : Inventory) (d : OwnedDPU) : Bool :=
  d.device ∈ expectedNames set s

/-- The condition under which no order and no failure exceeds the budget, with `u` unavailable
expected devices: all available DPUs that drifted fit into the budget, or the DPUs of expected
devices that are not counted are made up for by the slots of other DPUs, or no slot is free. -/
def WithinBudget (set : DPUSet) (s : Inventory) (dpus : List OwnedDPU) : Prop :=
  let limit := maxUnavailable set (expectedNames set s).length
  let u := unavailableDevices set s dpus
  let drifted := dpus.countP fun d =>
    isExpected set s d && isAvailable d && !(computeDPUDrift set.template d).isEmpty
  let uncounted := dpus.countP fun d => isExpected set s d && isUncounted d
  let others := dpus.countP fun d => !isExpected set s d && occupiesSlot d
  u + drifted ≤ max limit u ∨ uncounted ≤ others ∨ limit + uncounted ≤ u + others

section Counting

variable {α κ : Type} [DecidableEq κ] {key : α → κ}

theorem countP_split (l : List α) (p q : α → Bool) :
    l.countP p = l.countP (fun a => p a && q a) + l.countP fun a => p a && !q a := by
  rw [countP_eq_countP_filter_add l p q, countP_filter, countP_filter]

theorem countP_or_of_disjoint {l : List α} {p q : α → Bool} (h : ∀ a ∈ l, p a = true → q a = false) :
    l.countP (fun a => p a || q a) = l.countP p + l.countP q := by
  rw [countP_split l (fun a => p a || q a) p]
  congr 1
  · exact countP_congr fun a _ => by cases p a <;> simp
  · refine countP_congr fun a ha => ?_
    cases hp : p a with
    | true => simp [h a ha hp]
    | false => simp

/-- Among distinct keys, those with an element that satisfies `p` are as many as the elements that
satisfy `p` and have one of the keys. -/
theorem countP_find?_any {l : List α} {keys : List κ} (hl : (l.map key).Nodup) (hkeys : keys.Nodup)
    (p : α → Bool) :
    (keys.countP fun k => (l.find? fun a => key a = k).any p) =
      l.countP fun a => decide (key a ∈ keys) && p a := by
  induction l with
  | nil => simp
  | cons a l ih =>
    obtain ⟨ha, hl⟩ := nodup_cons.mp hl
    have hco : ∀ k ∈ keys, (((a :: l).find? fun a => key a = k).any p = true ↔
        ((decide (key a = k) && p a) || (l.find? fun a => key a = k).any p) = true) := by
      intro k _
      by_cases hk : key a = k
      · have hn : (l.find? fun b => key b = k) = none := by
          rw [find?_eq_none]
          intro b hb hbk
          exact ha (mem_map.mpr ⟨b, hb, (of_decide_eq_true hbk).trans hk.symm⟩)
        simp [hk, hn]
      · simp [hk]
    have hd : ∀ k ∈ keys, (decide (key a = k) && p a) = true →
        (l.find? fun a => key a = k).any p = false := by
      intro k _ hk
      have hke : key a = k := of_decide_eq_true (Bool.and_eq_true_iff.mp hk).1
      have hn : (l.find? fun b => key b = k) = none := by
        rw [find?_eq_none]
        intro b hb hbk
        exact ha (mem_map.mpr ⟨b, hb, (of_decide_eq_true hbk).trans hke.symm⟩)
      rw [hn]
      rfl
    have hh : (keys.countP fun k => decide (key a = k) && p a) =
        if (decide (key a ∈ keys) && p a) = true then 1 else 0 := by
      cases hp : p a with
      | false => simp
      | true =>
        have hc := hkeys.count (a := key a)
        simp only [Bool.and_true, decide_eq_true_eq]
        rw [← hc, List.count]
        refine countP_congr fun k _ => ?_
        rw [beq_iff_eq, decide_eq_true_eq]
        exact eq_comm
    rw [countP_congr hco, countP_or_of_disjoint hd, ih hl, hh, countP_cons, Nat.add_comm]

end Counting

/-! ## The pass before the rollout -/

/-- The pass wants a DPU for the device and found none. -/
def isMissing (set : DPUSet) (owned : List OwnedDPU) (d : DPUDevice) : Bool :=
  d.name ∉ owned.map OwnedDPU.device && !set.isAstraEnabledForNonBlueField4 d

variable {set : DPUSet} {owned dpus : List OwnedDPU} {devices : List DPUDevice}

theorem createMissingDPUs_spec {foreign : List String} {dpus' : List OwnedDPU}
    {fails : DPUDevice → Bool} {others others' : ℕ}
    (h : createMissingDPUs set foreign owned fails devices dpus others = some (dpus', others')) :
    dpus' = dpus ++ (devices.filter fun d => isMissing set owned d && d.name ∉ foreign).map
        (newDPU set) ∧
      others' = others + devices.countP fun d => isMissing set owned d && d.name ∈ foreign := by
  induction devices generalizing dpus others with
  | nil =>
    obtain ⟨rfl, rfl⟩ := Prod.mk.inj (Option.some.inj h)
    simp
  | cons d devices ih =>
    unfold createMissingDPUs at h
    rw [filter_cons, countP_cons]
    split_ifs at h with how hf ha hf hfo
    · obtain ⟨hd, ho⟩ := ih h
      have hm : isMissing set owned d = false := by
        rw [isMissing, decide_eq_false (not_not_intro how), Bool.false_and]
      simp [hd, ho, hm]
    · obtain ⟨hd, ho⟩ := ih h
      have hm : isMissing set owned d = false := by
        rw [isMissing, ha, Bool.not_true, Bool.and_false]
      simp [hd, ho, hm]
    · obtain ⟨hd, ho⟩ := ih h
      have hm : isMissing set owned d = true := by
        simp [isMissing, how, ha, decide_true]
      simp [hd, ho, hm, hfo]
      omega
    · obtain ⟨hd, ho⟩ := ih h
      have hm : isMissing set owned d = true := by
        simp [isMissing, how, ha, decide_true]
      simp [hd, ho, hm, hfo]

section Delete

variable {d : OwnedDPU} {dpus : List OwnedDPU} {name : String}

@[simp] theorem dpuOf_cons (e : OwnedDPU) :
    dpuOf (e :: dpus) name = if e.device = name then some e else dpuOf dpus name := by
  unfold dpuOf
  rw [find?_cons]
  split_ifs with h <;> simp [h]

theorem deleted_eq_some {e e' : OwnedDPU} (h : e.deleted = some e') :
    e'.device = e.device ∧ isAvailable e' = false := by
  unfold OwnedDPU.deleted at h
  split_ifs at h
  cases h
  exact ⟨rfl, by simp [isAvailable]⟩

theorem deleteDPU_cons (e : OwnedDPU) :
    deleteDPU d (e :: dpus) =
      (if e.device = d.device then e.deleted else some e).toList ++ deleteDPU d dpus := by
  unfold deleteDPU
  rw [filterMap_cons]
  split <;> simp [*]

theorem deleteDPU_sublist :
    ((deleteDPU d dpus).map OwnedDPU.device).Sublist (dpus.map OwnedDPU.device) := by
  induction dpus with
  | nil => exact List.Sublist.slnil
  | cons e dpus ih =>
    rw [deleteDPU_cons, map_append, map_cons]
    split_ifs with he
    · cases hd : e.deleted with
      | none => exact ih.cons _
      | some e' =>
        have hde := (deleted_eq_some hd).1
        simpa [hde] using ih
    · exact ih.cons_cons _

theorem dpuOf_deleteDPU_of_ne (h : name ≠ d.device) :
    dpuOf (deleteDPU d dpus) name = dpuOf dpus name := by
  induction dpus with
  | nil => rfl
  | cons e dpus ih =>
    rw [deleteDPU_cons, dpuOf_cons]
    split_ifs with he hna hna
    · exact absurd (hna.symm.trans he) h
    · cases hd : e.deleted with
      | none => exact ih
      | some e' =>
        have hne : e'.device ≠ name := fun hn => hna ((deleted_eq_some hd).1.symm.trans hn)
        simpa [hne] using ih
    · simp [hna]
    · simpa [hna] using ih

theorem dpuOf_eq_some {e : OwnedDPU} (h : dpuOf dpus name = some e) : e ∈ dpus ∧ e.device = name := by
  have hn := find?_some h
  exact ⟨mem_of_find?_eq_some h, of_decide_eq_true hn⟩

theorem dpuOf_deleteDPU_self : (dpuOf (deleteDPU d dpus) d.device).any isAvailable = false := by
  cases hf : dpuOf (deleteDPU d dpus) d.device with
  | none => rfl
  | some e =>
    obtain ⟨hmem, hd⟩ := dpuOf_eq_some hf
    obtain ⟨e', _, hm⟩ := mem_filterMap.mp hmem
    split_ifs at hm with he
    · exact (deleted_eq_some hm).2
    · cases hm
      exact absurd hd he

theorem dpuOf_of_mem (hnd : (dpus.map OwnedDPU.device).Nodup) (hd : d ∈ dpus) :
    dpuOf dpus d.device = some d := by
  induction dpus with
  | nil => cases hd
  | cons e dpus ih =>
    obtain ⟨he, hnd⟩ := nodup_cons.mp hnd
    rw [dpuOf_cons]
    rcases mem_cons.mp hd with rfl | hd
    · rw [if_pos rfl]
    · have hne : e.device ≠ d.device := fun heq => he (heq ▸ mem_map_of_mem hd)
      rw [if_neg hne]
      exact ih hnd hd

theorem dpuOf_eq_none : dpuOf dpus name = none ↔ name ∉ dpus.map OwnedDPU.device := by
  simp [dpuOf]

end Delete

theorem deleteStaleDPUs_spec {fails : OwnedDPU → Bool} {dpus' : List OwnedDPU}
    (h : deleteStaleDPUs devices fails owned dpus = some dpus') :
    (dpus'.map OwnedDPU.device).Sublist (dpus.map OwnedDPU.device) ∧
      ∀ name ∈ devices.map DPUDevice.name, dpuOf dpus' name = dpuOf dpus name := by
  induction owned generalizing dpus with
  | nil =>
    cases h
    exact ⟨List.Sublist.refl _, fun _ _ => rfl⟩
  | cons d owned ih =>
    unfold deleteStaleDPUs at h
    split_ifs at h with hse hf
    · exact ih h
    · obtain ⟨hsu, hs⟩ := ih h
      refine ⟨hsu.trans deleteDPU_sublist, fun name hn => (hs name hn).trans ?_⟩
      exact dpuOf_deleteDPU_of_ne fun heq => hse (heq ▸ hn)

/-- What the rollout finds: one DPU for every expected device, and their number. -/
structure Prepared (set : DPUSet) (s : Inventory) (dpus : List OwnedDPU) (total : ℕ) : Prop where
  nodup : (dpus.map OwnedDPU.device).Nodup
  covered : ∀ name ∈ expectedNames set s, name ∈ dpus.map OwnedDPU.device
  total : total = (expectedNames set s).length

theorem mem_expectedNames {s : Inventory} {name : String} :
    name ∈ expectedNames set s ↔ ∃ d ∈ s.devices, expects set s d = true ∧ d.name = name := by
  simp [expectedNames, and_assoc]

theorem expectedNames_nodup (set : DPUSet) (s : Inventory) : (expectedNames set s).Nodup :=
  s.devices_nodup.sublist (filter_sublist.map _)

/-- Every device is expected, incompatible, or has a DPU of another owner. -/
theorem provisionableDPUCount_eq (set : DPUSet) (s : Inventory) :
    provisionableDPUCount set s.devices
      (s.devices.countP fun d => isMissing set s.dpus d && d.name ∈ s.foreign) =
      (expectedNames set s).length := by
  have ho : (s.devices.countP fun d => isMissing set s.dpus d && d.name ∈ s.foreign) =
      s.devices.countP fun d => !expects set s d && !set.isAstraEnabledForNonBlueField4 d := by
    refine countP_congr fun d _ => ?_
    have how : d.name ∈ s.foreign → d.name ∉ s.dpus.map OwnedDPU.device := by
      intro hf howne
      obtain ⟨e, he, hn⟩ := mem_map.mp howne
      exact s.foreign_not_owned e he (hn ▸ hf)
    by_cases hf : d.name ∈ s.foreign
    · simp only [isMissing, expects, hf, how hf]
      simp
    · simp only [isMissing, expects, hf]
      simp
  have ha : s.devices.countP set.isAstraEnabledForNonBlueField4 =
      s.devices.countP fun d => !expects set s d && set.isAstraEnabledForNonBlueField4 d := by
    refine countP_congr fun d _ => ?_
    cases ha : set.isAstraEnabledForNonBlueField4 d <;> simp [expects, ha]
  have hs := countP_split s.devices (fun d => !expects set s d)
    set.isAstraEnabledForNonBlueField4
  have hl := length_eq_countP_add_countP (expects set s) (l := s.devices)
  have hno : s.devices.countP (fun d => decide ¬ expects set s d = true) =
      s.devices.countP fun d => !expects set s d :=
    countP_congr fun d _ => by simp
  unfold provisionableDPUCount expectedNames
  rw [length_map, ← countP_eq_length_filter]
  omega

theorem beforeRollout_prepared {s : Inventory} {createFails : DPUDevice → Bool}
    {deleteFails : OwnedDPU → Bool} {total : ℕ} (hdev : devices.Perm s.devices)
    (how : owned.Perm s.dpus)
    (h : beforeRollout set s createFails deleteFails devices owned = some (dpus, total)) :
    Prepared set s dpus total := by
  obtain ⟨⟨created, others⟩, hc, h⟩ := Option.bind_eq_some_iff.mp h
  obtain ⟨deleted, hde, h⟩ := Option.bind_eq_some_iff.mp h
  obtain ⟨rfl, rfl⟩ := Prod.mk.inj (Option.some.inj h)
  obtain ⟨hcr, ho⟩ := createMissingDPUs_spec hc
  obtain ⟨hsu, hs⟩ := deleteStaleDPUs_spec hde
  have hmi : ∀ d, isMissing set owned d = isMissing set s.dpus d := by
    intro d
    simp [isMissing, (how.map OwnedDPU.device).mem_iff]
  have hnm : created.map OwnedDPU.device = s.dpus.map OwnedDPU.device ++
      (devices.filter fun d => isMissing set owned d && d.name ∉ s.foreign).map DPUDevice.name := by
    rw [hcr, map_append, map_map]
    rfl
  refine ⟨?_, ?_, ?_⟩
  · refine List.Nodup.sublist hsu ?_
    rw [hnm]
    refine List.Nodup.append s.dpus_nodup ?_ ?_
    · exact ((hdev.map DPUDevice.name).nodup_iff.mpr s.devices_nodup).sublist
        (filter_sublist.map _)
    · intro name hn hnew
      obtain ⟨d, hd, rfl⟩ := mem_map.mp hnew
      obtain ⟨-, hd⟩ := mem_filter.mp hd
      have hm := (Bool.and_eq_true_iff.mp hd).1
      rw [hmi] at hm
      exact of_decide_eq_true (Bool.and_eq_true_iff.mp hm).1 hn
  · intro name hn
    obtain ⟨d, hd, he, rfl⟩ := mem_expectedNames.mp hn
    by_contra hno
    rw [← dpuOf_eq_none, hs d.name (mem_map_of_mem hd), dpuOf_eq_none, hnm] at hno
    obtain ⟨hold, hnew⟩ := not_or.mp (mt mem_append.mpr hno)
    obtain ⟨ha, hf⟩ := Bool.and_eq_true_iff.mp he
    refine hnew (mem_map_of_mem (mem_filter.mpr ⟨hdev.mem_iff.mpr hd, ?_⟩))
    rw [hmi, isMissing, decide_eq_true hold, ha, hf]
    rfl
  · rw [ho, Nat.zero_add, ← provisionableDPUCount_eq, hdev.countP_eq]
    congr 1
    exact countP_congr fun d _ => by rw [hmi]

/-! ## The rollout -/

/-- The DPUs that `rolloutLoop` deletes, in this order. -/
def deletions (set : DPUSet) (fails : OwnedDPU → Bool) (limit : ℕ) :
    ℕ → List OwnedDPU → List OwnedDPU
  | _, [] => []
  | unavailable, d :: rest =>
    if (computeDPUDrift set.template d).isEmpty then deletions set fails limit unavailable rest
    else if !occupiesSlot d && limit ≤ unavailable then deletions set fails limit unavailable rest
    else if fails d then []
    else
      d :: deletions set fails limit (if occupiesSlot d then unavailable else unavailable + 1) rest

section Rollout

variable {set : DPUSet} {s : Inventory} {fails : OwnedDPU → Bool} {limit unavailable total : ℕ}
  {order dpus : List OwnedDPU}

theorem rolloutLoop_eq :
    rolloutLoop set fails limit unavailable order dpus =
      (deletions set fails limit unavailable order).foldl (fun dpus d => deleteDPU d dpus) dpus := by
  induction order generalizing unavailable dpus with
  | nil => rfl
  | cons d order ih =>
    unfold rolloutLoop deletions
    split_ifs
    · exact ih
    · exact ih
    · rfl
    · exact ih
    · exact ih

variable (set fails limit unavailable order) in
theorem deletions_sublist :
    (deletions set fails limit unavailable order).Sublist
      (order.filter fun d => !(computeDPUDrift set.template d).isEmpty) := by
  induction order generalizing unavailable with
  | nil => exact List.Sublist.slnil
  | cons d order ih =>
    unfold deletions
    rw [filter_cons]
    cases hd : (computeDPUDrift set.template d).isEmpty with
    | true => simpa using ih unavailable
    | false =>
      simp only [Bool.false_eq_true, if_false, Bool.not_false, if_true]
      split_ifs
      · exact (ih _).cons _
      · exact nil_sublist _
      · exact (ih _).cons_cons _
      · exact (ih _).cons_cons _

variable (set fails limit unavailable order) in
/-- The DPUs that take a new slot are no more than the free slots. -/
theorem countP_deletions_le :
    (deletions set fails limit unavailable order).countP (fun d => !occupiesSlot d) ≤
      limit - unavailable := by
  induction order generalizing unavailable with
  | nil => simp [deletions]
  | cons d order ih =>
    unfold deletions
    split_ifs with hd hfu hf hs
    · exact ih unavailable
    · exact ih unavailable
    · simp
    · rw [countP_cons_of_neg (by simp [hs])]
      exact ih unavailable
    · rw [countP_cons_of_pos (by simp [hs])]
      have hr := ih (unavailable + 1)
      have hfr : ¬ limit ≤ unavailable := by simpa [hs] using hfu
      omega

/-- If drifted DPUs that take a new slot come first and no deletion fails, they are deleted until
the slots are used up. -/
theorem le_countP_deletions {first rest : List OwnedDPU} {p : OwnedDPU → Bool}
    (hdr : ∀ d ∈ first, (computeDPUDrift set.template d).isEmpty = false)
    (hsl : ∀ d ∈ first, occupiesSlot d = false) (hp : ∀ d ∈ first, p d = true) :
    min first.length (limit - unavailable) ≤
      (deletions set (fun _ => false) limit unavailable (first ++ rest)).countP p := by
  induction first generalizing unavailable with
  | nil => simp
  | cons d first ih =>
    have hd := hdr d mem_cons_self
    have hs := hsl d mem_cons_self
    rw [cons_append]
    unfold deletions
    by_cases hf : limit ≤ unavailable
    · rw [Nat.sub_eq_zero_of_le hf, Nat.min_zero]
      exact Nat.zero_le _
    · simp only [hd, hs, hf, Bool.false_eq_true, if_false, decide_false, Bool.and_false]
      rw [countP_cons_of_pos (hp d mem_cons_self)]
      have hr := @ih (unavailable + 1)
        (fun e he => hdr e (mem_cons_of_mem d he))
        (fun e he => hsl e (mem_cons_of_mem d he))
        (fun e he => hp e (mem_cons_of_mem d he))
      rw [length_cons]
      omega

theorem dpuOf_foldl_deleteDPU {deleted : List OwnedDPU} {name : String} :
    (dpuOf (deleted.foldl (fun dpus d => deleteDPU d dpus) dpus) name).any isAvailable =
      ((dpuOf dpus name).any isAvailable && decide (name ∉ deleted.map OwnedDPU.device)) := by
  induction deleted generalizing dpus with
  | nil => simp
  | cons d deleted ih =>
    rw [foldl_cons, ih]
    by_cases hn : name = d.device
    · subst hn
      rw [dpuOf_deleteDPU_self]
      simp
    · rw [dpuOf_deleteDPU_of_ne hn]
      simp [hn]

/-- Every deletion of an available DPU of an expected device makes one more device unavailable. -/
theorem unavailableDevices_foldl_deleteDPU {deleted : List OwnedDPU}
    (hnd : (dpus.map OwnedDPU.device).Nodup) (hde : (deleted.map OwnedDPU.device).Nodup)
    (hs : ∀ d ∈ deleted, d ∈ dpus) :
    unavailableDevices set s (deleted.foldl (fun dpus d => deleteDPU d dpus) dpus) =
      unavailableDevices set s dpus + deleted.countP fun d => isExpected set s d && isAvailable d := by
  have hc := countP_find?_any hde (expectedNames_nodup set s) isAvailable
  have hor : (expectedNames set s).countP (fun name =>
      !(dpuOf (deleted.foldl (fun dpus d => deleteDPU d dpus) dpus) name).any isAvailable) =
      (expectedNames set s).countP fun name =>
        !(dpuOf dpus name).any isAvailable || (dpuOf deleted name).any isAvailable := by
    refine countP_congr fun name _ => ?_
    rw [dpuOf_foldl_deleteDPU]
    cases hf : dpuOf deleted name with
    | none =>
      have hn := dpuOf_eq_none.mp hf
      simp [hn, decide_true]
    | some d =>
      obtain ⟨hd, rfl⟩ := dpuOf_eq_some hf
      have hmem : d.device ∈ deleted.map OwnedDPU.device := mem_map_of_mem hd
      rw [dpuOf_of_mem hnd (hs d hd)]
      simp only [hmem, not_true_eq_false, decide_false, Bool.and_false, Option.any_some]
      cases isAvailable d <;> simp
  unfold unavailableDevices
  rw [hor, countP_or_of_disjoint]
  · exact congrArg _ hc
  · intro name _ hun
    cases hf : dpuOf deleted name with
    | none => rfl
    | some d =>
      obtain ⟨hd, rfl⟩ := dpuOf_eq_some hf
      rw [dpuOf_of_mem hnd (hs d hd)] at hun
      simpa using hun

theorem Prepared.length_le (h : Prepared set s dpus total) : total ≤ dpus.length := by
  have hle := ((expectedNames_nodup set s).subperm h.covered).length_le
  rw [length_map] at hle
  exact h.total.trans_le hle

theorem Prepared.unavailableDevices_eq (h : Prepared set s dpus total) :
    unavailableDevices set s dpus = dpus.countP fun d => isExpected set s d && !isAvailable d := by
  refine Eq.trans ?_ (countP_find?_any h.nodup (expectedNames_nodup set s) fun d => !isAvailable d)
  refine countP_congr fun name hn => ?_
  cases hf : dpuOf dpus name with
  | none => exact absurd (h.covered name hn) (dpuOf_eq_none.mp hf)
  | some d =>
    have hfind' : (dpus.find? fun d => d.device = name) = some d := hf
    simp [hfind']

theorem occupiesSlot_not_available {d : OwnedDPU} (h : occupiesSlot d = true) :
    isAvailable d = false := by
  unfold occupiesSlot inProgressStillReady isUnavailable at h
  unfold isAvailable
  cases hr : d.dpu.status.ready with
  | none => simp
  | some c =>
    rw [hr] at h
    cases hd : d.dpu.deleting with
    | true => simp
    | false =>
      cases hp : reconfigInProgress d.dpu.status.dpuReconfig with
      | true => simp
      | false =>
        have hf : c.status = .isFalse := by simpa [hd, hp] using h
        simp [hf]

/-- The count of `rolloutRolling` and the real one differ by the DPUs of expected devices that it
does not count and by the DPUs of other devices that it does. -/
theorem Prepared.countP_occupiesSlot (h : Prepared set s dpus total) :
    dpus.countP occupiesSlot + (dpus.countP fun d => isExpected set s d && isUncounted d) =
      unavailableDevices set s dpus + dpus.countP fun d => !isExpected set s d && occupiesSlot d := by
  have hsp := countP_split dpus occupiesSlot (isExpected set s)
  have he := countP_split dpus (fun d => isExpected set s d && !isAvailable d) occupiesSlot
  have hs : (dpus.countP fun d => isExpected set s d && !isAvailable d && occupiesSlot d) =
      dpus.countP fun d => occupiesSlot d && isExpected set s d := by
    refine countP_congr fun d _ => ?_
    cases ho : occupiesSlot d with
    | false => simp
    | true => simp [occupiesSlot_not_available ho]
  have hu : (dpus.countP fun d => isExpected set s d && !isAvailable d && !occupiesSlot d) =
      dpus.countP fun d => isExpected set s d && isUncounted d :=
    countP_congr fun d _ => by simp [isUncounted, Bool.and_assoc]
  have hot : (dpus.countP fun d => occupiesSlot d && !isExpected set s d) =
      dpus.countP fun d => !isExpected set s d && occupiesSlot d :=
    countP_congr fun d _ => by rw [Bool.and_comm]
  rw [h.unavailableDevices_eq]
  omega

theorem Prepared.unavailableDevices_rollout (h : Prepared set s dpus total) (ho : order.Perm dpus) :
    unavailableDevices set s (rolloutRolling set total fails order dpus) =
      unavailableDevices set s dpus +
        (deletions set fails (maxUnavailable set total) (dpus.countP occupiesSlot) order).countP
          fun d => isExpected set s d && isAvailable d := by
  have hst : total - order.length + order.countP occupiesSlot = dpus.countP occupiesSlot := by
    rw [ho.length_eq, Nat.sub_eq_zero_of_le h.length_le, Nat.zero_add, ho.countP_eq]
  have hs : (deletions set fails (maxUnavailable set total) (dpus.countP occupiesSlot)
      order).Sublist order :=
    (deletions_sublist set fails _ _ order).trans filter_sublist
  unfold rolloutRolling
  rw [rolloutLoop_eq, hst]
  refine unavailableDevices_foldl_deleteDPU h.nodup ?_ fun d hd => ho.mem_iff.mp (hs.mem hd)
  exact ((ho.map _).nodup_iff.mpr h.nodup).sublist (hs.map _)

variable (set s) in
/-- Available DPUs do not take a slot yet, so that each of their deletions takes a new one. -/
theorem countP_available_le (l : List OwnedDPU) :
    (l.countP fun d => isExpected set s d && isAvailable d) ≤ l.countP fun d => !occupiesSlot d := by
  refine countP_mono_left fun d _ hd => ?_
  cases ho : occupiesSlot d with
  | false => rfl
  | true =>
    rw [occupiesSlot_not_available ho, Bool.and_false] at hd
    exact absurd hd Bool.false_ne_true

variable (set s fails limit unavailable) in
theorem countP_deletions_le_drifted (ho : order.Perm dpus) :
    ((deletions set fails limit unavailable order).countP fun d =>
        isExpected set s d && isAvailable d) ≤
      dpus.countP fun d =>
        isExpected set s d && isAvailable d && !(computeDPUDrift set.template d).isEmpty := by
  refine (deletions_sublist set fails limit unavailable order).countP_le.trans_eq ?_
  rw [countP_filter]
  exact ho.countP_eq _

/-- An order in which the drifted available DPUs of expected devices come first. -/
theorem exists_order_deleting (set : DPUSet) (s : Inventory) (limit unavailable : ℕ)
    (dpus : List OwnedDPU) :
    ∃ order, order.Perm dpus ∧
      min (dpus.countP fun d =>
        isExpected set s d && isAvailable d && !(computeDPUDrift set.template d).isEmpty)
        (limit - unavailable) ≤ (deletions set (fun _ => false) limit unavailable order).countP
        fun d => isExpected set s d && isAvailable d := by
  let chosen : OwnedDPU → Bool := fun d =>
    isExpected set s d && isAvailable d && !(computeDPUDrift set.template d).isEmpty
  have hc : ∀ d ∈ dpus.filter chosen, (isExpected set s d && isAvailable d) = true ∧
      (computeDPUDrift set.template d).isEmpty = false := by
    intro d hd
    obtain ⟨hb, hdr⟩ := Bool.and_eq_true_iff.mp (mem_filter.mp hd).2
    exact ⟨hb, by simpa using hdr⟩
  refine ⟨dpus.filter chosen ++ dpus.filter fun d => !chosen d, filter_append_perm chosen dpus, ?_⟩
  rw [countP_eq_length_filter]
  refine le_countP_deletions (fun d hd => (hc d hd).2) (fun d hd => ?_)
    fun d hd => (hc d hd).1
  cases ho : occupiesSlot d with
  | false => rfl
  | true =>
    have ha := (Bool.and_eq_true_iff.mp (hc d hd).1).2
    rw [occupiesSlot_not_available ho] at ha
    exact absurd ha Bool.false_ne_true

end Rollout

/-- A pass keeps to the budget, in whatever order the DPUs are visited and wherever a deletion fails,
exactly if the DPUs before the rollout meet the condition. -/
theorem rolling_update_within_budget_iff (set : DPUSet) (s : Inventory)
    {createFails : DPUDevice → Bool} {deleteFails : OwnedDPU → Bool} {devices : List DPUDevice}
    {owned dpus : List OwnedDPU} {total : ℕ} (hdevices : devices.Perm s.devices)
    (howned : owned.Perm s.dpus)
    (h : beforeRollout set s createFails deleteFails devices owned = some (dpus, total)) :
    (∀ order fails, order.Perm dpus →
      unavailableDevices set s (rolloutRolling set total fails order dpus) ≤
        max (maxUnavailable set (expectedNames set s).length) (unavailableDevices set s dpus)) ↔
    WithinBudget set s dpus := by
  have hp := beforeRollout_prepared hdevices howned h
  have hc := hp.countP_occupiesSlot
  have ht := hp.total
  subst ht
  simp only [WithinBudget]
  constructor
  · intro hb
    by_contra hn
    obtain ⟨order, ho, hm⟩ := exists_order_deleting set s
      (maxUnavailable set (expectedNames set s).length) (dpus.countP occupiesSlot) dpus
    have hle := hb order (fun _ => false) ho
    rw [hp.unavailableDevices_rollout ho] at hle
    omega
  · intro hw order fails ho
    rw [hp.unavailableDevices_rollout ho]
    have hd := countP_deletions_le_drifted set s fails
      (maxUnavailable set (expectedNames set s).length) (dpus.countP occupiesSlot) ho
    have hs := (countP_available_le set s _).trans (countP_deletions_le set fails
      (maxUnavailable set (expectedNames set s).length) (dpus.countP occupiesSlot) order)
    omega

/-- A DPUSet that wants the flavor `new` and takes down one DPU at a time. -/
def flavorSet : DPUSet := ⟨⟨none, false, some "new", none, none, none⟩, none, 1⟩

def dpuWith (device : String) (ready : ConditionStatus) (flavor : String) : OwnedDPU where
  spec := ⟨device, none, flavor, none, none, ("", "")⟩
  dpu := ⟨device, 1, 0, false,
    ⟨.ready, none, some ⟨ready, "", "", 0⟩, none, false, none, none, none, none, false, none⟩⟩
  finalizer := true
  disrupt := false

def twoDevices (first second : OwnedDPU) (h : first.device = "a" ∧ second.device = "b") : Inventory where
  devices := [⟨"a", true⟩, ⟨"b", true⟩]
  dpus := [first, second]
  foreign := []
  devices_nodup := by decide
  dpus_nodup := by simp [h.1, h.2]
  foreign_not_owned := by simp

/-- The first DPU has Ready Unknown, the second one is Ready and has the old flavor. -/
def unknownAndDrifted : Inventory :=
  twoDevices (dpuWith "a" .isUnknown "new") (dpuWith "b" .isTrue "old") ⟨rfl, rfl⟩

/-- The first DPU is unavailable but takes no slot, so that the second one is deleted as well. -/
theorem unknown_ready_exceeds_budget :
    beforeRollout flavorSet unknownAndDrifted (fun _ => false) (fun _ => false)
        unknownAndDrifted.devices unknownAndDrifted.dpus = some (unknownAndDrifted.dpus, 2) ∧
      maxUnavailable flavorSet (expectedNames flavorSet unknownAndDrifted).length = 1 ∧
      unavailableDevices flavorSet unknownAndDrifted unknownAndDrifted.dpus = 1 ∧
      unavailableDevices flavorSet unknownAndDrifted (rolloutRolling flavorSet 2 (fun _ => false)
        unknownAndDrifted.dpus unknownAndDrifted.dpus) = 2 := by
  decide +kernel

/-- Both DPUs are Ready and have the old flavor. -/
def bothDrifted : Inventory :=
  twoDevices (dpuWith "a" .isTrue "old") (dpuWith "b" .isTrue "old") ⟨rfl, rfl⟩

/-- One of the two is deleted, whatever the order and the failures. -/
theorem both_drifted_within_budget :
    beforeRollout flavorSet bothDrifted (fun _ => false) (fun _ => false) bothDrifted.devices
        bothDrifted.dpus = some (bothDrifted.dpus, 2) ∧
      ∀ order fails, order.Perm bothDrifted.dpus →
        unavailableDevices flavorSet bothDrifted
          (rolloutRolling flavorSet 2 fails order bothDrifted.dpus) ≤ 1 := by
  have hb : beforeRollout flavorSet bothDrifted (fun _ => false) (fun _ => false)
      bothDrifted.devices bothDrifted.dpus = some (bothDrifted.dpus, 2) := by decide +kernel
  refine ⟨hb, fun order fails ho => ?_⟩
  have hw : WithinBudget flavorSet bothDrifted bothDrifted.dpus :=
    .inr (.inl (by decide +kernel))
  have hle := (rolling_update_within_budget_iff flavorSet bothDrifted (List.Perm.refl _)
    (List.Perm.refl _) hb).mpr hw order fails ho
  exact hle.trans (by decide +kernel)

end DocaPlatform.RollingUpdate
