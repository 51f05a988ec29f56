import DocaPlatform.LabelSelectors
import DocaPlatform.Runs

/-!
# The condition on critical pods

`aggregateDPUServicePodsConditions` attributes the pods of a node to DPUServices by the service ID
of their spec, and decides by the service ID of their status whether a critical service has a pod.
The two agree with the service ID that the pods carry only when both are written.
-/
namespace DocaPlatform.CriticalPods

open LabelSelectors Runs List Function

def dpfServiceIDLabelKey : String := "svc.dpu.nvidia.com/service"

def dpuServiceCriticalLabelKey : String := "svc.dpu.nvidia.com/critical"

inductive PodPhase where
  | pending
  | running
  | succeeded
  | failed
  | unknown
  deriving DecidableEq

inductive ConditionStatus where
  | isTrue
  | isFalse
  | unknown
  deriving DecidableEq

structure PodCondition where
  type : String
  status : ConditionStatus

structure Pod where
  name : String
  labels : Labels
  nodeName : String
  deleting : Bool
  phase : PodPhase
  conditions : List PodCondition

/-- `metav1.Condition`. -/
structure Condition where
  type : String
  status : ConditionStatus
  reason : String
  message : String

section Service

variable (NodeSelector : Type)

structure ServiceDaemonSet where
  nodeSelector : Option NodeSelector

structure DPUService where
  name : String
  nameSpace : String
  labels : Labels
  /-- `spec.serviceID`. -/
  serviceID : Option String
  /-- `status.serviceID`, empty until it is written. -/
  statusServiceID : String
  dpuClusterSelector : Option LabelSelector
  serviceDaemonSet : Option (ServiceDaemonSet NodeSelector)

end Service

variable {NodeSelector Node : Type}

/-- The service has the label that marks it as critical. -/
def DPUService.critical (s : DPUService NodeSelector) : Bool :=
  (s.labels.get dpuServiceCriticalLabelKey).isSome

def Pod.serviceID (pod : Pod) : String := (pod.labels.get dpfServiceIDLabelKey).getD ""

/-- `isPodRunning`: of several conditions of type Ready the first one counts. -/
def isPodRunning (pod : Pod) : Bool :=
  if pod.deleting then false
  else if pod.phase ≠ .running then false
  else
    match pod.conditions.find? fun cond => cond.type == "Ready" with
    | some cond => cond.status == .isTrue
    | none => false

/-- `digest.Short`. -/
def digestShort (repr : String) (length : ℕ) : String :=
  let chars := repr.toList
  let full := if ':' ∈ chars then (chars.dropWhile (· ≠ ':')).tail else chars
  String.ofList (full.take length)

/-- `generateServiceID`; `fromObjects` is `digest.FromObjects`. -/
def generateServiceID (fromObjects : List String → String) (groupKind : String)
    (s : DPUService NodeSelector) : String :=
  match s.serviceID with
  | some id => id
  | none => digestShort (fromObjects [groupKind, s.name, s.nameSpace]) 10

/-- `dpuServiceExpectedOnNode`; `matchNodeSelectorTerms` is the function of the scheduling
helpers. -/
def dpuServiceExpectedOnNode (matchNodeSelectorTerms : Node → NodeSelector → Except String Bool)
    (s : DPUService NodeSelector) (dpuClusterLabels : Labels) (node : Node) :
    Except String Bool := do
  let clusterSelector ← requirements s.dpuClusterSelector
  if !matchesAll clusterSelector dpuClusterLabels then return false
  match s.serviceDaemonSet with
  | none => return true
  | some daemonSet =>
    match daemonSet.nodeSelector with
    | none => return true
    | some selector => matchNodeSelectorTerms node selector

/-! ## Aggregation -/

def maxUnreadyItemsInMessage : ℕ := 5

def formatUnreadyItems (items : List String) : String :=
  let sorted := items.insertionSort (· ≤ ·)
  if items.isEmpty then ""
  else if maxUnreadyItemsInMessage < sorted.length then
    ", ".intercalate (sorted.take maxUnreadyItemsInMessage) ++ ", ... (" ++
      toString (sorted.length - maxUnreadyItemsInMessage) ++ " more)"
  else ", ".intercalate sorted

def serviceIDCriticalityMap (services : List (DPUService NodeSelector)) : String → Option Bool :=
  services.foldl
    (fun m s =>
      match s.serviceID with
      | none => m
      | some id => update m id (some s.critical))
    fun _ => none

/-- The counts and the names that the loop over the pods collects. -/
structure PodTally where
  criticalPodCount : ℕ
  nonCriticalPodCount : ℕ
  criticalNotReadyPods : List String
  nonCriticalNotReadyPods : List String

def PodTally.add (criticality : String → Option Bool) (t : PodTally) (pod : Pod) : PodTally :=
  match criticality pod.serviceID with
  | none => t
  | some true =>
    { t with
      criticalPodCount := t.criticalPodCount + 1
      criticalNotReadyPods :=
        if isPodRunning pod then t.criticalNotReadyPods
        else t.criticalNotReadyPods ++ [pod.name] }
  | some false =>
    { t with
      nonCriticalPodCount := t.nonCriticalPodCount + 1
      nonCriticalNotReadyPods :=
        if isPodRunning pod then t.nonCriticalNotReadyPods
        else t.nonCriticalNotReadyPods ++ [pod.name] }

def tallyPods (criticality : String → Option Bool) (pods : List Pod) : PodTally :=
  pods.foldl (PodTally.add criticality) ⟨0, 0, [], []⟩

/-- The service has a pod under the service ID of its status. -/
def DPUService.hasPod (s : DPUService NodeSelector) (pods : List Pod) : Bool :=
  pods.any (fun pod => pod.serviceID == s.statusServiceID) && s.statusServiceID != ""

/-- The loop over the services: the critical ones that are expected on the node and have no pod.
The DPUCluster is read when the first service without a pod is found. -/
def criticalServicesWithoutPod (expected : DPUService NodeSelector → Labels → Except String Bool)
    (dpuCluster : Except String Labels) (pods : List Pod) :
    List (DPUService NodeSelector) → Except String (List String)
  | [] => .ok []
  | s :: rest =>
    if !s.critical || s.hasPod pods then criticalServicesWithoutPod expected dpuCluster pods rest
    else
      match dpuCluster with
      | .error err => .error ("failed to get DPUCluster: " ++ err)
      | .ok labels =>
        match expected s labels with
        | .error err =>
          .error ("failed to evaluate selectors of DPUService " ++ s.name ++ ": " ++ err)
        | .ok false => criticalServicesWithoutPod expected dpuCluster pods rest
        | .ok true => do
          let names ← criticalServicesWithoutPod expected dpuCluster pods rest
          .ok ((s.name ++ " (no pod yet)") :: names)

def criticalCondition (t : PodTally) (withoutPod : List String) : Condition :=
  if 0 < t.criticalNotReadyPods.length + withoutPod.length then
    { type := "DPUServiceCriticalPodsReady"
      status := .isFalse
      reason := "PodsNotReady"
      message := "Critical Pods not ready (" ++
        toString (t.criticalPodCount - t.criticalNotReadyPods.length) ++ "/" ++
        toString (t.criticalPodCount + withoutPod.length) ++ "): " ++
        formatUnreadyItems (t.criticalNotReadyPods ++ withoutPod) }
  else
    { type := "DPUServiceCriticalPodsReady"
      status := .isTrue
      reason := "AllPodsReady"
      message := "All critical Pods are ready (" ++ toString t.criticalPodCount ++ ")" }

def nonCriticalCondition (t : PodTally) : Condition :=
  if 0 < t.nonCriticalNotReadyPods.length then
    { type := "DPUServiceNonCriticalPodsReady"
      status := .isFalse
      reason := "PodsNotReady"
      message := "Pods not ready (" ++
        toString (t.nonCriticalPodCount - t.nonCriticalNotReadyPods.length) ++ "/" ++
        toString t.nonCriticalPodCount ++ "): " ++ formatUnreadyItems t.nonCriticalNotReadyPods }
  else
    { type := "DPUServiceNonCriticalPodsReady"
      status := .isTrue
      reason := "AllPodsReady"
      message := "All Pods are ready (" ++ toString t.nonCriticalPodCount ++ ")" }

def podsOnNode (dpuName : String) (pods : List Pod) : List Pod :=
  pods.filter fun pod =>
    (pod.labels.get dpfServiceIDLabelKey).isSome && pod.nodeName == dpuName

/-- `aggregateDPUServicePodsConditions`; `pods` is what the DPU cluster lists. -/
def aggregateDPUServicePodsConditions
    (matchNodeSelectorTerms : Node → NodeSelector → Except String Bool) (dpuName : String)
    (node : Node) (services : List (DPUService NodeSelector)) (pods : Except String (List Pod))
    (dpuCluster : Except String Labels) : Except String (Condition × Condition) :=
  match pods with
  | .error err => .error ("failed to list pods: " ++ err)
  | .ok pods => do
    let podList := podsOnNode dpuName pods
    let tally := tallyPods (serviceIDCriticalityMap services) podList
    let withoutPod ← criticalServicesWithoutPod
      (fun s labels => dpuServiceExpectedOnNode matchNodeSelectorTerms s labels node) dpuCluster
      podList services
    .ok (criticalCondition tally withoutPod, nonCriticalCondition tally)

/-! ## What the loops find -/

/-- The last service with a service ID decides, so services with one ID have to agree. -/
theorem serviceIDCriticalityMap_eq_some {services : List (DPUService NodeSelector)} {id : String}
    {c : Bool}
    (hag : ∀ s ∈ services, ∀ t ∈ services, s.serviceID = some id → t.serviceID = some id →
      s.critical = t.critical) :
    serviceIDCriticalityMap services id = some c ↔
      ∃ s ∈ services, s.serviceID = some id ∧ s.critical = c := by
  induction services using List.reverseRecOn with
  | nil => simp [serviceIDCriticalityMap]
  | append_singleton rest s ih =>
    have hr := ih fun a ha b hb =>
      hag a (mem_append_left _ ha) b (mem_append_left _ hb)
    have hl : s ∈ rest ++ [s] := by simp
    have hm : serviceIDCriticalityMap (rest ++ [s]) =
        match s.serviceID with
        | none => serviceIDCriticalityMap rest
        | some id => update (serviceIDCriticalityMap rest) id (some s.critical) := by
      simp [serviceIDCriticalityMap]
    by_cases hid : s.serviceID = some id
    · rw [hm, hid]
      simp only [update_self, Option.some.injEq]
      constructor
      · exact fun hc => ⟨s, hl, hid, hc⟩
      · rintro ⟨t, ht, hti, hc⟩
        rw [hag s hl t ht hid hti, hc]
    · have hsa : serviceIDCriticalityMap (rest ++ [s]) id = serviceIDCriticalityMap rest id := by
        rw [hm]
        cases hs : s.serviceID with
        | none => rfl
        | some other =>
          have hne : id ≠ other := fun heq => hid (by rw [hs, heq])
          exact update_of_ne hne _ _
      rw [hsa, hr]
      constructor
      · rintro ⟨t, ht, h⟩
        exact ⟨t, mem_append_left _ ht, h⟩
      · rintro ⟨t, ht, hti, hc⟩
        rcases mem_append.mp ht with ht | ht
        · exact ⟨t, ht, hti, hc⟩
        · obtain rfl := mem_singleton.mp ht
          exact absurd hti hid

theorem criticalNotReadyPods_foldl (criticality : String → Option Bool) (pods : List Pod)
    (t : PodTally) :
    (pods.foldl (PodTally.add criticality) t).criticalNotReadyPods = t.criticalNotReadyPods ++
        (pods.filter fun pod => criticality pod.serviceID == some true && !isPodRunning pod).map
          Pod.name := by
  induction pods generalizing t with
  | nil => simp
  | cons pod rest ih =>
    rw [foldl_cons, ih]
    cases hc : criticality pod.serviceID with
    | none => simp [PodTally.add, hc]
    | some c =>
      cases c with
      | false => simp [PodTally.add, hc]
      | true => cases hr : isPodRunning pod <;> simp [PodTally.add, hc, hr]

/-- No pod that the map calls critical is left out of the condition. -/
theorem criticalNotReadyPods_eq_nil {criticality : String → Option Bool} {pods : List Pod} :
    (tallyPods criticality pods).criticalNotReadyPods = [] ↔
      ∀ pod ∈ pods, criticality pod.serviceID = some true → isPodRunning pod = true := by
  unfold tallyPods
  rw [criticalNotReadyPods_foldl]
  simp [filter_eq_nil_iff]

/-- When the loop over the services ends without an error, it found nothing if every critical
service that is expected on the node has a pod under the service ID of its status. -/
theorem criticalServicesWithoutPod_eq_nil
    {expected : DPUService NodeSelector → Labels → Except String Bool}
    {dpuCluster : Except String Labels} {pods : List Pod} {services : List (DPUService NodeSelector)}
    {names : List String}
    (h : criticalServicesWithoutPod expected dpuCluster pods services = .ok names) :
    names = [] ↔ ∀ s ∈ services, s.critical = true →
      (∃ labels, dpuCluster = .ok labels ∧ expected s labels = .ok true) → s.hasPod pods = true := by
  induction services generalizing names with
  | nil =>
    cases h
    simp
  | cons s rest ih =>
    unfold criticalServicesWithoutPod at h
    split_ifs at h with hs
    · rw [ih h, forall_mem_cons]
      refine ⟨fun hr => ⟨fun hc _ => ?_, hr⟩, fun hall => hall.2⟩
      simpa [hc] using hs
    · simp only [Bool.or_eq_true, Bool.not_eq_true', not_or, Bool.not_eq_false,
        Bool.not_eq_true] at hs
      split at h
      · simp at h
      · rename_i labels
        split at h
        · simp at h
        · rename_i hex
          rw [ih h, forall_mem_cons]
          refine ⟨fun hr => ⟨fun _ he => ?_, hr⟩, fun hall => hall.2⟩
          obtain ⟨labels', hl, ht⟩ := he
          cases hl
          simp [hex] at ht
        · rename_i hex
          obtain ⟨tail, _, heq⟩ := bind_eq_ok.mp h
          cases heq
          refine iff_of_false (by simp) fun hall => ?_
          have := hall s mem_cons_self hs.1 ⟨labels, rfl, hex⟩
          simp [hs.2] at this

/-! ## The condition against the services -/

section Exact

variable (id : DPUService NodeSelector → String) (expected : DPUService NodeSelector → Prop)
variable (services : List (DPUService NodeSelector)) (pods : List Pod)

/-- The pods of the critical services are running and ready; `p` picks among the services. -/
def PodsReady (p : DPUService NodeSelector → Prop) : Prop :=
  ∀ s ∈ services, s.critical = true → p s →
    ∀ pod ∈ pods, pod.serviceID = id s → isPodRunning pod = true

/-- Every critical service that is expected on the node has a pod. -/
def PodsPresent : Prop :=
  ∀ s ∈ services, s.critical = true → expected s → ∃ pod ∈ pods, pod.serviceID = id s

/-- Every critical service that is expected on the node has a pod, and its status names it. -/
def PodsRecorded : Prop :=
  ∀ s ∈ services, s.critical = true → expected s →
    s.statusServiceID ≠ "" ∧ ∃ pod ∈ pods, pod.serviceID = s.statusServiceID

/-- The defect is out of reach: a critical service without `spec.serviceID` has no pod that is not
ready behind ready pods of the others, and where all critical services are well, the status of those
that are expected on the node is written. -/
structure Attributed : Prop where
  spec : PodsReady id services pods (fun s => s.serviceID.isSome = true) →
    PodsRecorded expected services pods →
      PodsReady id services pods fun s => s.serviceID = none
  status : PodsReady id services pods (fun _ => True) → PodsPresent id expected services pods →
    ∀ s ∈ services, s.critical = true → expected s → s.statusServiceID ≠ ""

variable {id expected services pods}

theorem podsReady_iff : PodsReady id services pods (fun _ => True) ↔
    PodsReady id services pods (fun s => s.serviceID.isSome = true) ∧
      PodsReady id services pods fun s => s.serviceID = none := by
  constructor
  · exact fun h => ⟨fun s hs hc _ => h s hs hc trivial, fun s hs hc _ => h s hs hc trivial⟩
  · rintro ⟨hsp, hn⟩ s hs hc _
    cases hid : s.serviceID with
    | none => exact hn s hs hc hid
    | some i => exact hsp s hs hc (by simp [hid])

/-- The code's condition is the claimed one exactly when the services are attributed. -/
theorem attributed_iff (hst : ∀ s ∈ services, s.statusServiceID = "" ∨ s.statusServiceID = id s) :
    ((PodsReady id services pods (fun s => s.serviceID.isSome = true) ∧
        PodsRecorded expected services pods) ↔
      (PodsReady id services pods (fun _ => True) ∧ PodsPresent id expected services pods)) ↔
    Attributed id expected services pods := by
  have hpr : PodsRecorded expected services pods → PodsPresent id expected services pods := by
    intro h s hs hc he
    obtain ⟨hne, pod, hp, heq⟩ := h s hs hc he
    exact ⟨pod, hp, heq.trans ((hst s hs).resolve_left hne)⟩
  constructor
  · intro h
    refine ⟨fun hsp hre => (podsReady_iff.mp (h.mp ⟨hsp, hre⟩).1).2, ?_⟩
    intro hr hpres s hs hc he
    exact ((h.mpr ⟨hr, hpres⟩).2 s hs hc he).1
  · intro h
    constructor
    · rintro ⟨hsp, hre⟩
      exact ⟨podsReady_iff.mpr ⟨hsp, h.spec hsp hre⟩, hpr hre⟩
    · rintro ⟨hr, hpres⟩
      refine ⟨(podsReady_iff.mp hr).1, fun s hs hc he => ?_⟩
      have hne := h.status hr hpres s hs hc he
      rw [(hst s hs).resolve_left hne]
      exact ⟨(hst s hs).resolve_left hne ▸ hne, hpres s hs hc he⟩

end Exact

section Aggregate

variable {matchNodeSelectorTerms : Node → NodeSelector → Except String Bool} {dpuName : String}
variable {node : Node} {services : List (DPUService NodeSelector)} {pods : List Pod}
variable {dpuCluster : Except String Labels} {fromObjects : List String → String}
variable {groupKind : String} {critical nonCritical : Condition}

/-- The DPUCluster of the DPU can be read, and `dpuServiceExpectedOnNode` holds. -/
def ExpectedOnNode (matchNodeSelectorTerms : Node → NodeSelector → Except String Bool) (node : Node)
    (dpuCluster : Except String Labels) (s : DPUService NodeSelector) : Prop :=
  ∃ labels, dpuCluster = .ok labels ∧
    dpuServiceExpectedOnNode matchNodeSelectorTerms s labels node = .ok true

theorem criticalCondition_isTrue {t : PodTally} {withoutPod : List String} :
    (criticalCondition t withoutPod).status = .isTrue ↔
      t.criticalNotReadyPods = [] ∧ withoutPod = [] := by
  unfold criticalCondition
  split_ifs with h
  · simp only [false_iff, not_and]
    rintro hn rfl
    simp [hn] at h
  · simp only [not_lt, Nat.le_zero, Nat.add_eq_zero_iff, length_eq_zero_iff] at h
    simp [h]

theorem hasPod_iff {s : DPUService NodeSelector} :
    s.hasPod pods = true ↔
      s.statusServiceID ≠ "" ∧ ∃ pod ∈ pods, pod.serviceID = s.statusServiceID := by
  simp [DPUService.hasPod, and_comm]

/-- What the critical condition says: the pods of the critical services with a `spec.serviceID` are
ready, and the critical services that are expected on the node have a pod by their status. -/
theorem critical_isTrue_iff (hids : (services.map (generateServiceID fromObjects groupKind)).Nodup)
    (h : aggregateDPUServicePodsConditions matchNodeSelectorTerms dpuName node services (.ok pods)
      dpuCluster = .ok (critical, nonCritical)) :
    critical.status = .isTrue ↔
      PodsReady (generateServiceID fromObjects groupKind) services (podsOnNode dpuName pods)
          (fun s => s.serviceID.isSome = true) ∧
        PodsRecorded (ExpectedOnNode matchNodeSelectorTerms node dpuCluster) services
          (podsOnNode dpuName pods) := by
  obtain ⟨withoutPod, hl, heq⟩ := bind_eq_ok.mp h
  simp only [Except.ok.injEq, Prod.mk.injEq] at heq
  rw [← heq.1, criticalCondition_isTrue, criticalNotReadyPods_eq_nil,
    criticalServicesWithoutPod_eq_nil hl]
  have hsa : ∀ s ∈ services, ∀ t ∈ services, ∀ i, s.serviceID = some i → t.serviceID = some i →
      s.critical = t.critical := by
    intro s hs t ht i hsi hti
    rw [inj_on_of_nodup_map hids hs ht (by simp [generateServiceID, hsi, hti])]
  have hr : (∀ pod ∈ podsOnNode dpuName pods,
      serviceIDCriticalityMap services pod.serviceID = some true → isPodRunning pod = true) ↔
      PodsReady (generateServiceID fromObjects groupKind) services (podsOnNode dpuName pods)
        (fun s => s.serviceID.isSome = true) := by
    constructor
    · intro hall s hs hc hsp pod hp hid
      obtain ⟨i, hi⟩ := Option.isSome_iff_exists.mp hsp
      have hi' : pod.serviceID = i := by simpa [generateServiceID, hi] using hid
      refine hall pod hp ((serviceIDCriticalityMap_eq_some fun a ha b hb =>
        hsa a ha b hb _).mpr ⟨s, hs, ?_, hc⟩)
      rw [hi, hi']
    · intro hall pod hp hcr
      obtain ⟨s, hs, hi, hc⟩ :=
        (serviceIDCriticalityMap_eq_some fun a ha b hb => hsa a ha b hb _).mp hcr
      exact hall s hs hc (by simp [hi]) pod hp (by simp [generateServiceID, hi])
  rw [hr]
  unfold PodsRecorded
  simp only [hasPod_iff]
  rfl

/-- The critical condition is True if and only if every critical service has only running and ready
pods and every one that is expected on the node has a pod, exactly when the services are
attributed. -/
theorem criticalCondition_exact_iff_attributed
    (hids : (services.map (generateServiceID fromObjects groupKind)).Nodup)
    (hstatus : ∀ s ∈ services, s.statusServiceID = "" ∨
      s.statusServiceID = generateServiceID fromObjects groupKind s)
    (h : aggregateDPUServicePodsConditions matchNodeSelectorTerms dpuName node services (.ok pods)
      dpuCluster = .ok (critical, nonCritical)) :
    (critical.status = .isTrue ↔
      PodsReady (generateServiceID fromObjects groupKind) services (podsOnNode dpuName pods)
          (fun _ => True) ∧
        PodsPresent (generateServiceID fromObjects groupKind)
          (ExpectedOnNode matchNodeSelectorTerms node dpuCluster) services
          (podsOnNode dpuName pods)) ↔
      Attributed (generateServiceID fromObjects groupKind)
        (ExpectedOnNode matchNodeSelectorTerms node dpuCluster) services
        (podsOnNode dpuName pods) := by
  rw [critical_isTrue_iff hids h]
  exact attributed_iff hstatus

end Aggregate

/-- A digest function that tells nothing apart. -/
def sampleDigest (_ : List String) : String := "sha256:0123456789abcdef"

/-- A critical service that runs on every node. -/
def sampleService (serviceID : Option String) (statusServiceID : String) : DPUService Unit :=
  { name := "flow"
    nameSpace := "dpf"
    labels := [(dpuServiceCriticalLabelKey, "")]
    serviceID := serviceID
    statusServiceID := statusServiceID
    dpuClusterSelector := none
    serviceDaemonSet := none }

def samplePod (serviceID : String) (phase : PodPhase) : Pod :=
  { name := "flow-x"
    labels := [(dpfServiceIDLabelKey, serviceID)]
    nodeName := "dpu-a"
    deleting := false
    phase := phase
    conditions := [⟨"Ready", .isTrue⟩] }

def sampleConditions (s : DPUService Unit) (pod : Pod) : Except String (Condition × Condition) :=
  aggregateDPUServicePodsConditions (fun (_ : Unit) _ => .ok true) "dpu-a" () [s] (.ok [pod]) (.ok [])

theorem sampleConditions_status {s : DPUService Unit} {pod : Pod} {status : ConditionStatus}
    (h : (sampleConditions s pod).toOption.map (fun c => c.1.status) = some status) :
    ∃ critical nonCritical, sampleConditions s pod = .ok (critical, nonCritical) ∧
      critical.status = status := by
  obtain ⟨c, hc, hst⟩ := Option.map_eq_some_iff.mp h
  exact ⟨c.1, c.2, toOption_eq_some.mp hc, hst⟩

theorem samplePod_mem (serviceID : String) (phase : PodPhase) :
    samplePod serviceID phase ∈ podsOnNode "dpu-a" [samplePod serviceID phase] := by
  simp [podsOnNode, samplePod, Labels.get]

/-- With both service IDs written, the service is attributed. -/
theorem written_service_attributed :
    Attributed (generateServiceID sampleDigest "") (ExpectedOnNode (fun (_ : Unit) _ => .ok true) ()
      (.ok [])) [sampleService (some "flow") "flow"]
      (podsOnNode "dpu-a" [samplePod "flow" .running]) := by
  obtain ⟨critical, nonCritical, hok, hst⟩ := @sampleConditions_status
    (sampleService (some "flow") "flow") (samplePod "flow" .running) .isTrue (by decide +kernel)
  refine (criticalCondition_exact_iff_attributed (by simp) (fun s hs => ?_) hok).mp
    (iff_of_true hst ⟨fun s hs _ _ pod hp _ => ?_, fun s hs _ _ => ?_⟩)
  · obtain rfl := mem_singleton.mp hs
    exact .inr rfl
  · obtain rfl := mem_singleton.mp (mem_of_mem_filter hp)
    decide
  · obtain rfl := mem_singleton.mp hs
    exact ⟨samplePod "flow" .running, samplePod_mem _ _, by decide +kernel⟩

/-- The critical service has no `spec.serviceID`, and its pod carries the generated service ID. The
pod is pending, and the critical condition is True. -/
theorem pending_pod_counted_ready :
    ∃ critical nonCritical,
      sampleConditions (sampleService none "0123456789") (samplePod "0123456789" .pending) =
        .ok (critical, nonCritical) ∧
      critical.status = .isTrue ∧
      generateServiceID sampleDigest "" (sampleService none "0123456789") = "0123456789" ∧
      ¬ PodsReady (generateServiceID sampleDigest "") [sampleService none "0123456789"]
        (podsOnNode "dpu-a" [samplePod "0123456789" .pending]) (fun _ => True) := by
  obtain ⟨critical, nonCritical, hok, hst⟩ := @sampleConditions_status
    (sampleService none "0123456789") (samplePod "0123456789" .pending) .isTrue (by decide +kernel)
  have hid : generateServiceID sampleDigest "" (sampleService none "0123456789") = "0123456789" := by
    decide +kernel
  refine ⟨critical, nonCritical, hok, hst, hid, fun hr => ?_⟩
  have hru := hr _ (mem_singleton_self _) (by decide +kernel) trivial
    (samplePod "0123456789" .pending) (samplePod_mem _ _) (by rw [hid]; decide +kernel)
  simp [isPodRunning, samplePod] at hru

end DocaPlatform.CriticalPods
