import DocaPlatform.RevisionEffects

/-!
# Interfaces that outlive their service revision

Service revisions are kept by the history limit, digests and readiness, interfaces through the paused
flag of the DPUService that owns them. Over a run of passes, with objects removed by others in
between, no pass deletes an interface that a DPUService which stays lists in its spec, as long as
every pass finds the old revisions paused and goes on with the objects of one revision.
-/
namespace DocaPlatform.DeploymentRevisions

open KeyedStore Words Runs List Store

variable {Values Template : Type}

/-- The services and interfaces that are configured in the course of a run, by names that are told
apart. -/
structure Family where
  services : Set Name
  interfaces : Set (Name × Name)
  servicesApart : ServiceNamesApart services
  interfacesApart : InterfaceNamesApart interfaces

section Reads

variable (lib : Library Values Template) (deployment : DPUDeployment)
  (inputs : Inputs Values Template) (cluster : Cluster) (service : Name)

/-- The version digest of a service that is not rendered. -/
def currentDigest : String :=
  versionDigestOf lib inputs service (inputs.dependencies.configurations service)

def serviceRevisions : Revisions DPUService :=
  getCurrentAndStaleDPUServices service (currentDigest lib inputs service) cluster.services.items

/-- The DPUService that a service goes on with: its current revision, the youngest one if it is
updated in place, or a new one. -/
def continued : Name :=
  revisionName lib deployment inputs cluster.services.items service
    (inputs.dependencies.configurations service)

/-- The DPUServiceInterface that an interface goes on with. -/
def continuedInterface (interface : Name) : Name :=
  plannedName lib deployment inputs cluster.interfaces.items service interface

end Reads

structure PassCondition (family : Family) (lib : Library Values Template)
    (deployment : DPUDeployment) (inputs : Inputs Values Template) (cluster : Cluster) : Prop where
  independent : ∀ service ∈ deployment.services, service.dependsOn = []
  services : ∀ s ∈ deployment.ranged, s ∈ family.services
  interfaces : ∀ s ∈ deployment.ranged,
    ∀ i ∈ (inputs.dependencies.configurations s).interfaces, (s, i) ∈ family.interfaces
  /-- Besides the DPUService that is continued, the old revisions that are not about to be paused
  are paused. -/
  oldPaused : ∀ s ∈ deployment.ranged,
    (serviceRevisions lib inputs cluster s).current ≠ none ∨
      (inputs.dependencies.configurations s).shouldApplyNodeEffect = false →
    ∀ o ∈ (serviceRevisions lib inputs cluster s).stale,
      o.1 ≠ continued lib deployment inputs cluster s → o.2.deleting = false → o.2.paused = true
  /-- The interfaces that are continued belong to the DPUService that is. -/
  ownInterfaces : ∀ s ∈ deployment.ranged,
    ∀ i ∈ (inputs.dependencies.configurations s).interfaces, ∀ o,
      cluster.interfaces.get (continuedInterface lib deployment inputs cluster s i) = some o →
      o.owner = continued lib deployment inputs cluster s
  freshService : ∀ s ∈ deployment.ranged,
    cluster.services.get (generatedServiceName s (inputs.suffix s)) = none ∧
    ∀ n o, cluster.interfaces.get n = some o →
      o.owner ≠ generatedServiceName s (inputs.suffix s)
  freshInterface : ∀ s ∈ deployment.ranged,
    ∀ i ∈ (inputs.dependencies.configurations s).interfaces,
    cluster.interfaces.get (generatedInterfaceName s i (inputs.interfaceSuffix s i)) = none ∧
    ∀ m v, cluster.services.get m = some v →
      generatedInterfaceName s i (inputs.interfaceSuffix s i) ∉ v.interfaces
  /-- If the interfaces part finds a service ready that has old revisions left, the services part
  has found it ready as well and its deletions of them succeed. -/
  readyBefore : ∀ s ∈ deployment.ranged, inputs.readyLater s = true →
    ∀ o ∈ (serviceRevisions lib inputs cluster s).stale, o.2.deleting = false →
      (serviceRevisions lib inputs cluster s).current ≠ none ∧ inputs.ready s = true ∧
      ∀ p ∈ (serviceRevisions lib inputs cluster s).stale,
        inputs.serviceOk (some s) (.delete p.1) = true

structure Retained (family : Family) (cluster : Cluster) : Prop where
  serviceNamed : ∀ m v, cluster.services.get m = some v →
    ∃ s ∈ family.services, ∃ suffix, m = generatedServiceName s suffix
  interfaceNamed : ∀ n o, cluster.interfaces.get n = some o →
    ∃ p ∈ family.interfaces, ∃ suffix, n = generatedInterfaceName p.1 p.2 suffix
  /-- An interface that a DPUService lists belongs to it. -/
  own : ∀ m v, cluster.services.get m = some v → v.deleting = false →
    ∀ n ∈ v.interfaces, ∀ o, cluster.interfaces.get n = some o → o.owner = m
  /-- An interface of a service belongs to a revision of that service. -/
  kin : ∀ n o v, cluster.interfaces.get n = some o → cluster.services.get o.owner = some v →
    ∀ p ∈ family.interfaces, matchInterfaceName n p.1 p.2 = true →
      matchDPUServiceName o.owner p.1 = true

theorem Family.service_unique {family : Family} {m s t : Name}
    (hm : ∃ u ∈ family.services, ∃ suffix, m = generatedServiceName u suffix)
    (hs : s ∈ family.services) (ht : t ∈ family.services)
    (hms : matchDPUServiceName m s = true) (hmt : matchDPUServiceName m t = true) : s = t := by
  obtain ⟨u, hu, suffix, rfl⟩ := hm
  have ha := serviceNamesApart_iff.mp family.servicesApart
  exact (ha u hu s hs suffix hms).trans (ha u hu t ht suffix hmt).symm

theorem Family.interface_unique {family : Family} {n : Name} {p q : Name × Name}
    (hn : ∃ u ∈ family.interfaces, ∃ suffix, n = generatedInterfaceName u.1 u.2 suffix)
    (hp : p ∈ family.interfaces) (hq : q ∈ family.interfaces)
    (hnp : matchInterfaceName n p.1 p.2 = true) (hnq : matchInterfaceName n q.1 q.2 = true) :
    p = q := by
  obtain ⟨u, hu, suffix, rfl⟩ := hn
  have ha := interfaceNamesApart_iff.mp family.interfacesApart
  exact (ha u hu p hp suffix hnp).trans (ha u hu q hq suffix hnq).symm

/-! ## A pass over services without dependencies -/

section Services

variable {family : Family} {lib : Library Values Template} {deployment : DPUDeployment}
  {inputs : Inputs Values Template} {cluster : Cluster}

theorem ranged_service {s : Name} (h : s ∈ deployment.ranged) :
    ∃ service ∈ deployment.services, service.name = s :=
  mem_map.mp (deployment.perm.mem_iff.mp h)

theorem mem_ranged {service : Service} (h : service ∈ deployment.services) :
    service.name ∈ deployment.ranged :=
  deployment.perm.mem_iff.mpr (mem_map_of_mem h)

variable (hc : PassCondition family lib deployment inputs cluster) (hi : Retained family cluster)
  (h : (servicesPart lib deployment inputs cluster).errors = [])

include hc

theorem PassCondition.configurationAfter (s : Name) :
    configurationAfter lib deployment inputs cluster s = inputs.dependencies.configurations s := by
  unfold DeploymentRevisions.configurationAfter ServicesResult.configuration
  split
  · next turn hf =>
    obtain ⟨service, hs, patched, rfl⟩ :=
      mem_reconcileDPUServices_turns (mem_of_find?_eq_some hf)
    have hn : service.name = s := by simpa using find?_some hf
    subst hn
    have hr : renderedConfiguration lib inputs patched service =
        .ok (inputs.dependencies.configurations service.name) :=
      renderedConfiguration_of_independent (hc.independent service hs)
    simp only [serviceTurn, hr]
    split
    · rfl
    · split <;> rfl
  · rfl

variable {m s i n : Name} {v v' : DPUService} {o o' : DPUServiceInterface}

theorem PassCondition.appliedTo {d : String} {l : List Name}
    (h : AppliedTo inputs (servicesPart lib deployment inputs cluster).calls m d l) :
    ∃ s ∈ deployment.ranged, m = continued lib deployment inputs cluster s ∧
      d = currentDigest lib inputs s ∧
      l = plannedInterfaces lib deployment inputs cluster.interfaces.items s := by
  obtain ⟨behalf, hca, -, -⟩ := mem_touching.mp h
  rcases mem_reconcileDPUServices_calls hca with ⟨service, hs, patched, -, htu⟩ | ⟨-, o, -, heq⟩
  · obtain ⟨configuration, hr, hold | ⟨target, ht, heq⟩⟩ := mem_serviceTurn_calls htu
    · obtain ⟨o, -, heq | heq | heq⟩ := mem_serviceRevision_calls hold
      · cases heq
      · cases heq
      · cases heq
    · rw [renderedConfiguration_of_independent (hc.independent service hs)] at hr
      cases hr
      obtain rfl := serviceRevision_target ht
      obtain ⟨rfl, rfl, rfl⟩ := ServiceCall.apply.inj heq
      exact ⟨service.name, mem_ranged hs, rfl, rfl, rfl⟩
  · cases heq

include h in
/-- In a services part that succeeds, every service writes the DPUService it goes on with, after the
calls about its old revisions. -/
theorem PassCondition.turn_of_success (hs : s ∈ deployment.ranged) :
    let revision := serviceRevision lib deployment inputs cluster.services.items s
      (inputs.dependencies.configurations s)
    revision.target = .ok (continued lib deployment inputs cluster s) ∧
      AppliedTo inputs (servicesPart lib deployment inputs cluster).calls
        (continued lib deployment inputs cluster s) (currentDigest lib inputs s)
        (plannedInterfaces lib deployment inputs cluster.interfaces.items s) ∧
      ∀ call ∈ revision.calls,
        (some s, call) ∈ (servicesPart lib deployment inputs cluster).calls := by
  intro revision
  obtain ⟨service, hsv, rfl⟩ := ranged_service hs
  obtain ⟨patched, htu⟩ := exists_reconcileDPUServices_turn hsv
  obtain ⟨written, hw⟩ := servicesPart_turns_ok h htu
  obtain ⟨configuration, hr, ht, hi, hok, heq⟩ := serviceTurn_eq_ok hw
  rw [renderedConfiguration_of_independent (hc.independent service hsv)] at hr
  cases hr
  have hn : written.name = continued lib deployment inputs cluster service.name :=
    serviceRevision_target ht
  have hca : ∀ call ∈ revision.calls ++ [.apply written.name
      (currentDigest lib inputs service.name) written.interfaces],
      (some service.name, call) ∈ (servicesPart lib deployment inputs cluster).calls := by
    intro call hcall
    have hmem : (some service.name, call) ∈
        (servicesPart lib deployment inputs cluster).turnCalls := by
      refine ServicesResult.mem_turnCalls.mpr ⟨_, htu, rfl, ?_⟩
      rw [heq]
      exact hcall
    rcases reconcileDPUServices_cases lib deployment inputs cluster.services.items
      (plannedInterfaces lib deployment inputs cluster.interfaces.items) with
      ⟨-, hall⟩ | ⟨-, hall, -⟩
    · exact (congrArg (_ ∈ ·) hall).mpr hmem
    · exact (congrArg (_ ∈ ·) hall).mpr (mem_append_left _ hmem)
  refine ⟨hn ▸ ht, ?_, fun call hcall => hca call (mem_append_left _ hcall)⟩
  rw [← hn, ← hi]
  exact mem_touching.mpr ⟨_, hca _ (mem_append_right _ mem_cons_self), hok, rfl⟩

include h in
/-- What a services part that succeeds has taken out of the map. -/
theorem PassCondition.retained_of_success
    (hm : m ∈ (servicesPart lib deployment inputs cluster).retained) :
    ∃ s ∈ deployment.ranged, m ∈ (serviceRevision lib deployment inputs cluster.services.items s
      (inputs.dependencies.configurations s)).retained := by
  obtain ⟨turn, ht, hre⟩ := mem_flatMap.mp hm
  obtain ⟨service, hs, patched, rfl⟩ := mem_reconcileDPUServices_turns ht
  obtain ⟨written, hw⟩ := servicesPart_turns_ok h ht
  obtain ⟨configuration, hr, -, -, -, heq⟩ := serviceTurn_eq_ok hw
  rw [renderedConfiguration_of_independent (hc.independent service hs)] at hr
  cases hr
  dsimp only at hre
  rw [heq] at hre
  exact ⟨service.name, mem_ranged hs, hre⟩

omit hc

include h in
/-- What a services part that succeeds has not taken out of the map, it deletes. -/
theorem leftover_deleted (hg : cluster.services.get m = some v)
    (hm : m ∉ (servicesPart lib deployment inputs cluster).retained) :
    ServiceCall.delete m ∈
      touching inputs (servicesPart lib deployment inputs cluster).calls m := by
  rcases reconcileDPUServices_cases lib deployment inputs cluster.services.items
    (plannedInterfaces lib deployment inputs cluster.interfaces.items) with
    ⟨he, -⟩ | ⟨-, hc, hall⟩
  · exact absurd h he
  have hl : ServiceCall.delete m ∈ (leftovers cluster.services.items
      (servicesPart lib deployment inputs cluster).retained).map fun o => .delete o.1 :=
    mem_map.mpr ⟨(m, v), mem_leftovers.mpr ⟨mem_items.mpr hg, hm⟩, rfl⟩
  refine mem_touching.mpr ⟨none, ?_, hall h _ hl, rfl⟩
  refine (congrArg (_ ∈ ·) hc).mpr (mem_append_right _ (mem_map.mpr ⟨_, ?_, rfl⟩))
  rw [untilFailure_of_all (hall h)]
  exact hl

theorem continued_matched (s : Name) :
    matchDPUServiceName (continued lib deployment inputs cluster s) s = true :=
  matchDPUServiceName_revisionName _ _ _ _ _ _

theorem continuedInterface_matched (s i : Name) :
    matchInterfaceName (continuedInterface lib deployment inputs cluster s i) s i = true :=
  matchInterfaceName_plannedName _ _ _ _ _ _

theorem continued_cases (s : Name) :
    continued lib deployment inputs cluster s = generatedServiceName s (inputs.suffix s) ∨
      ∃ v, cluster.services.get (continued lib deployment inputs cluster s) = some v := by
  rcases revisionName_cases lib deployment inputs cluster.services.items s
    (inputs.dependencies.configurations s) with heq | ⟨o, ho, heq, -⟩
  · exact .inl heq
  · refine .inr ⟨o.2, ?_⟩
    unfold continued
    rw [← heq]
    exact get_of_mem_items ho

theorem continuedInterface_cases (s i : Name) :
    continuedInterface lib deployment inputs cluster s i =
        generatedInterfaceName s i (inputs.interfaceSuffix s i) ∨
      ∃ o, cluster.interfaces.get (continuedInterface lib deployment inputs cluster s i) =
        some o := by
  unfold continuedInterface
  rw [plannedName_eq_writtenName]
  unfold writtenName
  dsimp only
  split
  · next current hc =>
    exact .inr ⟨current.2, get_of_mem_items (mem_of_current hc).1⟩
  · split_ifs with hs
    · obtain ⟨o, ho, -, hf⟩ := exists_youngest DPUServiceInterface.creationTimestamp
        deployment.positive hs.1 (generatedInterfaceName s i (inputs.interfaceSuffix s i))
      rw [hf]
      exact .inr ⟨o.2, get_of_mem_items (mem_stale.mp ho).1⟩
    · exact .inl rfl

include hc hi

theorem PassCondition.continued_named (hs : s ∈ deployment.ranged) :
    ∃ u ∈ family.services, ∃ suffix,
      continued lib deployment inputs cluster s = generatedServiceName u suffix := by
  rcases continued_cases s with heq | ⟨v, hv⟩
  · exact ⟨s, hc.services s hs, inputs.suffix s, heq⟩
  · exact hi.serviceNamed _ v hv

theorem PassCondition.continuedInterface_named (hs : s ∈ deployment.ranged)
    (hsi : i ∈ (inputs.dependencies.configurations s).interfaces) :
    ∃ u ∈ family.interfaces, ∃ suffix, continuedInterface lib deployment inputs cluster s i =
      generatedInterfaceName u.1 u.2 suffix := by
  rcases continuedInterface_cases s i with heq | ⟨o, ho⟩
  · exact ⟨(s, i), hc.interfaces s hs i hsi, inputs.interfaceSuffix s i, heq⟩
  · exact hi.interfaceNamed _ o ho

theorem PassCondition.eq_of_continued {t : Name} (hs : s ∈ deployment.ranged)
    (ht : t ∈ deployment.ranged)
    (hm : matchDPUServiceName (continued lib deployment inputs cluster s) t = true) : s = t :=
  Family.service_unique (hc.continued_named hi hs) (hc.services s hs) (hc.services t ht)
    (continued_matched s) hm

theorem PassCondition.eq_of_continuedInterface {p : Name × Name} (hs : s ∈ deployment.ranged)
    (hsi : i ∈ (inputs.dependencies.configurations s).interfaces) (hp : p ∈ family.interfaces)
    (hm :
      matchInterfaceName (continuedInterface lib deployment inputs cluster s i) p.1 p.2 = true) :
    (s, i) = p :=
  Family.interface_unique (hc.continuedInterface_named hi hs hsi) (hc.interfaces s hs i hsi) hp
    (continuedInterface_matched s i) hm

/-! ### What is left of the services -/

omit hi in
/-- An object that no service continues is not written. -/
theorem PassCondition.not_applied
    (hm : ∀ s ∈ deployment.ranged, m ≠ continued lib deployment inputs cluster s) (d : String)
    (l : List Name) :
    ¬AppliedTo inputs (servicesPart lib deployment inputs cluster).calls m d l := by
  intro ha
  obtain ⟨s, hs, heq, -, -⟩ := hc.appliedTo ha
  exact hm s hs heq

omit hi in
/-- The interfaces of a DPUService after the services part: the planned ones if a service went on
with it, else the ones it had. -/
theorem PassCondition.serviceAfter_origin
    (h : (servicesAfter lib deployment inputs cluster).get m = some v') :
    (∃ s ∈ deployment.ranged, m = continued lib deployment inputs cluster s ∧
        v'.versionDigest = currentDigest lib inputs s ∧
        v'.interfaces = plannedInterfaces lib deployment inputs cluster.interfaces.items s) ∨
      ∃ v, cluster.services.get m = some v ∧ v'.versionDigest = v.versionDigest ∧
        v'.interfaces = v.interfaces ∧ (v'.deleting = false → v.deleting = false) := by
  rcases serviceEffects_origin h with ha | hold
  · exact .inl (hc.appliedTo ha)
  · exact .inr hold

include h in
theorem PassCondition.get_continued (hs : s ∈ deployment.ranged) :
    ∃ v', (servicesAfter lib deployment inputs cluster).get
        (continued lib deployment inputs cluster s) = some v' ∧
      v'.versionDigest = currentDigest lib inputs s ∧
      v'.interfaces = plannedInterfaces lib deployment inputs cluster.interfaces.items s := by
  refine serviceEffects_applied (hc.turn_of_success h hs).2.1 ?_
  intro d l ha
  obtain ⟨t, ht, heq, rfl, rfl⟩ := hc.appliedTo ha
  have hm : matchDPUServiceName (continued lib deployment inputs cluster t) t = true :=
    continued_matched t
  rw [← heq] at hm
  obtain rfl := hc.eq_of_continued hi hs ht hm
  exact ⟨rfl, rfl⟩

omit hc hi in
/-- Old revisions are resumed only after all of them are deleted. -/
theorem delete_of_resume {ok : ServiceCall → Bool} {old : List (Name × DPUService)}
    (h : ServiceCall.resume m ∈ cleanStaleDPUServices ok old) :
    ServiceCall.delete m ∈ cleanStaleDPUServices ok old ∧ ok (.delete m) = true := by
  unfold cleanStaleDPUServices at h ⊢
  dsimp only at h ⊢
  split_ifs at h ⊢ with hall
  · rcases mem_append.mp h with h | h
    · obtain ⟨o, -, heq⟩ := mem_map.mp h
      cases heq
    · obtain ⟨o, ho, heq⟩ := mem_map.mp (mem_of_untilFailure h)
      obtain rfl := ServiceCall.resume.inj heq
      have hd : ServiceCall.delete o.1 ∈ old.map fun o => ServiceCall.delete o.1 :=
        mem_map.mpr ⟨o, ho, rfl⟩
      exact ⟨mem_append_left _ hd, all_eq_true.mp hall _ hd⟩
  · obtain ⟨o, -, heq⟩ := mem_map.mp (mem_of_untilFailure h)
    cases heq

omit hc hi in
theorem delete_mem_of_ok {ok : ServiceCall → Bool} {old : List (Name × DPUService)}
    {o : Name × DPUService} (hok : ∀ p ∈ old, ok (.delete p.1) = true) (ho : o ∈ old) :
    ServiceCall.delete o.1 ∈ cleanStaleDPUServices ok old := by
  have hall : (old.map fun o => ServiceCall.delete o.1).all ok = true := by
    simpa using fun n v hmem => hok (n, v) hmem
  unfold cleanStaleDPUServices
  dsimp only
  rw [if_pos hall]
  exact mem_append_left _ (mem_map.mpr ⟨o, ho, rfl⟩)

omit hi in
include h in
/-- Whatever a services part that succeeds has resumed, it has deleted. -/
theorem PassCondition.deleted_of_resumed
    (hm : ServiceCall.resume m ∈
      touching inputs (servicesPart lib deployment inputs cluster).calls m) :
    ServiceCall.delete m ∈
      touching inputs (servicesPart lib deployment inputs cluster).calls m := by
  obtain ⟨behalf, hcall, -, -⟩ := mem_touching.mp hm
  rcases mem_reconcileDPUServices_calls hcall with
    ⟨service, hs, patched, -, ht⟩ | ⟨-, o, -, heq⟩
  · obtain ⟨configuration, hre, hold | ⟨target, -, heq⟩⟩ := mem_serviceTurn_calls ht
    · rw [renderedConfiguration_of_independent (hc.independent service hs)] at hre
      cases hre
      have hca := (hc.turn_of_success h (mem_ranged hs)).2.2
      rcases serviceRevision_cases lib deployment inputs cluster.services.items service.name
        (inputs.dependencies.configurations service.name) with
        ⟨current, -, heq⟩ | ⟨-, -, heq⟩ | ⟨-, -, heq⟩
      · rw [heq] at hold hca
        simp only [reconcileCurrentDPUServiceRevision] at hold hca
        split_ifs at hold hca with hr
        · obtain ⟨hd, hok⟩ := delete_of_resume hold
          exact mem_touching.mpr ⟨_, hca _ hd, hok, rfl⟩
        · cases hold
      · rw [heq] at hold
        obtain ⟨o, -, hp⟩ := mem_map.mp (mem_of_untilFailure hold)
        cases hp
      · rw [heq] at hold
        cases hold
    · cases heq
  · cases heq

omit hi in
include h in
/-- An object that a services part that succeeds has kept is one of a service's revisions; if no
service goes on with it, it is paused, before the pass or in it. -/
theorem PassCondition.paused_of_retained
    (hg : cluster.services.get m = some v) (hd : v.deleting = false)
    (hm : ∀ s ∈ deployment.ranged, m ≠ continued lib deployment inputs cluster s)
    (hr : m ∈ (servicesPart lib deployment inputs cluster).retained) :
    v.paused = true ∨ ServiceCall.pause m ∈
      touching inputs (servicesPart lib deployment inputs cluster).calls m := by
  obtain ⟨s, hs, hre⟩ := hc.retained_of_success h hr
  obtain ⟨ht, -, hca⟩ := hc.turn_of_success h hs
  have hi {o : Name × DPUService} (ho : o ∈ (serviceRevisions lib inputs cluster s).stale)
      (heq : o.1 = m) : o.2 = v := by
    have hst := get_of_mem_items (mem_stale.mp ho).1
    rw [heq, hg] at hst
    exact (Option.some.inj hst).symm
  have hpa {o : Name × DPUService} (ho : o ∈ (serviceRevisions lib inputs cluster s).stale)
      (heq : o.1 = m) (hcase : (serviceRevisions lib inputs cluster s).current ≠ none ∨
        (inputs.dependencies.configurations s).shouldApplyNodeEffect = false) :
      v.paused = true := by
    obtain rfl := hi ho heq
    exact hc.oldPaused s hs hcase o ho (heq ▸ hm s hs) hd
  rcases serviceRevision_cases lib deployment inputs cluster.services.items s
    (inputs.dependencies.configurations s) with
    ⟨current, hcu, heq⟩ | ⟨-, -, heq⟩ | ⟨-, hpo, heq⟩
  · rw [heq] at hre ht
    rcases mem_cons.mp hre with hn | hold
    · exact absurd (hn.trans (Except.ok.inj ht)) (hm s hs)
    · obtain ⟨o, ho, hn⟩ := mem_map.mp hold
      exact .inl (hpa ho hn (.inl (by
        unfold serviceRevisions currentDigest
        rw [hcu]
        exact Option.some_ne_none current)))
  · rw [heq] at hre ht hca
    dsimp only at ht hca
    split_ifs at ht with hall
    obtain ⟨o, ho, rfl⟩ := mem_map.mp hre
    have hp := mem_map_of_mem (f := fun o : Name × DPUService => ServiceCall.pause o.1) ho
    rw [untilFailure_of_all (all_eq_true.mp hall)] at hca
    exact .inr (mem_touching.mpr ⟨_, hca _ hp, all_eq_true.mp hall _ hp, rfl⟩)
  · rw [heq] at hre
    obtain ⟨o, ho, hn⟩ := mem_map.mp hre
    exact .inl (hpa (mem_of_getRevisionHistoryLimitList ho) hn (.inr hpo))

include h in
/-- After a services part that succeeds, a DPUService that stays is one that a service went on with,
or it is paused. -/
theorem PassCondition.survivor
    (hg : (servicesAfter lib deployment inputs cluster).get m = some v')
    (hde : v'.deleting = false) :
    (∃ s ∈ deployment.ranged, m = continued lib deployment inputs cluster s ∧
        v'.interfaces = plannedInterfaces lib deployment inputs cluster.interfaces.items s) ∨
      v'.paused = true := by
  by_cases hm : ∃ s ∈ deployment.ranged, m = continued lib deployment inputs cluster s
  · obtain ⟨s, hs, rfl⟩ := hm
    obtain ⟨w, hw, -, hif⟩ := hc.get_continued hi h hs
    rw [hg] at hw
    cases hw
    exact .inl ⟨s, hs, rfl, hif⟩
  · right
    have ho : ∀ s ∈ deployment.ranged, m ≠ continued lib deployment inputs cluster s :=
      fun s hs heq => hm ⟨s, hs, heq⟩
    have hno := hc.not_applied ho
    have hd : ServiceCall.delete m ∉
        touching inputs (servicesPart lib deployment inputs cluster).calls m := by
      intro hmem
      have ht := serviceEffects_deleting hno hg hmem
      rw [hde] at ht
      exact Bool.false_ne_true ht
    rcases hc.serviceAfter_origin hg with ⟨s, hs, heq, -⟩ | ⟨v, hv, -, -, hk⟩
    · exact absurd heq (ho s hs)
    · have hre : m ∈ (servicesPart lib deployment inputs cluster).retained := by
        by_contra hl
        exact hd (leftover_deleted h hv hl)
      refine serviceEffects_paused hno hg
        (fun hr => hd (hc.deleted_of_resumed h hr)) ?_
      rcases hc.paused_of_retained h hv (hk hde) ho hre with hpa | hp
      · left
        intro w hw
        rw [hv] at hw
        cases hw
        exact hpa
      · exact .inr hp

omit hc hi in
/-- A round takes only revisions of its service out of the map. -/
theorem mem_serviceRevision_retained
    (hm : m ∈ (serviceRevision lib deployment inputs cluster.services.items s
      (inputs.dependencies.configurations s)).retained) :
    (∃ current, (serviceRevisions lib inputs cluster s).current = some current ∧ current.1 = m) ∨
      ∃ o ∈ (serviceRevisions lib inputs cluster s).stale, o.1 = m := by
  rcases serviceRevision_cases lib deployment inputs cluster.services.items s
    (inputs.dependencies.configurations s) with
    ⟨current, hc, heq⟩ | ⟨-, -, heq⟩ | ⟨-, -, heq⟩
  · rw [heq] at hm
    rcases mem_cons.mp hm with rfl | hold
    · exact .inl ⟨current, hc, rfl⟩
    · obtain ⟨o, ho, hn⟩ := mem_map.mp hold
      exact .inr ⟨o, ho, hn⟩
  all_goals
    rw [heq] at hm
    obtain ⟨o, ho, hn⟩ := mem_map.mp hm
    exact .inr ⟨o, mem_of_getRevisionHistoryLimitList ho, hn⟩

omit hc hi in
theorem continued_of_current {current : Name × DPUService}
    (h : (serviceRevisions lib inputs cluster s).current = some current) :
    continued lib deployment inputs cluster s = current.1 := by
  unfold serviceRevisions currentDigest at h
  simp [continued, revisionName, h]

include h in
/-- If a service has a current revision, the other revisions with its digest are cleaned up. -/
theorem PassCondition.duplicate_deleted (hs : s ∈ deployment.ranged)
    (hg : cluster.services.get m = some v) (hma : matchDPUServiceName m s = true)
    (hd : v.versionDigest = currentDigest lib inputs s)
    (hm : m ≠ continued lib deployment inputs cluster s) :
    ServiceCall.delete m ∈
      touching inputs (servicesPart lib deployment inputs cluster).calls m := by
  refine leftover_deleted h hg fun hr => ?_
  obtain ⟨t, ht, hre⟩ := hc.retained_of_success h hr
  have hu {o : Name × DPUService} (ho : o ∈ cluster.services.items)
      (hot : matchDPUServiceName o.1 t = true) (hn : o.1 = m) : t = s ∧ o.2 = v := by
    subst hn
    have hst := get_of_mem_items ho
    rw [hg] at hst
    exact ⟨Family.service_unique (hi.serviceNamed _ _ hg) (hc.services t ht)
      (hc.services s hs) hot hma, (Option.some.inj hst).symm⟩
  rcases mem_serviceRevision_retained hre with ⟨current, hcu, hn⟩ | ⟨o, ho, hn⟩
  · obtain ⟨hmem, hmt, -⟩ := mem_of_current hcu
    obtain ⟨rfl, -⟩ := hu hmem hmt hn
    exact hm (hn.symm.trans (continued_of_current hcu).symm)
  · obtain ⟨hmem, hmt, hold⟩ := mem_stale.mp ho
    obtain ⟨rfl, rfl⟩ := hu hmem hmt hn
    exact hold hd

include h in
/-- When the interfaces part finds a service ready, all revisions that the service does not go on
with are being deleted. -/
theorem PassCondition.stale_gone (hs : s ∈ deployment.ranged) (hr : inputs.readyLater s = true)
    (hma : matchDPUServiceName m s = true) (hm : m ≠ continued lib deployment inputs cluster s)
    (hg : (servicesAfter lib deployment inputs cluster).get m = some v') : v'.deleting = true := by
  have ho : ∀ t ∈ deployment.ranged, m ≠ continued lib deployment inputs cluster t := by
    rintro t ht rfl
    obtain rfl := hc.eq_of_continued hi ht hs hma
    exact hm rfl
  have hno := hc.not_applied ho
  rcases hc.serviceAfter_origin hg with ⟨t, ht, heq, -⟩ | ⟨v, hv, -, -, hk⟩
  · exact absurd heq (ho t ht)
  by_contra hnot
  have hf : v'.deleting = false := Bool.eq_false_iff.mpr hnot
  refine hnot (serviceEffects_deleting hno hg ?_)
  by_cases hd : v.versionDigest = currentDigest lib inputs s
  · exact hc.duplicate_deleted hi h hs hv hma hd hm
  · have hst : (m, v) ∈ (serviceRevisions lib inputs cluster s).stale :=
      mem_stale.mpr ⟨mem_items.mpr hv, hma, hd⟩
    obtain ⟨hcu, hb, hok⟩ := hc.readyBefore s hs hr _ hst (hk hf)
    have hca := (hc.turn_of_success h hs).2.2
    rcases serviceRevision_cases lib deployment inputs cluster.services.items s
      (inputs.dependencies.configurations s) with
      ⟨current, -, heq⟩ | ⟨hn, -, -⟩ | ⟨hn, -, -⟩
    · refine mem_touching.mpr ⟨_, hca _ ?_, hok _ hst, rfl⟩
      rw [heq]
      simp only [reconcileCurrentDPUServiceRevision]
      rw [if_pos ⟨ne_nil_of_mem hst, hb⟩]
      exact delete_mem_of_ok hok hst
    · exact absurd hn hcu
    · exact absurd hn hcu

omit hc hi in
/-- The last element that a test accepts is also the last one that a stricter test accepts, if it
passes that. -/
theorem getLast?_filter_of_imp {α : Type} {p q : α → Bool} {l : List α} {x : α}
    (h : (l.filter p).getLast? = some x) (hx : q x = true)
    (hi : ∀ y ∈ l, q y = true → p y = true) : (l.filter q).getLast? = some x := by
  rw [getLast?_filter] at h ⊢
  obtain ⟨-, before, after, heq, hn⟩ := find?_eq_some_iff_append.mp h
  refine find?_eq_some_iff_append.mpr ⟨hx, before, after, heq, fun y hy => ?_⟩
  have hl : y ∈ l := mem_reverse.mp (heq ▸ mem_append_left _ hy)
  cases hq : q y with
  | false => rfl
  | true =>
    have hp := hi y hl hq
    have hnp := hn y hy
    rw [hp] at hnp
    cases hnp

/-- The revisions with the current digest of a service after a services part that succeeds: the one
that it went on with, and others that were there before. -/
theorem PassCondition.current_after (hs : s ∈ deployment.ranged)
    (hg : (servicesAfter lib deployment inputs cluster).get m = some v')
    (hm : matchDPUServiceName m s = true) (hd : v'.versionDigest = currentDigest lib inputs s) :
    m = continued lib deployment inputs cluster s ∨
      ∃ v, cluster.services.get m = some v ∧ v.versionDigest = currentDigest lib inputs s := by
  rcases hc.serviceAfter_origin hg with ⟨t, ht, rfl, -⟩ | ⟨v, hv, hsa, -⟩
  · obtain rfl := hc.eq_of_continued hi ht hs hm
    exact .inl rfl
  · exact .inr ⟨v, hv, hsa.symm.trans hd⟩

/-- The test for the current revisions of a service, by name. -/
def isCurrent (lib : Library Values Template) (inputs : Inputs Values Template)
    (services : Store Name DPUService) (s k : Name) : Bool :=
  (services.get k).any fun v =>
    matchDPUServiceName k s && v.versionDigest == currentDigest lib inputs s

omit hc hi in
theorem isCurrent_iff {services : Store Name DPUService} {k : Name} :
    isCurrent lib inputs services s k = true ↔ ∃ v, services.get k = some v ∧
      matchDPUServiceName k s = true ∧ v.versionDigest = currentDigest lib inputs s := by
  simp [isCurrent, Option.any_eq_true]

omit hc hi in
theorem current_name (services : Store Name DPUService) (s : Name) :
    (getCurrentAndStaleDPUServices s (currentDigest lib inputs s) services.items).current.map
        Prod.fst = (services.keys.filter (isCurrent lib inputs services s)).getLast? := by
  unfold getCurrentAndStaleDPUServices getCurrentAndStale
  dsimp only
  rw [← getLast?_map, items_filter_keys]
  rfl

include h in
/-- The interfaces part takes the DPUService that a service went on with as its current one. -/
theorem PassCondition.ownerAfter (hs : s ∈ deployment.ranged) :
    ownerAfter lib deployment inputs cluster s =
      some (continued lib deployment inputs cluster s) := by
  have ho : DeploymentRevisions.ownerAfter lib deployment inputs cluster s =
      ((servicesAfter lib deployment inputs cluster).keys.filter
        (isCurrent lib inputs (servicesAfter lib deployment inputs cluster) s)).getLast? := by
    unfold DeploymentRevisions.ownerAfter currentDPUService
    rw [hc.configurationAfter]
    exact current_name _ s
  obtain ⟨w, hw, hwd, -⟩ := hc.get_continued hi h hs
  have hco : isCurrent lib inputs (servicesAfter lib deployment inputs cluster) s
      (continued lib deployment inputs cluster s) = true :=
    isCurrent_iff.mpr ⟨w, hw, continued_matched s, hwd⟩
  rw [ho]
  cases hcurr : (serviceRevisions lib inputs cluster s).current with
  | none =>
    -- no other object has the digest
    have hall : ∀ k ∈ (servicesAfter lib deployment inputs cluster).keys.filter
        (isCurrent lib inputs (servicesAfter lib deployment inputs cluster) s),
        k = continued lib deployment inputs cluster s := by
      intro k hk
      obtain ⟨v', hv', hm, hd⟩ := isCurrent_iff.mp (mem_filter.mp hk).2
      rcases hc.current_after hi hs hv' hm hd with heq | ⟨v, hv, hold⟩
      · exact heq
      · exact absurd hold (current_eq_none.mp hcurr (k, v) (mem_items.mpr hv) hm)
    have hmem : continued lib deployment inputs cluster s ∈
        (servicesAfter lib deployment inputs cluster).keys.filter
          (isCurrent lib inputs (servicesAfter lib deployment inputs cluster) s) :=
      mem_filter.mpr ⟨Store.known _ _ _ hw, hco⟩
    rw [getLast?_eq_some_getLast (ne_nil_of_mem hmem)]
    exact congrArg some (hall _ (getLast_mem _))
  | some current =>
    have heq : continued lib deployment inputs cluster s = current.1 :=
      continued_of_current hcurr
    obtain ⟨hit, hm, hd⟩ := mem_of_current hcurr
    have hst := get_of_mem_items hit
    have hl : (cluster.services.keys.filter
        (isCurrent lib inputs cluster.services s)).getLast? = some current.1 := by
      rw [← current_name]
      exact congrArg (Option.map Prod.fst) hcurr
    have hb : ∀ k, isCurrent lib inputs (servicesAfter lib deployment inputs cluster) s k =
        true → isCurrent lib inputs cluster.services s k = true := by
      intro k hk
      obtain ⟨v', hv', hk', hd'⟩ := isCurrent_iff.mp hk
      rcases hc.current_after hi hs hv' hk' hd' with rfl | ⟨v, hv, hold⟩
      · rw [heq]
        exact isCurrent_iff.mpr ⟨current.2, hst, hm, hd⟩
      · exact isCurrent_iff.mpr ⟨v, hv, hk', hold⟩
    obtain ⟨new, hn⟩ := @serviceEffects_keys _ _ inputs cluster.services
      (servicesPart lib deployment inputs cluster).calls
    have hke : (servicesAfter lib deployment inputs cluster).keys =
        cluster.services.keys ++ new := hn
    -- a key that is new is not among the objects that were there
    have hno : new.filter (isCurrent lib inputs (servicesAfter lib deployment inputs cluster) s) =
        [] := by
      refine filter_eq_nil_iff.mpr fun k hk hcu => ?_
      obtain ⟨v, hv, -⟩ := isCurrent_iff.mp (hb k hcu)
      have hnd := hke ▸ (servicesAfter lib deployment inputs cluster).nodup
      exact (nodup_append.mp hnd).2.2 k (cluster.services.known k v hv) k hk rfl
    rw [hke, filter_append, hno, append_nil]
    rw [heq] at hco ⊢
    exact getLast?_filter_of_imp hl hco fun k _ => hb k

/-! ### The interfaces -/

omit hc hi in
theorem mem_plannedInterfaces_iff :
    n ∈ plannedInterfaces lib deployment inputs cluster.interfaces.items s ↔
      ∃ i ∈ (inputs.dependencies.configurations s).interfaces,
        continuedInterface lib deployment inputs cluster s i = n :=
  mem_plannedInterfaces

/-- After the services part, an interface that a DPUService which stays lists belongs to it. -/
theorem PassCondition.ownAfter (hg : (servicesAfter lib deployment inputs cluster).get m = some v')
    (hd : v'.deleting = false) (hn : n ∈ v'.interfaces)
    (ho : cluster.interfaces.get n = some o) : o.owner = m := by
  rcases hc.serviceAfter_origin hg with ⟨s, hs, rfl, -, hp⟩ | ⟨v, hv, -, hsa, hk⟩
  · rw [hp, mem_plannedInterfaces_iff] at hn
    obtain ⟨i, hsi, rfl⟩ := hn
    exact hc.ownInterfaces s hs i hsi o ho
  · exact hi.own m v hv (hk hd) n (hsa ▸ hn) o ho

omit hi in
/-- An owner that the services part has just created owns nothing yet. -/
theorem PassCondition.owner_before
    (hg : (servicesAfter lib deployment inputs cluster).get m = some v')
    (ho : cluster.interfaces.get n = some o) (how : o.owner = m) :
    ∃ v, cluster.services.get m = some v := by
  rcases hc.serviceAfter_origin hg with ⟨s, hs, rfl, -⟩ | ⟨v, hv, -⟩
  · rcases continued_cases s with hf | hold
    · exact absurd (how.trans hf) ((hc.freshService s hs).2 n o ho)
    · exact hold
  · exact ⟨v, hv⟩

/-- An interface is written under the planned name, for the DPUService that its service went on
with. -/
theorem PassCondition.interface_applied {behalf : Option (Name × Name)} {owner : Name} {d : String}
    (h : (behalf, InterfaceCall.apply n d owner s i) ∈
      interfaceCalls lib deployment inputs cluster) :
    s ∈ deployment.ranged ∧ i ∈ (inputs.dependencies.configurations s).interfaces ∧
      n = continuedInterface lib deployment inputs cluster s i ∧
      owner = continued lib deployment inputs cluster s := by
  obtain ⟨result, hp, ⟨t, ht, found, hf, j, hj, -, hca⟩ | ⟨-, -, o, -, -, heq⟩⟩ :=
    mem_interfaceCalls h
  · have he := (interfacesPart_eq_some hp).1
    rw [hc.ownerAfter hi he ht] at hf
    rcases mem_interfaceTurn_calls hca with hold | ha
    · obtain ⟨-, -, o, -, heq⟩ := mem_interfaceRevision_calls hold
      cases heq
    · obtain ⟨rfl, -, rfl, rfl, rfl⟩ := InterfaceCall.apply.inj ha
      refine ⟨ht, hj, ?_, (Option.some.inj hf).symm⟩
      rw [hc.configurationAfter]
      unfold continuedInterface
      rw [plannedName_eq_writtenName]
      exact writtenName_idem
  · cases heq

/-- The object that an interface goes on with is not left over. -/
theorem PassCondition.continuedInterface_retained {result : InterfacesResult}
    (hp : interfacesPart lib deployment inputs cluster = some result)
    (hs : s ∈ deployment.ranged) (hsi : i ∈ (inputs.dependencies.configurations s).interfaces)
    (ho : cluster.interfaces.get (continuedInterface lib deployment inputs cluster s i) = some o) :
    continuedInterface lib deployment inputs cluster s i ∈ result.retained := by
  have he := (interfacesPart_eq_some hp).1
  have ht := (mem_interfacesPart_turns hp).mpr
    ⟨s, hs, _, hc.ownerAfter hi he hs, i, hsi, rfl⟩
  refine mem_flatMap.mpr ⟨_, ht, ?_⟩
  dsimp only
  unfold interfaceRound
  rw [interfaceTurn_eq, hc.configurationAfter]
  dsimp only
  have hfr : continuedInterface lib deployment inputs cluster s i ≠
      generatedInterfaceName s i (inputs.interfaceSuffix s i) := by
    intro heq
    rw [heq, (hc.freshInterface s hs i hsi).1] at ho
    cases ho
  unfold continuedInterface at hfr ⊢
  rcases interfaceRevision_cases deployment inputs cluster.interfaces.items s i
    (inputs.dependencies.configurations s)
    (versionDigestOf lib inputs s (inputs.dependencies.configurations s))
    (plannedName lib deployment inputs cluster.interfaces.items s i) with
    ⟨current, hcu, heq⟩ | ⟨hcu, heq⟩
  · rw [heq, plannedName_eq_writtenName, writtenName_of_current hcu]
    exact mem_singleton.mpr rfl
  · rw [plannedName_eq_writtenName] at hfr
    have hst := fun hn => hfr (writtenName_of_new hcu (.inl hn))
    have hpo := Bool.eq_false_iff.mpr fun hd => hfr (writtenName_of_new hcu (.inr hd))
    rw [heq, plannedName_eq_writtenName, writtenName_of_update hcu hst hpo]
    obtain ⟨first, -, hf, hn⟩ := exists_youngest DPUServiceInterface.creationTimestamp
      deployment.positive hst (generatedInterfaceName s i (inputs.interfaceSuffix s i))
    simp only [hpo, Bool.false_eq_true, if_false]
    exact mem_map.mpr ⟨first, hf, hn.symm⟩

/-- A pass that meets the condition deletes no interface that a DPUService which stays lists. -/
theorem PassCondition.no_listed_deleted {behalf : Option (Name × Name)}
    (h : (behalf, InterfaceCall.delete n) ∈ interfaceCalls lib deployment inputs cluster)
    (hg : (servicesAfter lib deployment inputs cluster).get m = some v')
    (hd : v'.deleting = false) : n ∉ v'.interfaces := by
  intro hn
  obtain ⟨result, hpart, hcas⟩ := mem_interfaceCalls h
  have he := (interfacesPart_eq_some hpart).1
  rcases hcas with ⟨s, hs, owner, -, i, hsi, -, hca⟩ | ⟨-, -, o, ho, hpau, heq⟩
  · -- an old revision of an interface whose service is ready
    rcases mem_interfaceTurn_calls hca with hold | hap
    · obtain ⟨hr, hcurr, o, ho, heq⟩ := mem_interfaceRevision_calls hold
      obtain rfl := InterfaceCall.delete.inj heq
      rw [hc.configurationAfter] at hcurr ho
      obtain ⟨hit, hma, hdi⟩ := mem_stale.mp ho
      have hst := get_of_mem_items hit
      have how := hc.ownAfter hi hg hd hn hst
      obtain ⟨v, hv⟩ := hc.owner_before hg hst how
      have hk : matchDPUServiceName m s = true := by
        subst how
        exact hi.kin o.1 o.2 v hst hv (s, i) (hc.interfaces s hs i hsi) hma
      by_cases hm : m = continued lib deployment inputs cluster s
      · -- its service went on with the DPUService, so that the interface is the current one
        subst hm
        obtain ⟨w, hw, -, hif⟩ := hc.get_continued hi he hs
        rw [hg] at hw
        cases hw
        rw [hif, mem_plannedInterfaces_iff] at hn
        obtain ⟨j, hsj, hna⟩ := hn
        rw [← hna] at hma
        have hpa := hc.eq_of_continuedInterface hi hs hsj (hc.interfaces s hs i hsi) hma
        obtain ⟨-, rfl⟩ := Prod.mk.inj hpa
        obtain ⟨current, hcu⟩ := Option.ne_none_iff_exists'.mp hcurr
        unfold continuedInterface at hna
        rw [plannedName_eq_writtenName, writtenName_of_current hcu] at hna
        obtain ⟨hcuri, -, hcurd⟩ := mem_of_current hcu
        obtain rfl := eq_of_name_eq cluster.interfaces.items_nodup hcuri hit hna
        exact hdi hcurd
      · have ht := hc.stale_gone hi he hs hr hk hm hg
        rw [hd] at ht
        exact Bool.false_ne_true ht
    · cases hap
  · -- an interface that is left over
    obtain rfl := InterfaceCall.delete.inj heq
    obtain ⟨hit, hl⟩ := mem_leftovers.mp ho
    have hst := get_of_mem_items hit
    have how := hc.ownAfter hi hg hd hn hst
    rcases hc.survivor hi he hg hd with ⟨s, hs, rfl, hif⟩ | hp
    · rw [hif, mem_plannedInterfaces_iff] at hn
      obtain ⟨i, hsi, hna⟩ := hn
      rw [← hna] at hl hst
      exact hl (hc.continuedInterface_retained hi hpart hs hsi hst)
    · have ha : ownedByPaused (servicesAfter lib deployment inputs cluster).items o.2 = true :=
        any_eq_true.mpr ⟨(m, v'), mem_items.mpr hg, by simp [hp, how]⟩
      rw [ha] at hpau
      cases hpau

theorem PassCondition.interface_origin
    (h : (reconcile lib deployment inputs cluster).interfaces.get n = some o') :
    (∃ s ∈ deployment.ranged, ∃ i ∈ (inputs.dependencies.configurations s).interfaces,
        n = continuedInterface lib deployment inputs cluster s i ∧
        o'.owner = continued lib deployment inputs cluster s) ∨
      ∃ o, cluster.interfaces.get n = some o ∧ o'.owner = o.owner := by
  rcases interfaceEffects_owner h with ⟨behalf, d, s, i, hca⟩ | hold
  · obtain ⟨hs, hsi, hn, ho⟩ := hc.interface_applied hi hca
    exact .inl ⟨s, hs, i, hsi, hn, ho⟩
  · exact .inr hold

theorem PassCondition.own_reconcile
    (hg : (reconcile lib deployment inputs cluster).services.get m = some v')
    (hd : v'.deleting = false) (hn : n ∈ v'.interfaces)
    (ho : (reconcile lib deployment inputs cluster).interfaces.get n = some o') : o'.owner = m := by
  rcases hc.interface_origin hi ho with ⟨s, hs, i, hsi, rfl, how⟩ | ⟨o, hold, how⟩
  · rw [how]
    rcases hc.serviceAfter_origin hg with ⟨t, ht, rfl, -, hp⟩ | ⟨v, hv, -, hsa, hk⟩
    · rw [hp, mem_plannedInterfaces_iff] at hn
      obtain ⟨j, htj, hna⟩ := hn
      have hm : matchInterfaceName (continuedInterface lib deployment inputs cluster s i) t j =
          true := by
        rw [← hna]
        exact continuedInterface_matched t j
      obtain ⟨rfl, -⟩ := Prod.mk.inj
        (hc.eq_of_continuedInterface hi hs hsi (hc.interfaces t ht j htj) hm)
      rfl
    · rw [hsa] at hn
      rcases continuedInterface_cases s i with hf | ⟨o, hold⟩
      · rw [hf] at hn
        exact absurd hn ((hc.freshInterface s hs i hsi).2 m v hv)
      · rw [← hc.ownInterfaces s hs i hsi o hold]
        exact hi.own m v hv (hk hd) _ hn o hold
  · rw [how]
    exact hc.ownAfter hi hg hd hn hold

theorem PassCondition.kin_reconcile
    (ho : (reconcile lib deployment inputs cluster).interfaces.get n = some o')
    (hg : (reconcile lib deployment inputs cluster).services.get o'.owner = some v')
    {p : Name × Name} (hp : p ∈ family.interfaces) (hm : matchInterfaceName n p.1 p.2 = true) :
    matchDPUServiceName o'.owner p.1 = true := by
  rcases hc.interface_origin hi ho with ⟨s, hs, i, hsi, rfl, how⟩ | ⟨o, hold, how⟩
  · obtain rfl := hc.eq_of_continuedInterface hi hs hsi hp hm
    rw [how]
    exact continued_matched s
  · obtain ⟨v, hv⟩ := hc.owner_before hg hold how.symm
    rw [how] at hv ⊢
    exact hi.kin n o v hold hv p hp hm

theorem PassCondition.retained_reconcile :
    Retained family (reconcile lib deployment inputs cluster) where
  serviceNamed m v' hg := by
    rcases hc.serviceAfter_origin hg with ⟨s, hs, rfl, -⟩ | ⟨v, hv, -⟩
    · exact hc.continued_named hi hs
    · exact hi.serviceNamed m v hv
  interfaceNamed n o' hg := by
    rcases hc.interface_origin hi hg with ⟨s, hs, i, hsi, rfl, -⟩ | ⟨o, ho, -⟩
    · exact hc.continuedInterface_named hi hs hsi
    · exact hi.interfaceNamed n o ho
  own m v' hg hd n hn o' ho := hc.own_reconcile hi hg hd hn ho
  kin n o' v' ho hg p hp hm := hc.kin_reconcile hi ho hg hp hm

end Services

/-! ## Runs -/

/-- A pass over a deployment as it is configured then, or something that others do to an object. -/
inductive Event (Values Template : Type) where
  | pass (deployment : DPUDeployment) (inputs : Inputs Values Template)
  | deleteService (name : Name)
  | removeService (name : Name)
  | deleteInterface (name : Name)
  | removeInterface (name : Name)

def Cluster.perform (lib : Library Values Template) (cluster : Cluster) :
    Event Values Template → Cluster
  | .pass deployment inputs => reconcile lib deployment inputs cluster
  | .deleteService name =>
    { cluster with services := cluster.services.modify name fun v => { v with deleting := true } }
  | .removeService name => { cluster with services := cluster.services.erase name }
  | .deleteInterface name =>
    { cluster with
      interfaces := cluster.interfaces.modify name fun o => { o with deleting := true } }
  | .removeInterface name => { cluster with interfaces := cluster.interfaces.erase name }

def Step (lib : Library Values Template) (cluster : Cluster) (event : Event Values Template)
    (after : Cluster) : Prop :=
  cluster.perform lib event = after

/-- Every pass meets the condition; the others may do what they like. -/
def Allowed (family : Family) (lib : Library Values Template) (cluster : Cluster) :
    Event Values Template → Prop
  | .pass deployment inputs => PassCondition family lib deployment inputs cluster
  | _ => True

section Runs

variable {family : Family} {lib : Library Values Template} {cluster after : Cluster}

theorem Retained.empty (family : Family) : Retained family emptyCluster where
  serviceNamed _ _ h := absurd h nofun
  interfaceNamed _ _ h := absurd h nofun
  own _ _ h := absurd h nofun
  kin _ _ _ h := absurd h nofun

/-- The invariant is kept when objects are marked for deletion or vanish. -/
theorem Retained.shrink (hi : Retained family cluster)
    (hse : ∀ m v', after.services.get m = some v' → ∃ v, cluster.services.get m = some v ∧
      v'.interfaces = v.interfaces ∧ (v'.deleting = false → v.deleting = false))
    (hif : ∀ n o', after.interfaces.get n = some o' → ∃ o,
      cluster.interfaces.get n = some o ∧ o'.owner = o.owner) : Retained family after where
  serviceNamed m v' hg := by
    obtain ⟨v, hv, -⟩ := hse m v' hg
    exact hi.serviceNamed m v hv
  interfaceNamed n o' hg := by
    obtain ⟨o, ho, -⟩ := hif n o' hg
    exact hi.interfaceNamed n o ho
  own m v' hg hd n hn o' ho := by
    obtain ⟨v, hv, hs, hk⟩ := hse m v' hg
    obtain ⟨o, hold, how⟩ := hif n o' ho
    rw [how]
    exact hi.own m v hv (hk hd) n (hs ▸ hn) o hold
  kin n o' v' ho hg p hp hm := by
    obtain ⟨o, hold, how⟩ := hif n o' ho
    obtain ⟨v, hv, -⟩ := hse _ v' hg
    rw [how] at hv ⊢
    exact hi.kin n o v hold hv p hp hm

theorem exists_of_erase {α : Type} {s : Store Name α} {k j : Name} {a : α}
    (h : (s.erase k).get j = some a) : s.get j = some a := by
  rw [get_erase] at h
  split_ifs at h
  exact h

theorem Retained.step {event : Event Values Template} (hi : Retained family cluster)
    (hok : Allowed family lib cluster event) (hs : Step lib cluster event after) :
    Retained family after := by
  subst hs
  cases event with
  | pass deployment inputs => exact PassCondition.retained_reconcile hok hi
  | deleteService name =>
    refine hi.shrink ?_ fun n o ho => ⟨o, ho, rfl⟩
    intro m v' hg
    obtain ⟨v, hv, ⟨-, rfl⟩ | ⟨-, rfl⟩⟩ := exists_of_modify hg
    · exact ⟨v, hv, rfl, nofun⟩
    · exact ⟨v', hv, rfl, id⟩
  | removeService name =>
    exact hi.shrink (fun m v hg => ⟨v, exists_of_erase hg, rfl, id⟩)
      fun n o ho => ⟨o, ho, rfl⟩
  | deleteInterface name =>
    refine hi.shrink (fun m v hg => ⟨v, hg, rfl, id⟩) ?_
    intro n o' hg
    obtain ⟨o, ho, ⟨-, rfl⟩ | ⟨-, rfl⟩⟩ := exists_of_modify hg
    · exact ⟨o, ho, rfl⟩
    · exact ⟨o', ho, rfl⟩
  | removeInterface name =>
    exact hi.shrink (fun m v hg => ⟨v, hg, rfl, id⟩)
      fun n o hg => ⟨o, exists_of_erase hg, rfl⟩

/-- In a run from an empty cluster whose passes all meet the condition, no pass deletes an interface
that is listed in the spec of a DPUService which is not being deleted after the services part of
that pass. -/
theorem interfaces_outlive_revisions
    (hrun : Reachable (fun c => c = emptyCluster) (Restrict (Allowed family lib) (Step lib)) cluster)
    {deployment : DPUDeployment} {inputs : Inputs Values Template}
    (hok : PassCondition family lib deployment inputs cluster) :
    ∀ behalf n, (behalf, InterfaceCall.delete n) ∈ interfaceCalls lib deployment inputs cluster →
      ∀ m v, (servicesAfter lib deployment inputs cluster).get m = some v → v.deleting = false →
        n ∉ v.interfaces := by
  have hi : Retained family cluster := by
    refine hrun.invariant ?_ ?_
    · rintro - rfl
      exact Retained.empty family
    · intro c event c' _ hc hs
      exact hc.step hs.1 hs.2
  intro behalf n hd m v hg hde
  exact hok.no_listed_deleted hi hd hg hde

/-- The condition on a pass as a test, but for the names. -/
def passCheck (lib : Library Values Template) (deployment : DPUDeployment)
    (inputs : Inputs Values Template) (cluster : Cluster) : Bool :=
  (deployment.services.all fun service => service.dependsOn.isEmpty) &&
  deployment.ranged.all fun s =>
    let configuration := inputs.dependencies.configurations s
    let revisions := serviceRevisions lib inputs cluster s
    let generated := generatedServiceName s (inputs.suffix s)
    (!(revisions.current.isSome || !configuration.shouldApplyNodeEffect) ||
      revisions.stale.all fun o => o.1 == continued lib deployment inputs cluster s ||
        o.2.deleting || o.2.paused) &&
    (cluster.services.get generated).isNone &&
    (cluster.interfaces.items.all fun o => o.2.owner != generated) &&
    (!inputs.readyLater s || revisions.stale.all fun o => o.2.deleting ||
      (revisions.current.isSome && inputs.ready s &&
        revisions.stale.all fun p => inputs.serviceOk (some s) (.delete p.1))) &&
    configuration.interfaces.all fun i =>
      let generatedInterface := generatedInterfaceName s i (inputs.interfaceSuffix s i)
      ((cluster.interfaces.get (continuedInterface lib deployment inputs cluster s i)).all fun o =>
        o.owner == continued lib deployment inputs cluster s) &&
      (cluster.interfaces.get generatedInterface).isNone &&
      cluster.services.items.all fun v => !v.2.interfaces.contains generatedInterface

theorem PassCondition.of_check {deployment : DPUDeployment} {inputs : Inputs Values Template}
    (h : passCheck lib deployment inputs cluster = true)
    (hs : ∀ s ∈ deployment.ranged, s ∈ family.services)
    (hi : ∀ s ∈ deployment.ranged, ∀ i ∈ (inputs.dependencies.configurations s).interfaces,
      (s, i) ∈ family.interfaces) : PassCondition family lib deployment inputs cluster := by
  simp only [passCheck, Bool.and_eq_true, all_eq_true, List.isEmpty_iff] at h
  obtain ⟨hin, hse⟩ := h
  refine ⟨hin, hs, hi, ?_, ?_, ?_, ?_, ?_⟩
  · intro s hmem hc o ho hn hd
    obtain ⟨⟨⟨⟨hold, -⟩, -⟩, -⟩, -⟩ := hse s hmem
    have hcase' : ((serviceRevisions lib inputs cluster s).current.isSome ||
        !(inputs.dependencies.configurations s).shouldApplyNodeEffect) = true := by
      rcases hc with hcu | hp
      · simp [Option.isSome_iff_ne_none.mpr hcu]
      · simp [hp]
    rw [hcase'] at hold
    have hall := all_eq_true.mp (by simpa only [Bool.not_true, Bool.false_or] using hold) o ho
    simpa [hn, hd] using hall
  · intro s hmem i hsi o ho
    obtain ⟨-, hif⟩ := hse s hmem
    obtain ⟨⟨how, -⟩, -⟩ := hif i hsi
    rw [ho] at how
    simpa using how
  · intro s hmem
    obtain ⟨⟨⟨⟨-, hno⟩, howne⟩, -⟩, -⟩ := hse s hmem
    refine ⟨Option.isNone_iff_eq_none.mp hno, fun n o ho => ?_⟩
    simpa using howne (n, o) (mem_items.mpr ho)
  · intro s hmem i hsi
    obtain ⟨-, hif⟩ := hse s hmem
    obtain ⟨⟨-, hno⟩, hl⟩ := hif i hsi
    refine ⟨Option.isNone_iff_eq_none.mp hno, fun m v hv => ?_⟩
    simpa using hl (m, v) (mem_items.mpr hv)
  · intro s hmem hr o ho hd
    obtain ⟨⟨-, hch⟩, -⟩ := hse s hmem
    rw [hr] at hch
    have hall := all_eq_true.mp (by simpa only [Bool.not_true, Bool.false_or] using hch) o ho
    rw [hd, Bool.false_or, Bool.and_eq_true, Bool.and_eq_true, all_eq_true] at hall
    obtain ⟨⟨hcu, hb⟩, hok⟩ := hall
    exact ⟨Option.isSome_iff_ne_none.mp hcu, hb, hok⟩

end Runs

/-- One service with one interface, whose changes are disruptive. -/
def upgradeInputs (values : ℕ) (suffix : Suffix) (ready : Bool) : Inputs ℕ Unit :=
  { sampleInputs (fun _ => ⟨values, [['p']], none⟩) ready with
    suffix := fun _ => suffix, interfaceSuffix := fun _ _ => suffix }

def sampleFamily : Family where
  services := {['s']}
  interfaces := {(['s'], ['p'])}
  servicesApart := by
    rintro s rfl t rfl hne
    exact absurd rfl hne
  interfacesApart := by
    rintro p rfl q rfl hne
    exact absurd rfl hne

theorem sampleFamily_passCondition {values : ℕ} {suffix : Suffix} {ready : Bool} {cluster : Cluster}
    (h : passCheck sampleLibrary sampleSingle (upgradeInputs values suffix ready) cluster = true) :
    PassCondition sampleFamily sampleLibrary sampleSingle (upgradeInputs values suffix ready)
      cluster := by
  refine PassCondition.of_check h ?_ ?_
  · intro s hs
    exact mem_singleton.mp hs
  · intro s hs i hi
    obtain rfl := mem_singleton.mp hs
    obtain rfl := mem_singleton.mp hi
    rfl

def firstRevision : Cluster :=
  reconcile sampleLibrary sampleSingle (upgradeInputs 0 sampleSuffix false) emptyCluster

def upgrading : Cluster :=
  reconcile sampleLibrary sampleSingle (upgradeInputs 1 otherSuffix false) firstRevision

def thirdSuffix : Suffix := ⟨['d', 'd', 'd', 'd', 'd'], by decide,
  mem_of_mem_replicate (n := 5) (by decide)⟩

/-- An upgrade that becomes ready: the pass deletes the interface of the first revision, which no
DPUService that stays lists. -/
theorem completed_upgrade_deletes_unlisted :
    (some (['s'], ['p']), InterfaceCall.delete (generatedInterfaceName ['s'] ['p'] sampleSuffix)) ∈
      interfaceCalls sampleLibrary sampleSingle (upgradeInputs 1 thirdSuffix true) upgrading ∧
    ∀ m v, (servicesAfter sampleLibrary sampleSingle (upgradeInputs 1 thirdSuffix true)
        upgrading).get m = some v → v.deleting = false →
      generatedInterfaceName ['s'] ['p'] sampleSuffix ∉ v.interfaces := by
  have hd : (some (['s'], ['p']),
      InterfaceCall.delete (generatedInterfaceName ['s'] ['p'] sampleSuffix)) ∈
      interfaceCalls sampleLibrary sampleSingle (upgradeInputs 1 thirdSuffix true) upgrading := by
    decide +kernel
  have hf := sampleFamily_passCondition (show passCheck sampleLibrary sampleSingle
    (upgradeInputs 0 sampleSuffix false) emptyCluster = true by decide +kernel)
  have hs := sampleFamily_passCondition (show passCheck sampleLibrary sampleSingle
    (upgradeInputs 1 otherSuffix false) firstRevision = true by decide +kernel)
  have ht := sampleFamily_passCondition (show passCheck sampleLibrary sampleSingle
    (upgradeInputs 1 thirdSuffix true) upgrading = true by decide +kernel)
  have hr : Reachable (fun c => c = emptyCluster)
      (Restrict (Allowed sampleFamily sampleLibrary) (Step sampleLibrary)) upgrading :=
    .next (l := .pass sampleSingle (upgradeInputs 1 otherSuffix false))
      (.next (l := .pass sampleSingle (upgradeInputs 0 sampleSuffix false)) (.start rfl)
        ⟨hf, rfl⟩) ⟨hs, rfl⟩
  exact ⟨hd, interfaces_outlive_revisions hr ht _ _ hd⟩

/-- A change back to the first configuration while the upgrade is running: the second revision is
not paused, so that its interface is deleted although the DPUService stays and lists it. -/
theorem change_back_deletes_listed :
    Reachable (fun c => c = emptyCluster) (Step sampleLibrary) upgrading ∧
      (none, InterfaceCall.delete (generatedInterfaceName ['s'] ['p'] otherSuffix)) ∈
        interfaceCalls sampleLibrary sampleSingle (upgradeInputs 0 thirdSuffix false) upgrading ∧
      ((servicesAfter sampleLibrary sampleSingle (upgradeInputs 0 thirdSuffix false) upgrading).get
          (generatedServiceName ['s'] otherSuffix)).map (fun v => (v.deleting, v.interfaces)) =
        some (false, [generatedInterfaceName ['s'] ['p'] otherSuffix]) := by
  refine ⟨?_, ?_, ?_⟩
  · exact .next (l := .pass sampleSingle (upgradeInputs 1 otherSuffix false))
      (.next (l := .pass sampleSingle (upgradeInputs 0 sampleSuffix false)) (.start rfl) rfl) rfl
  · decide +kernel
  · decide +kernel

end DocaPlatform.DeploymentRevisions
