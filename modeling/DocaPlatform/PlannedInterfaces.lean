import DocaPlatform.RevisionAttribution
import DocaPlatform.Runs

/-!
# The planned names against the names that are written

Before the services are rendered and written, a pass predicts under which names it will write the
interfaces. The prediction uses the version digest of the configuration as it was read, the interfaces
part the digest of the configuration as it was rendered. This module says exactly when the two agree.
-/
namespace DocaPlatform.DeploymentRevisions

open KeyedStore Words Runs List

variable {Values Template : Type}

section Forecast

variable (lib : Library Values Template) (deployment : DPUDeployment)
  (inputs : Inputs Values Template)

/-- The configurations with their values rendered, service by service, with the names under which
the DPUServices of the services before are written. -/
def renderedConfigurations (existing : List (Name × DPUService)) :
    List (Name × Name) → List Service → List (Name × ServiceConfiguration Values)
  | _, [] => []
  | names, service :: rest =>
    match renderedConfiguration lib inputs names service with
    | .error _ =>
      (service.name, inputs.dependencies.configurations service.name) ::
        renderedConfigurations existing names rest
    | .ok configuration =>
      (service.name, configuration) ::
        renderedConfigurations existing (names ++ [(service.name,
          revisionName lib deployment inputs existing service.name configuration)]) rest

def renderedFor (existing : List (Name × DPUService)) (service : Name) :
    ServiceConfiguration Values :=
  match (renderedConfigurations lib deployment inputs existing [] deployment.services).find?
      fun entry => entry.1 == service with
  | some entry => entry.2
  | none => inputs.dependencies.configurations service

end Forecast

section Choice

variable {deployment : DPUDeployment} {existing : List (Name × DPUServiceInterface)}
  {service interface : Name} {configuration : ServiceConfiguration Values} {digest : String}
  {newName : Name}

/-! ## One choice after the other -/

def youngestName (deployment : DPUDeployment) (revisions : List (Name × DPUServiceInterface))
    (otherwise : Name) : Name :=
  firstName (getRevisionHistoryLimitList DPUServiceInterface.creationTimestamp revisions
    deployment.revisionHistoryLimit) otherwise

theorem youngestName_of_ne_nil {revisions : List (Name × DPUServiceInterface)}
    (h : revisions ≠ []) (a b : Name) :
    youngestName deployment revisions a = youngestName deployment revisions b := by
  have hne := getRevisionHistoryLimitList_ne_nil DPUServiceInterface.creationTimestamp
    deployment.positive h
  unfold youngestName
  cases hl : getRevisionHistoryLimitList DPUServiceInterface.creationTimestamp revisions
      deployment.revisionHistoryLimit with
  | nil => exact absurd hl hne
  | cons first rest => rfl

theorem writtenName_of_current {current : Name × DPUServiceInterface}
    (h : (getCurrentAndStaleDPUServiceInterfaces interface service digest existing).current =
      some current) :
    writtenName deployment existing service interface configuration digest newName = current.1 := by
  simp [writtenName, h]

theorem writtenName_of_update
    (h : (getCurrentAndStaleDPUServiceInterfaces interface service digest existing).current = none)
    (hs : (getCurrentAndStaleDPUServiceInterfaces interface service digest existing).stale ≠ [])
    (hp : configuration.shouldApplyNodeEffect = false) :
    writtenName deployment existing service interface configuration digest newName =
      youngestName deployment
        (getCurrentAndStaleDPUServiceInterfaces interface service digest existing).stale
        newName := by
  simp only [writtenName, h]
  exact if_pos ⟨hs, hp⟩

theorem writtenName_of_new
    (h : (getCurrentAndStaleDPUServiceInterfaces interface service digest existing).current = none)
    (hn : (getCurrentAndStaleDPUServiceInterfaces interface service digest existing).stale = [] ∨
      configuration.shouldApplyNodeEffect = true) :
    writtenName deployment existing service interface configuration digest newName = newName := by
  simp only [writtenName, h]
  refine if_neg ?_
  rintro ⟨hs, hp⟩
  rcases hn with hni | hd
  · exact hs hni
  · rw [hp] at hd
    exact Bool.false_ne_true hd

/-- The choice made with the digest `read` and then, with its result as the new name, with the
digest `rendered` is one and the same. Nothing can go wrong if the digests are equal. Otherwise, a
revision that has the digest `rendered` has to be the one that is chosen without knowing that digest;
and if none has it, the revision with the digest `read` has to be the youngest one, if that is the
one to be updated. -/
def Agrees (deployment : DPUDeployment) (existing : List (Name × DPUServiceInterface))
    (service interface : Name) (disruptive : Bool) (generated : Name) (read rendered : String) :
    Prop :=
  let planned := getCurrentAndStaleDPUServiceInterfaces interface service read existing
  let actual := getCurrentAndStaleDPUServiceInterfaces interface service rendered existing
  read = rendered ∨
    (∀ current, actual.current = some current → planned.current = none ∧
      (if disruptive then generated else youngestName deployment planned.stale generated) =
        current.1) ∧
    (actual.current = none → ∀ current, planned.current = some current → disruptive = false →
      youngestName deployment actual.stale generated = current.1)

/-- If no revision has either digest, the old revisions are the same for both. -/
theorem stale_eq_of_current_eq_none {α : Type} {matched : Name → Bool} {versionDigest : α → String}
    {d e : String} {objects : List (Name × α)}
    (hd : (getCurrentAndStale matched versionDigest d objects).current = none)
    (he : (getCurrentAndStale matched versionDigest e objects).current = none) :
    (getCurrentAndStale matched versionDigest d objects).stale =
      (getCurrentAndStale matched versionDigest e objects).stale := by
  have hd' := current_eq_none.mp hd
  have he' := current_eq_none.mp he
  apply filter_congr
  intro o ho
  cases hm : matched o.1 with
  | false => rfl
  | true =>
    have hbd : (versionDigest o.2 != d) = true := bne_iff_ne.mpr (hd' o ho hm)
    have hbe : (versionDigest o.2 != e) = true := bne_iff_ne.mpr (he' o ho hm)
    rw [hbd, hbe]

variable {read rendered : String} {generated : Name}

theorem writtenName_idem :
    writtenName deployment existing service interface configuration digest
        (writtenName deployment existing service interface configuration digest generated) =
      writtenName deployment existing service interface configuration digest generated := by
  cases hc : (getCurrentAndStaleDPUServiceInterfaces interface service digest existing).current with
  | some current => rw [writtenName_of_current hc, writtenName_of_current hc]
  | none =>
    by_cases hn : (getCurrentAndStaleDPUServiceInterfaces interface service digest
        existing).stale = [] ∨ configuration.shouldApplyNodeEffect = true
    · rw [writtenName_of_new hc hn]
    · obtain ⟨hs, hp⟩ := not_or.mp hn
      have hpolicy' := Bool.eq_false_iff.mpr hp
      rw [writtenName_of_update hc hs hpolicy', writtenName_of_update hc hs
        hpolicy', youngestName_of_ne_nil hs _ generated]

theorem eq_of_name_eq {α : Type} {objects : List (Name × α)} {o o' : Name × α}
    (hnd : (objects.map Prod.fst).Nodup) (ho : o ∈ objects) (ho' : o' ∈ objects)
    (h : o.1 = o'.1) : o = o' :=
  inj_on_of_nodup_map hnd ho ho' h

theorem writtenName_twice_iff (hnd : (existing.map Prod.fst).Nodup) :
    writtenName deployment existing service interface configuration rendered
        (writtenName deployment existing service interface configuration read generated) =
      writtenName deployment existing service interface configuration read generated ↔
    Agrees deployment existing service interface configuration.shouldApplyNodeEffect generated read
      rendered := by
  by_cases hd : read = rendered
  · subst hd
    exact ⟨fun _ => .inl rfl, fun _ => writtenName_idem⟩
  unfold Agrees
  dsimp only
  rw [or_iff_right hd]
  cases ha : (getCurrentAndStaleDPUServiceInterfaces interface service rendered
      existing).current with
  | some current =>
    obtain ⟨hmem, hm, hre⟩ := mem_of_current ha
    rw [writtenName_of_current ha]
    cases hp : (getCurrentAndStaleDPUServiceInterfaces interface service read existing).current with
    | some other =>
      -- the two revisions differ in their digests, so in their names
      obtain ⟨hmem', -, hr⟩ := mem_of_current hp
      rw [writtenName_of_current hp]
      refine ⟨fun heq => ?_, fun h => absurd (h.1 current rfl).1 nofun⟩
      obtain rfl := eq_of_name_eq hnd hmem hmem' heq
      exact absurd (hr.symm.trans hre) hd
    | none =>
      have hst : (getCurrentAndStaleDPUServiceInterfaces interface service read
          existing).stale ≠ [] :=
        ne_nil_of_mem (mem_stale.mpr ⟨hmem, hm, fun h => hd (h.symm.trans hre)⟩)
      cases hpo : configuration.shouldApplyNodeEffect with
      | true =>
        rw [writtenName_of_new hp (.inr hpo)]
        simp [eq_comm]
      | false =>
        rw [writtenName_of_update hp hst hpo]
        simp [eq_comm]
  | none =>
    cases hp : (getCurrentAndStaleDPUServiceInterfaces interface service read existing).current with
    | some other =>
      obtain ⟨hmem, hm, hr⟩ := mem_of_current hp
      have hst : (getCurrentAndStaleDPUServiceInterfaces interface service rendered
          existing).stale ≠ [] :=
        ne_nil_of_mem (mem_stale.mpr ⟨hmem, hm, fun h => hd (hr.symm.trans h)⟩)
      rw [writtenName_of_current hp]
      cases hpo : configuration.shouldApplyNodeEffect with
      | true =>
        rw [writtenName_of_new ha (.inr hpo)]
        simp
      | false =>
        rw [writtenName_of_update ha hst hpo, youngestName_of_ne_nil hst _ generated]
        simp
    | none =>
      have hs : (getCurrentAndStaleDPUServiceInterfaces interface service read existing).stale =
          (getCurrentAndStaleDPUServiceInterfaces interface service rendered existing).stale :=
        stale_eq_of_current_eq_none hp ha
      refine ⟨fun _ => ⟨nofun, fun _ => nofun⟩, fun _ => ?_⟩
      by_cases hn : (getCurrentAndStaleDPUServiceInterfaces interface service rendered
          existing).stale = [] ∨ configuration.shouldApplyNodeEffect = true
      · rw [writtenName_of_new ha hn]
      · obtain ⟨hst, hpo⟩ := not_or.mp hn
        have hpolicy' := Bool.eq_false_iff.mpr hpo
        rw [writtenName_of_update ha hst hpolicy', writtenName_of_update hp
          (hs ▸ hst) hpolicy', hs, youngestName_of_ne_nil hst _ generated]

theorem writtenName_congr {other : ServiceConfiguration Values}
    (h : configuration.applyNodeEffect = other.applyNodeEffect) :
    writtenName deployment existing service interface configuration digest newName =
      writtenName deployment existing service interface other digest newName := by
  have hs : configuration.shouldApplyNodeEffect = other.shouldApplyNodeEffect := by
    simp [ServiceConfiguration.shouldApplyNodeEffect, h]
  unfold writtenName
  rw [hs]

end Choice

section Pass

variable {lib : Library Values Template} {deployment : DPUDeployment}
  {inputs : Inputs Values Template} {cluster : Cluster}

theorem mem_serviceTurns_of_done {existing : List (Name × DPUService)}
    {interfaces : Name → List Name} {done : List (Name × ServiceTurn Values)}
    {services : List Service} {turn : Name × ServiceTurn Values} (h : turn ∈ done) :
    turn ∈ serviceTurns lib deployment inputs existing interfaces done services := by
  induction services generalizing done with
  | nil => exact h
  | cons service rest ih => exact ih (mem_append_left _ h)

variable {name service : Name}

theorem patchedNames_append_singleton {done : List (Name × ServiceTurn Values)}
    {turn : ServiceTurn Values} {written : PatchedService} (h : turn.result = .ok written) :
    patchedNames (done ++ [(name, turn)]) = patchedNames done ++ [(name, written.name)] := by
  simp [patchedNames, h, Except.toOption]

/-- If all rounds succeed, they see the configurations that are rendered without a pass. -/
theorem serviceTurns_rendered {existing : List (Name × DPUService)}
    {interfaces : Name → List Name} (done : List (Name × ServiceTurn Values))
    (services : List Service)
    (h : ∀ turn ∈ serviceTurns lib deployment inputs existing interfaces done services,
      ∃ written, turn.2.result = .ok written) :
    (serviceTurns lib deployment inputs existing interfaces done services).map
        (fun turn => (turn.1, turn.2.configuration)) =
      done.map (fun turn => (turn.1, turn.2.configuration)) ++
        renderedConfigurations lib deployment inputs existing (patchedNames done) services := by
  induction services generalizing done with
  | nil => simp [serviceTurns, renderedConfigurations]
  | cons service rest ih =>
    have hmem : (service.name, serviceTurn lib deployment inputs existing interfaces
        (patchedNames done) service) ∈
        serviceTurns lib deployment inputs existing interfaces done (service :: rest) := by
      unfold serviceTurns
      exact mem_serviceTurns_of_done (mem_append_right _ mem_cons_self)
    obtain ⟨written, hw⟩ := h _ hmem
    obtain ⟨configuration, hr, ht, -, -, htu⟩ := serviceTurn_eq_ok hw
    have hc : (serviceTurn lib deployment inputs existing interfaces
        (patchedNames done) service).configuration = configuration := by
      rw [htu]
    unfold serviceTurns
    rw [ih _ h, patchedNames_append_singleton hw, serviceRevision_target ht]
    simp [renderedConfigurations, hr, hc]

variable (h : (servicesPart lib deployment inputs cluster).errors = [])

include h in
theorem servicesPart_turns_ok {turn : Name × ServiceTurn Values}
    (ht : turn ∈ (servicesPart lib deployment inputs cluster).turns) :
    ∃ written, turn.2.result = .ok written := by
  rcases reconcileDPUServices_cases lib deployment inputs cluster.services.items
    (plannedInterfaces lib deployment inputs cluster.interfaces.items) with
    ⟨he, -⟩ | ⟨hok, -, -⟩
  · exact absurd h he
  · exact hok turn ht

include h in
theorem configurationAfter_eq_renderedFor (service : Name) :
    configurationAfter lib deployment inputs cluster service =
      renderedFor lib deployment inputs cluster.services.items service := by
  have ht : (servicesPart lib deployment inputs cluster).turns.map
      (fun turn => (turn.1, turn.2.configuration)) =
      renderedConfigurations lib deployment inputs cluster.services.items []
        deployment.services := by
    have hok : ∀ turn ∈ (servicesPart lib deployment inputs cluster).turns,
        ∃ written, turn.2.result = .ok written := fun _ => servicesPart_turns_ok h
    unfold servicesPart at hok ⊢
    rw [reconcileDPUServices_turns] at hok ⊢
    exact serviceTurns_rendered [] deployment.services hok
  unfold configurationAfter ServicesResult.configuration renderedFor
  rw [← ht, find?_map]
  cases hf : (servicesPart lib deployment inputs cluster).turns.find?
      fun turn => turn.1 == service with
  | none => simp [hf]
  | some turn => simp [hf]

/-! ## The plan of a pass -/

/-- The plan of a pass is right about an interface: the digest of the configuration as read and the
digest of the configuration as rendered lead to the same object. -/
def Foreseen (lib : Library Values Template) (deployment : DPUDeployment)
    (inputs : Inputs Values Template) (cluster : Cluster) (service interface : Name) : Prop :=
  let configuration := inputs.dependencies.configurations service
  Agrees deployment cluster.interfaces.items service interface configuration.shouldApplyNodeEffect
    (generatedInterfaceName service interface (inputs.interfaceSuffix service interface))
    (versionDigestOf lib inputs service configuration)
    (versionDigestOf lib inputs service
      (renderedFor lib deployment inputs cluster.services.items service))

def actualName (lib : Library Values Template) (deployment : DPUDeployment)
    (inputs : Inputs Values Template) (cluster : Cluster) (service interface : Name) : Name :=
  let configuration := configurationAfter lib deployment inputs cluster service
  writtenName deployment cluster.interfaces.items service interface configuration
    (versionDigestOf lib inputs service configuration)
    (plannedName lib deployment inputs cluster.interfaces.items service interface)

include h in
theorem actualName_eq_plannedName_iff {interface : Name} :
    actualName lib deployment inputs cluster service interface =
        plannedName lib deployment inputs cluster.interfaces.items service interface ↔
      Foreseen lib deployment inputs cluster service interface := by
  unfold actualName Foreseen
  dsimp only
  rw [writtenName_congr (configurationAfter_same service).2, plannedName_eq_writtenName,
    configurationAfter_eq_renderedFor h]
  exact writtenName_twice_iff cluster.interfaces.items_nodup

theorem mem_plannedInterfaces {existing : List (Name × DPUServiceInterface)} :
    name ∈ plannedInterfaces lib deployment inputs existing service ↔
      ∃ interface ∈ (inputs.dependencies.configurations service).interfaces,
        plannedName lib deployment inputs existing service interface = name := by
  unfold plannedInterfaces
  rw [(perm_insertionSort _ _).mem_iff, mem_map]
  simp

/-- A DPUService is written with the planned names. -/
theorem patchedDPUServices_interfaces {written : PatchedService}
    (h : (service, written) ∈ (servicesPart lib deployment inputs cluster).patchedDPUServices) :
    written.interfaces =
      plannedInterfaces lib deployment inputs cluster.interfaces.items service := by
  obtain ⟨turn, ht, heq⟩ := mem_filterMap.mp h
  obtain ⟨patched, hpa, hp⟩ := Option.map_eq_some_iff.mp heq
  obtain ⟨rfl, rfl⟩ := Prod.mk.inj hp
  obtain ⟨service, -, names, rfl⟩ := mem_reconcileDPUServices_turns ht
  obtain ⟨-, -, -, hi, -⟩ := serviceTurn_eq_ok (toOption_eq_some.mp hpa)
  exact hi

include h in
theorem exists_patchedDPUService (hsv : service ∈ deployment.ranged) :
    ∃ written, (service, written) ∈
      (servicesPart lib deployment inputs cluster).patchedDPUServices := by
  obtain ⟨spec, hs, rfl⟩ := mem_map.mp (deployment.perm.mem_iff.mp hsv)
  obtain ⟨names, ht⟩ := exists_reconcileDPUServices_turn hs
  obtain ⟨written, hw⟩ := servicesPart_turns_ok h ht
  have hr := toOption_eq_some.mpr hw
  dsimp only at hr
  exact ⟨written, mem_filterMap.mpr ⟨_, ht, by simp [hr]⟩⟩

/-- The objects that a pass writes for the interfaces of a service. -/
theorem exists_apply_iff {result : InterfacesResult}
    (hp : interfacesPart lib deployment inputs cluster = some result) (hok : result.errors = [])
    (hs : service ∈ deployment.ranged) :
    (∃ interface versionDigest owner, (some (service, interface),
        InterfaceCall.apply name versionDigest owner service interface) ∈
          interfaceCalls lib deployment inputs cluster) ↔
      ∃ interface ∈ (inputs.dependencies.configurations service).interfaces,
        actualName lib deployment inputs cluster service interface = name := by
  constructor
  · rintro ⟨interface, versionDigest, owner, hca⟩
    obtain ⟨-, -, ⟨s, -, found, -, i, hi, hb, hca⟩ | ⟨hno, -⟩⟩ := mem_interfaceCalls hca
    · obtain ⟨rfl, rfl⟩ := Prod.mk.inj (Option.some.inj hb)
      rcases mem_interfaceTurn_calls hca with hold | ha
      · obtain ⟨-, -, o, -, heq⟩ := mem_interfaceRevision_calls hold
        cases heq
      · obtain ⟨hn, -⟩ := InterfaceCall.apply.inj ha
        exact ⟨interface, hi, hn.symm⟩
    · cases hno
  · rintro ⟨interface, hif, rfl⟩
    have hcas := reconcileDPUServiceInterfaces_cases lib deployment inputs
      (servicesAfter lib deployment inputs cluster).items cluster.interfaces.items
      (configurationAfter lib deployment inputs cluster)
      (plannedName lib deployment inputs cluster.interfaces.items)
    rw [← (interfacesPart_eq_some hp).2] at hcas
    obtain ⟨hf, hc⟩ := hcas.resolve_left fun h => h.1 hok
    obtain ⟨owner, ho⟩ := Option.ne_none_iff_exists'.mp (hf service hs)
    refine ⟨interface, versionDigestOf lib inputs service
      (configurationAfter lib deployment inputs cluster service), owner, ?_⟩
    unfold interfaceCalls
    rw [hp]
    dsimp only
    rw [hc]
    refine mem_append_left _ (InterfacesResult.mem_turnCalls.mpr ⟨_,
      (mem_interfacesPart_turns hp).mpr
        ⟨service, hs, owner, ho, interface, hif, rfl⟩, rfl, ?_⟩)
    unfold interfaceRound
    rw [interfaceTurn_eq]
    exact mem_append_right _ mem_cons_self

/-- Interface names of which none starts another, as they appear in the names of objects. -/
def PrefixFree (interfaces : List Name) : Prop :=
  ∀ i ∈ interfaces, ∀ j ∈ interfaces, i ≠ j → ¬replaceUnderscores i <+: replaceUnderscores j

theorem interfaceStem_prefix_iff {i j : Name} :
    interfaceStem service i <+: interfaceStem service j ↔
      replaceUnderscores i <+: replaceUnderscores j := by
  unfold interfaceStem
  rw [prefix_append_right_inj, cons_prefix_cons]
  simp

/-- A name can match one interface of such a list only. -/
theorem PrefixFree.eq_of_matched {interfaces : List Name} (h : PrefixFree interfaces) {i j : Name}
    (hi : i ∈ interfaces) (hj : j ∈ interfaces) (hmi : matchInterfaceName name service i = true)
    (hmj : matchInterfaceName name service j = true) : i = j := by
  by_contra hne
  rcases prefix_or_prefix_of_prefix (matchInterfaceName_iff.mp hmi)
    (matchInterfaceName_iff.mp hmj) with hij | hji
  · exact h i hi j hj hne (interfaceStem_prefix_iff.mp hij)
  · exact h j hj i hi (Ne.symm hne) (interfaceStem_prefix_iff.mp hji)

theorem matchInterfaceName_actualName (service interface : Name) :
    matchInterfaceName (actualName lib deployment inputs cluster service interface) service
      interface = true :=
  matchInterfaceName_writtenName (matchInterfaceName_plannedName _ _ _ _ service interface)

/-- After a pass in which both parts succeed, every service has its DPUService patched, and the names
in its `spec.interfaces` are those of the objects written for its interfaces, exactly if the plan
was right about every interface. -/
theorem planned_names_written_iff_foreseen {result : InterfacesResult}
    (hfree : ∀ service ∈ deployment.ranged,
      PrefixFree (inputs.dependencies.configurations service).interfaces)
    (hpart : interfacesPart lib deployment inputs cluster = some result)
    (hok : result.errors = []) :
    (∀ service ∈ deployment.ranged, ∃ written,
        (service, written) ∈ (servicesPart lib deployment inputs cluster).patchedDPUServices ∧
        ∀ name, name ∈ written.interfaces ↔ ∃ interface versionDigest owner,
          (some (service, interface),
            InterfaceCall.apply name versionDigest owner service interface) ∈
              interfaceCalls lib deployment inputs cluster) ↔
      ∀ service ∈ deployment.ranged,
        ∀ interface ∈ (inputs.dependencies.configurations service).interfaces,
          Foreseen lib deployment inputs cluster service interface := by
  have he := (interfacesPart_eq_some hpart).1
  constructor
  · intro h service hs interface hi
    obtain ⟨written, hw, hnm⟩ := h service hs
    rw [← actualName_eq_plannedName_iff he]
    rw [patchedDPUServices_interfaces hw] at hnm
    -- the planned name is written for some interface, which has to be this one
    have hp := (hnm _).mp (mem_plannedInterfaces.mpr ⟨interface, hi, rfl⟩)
    obtain ⟨other, ho, heq⟩ := (exists_apply_iff hpart hok hs).mp hp
    have hm := matchInterfaceName_plannedName lib deployment inputs cluster.interfaces.items
      service interface
    rw [← heq] at hm
    obtain rfl := (hfree service hs).eq_of_matched hi ho hm
      (matchInterfaceName_actualName service other)
    exact heq
  · intro h service hs
    obtain ⟨written, hw⟩ := exists_patchedDPUService he hs
    refine ⟨written, hw, fun name => ?_⟩
    rw [patchedDPUServices_interfaces hw, mem_plannedInterfaces, exists_apply_iff hpart hok hs]
    refine exists_congr fun interface => and_congr_right fun hi => ?_
    rw [(actualName_eq_plannedName_iff he).mpr (h service hs interface hi)]

end Pass

/-- Service `b` depends on service `a`. -/
def dependentPair : DPUDeployment where
  services := [⟨['a'], []⟩, ⟨['b'], [['a']]⟩]
  ranged := [['a'], ['b']]
  perm := by decide
  distinct := by decide
  revisionHistoryLimit := 10
  positive := samplePair.positive

/-- Rendering changes the values, as it does when they name another service. -/
def renderingLibrary : Library ℕ Unit :=
  { sampleLibrary with template := fun values _ _ => .ok (values + 1) }

/-- Service `b` has one interface, and a change of its configuration is disruptive. -/
def dependentInputs (suffix : Suffix) : Inputs ℕ Unit :=
  { sampleInputs (fun service => ⟨0, if service = ['b'] then [['p']] else [], none⟩) false with
    interfaceSuffix := fun _ _ => suffix }

def otherSuffix : Suffix := ⟨['c', 'c', 'c', 'c', 'c'], by decide,
  mem_of_mem_replicate (n := 5) (by decide)⟩

/-- The first pass writes what it has planned: no object has any digest yet. -/
theorem first_pass_as_planned :
    ∃ written, (['b'], written) ∈ (servicesPart renderingLibrary dependentPair
        (dependentInputs sampleSuffix) emptyCluster).patchedDPUServices ∧
      ∀ name, name ∈ written.interfaces ↔ ∃ interface versionDigest owner,
        (some (['b'], interface), InterfaceCall.apply name versionDigest owner ['b'] interface) ∈
          interfaceCalls renderingLibrary dependentPair (dependentInputs sampleSuffix)
            emptyCluster := by
  have hp : (interfacesPart renderingLibrary dependentPair (dependentInputs sampleSuffix)
      emptyCluster).map InterfacesResult.errors = some [] := by decide +kernel
  obtain ⟨result, hr, hok⟩ := Option.map_eq_some_iff.mp hp
  have hfr : ∀ service ∈ dependentPair.ranged, PrefixFree
      ((dependentInputs sampleSuffix).dependencies.configurations service).interfaces := by
    unfold PrefixFree
    decide
  have hf : ∀ service ∈ dependentPair.ranged, ∀ interface ∈
      ((dependentInputs sampleSuffix).dependencies.configurations service).interfaces,
      Foreseen renderingLibrary dependentPair (dependentInputs sampleSuffix) emptyCluster service
        interface := by
    intro service _ interface _
    exact .inr ⟨nofun, fun _ => nofun⟩
  exact (planned_names_written_iff_foreseen hfr hr hok).mpr hf ['b'] (by decide)

/-- The second pass over the unchanged deployment plans a new name, since it compares the revision
with the digest of values that are not rendered yet, and writes the revision that is there. -/
theorem rendered_service_misplanned :
    let cluster := reconcile renderingLibrary dependentPair (dependentInputs sampleSuffix)
      emptyCluster
    let pass := servicesPart renderingLibrary dependentPair (dependentInputs otherSuffix) cluster
    (interfacesPart renderingLibrary dependentPair (dependentInputs otherSuffix) cluster).map
        InterfacesResult.errors = some [] ∧
      (pass.patchedDPUServices.map fun p => (p.1, p.2.interfaces)) =
        [(['a'], []), (['b'], [generatedInterfaceName ['b'] ['p'] otherSuffix])] ∧
      interfaceCalls renderingLibrary dependentPair (dependentInputs otherSuffix) cluster =
        [(some (['b'], ['p']),
          InterfaceCall.apply (generatedInterfaceName ['b'] ['p'] sampleSuffix) "digest-1"
            (generatedServiceName ['b'] sampleSuffix) ['b'] ['p'])] := by
  decide +kernel

end DocaPlatform.DeploymentRevisions
