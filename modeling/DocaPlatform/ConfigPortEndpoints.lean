import DocaPlatform.LabelSelectors
import DocaPlatform.Runs

/-!
# The endpoints of the config ports

For one DPUService and one DPU cluster, `reconcileConfigPortEndpointSlices` publishes the addresses
of the nodes that the node selector of the DPUService selects. It evaluates the terms of the
selector itself, and writes what it found into the EndpointSlice as it was stored.
-/
namespace DocaPlatform.ConfigPortEndpoints

open LabelSelectors Runs List

inductive NodeSelectorOperator where
  | isIn | notIn | exist | doesNotExist | gt | lt

structure NodeSelectorRequirement where
  key : String
  /-- `none` for a text that names no operator. -/
  operator : Option NodeSelectorOperator
  values : List String

structure NodeSelectorTerm where
  matchExpressions : List NodeSelectorRequirement
  matchFields : List NodeSelectorRequirement

structure Node where
  name : String
  labels : Labels
  addresses : List (String × String)

structure DPUNode where
  name : String
  kubeNodeRef : Option String

structure Endpoint where
  address : String
  nodeName : String

/-- What a run reads. -/
structure Env where
  ports : List (String × ℕ)
  nodeSelector : Option (List NodeSelectorTerm)
  nodes : List Node
  distinct : (nodes.map Node.name).Nodup
  dpfOperatorConfigNamespace : String
  getDPUNode : String × String → Option DPUNode
  /-- What `ovnEncapIPFromNode` returns for a node of the host cluster. -/
  getNode : String → Option (Option String)
  configPortsOverHighSpeed : Bool

/-- The Kubernetes libraries: `labels.NewRequirement` with the labels that a requirement matches,
and the selector of a term's fields with the names that it matches. -/
structure Library where
  newRequirement : String → NodeSelectorOperator → List String → Option (Labels → Bool)
  fieldSelector : List NodeSelectorRequirement → Option (String → Bool)

section Selection

variable (lib : Library) (node : Node)

def requirement (r : NodeSelectorRequirement) : Option (Labels → Bool) :=
  r.operator.bind fun op => lib.newRequirement r.key op r.values

/-- What cannot be read is left out. -/
def convertNodeSelectorTermToSelector (term : NodeSelectorTerm) : List (Labels → Bool) :=
  term.matchExpressions.filterMap (requirement lib)

def deduplicateNodes (seen : List String) : List Node → List Node
  | [] => []
  | node :: rest =>
    if node.name ∈ seen then deduplicateNodes seen rest
    else node :: deduplicateNodes (node.name :: seen) rest

def listNodesByNodeAffinity (nodes : List Node) (terms : List NodeSelectorTerm) : List Node :=
  if terms.isEmpty then nodes
  else deduplicateNodes [] (terms.flatMap fun term => nodes.filter fun node =>
    (convertNodeSelectorTermToSelector lib term).all (· node.labels))

/-- A term in `MatchNodeSelectorTerms`: one without requirements, or with one that cannot be read,
matches no node. -/
def matchesTerm (term : NodeSelectorTerm) : Bool :=
  !(term.matchExpressions.isEmpty && term.matchFields.isEmpty) &&
    (term.matchExpressions.all fun r => (requirement lib r).any (· node.labels)) &&
    (term.matchFields.isEmpty || (lib.fieldSelector term.matchFields).any (· node.name))

def nodeMatchesNodeSelector (nodeSelector : Option (List NodeSelectorTerm)) : Bool :=
  nodeSelector.all fun terms => terms.any (matchesTerm lib node)

end Selection

/-! ## The run -/

section Run

variable (env : Env) (node : Node)

def extractDPUNodeFromNodeLabels (dpuNodeDefaultNamespace : String) : Option (String × String) :=
  match node.labels.get "provisioning.dpu.nvidia.com/dpunode-name" with
  | some name =>
    some ((node.labels.get "provisioning.dpu.nvidia.com/dpunode-namespace").getD "", name)
  | none => (node.labels.get "provisioning.dpu.nvidia.com/host").map (dpuNodeDefaultNamespace, ·)

/-- The last internal address counts. -/
def nodeInternalIP : String :=
  node.addresses.foldl (fun address a => if a.1 = "InternalIP" then a.2 else address) ""

def nodeEndpointAddress (hostClusterNode : Option (Option String)) : String :=
  match if env.configPortsOverHighSpeed then hostClusterNode.join else none with
  | some ip => ip
  | none => nodeInternalIP node

/-- The endpoint of a node, unless a read fails; there is none without a reference to a DPUNode or
without an address. -/
def endpointOf : Option (Option Endpoint) :=
  match extractDPUNodeFromNodeLabels node env.dpfOperatorConfigNamespace with
  | none => some none
  | some ref => do
    let dpuNode ← env.getDPUNode ref
    let hostClusterNode ← match dpuNode.kubeNodeRef with
      | none => some none
      | some name => (env.getNode name).map some
    let address := nodeEndpointAddress env node hostClusterNode
    some (if address = "" then none else some ⟨address, dpuNode.name⟩)

def endpointsOf : List Node → Option (List Endpoint)
  | [] => some []
  | node :: rest => do
    let endpoint ← endpointOf env node
    let endpoints ← endpointsOf rest
    some (endpoint.toList ++ endpoints)

/-- The endpoints of the slice that the run leaves, unless a read fails. Without a port there is no
slice. -/
def reconcileConfigPortEndpointSlices (lib : Library) (stored : Option (List Endpoint)) :
    Option (Option (List Endpoint)) :=
  if env.ports = [] then some none
  else do
    let endpoints ← endpointsOf env
      (listNodesByNodeAffinity lib env.nodes (env.nodeSelector.getD []))
    some (some (if endpoints.length > 0 then endpoints else stored.getD []))

end Run

/-- The endpoints of the slice, and what the last run read if it succeeded. -/
structure World where
  slice : Option (List Endpoint)
  last : Option Env

variable (lib : Library)

/-- A run; one that fails may have written the slice. -/
def Step (w : World) (e : Env × Bool) (w' : World) : Prop :=
  ∃ slice, (reconcileConfigPortEndpointSlices e.1 lib w.slice = some slice ∨
    e.2 = false ∧ slice = w.slice) ∧ w' = ⟨slice, if e.2 then some e.1 else none⟩

def Init (w : World) : Prop := w.last = none

/-- A selected node of the cluster has the endpoint. -/
def Wanted (env : Env) (endpoint : Endpoint) : Prop :=
  ∃ node ∈ env.nodes, nodeMatchesNodeSelector lib node env.nodeSelector = true ∧
    endpointOf env node = some (some endpoint)

/-- The selector has a term, and its terms have requirements on labels only, which can all be
read. -/
def Plain (nodeSelector : Option (List NodeSelectorTerm)) : Prop :=
  ∀ terms, nodeSelector = some terms → terms ≠ [] ∧ ∀ term ∈ terms, term.matchFields = [] ∧
    term.matchExpressions ≠ [] ∧ ∀ r ∈ term.matchExpressions, (requirement lib r).isSome = true

/-- There is a port, the selector is plain, and if endpoints are stored, then some are wanted. -/
def Allowed (w : World) (e : Env × Bool) : Prop :=
  e.1.ports ≠ [] ∧ Plain lib e.1.nodeSelector ∧
    (w.slice.getD [] = [] ∨ ∃ endpoint, Wanted lib e.1 endpoint)

variable {lib} {env : Env} {node : Node} {endpoint : Endpoint}

theorem mem_deduplicateNodes {l : List Node} {seen : List String}
    (hl : ∀ x ∈ l, ∀ y ∈ l, x.name = y.name → x = y) :
    node ∈ deduplicateNodes seen l ↔ node ∈ l ∧ node.name ∉ seen := by
  induction l generalizing seen with
  | nil => simp [deduplicateNodes]
  | cons x rest ih =>
    have ih' := fun s => @ih s fun y hy z hz =>
      hl y (mem_cons_of_mem _ hy) z (mem_cons_of_mem _ hz)
    unfold deduplicateNodes
    split_ifs with hs
    · rw [ih', mem_cons]
      refine and_congr_left fun hn => ⟨.inr, fun h => h.resolve_left ?_⟩
      rintro rfl
      exact hn hs
    · by_cases he : node = x
      · simp [he, hs]
      · simp only [mem_cons, he, false_or, ih', not_or]
        refine and_congr_right fun hr => and_iff_right fun hn => he ?_
        exact hl _ (mem_cons_of_mem _ hr) _ mem_cons_self hn

theorem mem_listNodesByNodeAffinity (hp : Plain lib env.nodeSelector) :
    node ∈ listNodesByNodeAffinity lib env.nodes (env.nodeSelector.getD []) ↔
      node ∈ env.nodes ∧ nodeMatchesNodeSelector lib node env.nodeSelector = true := by
  unfold listNodesByNodeAffinity nodeMatchesNodeSelector
  cases hs : env.nodeSelector with
  | none => simp
  | some terms =>
    obtain ⟨hne, ht⟩ := hp terms hs
    -- A plain term is read as the scheduler reads it.
    have hm : ∀ term ∈ terms, matchesTerm lib node term = true ↔
        (convertNodeSelectorTermToSelector lib term).all (· node.labels) = true := by
      intro term hte
      obtain ⟨hf, he, hr⟩ := ht term hte
      rw [← isEmpty_eq_false_iff] at he
      simp only [matchesTerm, hf, he, convertNodeSelectorTermToSelector, Bool.not_false,
        Bool.true_and, Bool.and_true, isEmpty_nil, Bool.true_or, all_eq_true,
        mem_filterMap]
      constructor
      · rintro h p ⟨r, hmem, hp⟩
        simpa [hp] using h r hmem
      · intro h r hmem
        obtain ⟨p, hp⟩ := Option.isSome_iff_exists.mp (hr r hmem)
        simpa [hp] using h p ⟨r, hmem, hp⟩
    rw [Option.getD_some, if_neg (by simpa using hne), mem_deduplicateNodes]
    · simp only [mem_flatMap, mem_filter, not_mem_nil, not_false_eq_true, and_true,
        Option.all_some, any_eq_true]
      constructor
      · rintro ⟨term, hte, hn, hc⟩
        exact ⟨hn, term, hte, (hm term hte).mpr hc⟩
      · rintro ⟨hn, term, hte, hc⟩
        exact ⟨term, hte, hn, (hm term hte).mp hc⟩
    · simp only [mem_flatMap, mem_filter]
      rintro x ⟨_, _, hx, _⟩ y ⟨_, _, hy, _⟩
      exact inj_on_of_nodup_map env.distinct hx hy

theorem mem_endpointsOf {l : List Node} {endpoints : List Endpoint}
    (h : endpointsOf env l = some endpoints) :
    endpoint ∈ endpoints ↔ ∃ node ∈ l, endpointOf env node = some (some endpoint) := by
  induction l generalizing endpoints with
  | nil =>
    cases h
    simp
  | cons x rest ih =>
    obtain ⟨found, hf, h⟩ := Option.bind_eq_some_iff.mp h
    obtain ⟨more, hm, h⟩ := Option.bind_eq_some_iff.mp h
    cases h
    simp [hf, ih hm]

/-- After every successful run the slice lists the endpoints of the selected nodes, if the selectors
are plain and no run finds that the last endpoint has to go. -/
theorem endpoints_follow_selector {w : World}
    (h : Reachable Init (Restrict (Allowed lib) (Step lib)) w) (hl : w.last = some env) :
    ∃ endpoints, w.slice = some endpoints ∧
      ∀ endpoint, endpoint ∈ endpoints ↔ Wanted lib env endpoint := by
  cases h with
  | start hi => cases hi.symm.trans hl
  | @next v _ e _ hs =>
    obtain ⟨⟨hpo, hpl, hw⟩, slice, hr, rfl⟩ := hs
    obtain ⟨env', ok⟩ := e
    cases ok with
    | false => cases hl
    | true =>
      obtain rfl : env' = env := Option.some.inj hl
      replace hr := hr.resolve_right fun hn => by cases hn.1
      rw [reconcileConfigPortEndpointSlices, if_neg hpo] at hr
      obtain ⟨endpoints, he, hr⟩ := Option.bind_eq_some_iff.mp hr
      cases hr
      have hmem : ∀ e, e ∈ endpoints ↔ Wanted lib env' e := by
        intro e
        rw [mem_endpointsOf he]
        simp [mem_listNodesByNodeAffinity hpl, Wanted, and_assoc]
      refine ⟨_, rfl, fun e => ?_⟩
      split_ifs with hlen
      · exact hmem e
      · have hnil : endpoints = [] := length_eq_zero_iff.mp (by omega)
        rw [hnil] at hmem
        rcases hw with hw | ⟨x, hx⟩
        · rw [hw]
          exact hmem e
        · cases (hmem x).mpr hx

/-- A library in which every requirement asks for one of its values. -/
def valueLibrary : Library := ⟨fun key _ values => some fun labels =>
  (labels.get key).any (values.contains ·), fun _ => none⟩

def zoneEnv (zones : List String) (h : zones.Nodup) : Env where
  ports := [("config", 30000)]
  nodeSelector := some [⟨[⟨"zone", some .isIn, ["a"]⟩], []⟩]
  nodes := zones.map fun zone => ⟨zone,
    [("zone", zone), ("provisioning.dpu.nvidia.com/host", "host-1")], [("InternalIP", "10.0.0.1")]⟩
  distinct := by simpa [Function.comp_def] using h
  dpfOperatorConfigNamespace := "dpf-operator-system"
  getDPUNode ref := some ⟨ref.2, none⟩
  getNode _ := none
  configPortsOverHighSpeed := false

theorem zone_endpoint_published : ∃ endpoints,
    some [⟨"10.0.0.1", "host-1"⟩] = some endpoints ∧ ∀ endpoint, endpoint ∈ endpoints ↔
      Wanted valueLibrary (zoneEnv ["b", "a"] (by decide)) endpoint :=
  @endpoints_follow_selector valueLibrary (zoneEnv ["b", "a"] (by decide))
    ⟨some [⟨"10.0.0.1", "host-1"⟩], some (zoneEnv ["b", "a"] (by decide))⟩
    (@Reachable.next World (Env × Bool) _ _ ⟨none, none⟩ _ (_, true) (.start rfl)
      ⟨⟨by decide, fun terms h => by cases h; simp [requirement, valueLibrary], .inl rfl⟩,
        _, .inl rfl, rfl⟩) rfl

/-- The only node goes away, and the next run leaves its endpoint in the slice. -/
theorem last_endpoint_kept : ∃ w, Reachable Init (Step valueLibrary) w ∧
    w.last = some (zoneEnv [] nodup_nil) ∧ ¬ ∃ endpoints, w.slice = some endpoints ∧
      ∀ endpoint, endpoint ∈ endpoints ↔
        Wanted valueLibrary (zoneEnv [] nodup_nil) endpoint := by
  have h₁ : Reachable Init (Step valueLibrary)
      ⟨some [⟨"10.0.0.1", "host-1"⟩], some (zoneEnv ["a"] (by decide))⟩ :=
    @Reachable.next World (Env × Bool) _ _ ⟨none, none⟩ _ (_, true) (.start rfl) ⟨_, .inl rfl, rfl⟩
  refine ⟨_, @Reachable.next _ (Env × Bool) _ _ _ _ (_, true) h₁ ⟨_, .inl rfl, rfl⟩, rfl, ?_⟩
  rintro ⟨_, h, hw⟩
  cases h
  obtain ⟨node, hn, -⟩ := (hw ⟨"10.0.0.1", "host-1"⟩).mp mem_cons_self
  cases hn

end DocaPlatform.ConfigPortEndpoints
