import DocaPlatform.ServiceChainPorts
import DocaPlatform.Runs

/-!
# The ServiceChain controller

A reconcile of a ServiceChain resolves the ports of its switches to OpenFlow ports and writes the
flows of the chain. Flows are only ever added, except when the generation of the chain is new or
the chain goes: then all flows with the cookie of the chain are deleted first. The flows in the
bridge are compared with those of the ports that a reconcile resolved, over runs with other specs,
other answers for the ports, and failing calls.
-/
namespace DocaPlatform.ServiceChainReconcile

open FlowTables (Flow Key addAll mem_addAll mem_addAll_iff addAll_append exactly)
open ServiceChainFlows ServiceChainPorts LabelSelectors Runs List

inductive PatchOutcome where
  | done
  | notFound
  | failed
  deriving DecidableEq

structure Calls where
  /-- Whether the chain, or that there is none, is read. -/
  get : Bool
  deleteFlows : Bool
  /-- The NodeServiceInterfaces of the node, if they are read; `some none` where there is no such
  object, or the feature is off. -/
  nsi : Option (Option (List InterfaceEntry))
  /-- What is read for a port of a switch, given their positions. -/
  views : ℕ → ℕ → View
  customViews : ℕ → ℕ → View × View
  /-- A call of `AddFlows` that fails may have added the flows of its first lines. -/
  addFlows : ℕ → Option ℕ
  addCustomFlows : ℕ → Option ℕ × Option ℕ
  patchConditions : PatchOutcome
  patchObject : PatchOutcome
  patchStatus : PatchOutcome

/-- The ports that a reconcile resolved: those of each switch, and the service port and uplink of
each switch with PTP flows. -/
structure Resolved where
  ports : List (List String)
  pairs : List (String × String)
  deriving DecidableEq

/-- The deferred patch adds its error, unless that is only that the object is not there. -/
def Calls.answer (c : Calls) (r : Resolved) : Option Resolved :=
  if c.patchConditions = .failed ∨ c.patchObject = .failed ∨ c.patchStatus = .failed then none
  else some r

def buildChainPorts (s : Site) (c : Calls) (nsi : Option (List InterfaceEntry))
    (switches : List (List Labels)) : List (List (Option String)) :=
  switches.zipIdx.map fun sw => sw.1.zipIdx.map fun port =>
    s.resolveSwitchPort (c.views sw.2 port.2) nsi port.1

def fireflySwitches (s : Site) (c : Calls) (nsi : Option (List InterfaceEntry))
    (switches : List (List Labels)) : List Site.FireflySwitch :=
  switches.zipIdx.map fun sw => sw.1.zipIdx.foldl (fun found port =>
    found.port (s.resolveFireflyPort (c.customViews sw.2 port.2).1 (c.customViews sw.2 port.2).2
      nsi port.1)) {}

def resolve (s : Site) (c : Calls) (nsi : Option (List InterfaceEntry))
    (switches : List (List Labels)) : Resolved where
  ports := (buildChainPorts s c nsi switches).map (·.filterMap id)
  pairs := (fireflySwitches s c nsi switches).filterMap (·.pair)

/-- No port failed to resolve, and no switch has a Firefly port without its uplink. -/
def resolvesAll (s : Site) (c : Calls) (nsi : Option (List InterfaceEntry))
    (switches : List (List Labels)) : Bool :=
  (buildChainPorts s c nsi switches).all (·.all Option.isSome) &&
    !(fireflySwitches s c nsi switches).any (·.hasErrors)

/-! ## Writing the flows -/

def addFlows (outcome : Option ℕ) (flows lines : List (Flow String)) : List (Flow String) × Bool :=
  match outcome with
  | none => (addAll flows lines, true)
  | some n => (addAll flows (lines.take n), false)

/-- A loop that goes on after errors. -/
def writeEach {β : Type} (write : β → List (Flow String) → List (Flow String) × Bool)
    (items : List β) (flows : List (Flow String)) : List (Flow String) × Bool :=
  items.foldl (fun r item => ((write item r.1).1, r.2 && (write item r.1).2)) (flows, true)

def applyOpenFlows (s : Site) (c : Calls) (ports : List (List String)) :
    List (Flow String) → List (Flow String) × Bool :=
  writeEach (fun call flows => addFlows (c.addFlows call.2) flows call.1)
    (generateOpenFlows s.hashedName ports).zipIdx

def ptpFlows (hashedName : ℕ) (pair : String × String) : List (Flow String) :=
  [ptpFlow hashedName pair.2 pair.1, ptpFlow hashedName pair.1 pair.2]

def ensurePTPMulticastFlows (s : Site) (outcome : Option ℕ × Option ℕ) (pair : String × String)
    (flows : List (Flow String)) : List (Flow String) × Bool :=
  let rx := addFlows outcome.1 flows [ptpFlow s.hashedName pair.2 pair.1]
  if rx.2 then addFlows outcome.2 rx.1 [ptpFlow s.hashedName pair.1 pair.2] else rx

def ensureCustomFlowsForChain (s : Site) (c : Calls) (pairs : List (String × String)) :
    List (Flow String) → List (Flow String) × Bool :=
  writeEach (fun pair flows => ensurePTPMulticastFlows s (c.addCustomFlows pair.2) pair.1 flows)
    pairs.zipIdx

def reconcileFlows (s : Site) (c : Calls) (r : Resolved) (flows : List (Flow String)) :
    List (Flow String) × Bool :=
  let learning := applyOpenFlows s c r.ports flows
  let custom := ensureCustomFlowsForChain s c r.pairs learning.1
  (custom.1, learning.2 && custom.2)

def generated (hashedName : ℕ) (r : Resolved) : List (Flow String) :=
  (generateOpenFlows hashedName r.ports).flatten ++ r.pairs.flatMap (ptpFlows hashedName)

/-- What a series of calls of `AddFlows` did: nothing but some of its flows is new, and without an
error all of them are in. -/
structure Writes (flows new : List (Flow String)) (r : List (Flow String) × Bool) : Prop where
  mem : ∀ f ∈ r.1, f ∈ flows ∨ f ∈ new
  all : r.2 = true → r.1 = addAll flows new

theorem writes_addFlows (outcome : Option ℕ) (flows lines : List (Flow String)) :
    Writes flows lines (addFlows outcome flows lines) := by
  cases outcome with
  | none => exact ⟨fun f hf => (mem_addAll hf).symm, fun _ => rfl⟩
  | some n =>
    refine ⟨fun f hf => ?_, fun h => absurd h (by simp [addFlows])⟩
    exact (mem_addAll hf).symm.imp_right mem_of_mem_take

theorem Writes.trans {flows new new' : List (Flow String)} {r r' : List (Flow String) × Bool}
    (h : Writes flows new r) (h' : Writes r.1 new' r') :
    Writes flows (new ++ new') (r'.1, r.2 && r'.2) where
  mem f hf := by
    rcases h'.mem f hf with hf | hf
    · exact (h.mem f hf).imp_right (mem_append_left _)
    · exact .inr (mem_append_right _ hf)
  all hok := by
    rw [Bool.and_eq_true] at hok
    rw [h'.all hok.2, h.all hok.1, addAll_append]

theorem Writes.writeEach {β : Type} {write : β → List (Flow String) → List (Flow String) × Bool}
    {lines : β → List (Flow String)}
    (h : ∀ item flows, Writes flows (lines item) (write item flows))
    (items : List β) (flows : List (Flow String)) :
    Writes flows (items.flatMap lines) (writeEach write items flows) := by
  -- Along the loop the flows of the items so far have been written.
  suffices hl : ∀ (rest : List β) (new : List (Flow String)) (r : List (Flow String) × Bool),
      Writes flows new r → Writes flows (new ++ rest.flatMap lines)
        (rest.foldl (fun r item => ((write item r.1).1, r.2 && (write item r.1).2)) r) by
    exact hl items [] (flows, true) ⟨fun f hf => .inl hf, fun _ => rfl⟩
  intro rest
  induction rest with
  | nil => intro new r hr; simpa using hr
  | cons item rest ih =>
    intro new r hr
    have hre := ih (new ++ lines item) _ (hr.trans (h item r.1))
    rw [append_assoc] at hre
    exact hre

theorem flatMap_zipIdx {β γ : Type} (items : List β) (lines : β → List γ) :
    (items.zipIdx.flatMap fun x => lines x.1) = items.flatMap lines := by
  have hf : items = items.zipIdx.map (·.1) := by simp
  conv_rhs => rw [hf, flatMap_map]

theorem writes_ensurePTPMulticastFlows (s : Site) (outcome : Option ℕ × Option ℕ)
    (pair : String × String) (flows : List (Flow String)) :
    Writes flows (ptpFlows s.hashedName pair) (ensurePTPMulticastFlows s outcome pair flows) := by
  have hrx := writes_addFlows outcome.1 flows [ptpFlow s.hashedName pair.2 pair.1]
  unfold ensurePTPMulticastFlows
  dsimp only
  split_ifs with hok
  · have h := hrx.trans (writes_addFlows outcome.2 _ [ptpFlow s.hashedName pair.1 pair.2])
    rw [hok, Bool.true_and] at h
    exact h
  · refine ⟨fun f hf => (hrx.mem f hf).imp_right fun h => ?_, fun h => absurd h hok⟩
    exact mem_cons.mpr (.inl (mem_singleton.mp h))

theorem writes_reconcileFlows (s : Site) (c : Calls) (r : Resolved) (flows : List (Flow String)) :
    Writes flows (generated s.hashedName r) (reconcileFlows s c r flows) := by
  have hl : Writes flows (generateOpenFlows s.hashedName r.ports).flatten
      (applyOpenFlows s c r.ports flows) := by
    have h := Writes.writeEach (fun (call : List (Flow String) × ℕ) flows =>
      writes_addFlows (c.addFlows call.2) flows call.1)
        (generateOpenFlows s.hashedName r.ports).zipIdx flows
    have hf := flatMap_zipIdx (generateOpenFlows s.hashedName r.ports) id
    rw [flatMap_id] at hf
    rw [← hf]
    exact h
  have hc : ∀ fl, Writes fl (r.pairs.flatMap (ptpFlows s.hashedName))
      (ensureCustomFlowsForChain s c r.pairs fl) := by
    intro fl
    have h := Writes.writeEach (fun (pair : (String × String) × ℕ) flows =>
      writes_ensurePTPMulticastFlows s (c.addCustomFlows pair.2) pair.1 flows) r.pairs.zipIdx fl
    rw [flatMap_zipIdx] at h
    exact h
  exact hl.trans (hc _)

/-! ## The chain over time -/

structure Chain where
  generation : ℕ
  observedGeneration : ℕ
  finalizer : Bool
  deleting : Bool
  switches : List (List Labels)

/-- The ports that flows are written for. -/
structure Carried where
  ports : List String
  ptp : List String

/-- A switch needs two ports to have flows. -/
def Resolved.carried (r : Resolved) : Carried where
  ports := (r.ports.filter fun sw => !(sw.length < 2)).flatten
  ptp := r.pairs.flatMap fun pair => [pair.2, pair.1]

def Carried.union (a b : Carried) : Carried := ⟨a.ports ++ b.ports, a.ptp ++ b.ptp⟩

def Carried.within (a b : Carried) : Bool :=
  a.ports.all (b.ports.contains ·) && a.ptp.all (b.ptp.contains ·)

structure World where
  site : Site
  chain : Option Chain
  flows : List (Flow String)
  /-- The ports that reconciles carried since the flows of the chain were last deleted. No code
  reads it. -/
  past : Carried

/-- `DeleteFlowsByCookie`. -/
def World.clear (w : World) : World where
  site := w.site
  chain := w.chain
  flows := w.flows.filter (·.cookie ≠ w.site.hashedName)
  past := ⟨[], []⟩

/-- The deferred patch. It stores the generation as observed, whatever the reconcile returns. -/
def World.patch (w : World) (c : Calls) (sc : Chain) (finalizer : Bool) : World where
  site := w.site
  chain := some {
    generation := sc.generation
    observedGeneration := if c.patchStatus = .done then sc.generation else sc.observedGeneration
    finalizer := if c.patchObject = .done then finalizer else sc.finalizer
    deleting := sc.deleting
    switches := sc.switches }
  flows := w.flows
  past := w.past

def World.write (w : World) (c : Calls) (r : Resolved) : World where
  site := w.site
  chain := w.chain
  flows := (reconcileFlows w.site c r w.flows).1
  past := w.past.union r.carried

def World.applyFlows (w : World) (c : Calls) (sc : Chain) : World × Option Resolved :=
  match c.nsi with
  | none => (w.patch c sc true, none)
  | some nsi =>
    let r := resolve w.site c nsi sc.switches
    ((w.write c r).patch c sc true,
      if resolvesAll w.site c nsi sc.switches && (reconcileFlows w.site c r w.flows).2 then
        c.answer r
      else none)

/-- `Reconcile`. A reconcile that ends without an error says which ports it resolved: none where
the chain is gone or going, and where the finalizer is added. -/
def World.reconcile (w : World) (c : Calls) : World × Option Resolved :=
  if !c.get then (w, none)
  else
    match w.chain with
    | none => if c.deleteFlows then (w.clear, some ⟨[], []⟩) else (w, none)
    | some sc =>
      if sc.deleting then
        if c.deleteFlows then (w.clear.patch c sc false, c.answer ⟨[], []⟩)
        else (w.patch c sc sc.finalizer, none)
      else if !sc.finalizer then (w.patch c sc true, c.answer ⟨[], []⟩)
      else if sc.generation ≠ sc.observedGeneration then
        if c.deleteFlows then w.clear.applyFlows c sc else (w.patch c sc true, none)
      else w.applyFlows c sc

inductive Event where
  | reconcile (c : Calls)
  | create (switches : List (List Labels))
  /-- A new spec, which is a new generation. -/
  | update (switches : List (List Labels))
  | delete
  /-- The API server drops a chain that is deleted and has no finalizer. -/
  | collect
  /-- A flow that is learnt, or that carries another cookie. -/
  | addOther (f : Flow String)
  /-- Flows go: they expire, other chains delete theirs, the switch restarts. -/
  | loseFlows (keep : Flow String → Bool)

/-- A flow of the chain that is not learnt. -/
def Own (s : Site) (f : Flow String) : Prop := f.cookie = s.hashedName ∧ f.idleTimeout = none

instance (s : Site) (f : Flow String) : Decidable (Own s f) :=
  inferInstanceAs (Decidable (_ ∧ _))

def World.exec (w : World) : Event → Option World
  | .reconcile c => some (w.reconcile c).1
  | .create switches =>
    if w.chain.isNone then some { w with chain := some ⟨1, 0, false, false, switches⟩ } else none
  | .update switches =>
    w.chain.map fun sc =>
      { w with chain := some { sc with generation := sc.generation + 1, switches := switches } }
  | .delete => w.chain.map fun sc => { w with chain := some { sc with deleting := true } }
  | .collect =>
    if w.chain.any fun sc => sc.deleting && !sc.finalizer then some { w with chain := none }
    else none
  | .addOther f => if Own w.site f then none else some { w with flows := FlowTables.add w.flows f }
  | .loseFlows keep => some { w with flows := w.flows.filter keep }

def Step (w : World) (e : Event) (w' : World) : Prop := w.exec e = some w'

/-- No chain, and no flow with its cookie but learnt ones. -/
structure Init (w : World) : Prop where
  chain : w.chain = none
  flows : ∀ f ∈ w.flows, ¬ Own w.site f
  past : w.past = ⟨[], []⟩

/-- A reconcile that resolves all ports and does not delete the flows first carries every port
that was carried since the last deletion. -/
def World.allowed (w : World) : Event → Bool
  | .reconcile c =>
    match w.chain, c.nsi with
    | some sc, some nsi =>
      sc.deleting || !sc.finalizer || sc.generation ≠ sc.observedGeneration ||
        !resolvesAll w.site c nsi sc.switches ||
        w.past.within (resolve w.site c nsi sc.switches).carried
    | _, _ => true
  | _ => true

def ptpKey (p : String) : Key String :=
  ⟨0, priorityCustomFlows, exactly p nonForwardablePTPMulticastMac⟩

/-- The keys of the flows of carried ports. -/
def Carried.Covers (a : Carried) (k : Key String) : Prop :=
  (∃ p ∈ a.ports, k = learningKey p ∨ k = multicastKey p ∨ k = floodKey p) ∨
    ∃ p ∈ a.ptp, k = ptpKey p

variable {k : Key String} {r : Resolved} {w : World} {sc : Chain} {c : Calls}

theorem Carried.Covers.mono {a b : Carried} (h : a.Covers k) (hpo : ∀ p ∈ a.ports, p ∈ b.ports)
    (hpt : ∀ p ∈ a.ptp, p ∈ b.ptp) : b.Covers k := by
  rcases h with ⟨p, hp, hk⟩ | ⟨p, hp, hk⟩
  · exact .inl ⟨p, hpo p hp, hk⟩
  · exact .inr ⟨p, hpt p hp, hk⟩

theorem Carried.Covers.of_within {a b : Carried} (h : a.Covers k) (hw : a.within b = true) :
    b.Covers k := by
  rw [Carried.within, Bool.and_eq_true, all_eq_true, all_eq_true] at hw
  exact h.mono (fun p hp => contains_iff_mem.mp (hw.1 p hp))
    fun p hp => contains_iff_mem.mp (hw.2 p hp)

theorem mem_carried_ports {p : String} :
    p ∈ r.carried.ports ↔ ∃ sw ∈ r.ports, 2 ≤ sw.length ∧ p ∈ sw := by
  have ht : ∀ n : ℕ, 2 ≤ n ↔ 1 < n := fun n => Nat.succ_le_iff
  simp [Resolved.carried, and_assoc, ht]

theorem mem_ptpFlows {hashedName : ℕ} {f : Flow String}
    (hf : f ∈ r.pairs.flatMap (ptpFlows hashedName)) :
    ∃ p ∈ r.carried.ptp, ∃ q, f = ptpFlow hashedName p q := by
  obtain ⟨pair, hpa, hf⟩ := mem_flatMap.mp hf
  have hc : ∀ p ∈ [pair.2, pair.1], p ∈ r.carried.ptp := fun p hp =>
    mem_flatMap.mpr ⟨pair, hpa, hp⟩
  simp only [ptpFlows, mem_cons, not_mem_nil, or_false] at hf
  rcases hf with rfl | rfl
  · exact ⟨pair.2, hc _ (by simp), pair.1, rfl⟩
  · exact ⟨pair.1, hc _ (by simp), pair.2, rfl⟩

/-- The generated flows are the chain's own, and their keys those of the carried ports. -/
theorem generated_own {s : Site} {f : Flow String} (hf : f ∈ generated s.hashedName r) :
    Own s f ∧ r.carried.Covers f.key := by
  rcases mem_append.mp hf with hf | hf
  · obtain ⟨sw, hsw, hl, x, hx, hf⟩ := mem_generateOpenFlows.mp hf
    have hp : x.1 ∈ r.carried.ports :=
      mem_carried_ports.mpr ⟨sw, hsw, hl, fst_mem_of_mem_zipIdx hx⟩
    rcases hf with rfl | rfl | rfl
    · exact ⟨⟨rfl, rfl⟩, .inl ⟨x.1, hp, .inl rfl⟩⟩
    · exact ⟨⟨rfl, rfl⟩, .inl ⟨x.1, hp, .inr (.inl rfl)⟩⟩
    · exact ⟨⟨rfl, rfl⟩, .inl ⟨x.1, hp, .inr (.inr rfl)⟩⟩
  · obtain ⟨p, hp, q, rfl⟩ := mem_ptpFlows hf
    exact ⟨⟨rfl, rfl⟩, .inr ⟨p, hp, rfl⟩⟩

theorem exists_generated {hashedName : ℕ} (h : r.carried.Covers k) :
    ∃ f ∈ generated hashedName r, f.key = k := by
  rcases h with ⟨p, hp, hk⟩ | ⟨p, hp, rfl⟩
  · obtain ⟨sw, hsw, hl, hp⟩ := mem_carried_ports.mp hp
    obtain ⟨i, hi, rfl⟩ := mem_iff_getElem.mp hp
    have hx : (sw[i], i) ∈ sw.zipIdx := mk_mem_zipIdx_iff_getElem?.mpr (by simp [hi])
    have hmem : ∀ f, f = learningFlow hashedName sw[i] (peersOf sw i) ∨
        f = multicastFlow hashedName sw[i] (peersOf sw i) ∨
        f = floodFlow hashedName sw[i] (peersOf sw i) → f ∈ generated hashedName r := fun f hf =>
      mem_append_left _ (mem_generateOpenFlows.mpr ⟨sw, hsw, hl, _, hx, hf⟩)
    rcases hk with rfl | rfl | rfl
    · exact ⟨_, hmem _ (.inl rfl), rfl⟩
    · exact ⟨_, hmem _ (.inr (.inl rfl)), rfl⟩
    · exact ⟨_, hmem _ (.inr (.inr rfl)), rfl⟩
  · obtain ⟨pair, hpa, hp⟩ := mem_flatMap.mp hp
    have hmem : ∀ f ∈ ptpFlows hashedName pair, f ∈ generated hashedName r := fun f hf =>
      mem_append_right _ (mem_flatMap.mpr ⟨pair, hpa, hf⟩)
    simp only [mem_cons, not_mem_nil, or_false] at hp
    rcases hp with rfl | rfl
    · exact ⟨ptpFlow hashedName pair.2 pair.1, hmem _ (by simp [ptpFlows]), rfl⟩
    · exact ⟨ptpFlow hashedName pair.1 pair.2, hmem _ (by simp [ptpFlows]), rfl⟩

/-! ## What is in the bridge -/

/-- The chain's own flows are those of ports that were carried since the last deletion. -/
def World.Covered (w : World) : Prop := ∀ f ∈ w.flows, Own w.site f → w.past.Covers f.key

structure Inv (w : World) : Prop where
  covered : w.Covered
  /-- Without the finalizer no flows have been written. -/
  unwritten : w.chain.any (·.finalizer) = false → w.past = ⟨[], []⟩

theorem Init.inv (h : Init w) : Inv w where
  covered f hf ho := absurd ho (h.flows f hf)
  unwritten _ := h.past

theorem World.covered_clear (w : World) : w.clear.Covered := by
  intro f hf ho
  have hc : f.cookie ≠ w.site.hashedName := by simpa using (mem_filter.mp hf).2
  exact absurd ho.1 hc

theorem World.Covered.write (h : w.Covered) (c : Calls) (r : Resolved) : (w.write c r).Covered := by
  intro f hf ho
  rcases (writes_reconcileFlows w.site c r w.flows).mem f hf with hf | hf
  · exact (h f hf ho).mono (fun p => mem_append_left _) fun p => mem_append_left _
  · exact (generated_own hf).2.mono (fun p => mem_append_right _)
      fun p => mem_append_right _

/-- Where the ports that were carried are carried again, the flows of the resolved ports replace
all others of the chain. -/
theorem World.Covered.exact (h : w.Covered) (hw : w.past.within r.carried = true)
    (f : Flow String) :
    f ∈ addAll w.flows (generated w.site.hashedName r) ∧ Own w.site f ↔
      f ∈ addAll [] (generated w.site.hashedName r) := by
  rw [mem_addAll_iff]
  constructor
  · rintro ⟨hf | ⟨hf, hke⟩, ho⟩
    · exact hf
    · obtain ⟨g, hg, hk⟩ := exists_generated ((h f hf ho).of_within hw)
      exact absurd hk (hke g hg)
  · intro hf
    refine ⟨.inl hf, ?_⟩
    rcases mem_addAll hf with hf | hf
    · exact (generated_own hf).1
    · cases hf

/-- A patch that leaves the finalizer, or no trace of flows, keeps the invariant. -/
theorem Inv.of_patch (h : w.Covered) (c : Calls) {finalizer : Bool}
    (hf : sc.finalizer = true ∧ finalizer = true ∨ w.past = ⟨[], []⟩) :
    Inv (w.patch c sc finalizer) where
  covered := h
  unwritten hno := by
    rcases hf with ⟨hsc, hn⟩ | hp
    · simp [World.patch, hsc, hn] at hno
    · exact hp

theorem Inv.applyFlows (h : w.Covered) (c : Calls) (hf : sc.finalizer = true) :
    Inv (w.applyFlows c sc).1 := by
  unfold World.applyFlows
  cases c.nsi with
  | none => exact Inv.of_patch h c (.inl ⟨hf, rfl⟩)
  | some nsi => exact Inv.of_patch (h.write c _) c (.inl ⟨hf, rfl⟩)

theorem Inv.past_of_not_finalizer (h : Inv w) (hc : w.chain = some sc)
    (hf : sc.finalizer = false) : w.past = ⟨[], []⟩ :=
  h.unwritten (by rw [hc]; exact hf)

theorem Inv.reconcile (h : Inv w) (c : Calls) : Inv (w.reconcile c).1 := by
  unfold World.reconcile
  by_cases hget : c.get = true
  swap
  · simpa [hget] using h
  rw [if_neg (by simp [hget])]
  cases hc : w.chain with
  | none =>
    dsimp only
    split_ifs
    · exact ⟨w.covered_clear, fun _ => rfl⟩
    · exact h
  | some sc =>
    dsimp only
    -- A patch that does not touch the finalizer keeps the invariant.
    have hs : Inv (w.patch c sc sc.finalizer) := by
      cases hf : sc.finalizer with
      | true => exact Inv.of_patch h.covered c (.inl ⟨hf, rfl⟩)
      | false => exact Inv.of_patch h.covered c (.inr (h.past_of_not_finalizer hc hf))
    split_ifs with hde hd hf hg hd
    · exact Inv.of_patch w.covered_clear c (.inr rfl)
    · exact hs
    · have hp := h.past_of_not_finalizer hc (by simpa using hf)
      exact Inv.of_patch h.covered c (.inr hp)
    · exact Inv.applyFlows w.covered_clear c (by simpa using hf)
    · exact Inv.of_patch h.covered c (.inl ⟨by simpa using hf, rfl⟩)
    · exact Inv.applyFlows h.covered c (by simpa using hf)

theorem Inv.step {w' : World} {e : Event} (h : Inv w) (hst : Step w e w') : Inv w' := by
  cases e with
  | reconcile c =>
    cases hst
    exact h.reconcile c
  | create switches =>
    obtain ⟨hn, hs⟩ := Option.ite_none_right_eq_some.mp hst
    cases hs
    refine ⟨h.covered, fun _ => h.unwritten ?_⟩
    rw [Option.isNone_iff_eq_none.mp hn]
    rfl
  | update switches | delete =>
    obtain ⟨sc, hc, rfl⟩ := Option.map_eq_some_iff.mp hst
    exact ⟨h.covered, fun hn => h.past_of_not_finalizer hc hn⟩
  | collect =>
    obtain ⟨hgo, hs⟩ := Option.ite_none_right_eq_some.mp hst
    cases hs
    obtain ⟨sc, hc, hsc⟩ := (Option.any_eq_true _ _).mp hgo
    rw [Bool.and_eq_true, Bool.not_eq_true'] at hsc
    exact ⟨h.covered, fun _ => h.past_of_not_finalizer hc hsc.2⟩
  | addOther f =>
    obtain ⟨ho, hs⟩ := Option.ite_none_left_eq_some.mp hst
    cases hs
    refine ⟨fun g hg hgown => ?_, h.unwritten⟩
    rcases FlowTables.mem_add hg with rfl | hg
    · exact absurd hgown ho
    · exact h.covered g hg hgown
  | loseFlows keep =>
    cases hst
    exact ⟨fun f hf => h.covered f (mem_of_mem_filter hf), h.unwritten⟩

theorem reachable_inv (h : Reachable Init Step w) : Inv w :=
  h.invariant (fun _ hi => hi.inv) fun _ _ _ _ hinv hs => hinv.step hs

/-! ## A reconcile without an error -/

theorem Calls.answer_eq_some {r' : Resolved} (h : c.answer r = some r') : r' = r :=
  (Option.some.inj (Option.ite_none_left_eq_some.mp h).2).symm

theorem applyFlows_done (hd : (w.applyFlows c sc).2 = some r) :
    ∃ nsi, c.nsi = some nsi ∧ r = resolve w.site c nsi sc.switches ∧
      resolvesAll w.site c nsi sc.switches = true ∧
      (w.applyFlows c sc).1.flows = addAll w.flows (generated w.site.hashedName r) := by
  unfold World.applyFlows at hd ⊢
  cases hn : c.nsi with
  | none => simp [hn] at hd
  | some nsi =>
    rw [hn] at hd
    obtain ⟨hok, ha⟩ := Option.ite_none_right_eq_some.mp hd
    rw [Bool.and_eq_true] at hok
    obtain rfl := Calls.answer_eq_some ha
    exact ⟨nsi, rfl, rfl, hok.1, (writes_reconcileFlows w.site c _ w.flows).all hok.2⟩

theorem Carried.nil_within (a : Carried) : Carried.within ⟨[], []⟩ a = true := rfl

/-- A reconcile without an error has written the flows of its ports over flows of ports that it
carries again. -/
theorem Inv.reconcile_done (h : Inv w) (hall : w.allowed (.reconcile c) = true)
    (hdo : (w.reconcile c).2 = some r) :
    ∃ start : World, start.site = w.site ∧ start.Covered ∧ start.past.within r.carried = true ∧
      (w.reconcile c).1.flows = addAll start.flows (generated w.site.hashedName r) := by
  unfold World.reconcile at hdo ⊢
  have hget : c.get = true := by
    by_contra hget
    rw [if_pos (by simpa using hget)] at hdo
    cases hdo
  rw [if_neg (by simp [hget])] at hdo ⊢
  cases hc : w.chain with
  | none =>
    simp only [hc] at hdo ⊢
    split_ifs at hdo ⊢ with hd
    cases hdo
    exact ⟨w.clear, rfl, w.covered_clear, Carried.nil_within _, rfl⟩
  | some sc =>
    simp only [hc] at hdo ⊢
    split_ifs at hdo ⊢ with hde hd hf hg hd
    · obtain rfl := Calls.answer_eq_some hdo
      exact ⟨w.clear, rfl, w.covered_clear, Carried.nil_within _, rfl⟩
    · obtain rfl := Calls.answer_eq_some hdo
      have hp := h.past_of_not_finalizer hc (by simpa using hf)
      exact ⟨w, rfl, h.covered, by rw [hp]; rfl, rfl⟩
    · obtain ⟨nsi, -, -, -, hfl⟩ := applyFlows_done hdo
      exact ⟨w.clear, rfl, w.covered_clear, Carried.nil_within _, hfl⟩
    · obtain ⟨nsi, hn, rfl, hr, hfl⟩ := applyFlows_done hdo
      refine ⟨w, rfl, h.covered, ?_, hfl⟩
      simpa [World.allowed, hc, hn, hde, hf, hg, hr]
        using hall

/-- In runs in which a reconcile that keeps the flows of the chain carries all ports carried since
they were last deleted, the chain's own flows after a reconcile without an error are exactly those
of the ports that it resolved. -/
theorem flows_follow_ports {w : World} {c : Calls} {r : Resolved}
    (hreach : Reachable Init (Restrict (fun w e => w.allowed e = true) Step) w)
    (hallowed : w.allowed (.reconcile c) = true) (hdone : (w.reconcile c).2 = some r)
    (f : Flow String) :
    f ∈ (w.reconcile c).1.flows ∧ Own w.site f ↔ f ∈ addAll [] (generated w.site.hashedName r) := by
  obtain ⟨start, hs, hc, hw, hf⟩ :=
    (reachable_inv hreach.of_restrict).reconcile_done hallowed hdone
  have he := hc.exact hw f
  rw [hs] at he
  rw [hf]
  exact he

/-- A node with an uplink on port 1 and a pod whose port is given. -/
def podView (pod : String) (ofport : ℤ) : View where
  serviceInterfaces := some [
    ⟨"dpf", "uplink", [("interface", "p0")], some "node", false, true, .physical⟩,
    ⟨"dpf", "app", [("interface", "app")], some "node", false, true,
      .service (some ⟨"app", "eth1"⟩)⟩]
  pods := some [⟨"dpf", pod, [(dpfServiceIDLabelKey, "app")], "node"⟩]
  interfaces := some [⟨"p0", some "dpf/uplink", some 1⟩,
    ⟨"veth", some ("dpf/" ++ pod ++ "/eth1"), some ofport⟩]
  isPortInBr _ := some true
  get _ := none

def podCalls (pod : String) (ofport : ℤ) : Calls where
  get := true
  deleteFlows := true
  nsi := some none
  views _ _ := podView pod ofport
  customViews _ _ := (podView pod ofport, podView pod ofport)
  addFlows _ := none
  addCustomFlows _ := (none, none)
  patchConditions := .done
  patchObject := .done
  patchStatus := .done

def podWorld : World := ⟨⟨"node", "dpf", 9⟩, none, [], ⟨[], []⟩⟩

def podSwitches : List (List Labels) := [[[("interface", "p0")], [("interface", "app")]]]

theorem podWorld_init : Init podWorld :=
  ⟨rfl, nofun, rfl⟩

theorem new_spec_follows_ports :
    ∃ w : World, Reachable Init (Restrict (fun w e => w.allowed e = true) Step) w ∧
      (w.reconcile (podCalls "app-b" 7)).2 = some ⟨[["1", "7"]], []⟩ ∧
      ∀ f, f ∈ (w.reconcile (podCalls "app-b" 7)).1.flows ∧ Own w.site f ↔
        f ∈ addAll [] (generated w.site.hashedName ⟨[["1", "7"]], []⟩) := by
  obtain ⟨w, hr, ho⟩ := Reachable.exists_of_runIf podWorld_init World.allowed World.exec
    [.create podSwitches, .reconcile (podCalls "app-a" 5), .reconcile (podCalls "app-a" 5),
      .update podSwitches]
    (fun w => (w.allowed (.reconcile (podCalls "app-b" 7)), (w.reconcile (podCalls "app-b" 7)).2))
    (true, some ⟨[["1", "7"]], []⟩) (by decide +kernel)
  obtain ⟨hall, hd⟩ := Prod.mk.inj ho
  exact ⟨w, hr, hd, flows_follow_ports hr hall hd⟩

/-- The pod restarts and its port is another one. The generation is the same, so the flows of the
old port stay. -/
theorem restarted_pod_leaves_flows :
    ∃ (w : World) (f : Flow String), Reachable Init Step w ∧
      (w.reconcile (podCalls "app-b" 7)).2 = some ⟨[["1", "7"]], []⟩ ∧
      f ∈ (w.reconcile (podCalls "app-b" 7)).1.flows ∧ Own w.site f ∧
      f ∉ addAll [] (generated w.site.hashedName ⟨[["1", "7"]], []⟩) := by
  obtain ⟨w, hr, ho⟩ := Reachable.exists_of_run podWorld_init World.exec
    [.create podSwitches, .reconcile (podCalls "app-a" 5), .reconcile (podCalls "app-a" 5)]
    (fun w => ((w.reconcile (podCalls "app-b" 7)).2,
      (w.reconcile (podCalls "app-b" 7)).1.flows.any
        fun f => decide (Own w.site f) && f.criteria.inPort = "5",
      (addAll [] (generated w.site.hashedName ⟨[["1", "7"]], []⟩)).all (·.criteria.inPort ≠ "5")))
    (some ⟨[["1", "7"]], []⟩, true, true) (by decide +kernel)
  obtain ⟨hd, ho⟩ := Prod.mk.inj ho
  obtain ⟨ha, hall⟩ := Prod.mk.inj ho
  obtain ⟨f, hf, how⟩ := any_eq_true.mp ha
  rw [Bool.and_eq_true, decide_eq_true_eq, decide_eq_true_eq] at how
  refine ⟨w, f, hr, hd, hf, how.1, fun hmem => ?_⟩
  exact absurd how.2 (of_decide_eq_true (all_eq_true.mp hall f hmem))

end DocaPlatform.ServiceChainReconcile
