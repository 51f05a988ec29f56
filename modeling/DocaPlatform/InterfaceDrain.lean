import DocaPlatform.NodeServiceInterfaces
import DocaPlatform.Runs

/-!
# Draining an entry of a NodeServiceInterfaces object

One ServiceInterfaceSet, one node, and the NodeServiceInterfaces object that holds the set's entry.
A pass of the set reads the object and writes the entry later; a reconcile of the sfc-controller
reads the object once, acts on OVS and writes the status later. The ports that were added for the
entry and not deleted since are followed on the side.
-/
namespace DocaPlatform.InterfaceDrain

open NodeServiceInterfaces Runs Option List

structure NSI where
  finalizer : Bool
  deleting : Bool
  /-- The entry of the set, and its status. -/
  entry : Option InterfaceEntry
  status : Option InterfaceEntryStatus
  others : Bool
  deriving DecidableEq

/-- What a pass reads of the set: its template, whether it selects the node, whether it is being
deleted. -/
structure SetView where
  template : Template
  selected : Bool
  deleting : Bool
  deriving DecidableEq

/-- What a pass does to the entry. -/
inductive Plan where
  | leave
  | apply (entry : InterfaceEntry)
  | remove
  deriving DecidableEq

/-- `drainNSIEntry` on a node that is there. The terminating entry is built from the template. -/
def drainNSIEntry (name : String) (t : Template) (entry : InterfaceEntry)
    (status : Option InterfaceEntryStatus) : Plan :=
  if !entry.terminating then .apply { buildInterfaceEntry name t with terminating := true }
  else if !isEntryResourceReleased status entry then .leave
  else .remove

/-- `reconcileNSI` and `reconcileDeleteNSI` for this node, from the set and the object they read. -/
def plan (name : String) (set : SetView) (nsi : Option NSI) : Plan :=
  let owned := nsi.bind fun n => n.entry.map fun e => (e, n.status)
  if set.selected && !set.deleting then
    if owned.map (·.1) = some (buildInterfaceEntry name set.template) then .leave
    else .apply (buildInterfaceEntry name set.template)
  else
    match owned with
    | none => .leave
    | some (e, status) => drainNSIEntry name set.template e status

/-- `applyNSIEntry`: server-side apply of the set's entry, which creates the object. -/
def applyNSIEntry (nsi : Option NSI) (entry : Option InterfaceEntry) : NSI :=
  match nsi with
  | none => ⟨false, false, entry, none, false⟩
  | some n => { n with entry := entry }

/-- The next step of a reconcile of the sfc-controller. -/
inductive SfcCall where
  | addFinalizer
  /-- `reconcileEntry`: act on OVS for the entry that was read. -/
  | act (entry : Option InterfaceEntry) (status : Option InterfaceEntryStatus)
  | write (status : Option InterfaceEntryStatus)
  /-- `reconcileDelete`: delete the ports of the entry that was read. -/
  | release (entry : Option InterfaceEntry)
  | unfinalize
  deriving DecidableEq

/-- What OVS and the representors answer: how many of the ports were dealt with, and whether all
other calls went through. -/
structure Answers where
  resolved : Option String
  recovered : Option String
  done : ℕ
  ok : Bool

structure World where
  entryName : String
  set : SetView
  /-- What the pass that is under way decided. -/
  pass : Option Plan
  nsi : Option NSI
  sfc : Option SfcCall
  /-- The ports that were added for the entry and since then neither deleted nor left in place as
  physical interfaces with the no-op annotation. -/
  held : List Port

/-- `Reconcile`, from the object it read to its first action. -/
def sfcDispatch (n : NSI) : SfcCall :=
  if n.deleting then .release n.entry
  else if !n.finalizer then .addFinalizer
  else .act n.entry n.status

/-- The ports that stay for the entry when it is deleted from OVS, and whether that succeeds. -/
def deleteInterfaces (e : InterfaceEntry) (a : Answers) (held : List Port) : List Port × Bool :=
  match portsToDelete e a.resolved a.recovered with
  | none => (held, false)
  | some ports =>
    if keepsPhysical e then (held.filter fun p => (portsToAdd e none).all (p ∉ ·), true)
    else (held.filter (· ∉ ports.take a.done), a.ok && ports.length ≤ a.done)

/-- The ports of the entry after it is added to OVS, and whether that succeeds. -/
def addInterfaces (e : InterfaceEntry) (a : Answers) (held : List Port) : List Port × Bool :=
  match portsToAdd e a.resolved with
  | none => (held, false)
  | some ports => (held ++ ports.take a.done, a.ok && ports.length ≤ a.done)

/-- `reconcileEntry`: the ports and the status after it. -/
def reconcileEntry (e : InterfaceEntry) (status : Option InterfaceEntryStatus) (a : Answers)
    (held : List Port) : List Port × Option InterfaceEntryStatus :=
  let s := ensureEntryStatus status
  if e.terminating then
    if isEntryResourceReleased status e then (held, some s)
    else
      let r := deleteInterfaces e a held
      if r.2 then (r.1, some { s with resourceReleased := true, observedSpecHash := some e })
      else (r.1, some s)
  else
    let r := addInterfaces e a held
    (r.1, some { s with ready := r.2, observedSpecHash := some e })

/-- The action of a reconcile on OVS. -/
def World.sfcAct (w : World) (a : Answers) : Option World :=
  match w.sfc with
  | some (.act none _) =>
    -- `pruneOrphanedEntryStatuses`
    some { w with sfc := some (.write none) }
  | some (.act (some e) status) =>
    let r := reconcileEntry e status a w.held
    some { w with held := r.1, sfc := some (.write r.2) }
  | some (.release none) => some { w with sfc := some .unfinalize }
  | some (.release (some e)) =>
    let r := deleteInterfaces e a w.held
    some { w with held := r.1, sfc := if r.2 then some .unfinalize else none }
  | _ => none

/-- The patch at the end of a reconcile. -/
def World.sfcWrite (w : World) : Option World :=
  match w.sfc with
  | some .addFinalizer =>
    some { w with nsi := w.nsi.map ({ · with finalizer := true }), sfc := none }
  | some (.write status) => some { w with nsi := w.nsi.map ({ · with status := status }), sfc := none }
  | some .unfinalize =>
    -- an object that is being deleted is gone with its last finalizer
    some { w with nsi := w.nsi.bind fun n => if n.deleting then none else some { n with finalizer := false }
                  sfc := none }
  | _ => none

inductive Event where
  /-- The set is edited, deleted or created again, or the node is selected or deselected. -/
  | editSet (set : SetView)
  | passRead
  | passApply
  | passStop
  /-- `deleteNSIIfEmpty`, by a pass of any set; its preconditions make it one step. -/
  | deleteEmpty
  /-- Other sets add their entries, or remove the last of them. -/
  | otherSets (present : Bool)
  | sfcRead
  | sfcAct (answers : Answers)
  | sfcWrite
  | sfcStop

def World.exec (w : World) : Event → Option World
  | .editSet set => some { w with set := set }
  | .passRead =>
    match w.pass with
    | some _ => none
    | none => some { w with pass := some (plan w.entryName w.set w.nsi) }
  | .passApply =>
    match w.pass with
    | some .leave => some { w with pass := none }
    | some (.apply e) => some { w with nsi := some (applyNSIEntry w.nsi (some e)), pass := none }
    | some .remove => some { w with nsi := some (applyNSIEntry w.nsi none), pass := none }
    | none => none
  | .passStop => some { w with pass := none }
  | .deleteEmpty =>
    match w.nsi with
    | some n =>
      if n.entry.isNone && !n.others && !n.deleting then
        some { w with nsi := if n.finalizer then some { n with deleting := true } else none }
      else none
    | none => none
  | .otherSets present =>
    match w.nsi with
    | some n => some { w with nsi := some { n with others := present } }
    | none => if present then some { w with nsi := some ⟨false, false, none, none, true⟩ } else none
  | .sfcRead =>
    match w.sfc with
    | some _ => none
    | none => some { w with sfc := w.nsi.map sfcDispatch }
  | .sfcAct a => w.sfcAct a
  | .sfcWrite => w.sfcWrite
  | .sfcStop => some { w with sfc := none }

def Step (w : World) (e : Event) (w' : World) : Prop := w.exec e = some w'

/-- At the start there is no object, and nothing was added for the entry. -/
structure Init (w : World) : Prop where
  pass : w.pass = none
  nsi : w.nsi = none
  sfc : w.sfc = none
  held : w.held = []

def World.entry (w : World) : Option InterfaceEntry := w.nsi.bind NSI.entry

def World.status (w : World) : Option InterfaceEntryStatus := w.nsi.bind NSI.status

/-- A pass replaces an entry only by one with the same definition, and marks it terminating only if
the status does not say already that this very entry was released. -/
def World.appliesSafely (w : World) : Bool :=
  match w.pass with
  | some (.apply e) =>
    (w.entry.all fun o => e.definition = o.definition) &&
      (!e.terminating || !isEntryResourceReleased w.status e)
  | _ => true

/-- The port that is deleted for a PF or a VF is the only one that was added for it. -/
def World.deletesRepresentor (w : World) (a : Answers) (e : InterfaceEntry) : Bool :=
  e.definition.isFixed ||
    (portsToDelete e a.resolved a.recovered).all fun ports => w.held.all (· ∈ ports)

/-- The condition on a step. -/
def World.allowed (w : World) : Event → Bool
  | .passApply => w.appliesSafely
  | .sfcAct a =>
    match w.sfc with
    | some (.act (some e) status) =>
      !e.terminating || isEntryResourceReleased status e || w.deletesRepresentor a e
    | some (.release (some e)) => w.deletesRepresentor a e
    | _ => true
  | _ => true

/-- The port is one that is added for the entry. -/
def Belongs (p : Port) (o : InterfaceEntry) : Prop :=
  ∃ resolved ports, portsToAdd o resolved = some ports ∧ p ∈ ports

theorem Belongs.congr {p : Port} {o e : InterfaceEntry} (h : Belongs p o) (hn : e.name = o.name)
    (hd : e.definition = o.definition) : Belongs p e := by
  obtain ⟨resolved, ports, hpo, hp⟩ := h
  exact ⟨resolved, ports, (portsToAdd_congr hn hd resolved).trans hpo, hp⟩

section Ports

variable {e : InterfaceEntry} {a : Answers} {held : List Port}

theorem mem_of_mem_deleteInterfaces {p : Port} (h : p ∈ (deleteInterfaces e a held).1) :
    p ∈ held := by
  unfold deleteInterfaces at h
  split at h
  · exact h
  · split_ifs at h
    · exact mem_of_mem_filter h
    · exact mem_of_mem_filter h

/-- A deletion that succeeds leaves nothing, if all ports belong to the entry and the port of a
representor is the one that is deleted. -/
theorem deleteInterfaces_eq_nil (hfi : e.definition.isFixed = true → ∀ p ∈ held, Belongs p e)
    (hr : e.definition.isFixed = false → ∀ ports,
      portsToDelete e a.resolved a.recovered = some ports → ∀ p ∈ held, p ∈ ports)
    (hok : (deleteInterfaces e a held).2 = true) : (deleteInterfaces e a held).1 = [] := by
  unfold deleteInterfaces at hok ⊢
  cases hpo : portsToDelete e a.resolved a.recovered with
  | none => simp [hpo] at hok
  | some ports =>
    simp only [hpo] at hok ⊢
    cases hk : keepsPhysical e with
    | true =>
      -- a physical interface belongs to its entry whatever the representors are
      obtain ⟨name, hde⟩ : ∃ name, e.definition = .physical name := by
        cases hd : e.definition with
        | physical name => exact ⟨name, rfl⟩
        | _ => simp [keepsPhysical, hd] at hk
      rw [if_pos rfl, filter_eq_nil_iff]
      intro p hp
      obtain ⟨resolved, added, ha, hmem⟩ := hfi (by rw [hde]; rfl) p hp
      have hs : portsToAdd e none = some added := by
        rw [← ha]
        simp [portsToAdd, hde, figureOutName]
      simpa [hs] using hmem
    | false =>
      rw [hk, if_neg Bool.false_ne_true] at hok
      obtain ⟨_, hl⟩ := Bool.and_eq_true_iff.mp hok
      rw [if_neg Bool.false_ne_true, filter_eq_nil_iff, take_of_length_le
        (of_decide_eq_true hl)]
      intro p hp
      have hmem : p ∈ ports := by
        cases hf : e.definition.isFixed with
        | true =>
          obtain ⟨resolved, added, ha, hmem⟩ := hfi hf p hp
          exact mem_portsToDelete_of_mem_portsToAdd hf rfl rfl hk ha hpo hmem
        | false => exact hr hf ports hpo p hp
      simpa using hmem

theorem belongs_of_mem_addInterfaces {p : Port} (h : p ∈ (addInterfaces e a held).1) :
    p ∈ held ∨ Belongs p e := by
  unfold addInterfaces at h
  split at h
  · exact .inl h
  · rename_i ports hp
    rcases mem_append.mp h with h | h
    · exact .inl h
    · exact .inr ⟨_, ports, hp, mem_of_mem_take h⟩

end Ports

def Adding : Option SfcCall → Prop
  | some (.act (some e) _) => e.terminating = false
  | _ => False

/-- The stored entry asks for the same as one that was read. -/
def Shares (w : World) (e : InterfaceEntry) : Prop :=
  ∃ o, w.entry = some o ∧ o.definition = e.definition

/-- The object cannot go away: only the sfc-controller takes its finalizer off. -/
def Pinned (w : World) : Prop := ∃ n, w.nsi = some n ∧ n.finalizer = true

/-- What a pass knows when it writes. -/
def PassInv (w : World) : Option Plan → Prop
  | some (.apply e) => e.name = w.entryName
  | some .remove =>
    w.held = [] ∧ ¬ Adding w.sfc ∧ ∀ o, w.entry = some o → o.terminating = true
  | _ => True

/-- What a reconcile of the sfc-controller knows at its next step. -/
def SfcInv (w : World) : Option SfcCall → Prop
  | some (.act e status) =>
    Pinned w ∧ w.status = status ∧ ∀ e', e = some e' → e'.name = w.entryName ∧
      (e'.terminating = false → Shares w e') ∧ (w.held = [] ∨ Shares w e')
  | some (.write status) =>
    Pinned w ∧ ∀ e, e.terminating = true → isEntryResourceReleased status e = true →
      w.held = [] ∨ isEntryResourceReleased w.status e = true
  | some (.release none) => w.held = []
  | some (.release (some e)) => e.name = w.entryName ∧ (w.held = [] ∨ Shares w e)
  | some .unfinalize => w.held = []
  | _ => True

structure Inv (w : World) : Prop where
  names : ∀ o, w.entry = some o → o.name = w.entryName
  entryless : w.entry = none → w.held = []
  ports : ∀ o, w.entry = some o → o.definition.isFixed = true → ∀ p ∈ w.held, Belongs p o
  released : ∀ o, w.entry = some o → o.terminating = true →
    isEntryResourceReleased w.status o = true → w.held = [] ∧ ¬ Adding w.sfc
  pass : PassInv w w.pass
  sfc : SfcInv w w.sfc

theorem Init.inv {w : World} (h : Init w) : Inv w := by
  have he : w.entry = none := by simp [World.entry, h.nsi]
  refine ⟨?_, fun _ => h.held, ?_, ?_, ?_, ?_⟩
  · simp [he]
  · simp [he]
  · simp [he]
  · rw [h.pass]
    trivial
  · rw [h.sfc]
    trivial

variable {w w' : World}

/-! ## Passes of the set -/

variable {nsi : Option NSI} {e : InterfaceEntry} {c : Option SfcCall} {n : NSI} {a : Answers}

theorem plan_name {name : String} {set : SetView} (h : plan name set nsi = .apply e) :
    e.name = name := by
  unfold plan drainNSIEntry at h
  dsimp only at h
  split_ifs at h
  · obtain rfl := Plan.apply.inj h
    rfl
  · split at h
    · cases h
    · split_ifs at h
      obtain rfl := Plan.apply.inj h
      rfl

theorem plan_remove {name : String} {set : SetView} (h : plan name set nsi = .remove) :
    ∃ n e, nsi = some n ∧ n.entry = some e ∧ e.terminating = true ∧
      isEntryResourceReleased n.status e = true := by
  unfold plan drainNSIEntry at h
  dsimp only at h
  split_ifs at h
  split at h
  · cases h
  · rename_i e status ho
    split_ifs at h with ht hr
    obtain ⟨n, rfl, hn⟩ := bind_eq_some_iff.mp ho
    obtain ⟨e', he', heq⟩ := map_eq_some_iff.mp hn
    obtain ⟨rfl, rfl⟩ := Prod.mk.inj heq
    exact ⟨n, e', rfl, he', by simpa using ht, by simpa using hr⟩

theorem Inv.passRead (h : Inv w) : Inv { w with pass := some (plan w.entryName w.set w.nsi) } := by
  refine ⟨h.names, h.entryless, h.ports, h.released, ?_, h.sfc⟩
  change PassInv _ (some (plan w.entryName w.set w.nsi))
  cases hp : plan w.entryName w.set w.nsi with
  | leave => trivial
  | apply e => exact plan_name hp
  | remove =>
    obtain ⟨n, e, hn, he, ht, hr⟩ := plan_remove hp
    have hen : w.entry = some e := by simp [World.entry, hn, he]
    have hst : w.status = n.status := by simp [World.status, hn]
    obtain ⟨hh, ha⟩ := h.released e hen ht (hst ▸ hr)
    refine ⟨hh, ha, fun o ho => ?_⟩
    cases hen.symm.trans ho
    exact ht

/-- Only a pass that is about to remove the entry looks at the rest of the system. -/
theorem PassInv.mono {p : Option Plan} (h : PassInv w p) (hn : w'.entryName = w.entryName)
    (hr : w.held = [] → ¬ Adding w.sfc → (∀ o, w.entry = some o → o.terminating = true) →
      w'.held = [] ∧ ¬ Adding w'.sfc ∧ ∀ o, w'.entry = some o → o.terminating = true) :
    PassInv w' p := by
  cases p with
  | none => trivial
  | some p =>
    cases p with
    | leave => trivial
    | apply e => exact h.trans hn.symm
    | remove => exact hr h.1 h.2.1 h.2.2

theorem Inv.passStop (h : Inv w) : Inv { w with pass := none } :=
  ⟨h.names, h.entryless, h.ports, h.released, trivial, h.sfc⟩

@[simp] theorem applyNSIEntry_entry (nsi : Option NSI) (e : Option InterfaceEntry) :
    (applyNSIEntry nsi e).entry = e := by
  cases nsi with
  | none => rfl
  | some n => rfl

theorem applyNSIEntry_status (nsi : Option NSI) (e : Option InterfaceEntry) :
    (applyNSIEntry nsi e).status = nsi.bind NSI.status := by
  cases nsi with
  | none => rfl
  | some n => rfl

theorem Pinned.applied (h : Pinned w) (e : Option InterfaceEntry) :
    ∃ n, some (applyNSIEntry w.nsi e) = some n ∧ n.finalizer = true := by
  obtain ⟨n, hn, hf⟩ := h
  exact ⟨_, rfl, by rw [hn]; exact hf⟩

/-- Writing the entry keeps what the sfc-controller knows, if an entry that it will add, or that has
ports, keeps its definition. -/
theorem SfcInv.applied (h : SfcInv w c) (entry : Option InterfaceEntry)
    (hsh : ∀ e, Shares w e → w.held = [] ∧ ¬ (Adding c) ∨
      Shares { w with nsi := some (applyNSIEntry w.nsi entry), pass := none } e) :
    SfcInv { w with nsi := some (applyNSIEntry w.nsi entry), pass := none } c := by
  have hsta : ({ w with nsi := some (applyNSIEntry w.nsi entry), pass := none } : World).status =
      w.status := applyNSIEntry_status _ _
  cases c with
  | none => trivial
  | some c =>
    cases c with
    | addFinalizer => trivial
    | act e status =>
      obtain ⟨hp, hst, he⟩ := h
      refine ⟨hp.applied entry, hsta.trans hst, fun e' he' => ?_⟩
      obtain ⟨hn, ha, hh⟩ := he e' he'
      refine ⟨hn, fun ht => ?_, ?_⟩
      · rcases hsh e' (ha ht) with ⟨_, hno⟩ | hs
        · subst he'
          exact absurd ht hno
        · exact hs
      · rcases hh with hni | hs
        · exact .inl hni
        · exact (hsh e' hs).imp And.left id
    | write status =>
      refine ⟨h.1.applied entry, fun e ht hr => ?_⟩
      rw [hsta]
      exact h.2 e ht hr
    | release e =>
      cases e with
      | none => exact h
      | some e =>
        refine ⟨h.1, ?_⟩
        rcases h.2 with hni | hs
        · exact .inl hni
        · exact (hsh e hs).imp And.left id
    | unfinalize => exact h

theorem Inv.passApply (h : Inv w) (hpa : w.pass = some (.apply e)) (hok : w.appliesSafely = true) :
    Inv { w with nsi := some (applyNSIEntry w.nsi (some e)), pass := none } := by
  have hn : e.name = w.entryName := by
    have := h.pass
    rwa [hpa] at this
  have hsa : (w.entry.all fun o => e.definition = o.definition) = true ∧
      (e.terminating = true → isEntryResourceReleased w.status e = false) := by
    unfold World.appliesSafely at hok
    rw [hpa] at hok
    obtain ⟨hde, hr⟩ := Bool.and_eq_true_iff.mp hok
    refine ⟨hde, fun ht => ?_⟩
    simpa [ht] using hr
  have hde : ∀ o, w.entry = some o → e.definition = o.definition := by
    intro o ho
    have := hsa.1
    rw [ho] at this
    simpa using this
  have he : ({ w with nsi := some (applyNSIEntry w.nsi (some e)), pass := none } : World).entry =
      some e := applyNSIEntry_entry _ _
  have hst : ({ w with nsi := some (applyNSIEntry w.nsi (some e)), pass := none } :
      World).status = w.status := applyNSIEntry_status _ _
  refine ⟨?_, ?_, ?_, ?_, trivial, ?_⟩
  · intro o ho
    cases he.symm.trans ho
    exact hn
  · intro hno
    exact absurd (he.symm.trans hno) (by simp)
  · intro o ho hf p hp
    cases he.symm.trans ho
    cases hold : w.entry with
    | none =>
      rw [h.entryless hold] at hp
      cases hp
    | some o =>
      have hd := hde o hold
      exact (h.ports o hold (hd ▸ hf) p hp).congr (hn.trans (h.names o hold).symm) hd
  · intro o ho ht hr
    cases he.symm.trans ho
    rw [hst, hsa.2 ht] at hr
    exact absurd hr Bool.false_ne_true
  · refine h.sfc.applied (some e) fun e' hs => .inr ?_
    obtain ⟨o, ho, hd⟩ := hs
    exact ⟨e, he, (hde o ho).trans hd⟩

theorem Inv.passRemove (h : Inv w) (hp : w.pass = some .remove) :
    Inv { w with nsi := some (applyNSIEntry w.nsi none), pass := none } := by
  obtain ⟨hh, ha, _⟩ : w.held = [] ∧ ¬ Adding w.sfc ∧ _ := by
    have := h.pass
    rwa [hp] at this
  have he : ({ w with nsi := some (applyNSIEntry w.nsi none), pass := none } : World).entry =
      none := applyNSIEntry_entry _ _
  refine ⟨?_, fun _ => hh, ?_, ?_, trivial, ?_⟩
  · simp [he]
  · simp [he]
  · simp [he]
  · exact h.sfc.applied none fun _ _ => .inl ⟨hh, ha⟩

/-! ## The object and the sfc-controller -/

/-- A change of the object that keeps the entry, and of a pinned object the status too. -/
theorem Inv.keepEntry (h : Inv w) (hen : nsi.bind NSI.entry = w.entry)
    (hsta : nsi.bind NSI.status = w.status ∨ w.entry = none)
    (hpi : Pinned w → nsi.bind NSI.status = w.status ∧ ∃ n, nsi = some n ∧ n.finalizer = true) :
    Inv { w with nsi := nsi } := by
  have hsh : ∀ e, Shares w e → Shares { w with nsi := nsi } e := by
    rintro e ⟨o, ho, hd⟩
    exact ⟨o, hen.trans ho, hd⟩
  refine ⟨fun o ho => h.names o (hen.symm.trans ho), fun ho => h.entryless (hen.symm.trans ho),
    fun o ho => h.ports o (hen.symm.trans ho), ?_, ?_, ?_⟩
  · intro o ho hte hre
    have ho' : w.entry = some o := hen.symm.trans ho
    rcases hsta with hst | hno
    · refine h.released o ho' hte ?_
      rw [← hst]
      exact hre
    · exact absurd (hno.symm.trans ho') (by simp)
  · exact h.pass.mono rfl fun hh ha hte =>
      ⟨hh, ha, fun o ho => hte o (hen.symm.trans ho)⟩
  · have hsf := h.sfc
    revert hsf
    cases hc : w.sfc with
    | none => exact id
    | some c =>
      cases c with
      | act e status =>
        rintro ⟨hp, hst, he⟩
        refine ⟨(hpi hp).2, (hpi hp).1.trans hst, fun e' he' => ?_⟩
        obtain ⟨hn, ha, hh⟩ := he e' he'
        exact ⟨hn, fun ht => hsh e' (ha ht), hh.imp id (hsh e')⟩
      | write status =>
        rintro ⟨hp, hre⟩
        refine ⟨(hpi hp).2, fun e ht hr => (hre e ht hr).imp id fun hs => ?_⟩
        exact (congrArg (isEntryResourceReleased · e) (hpi hp).1).trans hs
      | release e =>
        cases e with
        | none => exact id
        | some e => exact fun hsf => ⟨hsf.1, hsf.2.imp id (hsh e)⟩
      | addFinalizer => exact id
      | unfinalize => exact id

theorem entry_of_nsi (hn : w.nsi = some n) : w.entry = n.entry := by
  simp [World.entry, hn]

theorem status_of_nsi (hn : w.nsi = some n) : w.status = n.status := by
  simp [World.status, hn]

theorem Inv.deleteEmpty (h : Inv w) (hn : w.nsi = some n) (he : n.entry = none) :
    Inv { w with nsi := if n.finalizer then some { n with deleting := true } else none } := by
  have hno : w.entry = none := (entry_of_nsi hn).trans he
  split_ifs with hf
  · exact h.keepEntry (entry_of_nsi hn).symm (.inr hno)
      fun _ => ⟨(status_of_nsi hn).symm, _, rfl, hf⟩
  · refine h.keepEntry hno.symm (.inr hno) fun hp => ?_
    obtain ⟨n', hn', hfin'⟩ := hp
    cases hn.symm.trans hn'
    exact absurd hfin' hf

theorem Inv.otherSets (h : Inv w) {present : Bool} (hs : Step w (.otherSets present) w') :
    Inv w' := by
  simp only [Step, World.exec] at hs
  cases hn : w.nsi with
  | some n =>
    simp only [hn] at hs
    cases hs
    refine h.keepEntry (entry_of_nsi hn).symm (.inl (status_of_nsi hn).symm) fun hp => ?_
    obtain ⟨n', hn', hf⟩ := hp
    cases hn.symm.trans hn'
    exact ⟨(status_of_nsi hn).symm, _, rfl, hf⟩
  | none =>
    simp only [hn] at hs
    split_ifs at hs
    cases hs
    have hno : w.entry = none := by simp [World.entry, hn]
    refine h.keepEntry hno.symm (.inr hno) fun hp => ?_
    obtain ⟨n', hn', _⟩ := hp
    exact absurd (hn.symm.trans hn') (by simp)

theorem Inv.sfcStop (h : Inv w) : Inv { w with sfc := none } := by
  refine ⟨h.names, h.entryless, h.ports, ?_, ?_, trivial⟩
  · exact fun o ho ht hr => ⟨(h.released o ho ht hr).1, id⟩
  · exact h.pass.mono rfl fun hh _ hte => ⟨hh, id, hte⟩

/-- The sfc-controller goes on with `c`, which does not add ports to an entry that is
terminating. -/
theorem Inv.sfcGoes (h : Inv w) (c : Option SfcCall)
    (had : Adding c → ∀ o, w.entry = some o → o.terminating = false)
    (hs : Adding c → w.entry ≠ none) (hc : SfcInv w c) : Inv { w with sfc := c } := by
  have hno : ∀ o, w.entry = some o → o.terminating = true → ¬ Adding c := by
    intro o ho ht ha
    rw [had ha o ho] at ht
    exact absurd ht Bool.false_ne_true
  refine ⟨h.names, h.entryless, h.ports, ?_, ?_, hc⟩
  · exact fun o ho ht hr => ⟨(h.released o ho ht hr).1, hno o ho ht⟩
  · refine h.pass.mono rfl fun hh _ hte => ⟨hh, fun ha => ?_, hte⟩
    obtain ⟨o, ho⟩ := ne_none_iff_exists'.mp (hs ha)
    exact hno o ho (hte o ho) ha

theorem Inv.sfcRead (h : Inv w) (hc : w.nsi.map sfcDispatch = c) : Inv { w with sfc := c } := by
  rcases eq_none_or_eq_some w.nsi with hn | ⟨n, hn⟩
  · rw [hn] at hc
    subst hc
    exact h.sfcGoes none (fun ha => ha.elim) (fun ha => ha.elim) trivial
  · have hen := entry_of_nsi hn
    have hr : ∀ e, n.entry = some e → e.name = w.entryName ∧ Shares w e := by
      intro e he
      exact ⟨h.names e (hen.trans he), e, hen.trans he, rfl⟩
    rw [hn, map_some] at hc
    subst hc
    unfold sfcDispatch
    split_ifs with hd hf
    · refine h.sfcGoes (some (.release n.entry)) (fun ha => ha.elim) (fun ha => ha.elim) ?_
      cases he : n.entry with
      | none => exact h.entryless (hen.trans he)
      | some e => exact ⟨(hr e he).1, .inr (hr e he).2⟩
    · exact h.sfcGoes (some .addFinalizer) (fun ha => ha.elim) (fun ha => ha.elim) trivial
    · refine h.sfcGoes (some (.act n.entry n.status)) ?_ ?_ ⟨⟨n, hn, by simpa using hf⟩, status_of_nsi hn, fun e he => ?_⟩
      · intro ha o ho
        rw [← hen, ho] at ha
        exact ha
      · intro ha hno
        rw [← hen, hno] at ha
        exact ha
      · exact ⟨(hr e he).1, fun _ => (hr e he).2, .inr (hr e he).2⟩

/-- Fewer ports, and a reconcile that will not add any. -/
theorem Inv.deletes (h : Inv w) {held : List Port} (hs : ∀ p ∈ held, p ∈ w.held)
    (ha : ¬ Adding c) (hc : SfcInv { w with held := held } c) :
    Inv { w with held := held, sfc := c } := by
  have hn : w.held = [] → held = [] := fun hw =>
    eq_nil_iff_forall_not_mem.mpr fun p hp => not_mem_nil (hw ▸ hs p hp)
  refine ⟨h.names, fun ho => hn (h.entryless ho), ?_, ?_, ?_, ?_⟩
  · exact fun o ho hf p hp => h.ports o ho hf p (hs p hp)
  · exact fun o ho ht hr => ⟨hn (h.released o ho ht hr).1, ha⟩
  · exact h.pass.mono rfl fun hh _ hte => ⟨hn hh, ha, hte⟩
  · cases c with
    | none => trivial
    | some c =>
      cases c with
      | release e =>
        cases e with
        | none => exact hc
        | some e => exact hc
      | _ => exact hc

theorem released_ensureEntryStatus {status : Option InterfaceEntryStatus}
    (h : isEntryResourceReleased (some (ensureEntryStatus status)) e = true) :
    isEntryResourceReleased status e = true := by
  cases status with
  | none => exact absurd h (by simp [isEntryResourceReleased, ensureEntryStatus])
  | some s => exact h

/-- A deletion by the sfc-controller leaves no port. -/
theorem Inv.deleteInterfaces_eq_nil (h : Inv w) (hn : e.name = w.entryName)
    (hs : w.held = [] ∨ Shares w e) (hr : w.deletesRepresentor a e = true)
    (hok : (deleteInterfaces e a w.held).2 = true) : (deleteInterfaces e a w.held).1 = [] := by
  refine InterfaceDrain.deleteInterfaces_eq_nil ?_ ?_ hok
  · intro hf p hp
    rcases hs with hni | ⟨o, ho, hd⟩
    · exact absurd (hni ▸ hp) not_mem_nil
    · exact (h.ports o ho (hd ▸ hf) p hp).congr (hn.trans (h.names o ho).symm) hd.symm
  · intro hf ports hpo p hp
    unfold World.deletesRepresentor at hr
    rw [hf, hpo] at hr
    have hall : ∀ p ∈ w.held, p ∈ ports := by simpa using hr
    exact hall p hp

theorem Inv.sfcActEntry (h : Inv w) {status : Option InterfaceEntryStatus}
    (hsf : w.sfc = some (.act (some e) status))
    (hok : (!e.terminating || isEntryResourceReleased status e || w.deletesRepresentor a e) = true) :
    Inv { w with held := (reconcileEntry e status a w.held).1,
                 sfc := some (.write (reconcileEntry e status a w.held).2) } := by
  have hinv := h.sfc
  rw [hsf] at hinv
  obtain ⟨hpi, hst, he⟩ := hinv
  obtain ⟨hn, ha, hh⟩ := he e rfl
  unfold reconcileEntry
  dsimp only
  cases hte : e.terminating with
  | true =>
    rw [if_pos rfl]
    -- the status says of a terminating entry no more than it did
    have hsa : ∀ {held : List Port} (e' : InterfaceEntry),
        isEntryResourceReleased (some (ensureEntryStatus status)) e' = true →
        held = [] ∨ isEntryResourceReleased w.status e' = true :=
      fun e' hr => .inr (hst ▸ released_ensureEntryStatus hr)
    split_ifs with hre hdo
    · exact h.deletes (fun p hp => hp) id ⟨hpi, fun e' _ => hsa e'⟩
    · have hrep : w.deletesRepresentor a e = true := by
        have hnot : isEntryResourceReleased status e = false := by simpa using hre
        simpa [hte, hnot] using hok
      have hni := h.deleteInterfaces_eq_nil hn hh hrep hdo
      exact h.deletes (fun p => mem_of_mem_deleteInterfaces) id ⟨hpi, fun _ _ _ => .inl hni⟩
    · exact h.deletes (fun p => mem_of_mem_deleteInterfaces) id ⟨hpi, fun e' _ => hsa e'⟩
  | false =>
    rw [if_neg Bool.false_ne_true]
    obtain ⟨o, ho, hd⟩ := ha hte
    have had : Adding w.sfc := by rw [hsf]; exact hte
    refine ⟨h.names, fun hno => absurd (ho.symm.trans hno) (by simp), ?_, ?_, ?_, hpi, ?_⟩
    · intro o' ho' hf p hp
      cases ho.symm.trans ho'
      rcases belongs_of_mem_addInterfaces hp with hp | hp
      · exact h.ports o ho hf p hp
      · exact hp.congr ((h.names o ho).trans hn.symm) hd
    · exact fun o' ho' ht hr => absurd had (h.released o' ho' ht hr).2
    · exact h.pass.mono rfl fun _ ha _ => absurd had ha
    · intro e' hterm' hre
      obtain ⟨s, hs, hob, _⟩ := isEntryResourceReleased_iff.mp hre
      cases hs
      cases hob
      rw [hte] at hterm'
      exact absurd hterm' Bool.false_ne_true

theorem Inv.sfcAct (h : Inv w) (hok : w.allowed (.sfcAct a) = true) (hst : w.sfcAct a = some w') :
    Inv w' := by
  have hinv := h.sfc
  unfold World.sfcAct at hst
  unfold World.allowed at hok
  cases hs : w.sfc with
  | none => simp [hs] at hst
  | some c =>
    rw [hs] at hinv
    cases c with
    | act e status =>
      cases e with
      | none =>
        simp only [hs] at hst
        cases hst
        refine h.sfcGoes _ (fun ha => ha.elim) (fun ha => ha.elim) ⟨hinv.1, fun e _ hr => ?_⟩
        exact absurd hr (by simp [isEntryResourceReleased])
      | some e =>
        simp only [hs] at hst hok
        cases hst
        exact h.sfcActEntry hs hok
    | release e =>
      cases e with
      | none =>
        simp only [hs] at hst
        cases hst
        exact h.sfcGoes _ (fun ha => ha.elim) (fun ha => ha.elim) hinv
      | some e =>
        simp only [hs] at hst hok
        cases hst
        split_ifs with hd
        · exact h.deletes (fun p => mem_of_mem_deleteInterfaces) id
            (h.deleteInterfaces_eq_nil hinv.1 hinv.2 hok hd)
        · exact h.deletes (fun p => mem_of_mem_deleteInterfaces) id trivial
    | addFinalizer | write | unfinalize => simp [hs] at hst

theorem Inv.sfcWrite (h : Inv w) (hst : w.sfcWrite = some w') : Inv w' := by
  have hinv := h.sfc
  unfold World.sfcWrite at hst
  cases hs : w.sfc with
  | none => simp [hs] at hst
  | some c =>
    rw [hs] at hinv
    cases c with simp only [hs] at hst
    | addFinalizer =>
      cases hst
      have hk : Inv { w with nsi := w.nsi.map fun n => { n with finalizer := true } } := by
        refine h.keepEntry ?_ (.inl ?_) ?_
        · cases hn : w.nsi <;> simp [World.entry, hn]
        · cases hn : w.nsi <;> simp [World.status, hn]
        · rintro ⟨n, hn, _⟩
          rw [hn]
          exact ⟨(status_of_nsi hn).symm, _, rfl, rfl⟩
      exact hk.sfcStop
    | write status =>
      cases hst
      obtain ⟨⟨n, hn, hf⟩, hre⟩ := hinv
      rw [hn, map_some]
      have hen := entry_of_nsi hn
      refine ⟨fun o ho => h.names o (hen.trans ho), fun ho => h.entryless (hen.trans ho),
        fun o ho => h.ports o (hen.trans ho), ?_, ?_, trivial⟩
      · intro o ho ht hr
        refine ⟨?_, id⟩
        rcases hre o ht hr with hni | hold
        · exact hni
        · exact (h.released o (hen.trans ho) ht hold).1
      · exact h.pass.mono rfl fun hh _ hte =>
          ⟨hh, id, fun o ho => hte o (hen.trans ho)⟩
    | unfinalize =>
      cases hst
      have hh : w.held = [] := hinv
      have hen : ∀ o, (w.nsi.bind fun n =>
          if n.deleting then none else some { n with finalizer := false }).bind NSI.entry = some o →
          w.entry = some o := by
        intro o ho
        obtain ⟨n, hn, he⟩ := bind_eq_some_iff.mp ho
        obtain ⟨n', hn', hif⟩ := bind_eq_some_iff.mp hn
        split_ifs at hif
        cases hif
        exact (entry_of_nsi hn').trans he
      refine ⟨fun o ho => h.names o (hen o ho), fun _ => hh, ?_, fun _ _ _ _ => ⟨hh, id⟩, ?_,
        trivial⟩
      · intro o ho hfi p hp
        exact absurd (hh ▸ hp) not_mem_nil
      · exact h.pass.mono rfl fun _ _ hte => ⟨hh, id, fun o ho => hte o (hen o ho)⟩
    | act | release => simp at hst

theorem Inv.step (h : Inv w) {e : Event} (hok : w.allowed e = true) (hs : Step w e w') :
    Inv w' := by
  cases e with simp only [Step, World.exec] at hs
  | editSet set =>
    cases hs
    exact ⟨h.names, h.entryless, h.ports, h.released, h.pass, h.sfc⟩
  | passRead =>
    split at hs
    · cases hs
    · cases hs
      exact h.passRead
  | passApply =>
    split at hs
    · cases hs
      exact h.passStop
    · rename_i e hp
      cases hs
      exact h.passApply hp hok
    · rename_i hp
      cases hs
      exact h.passRemove hp
    · cases hs
  | passStop =>
    cases hs
    exact h.passStop
  | deleteEmpty =>
    split at hs
    · rename_i n hn
      by_cases hc : (n.entry.isNone && !n.others && !n.deleting) = true
      · rw [if_pos hc] at hs
        cases hs
        simp only [Bool.and_eq_true, isNone_iff_eq_none] at hc
        exact h.deleteEmpty hn hc.1.1
      · rw [if_neg hc] at hs
        cases hs
    · cases hs
  | otherSets present => exact h.otherSets hs
  | sfcRead =>
    split at hs
    · cases hs
    · cases hs
      exact h.sfcRead rfl
  | sfcAct a => exact h.sfcAct hok hs
  | sfcWrite => exact h.sfcWrite hs
  | sfcStop =>
    cases hs
    exact h.sfcStop

/-- A pass takes the entry away only by `removeEntryFromNSI`. -/
theorem pass_eq_remove {o : InterfaceEntry} (hs : Step w .passApply w') (ho : w.entry = some o)
    (hg : w'.entry = none) : w.pass = some .remove := by
  simp only [Step, World.exec] at hs
  split at hs
  · cases hs
    exact absurd (ho.symm.trans hg) (by simp)
  · cases hs
    rw [entry_of_nsi (w := { w with nsi := _, pass := none }) rfl] at hg
    cases hn : w.nsi <;> simp [applyNSIEntry, hn] at hg
  · assumption
  · cases hs

/-- In every run whose steps meet the condition, an entry is removed only when every port that was
added for it has been deleted since. -/
theorem removed_entry_holds_no_port {o : InterfaceEntry}
    (h : Reachable Init (Restrict (fun w e => w.allowed e = true) Step) w)
    (hstep : Step w .passApply w') (ho : w.entry = some o) (hgone : w'.entry = none) :
    w.held = [] := by
  have hinv : Inv w :=
    h.invariant (fun _ h => h.inv) fun _ _ _ _ hinv hs => hinv.step hs.1 hs.2
  have hp := hinv.pass
  rw [pass_eq_remove hstep ho hgone] at hp
  exact hp.1

def physicalTemplate (interfaceName : String) : Template := ⟨[], false, .physical interfaceName⟩

def selecting (interfaceName : String) : SetView := ⟨physicalTemplate interfaceName, true, false⟩

def deselecting (interfaceName : String) : SetView := ⟨physicalTemplate interfaceName, false, false⟩

/-- A set that selects the node and asks for the interface `p0`. -/
def selectedWorld : World := ⟨"default/uplink", selecting "p0", none, none, none, []⟩

theorem selectedWorld_init : Init selectedWorld := ⟨rfl, rfl, rfl, rfl⟩

def passEvents : List Event := [.passRead, .passApply]

/-- A reconcile of the sfc-controller in which every call goes through. -/
def sfcEvents : List Event := [.sfcRead, .sfcAct ⟨none, none, 1, true⟩, .sfcWrite]

/-- The entry is written, the sfc-controller adds its finalizer and then the port. -/
def addEvents : List Event := passEvents ++ [.sfcRead, .sfcWrite] ++ sfcEvents

/-- What matters when the entry is about to be removed: that it is there, that the next write takes
it away, and whether ports are held for it. -/
def removalOf (w : World) : Bool × Bool × List Port :=
  (w.entry.isSome, w.pass = some .remove, w.held)

theorem removalOf_eq {w : World} {ports : List Port} (h : removalOf w = (true, true, ports)) :
    ∃ o w', w.entry = some o ∧ Step w .passApply w' ∧ w'.entry = none ∧ w.held = ports := by
  simp only [removalOf, Prod.mk.injEq, decide_eq_true_eq] at h
  obtain ⟨he, hp, hh⟩ := h
  obtain ⟨o, ho⟩ := isSome_iff_exists.mp he
  refine ⟨o, { w with nsi := some (applyNSIEntry w.nsi none), pass := none }, ho, ?_, ?_, hh⟩
  · simp [Step, World.exec, hp]
  · cases hn : w.nsi <;> simp [World.entry, applyNSIEntry]

/-- The node is deselected and the template is edited before the next pass. The terminating entry
names `p1`, which the sfc-controller deletes; the entry is removed and `p0` stays on the bridge. -/
theorem edited_template_leaves_port :
    ∃ w o w', Reachable Init Step w ∧ Step w .passApply w' ∧ w.entry = some o ∧ w'.entry = none ∧
      w.held = [⟨"br-sfc", "p0"⟩] := by
  obtain ⟨w, hr, hw⟩ :=
    Reachable.exists_of_run selectedWorld_init World.exec
      (addEvents ++ [.editSet (deselecting "p1")] ++ passEvents ++ sfcEvents ++ [.passRead])
      removalOf (true, true, [⟨"br-sfc", "p0"⟩]) (by decide +kernel)
  obtain ⟨o, w', ho, hs, hg, hh⟩ := removalOf_eq hw
  exact ⟨w, o, w', hr, hs, ho, hg, hh⟩

/-- The template never changes, but the same terminating entry is written twice: the status of the
first release is taken for the second one, while the sfc-controller has added `p0` in between and
has not written its status yet. -/
theorem stale_release_leaves_port :
    ∃ w o w', Reachable Init Step w ∧ Step w .passApply w' ∧ w.entry = some o ∧ w'.entry = none ∧
      w.held = [⟨"br-sfc", "p0"⟩] := by
  obtain ⟨w, hr, hw⟩ :=
    Reachable.exists_of_run selectedWorld_init World.exec
      (addEvents ++ [.editSet (deselecting "p0")] ++ passEvents ++ sfcEvents ++
        [.editSet (selecting "p0")] ++ passEvents ++ [.sfcRead, .sfcAct ⟨none, none, 1, true⟩] ++
        [.editSet (deselecting "p0")] ++ passEvents ++ [.passRead]) removalOf
      (true, true, [⟨"br-sfc", "p0"⟩]) (by decide +kernel)
  obtain ⟨o, w', ho, hs, hg, hh⟩ := removalOf_eq hw
  exact ⟨w, o, w', hr, hs, ho, hg, hh⟩

/-- Without an edit the port is deleted before the entry is removed. -/
theorem deselected_entry_holds_no_port :
    ∃ w o w', Reachable Init (Restrict (fun w e => w.allowed e = true) Step) w ∧
      Step w .passApply w' ∧ w.entry = some o ∧ w'.entry = none ∧ w.held = [] := by
  obtain ⟨w, hr, hw⟩ :=
    Reachable.exists_of_runIf selectedWorld_init World.allowed World.exec
      (addEvents ++ [.editSet (deselecting "p0")] ++ passEvents ++ sfcEvents ++ [.passRead])
      removalOf (true, true, []) (by decide +kernel)
  obtain ⟨o, w', ho, hs, hg, _⟩ := removalOf_eq hw
  exact ⟨w, o, w', hr, hs, ho, hg, removed_entry_holds_no_port hr hs ho hg⟩

end DocaPlatform.InterfaceDrain
