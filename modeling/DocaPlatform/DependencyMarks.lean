import DocaPlatform.ObjectStore
import DocaPlatform.Runs

/-!
# Dependency marks

A DPUDeployment marks the objects it depends on with a label of its own and with the
`DPUDeploymentFinalizer`, and unmarks what it no longer needs; the finalizer goes with the last
such label. Any number of DPUDeployments do so at the same time, on reads that may be stale.
-/
namespace DocaPlatform.DependencyMarks
open Runs ObjectStore Function List Option

/-- The kinds of dependencies, in the order in which they are listed. -/
inductive Kind where
  | dpuServiceConfiguration | dpuServiceTemplate | bfb | blueFieldSoftware | dpuFlavor
  | dpuFlavorTemplate
  deriving DecidableEq

def Kind.all : List Kind :=
  [.dpuServiceConfiguration, .dpuServiceTemplate, .bfb, .blueFieldSoftware, .dpuFlavor,
    .dpuFlavorTemplate]

abbrev Key := Kind × String

/-- Its dependent label key stands for a DPUDeployment. -/
abbrev Deployment := String

/-- What marking reads and writes of an object: whether it has the `DPUDeploymentFinalizer`, and
its dependent labels. -/
structure Object where
  finalizer : Bool
  labels : List Deployment
  deriving DecidableEq

/-- The patch, if there is one. -/
def markDependency (d : Deployment) (o : Object) : Option Object :=
  if o.finalizer ∧ d ∈ o.labels then none else some ⟨true, o.labels.insert d⟩

def unmarkDependency (d : Deployment) (o : Object) : Option Object :=
  if d ∉ o.labels ∧ !o.finalizer then none
  else
    let labels := o.labels.filter (· ≠ d)
    some ⟨o.finalizer && !labels.isEmpty, labels⟩

/-- What `getDependencies` returns, where `service` is `spec.deploymentServiceName` of the objects:
a map from services to objects is the list of its keys with the names of the objects. -/
structure Dependencies (service : Key → String) where
  bfb : Option String := none
  blueFieldSoftware : Option String := none
  dpuFlavorTemplate : Option String := none
  dpuFlavor : Option String := none
  services : List String := []
  dpuServiceTemplates : String → String := id
  dpuServiceConfigurations : String → String := id
  flavor : dpuFlavorTemplate = none ∨ dpuFlavor = none := by simp
  template : ∀ s ∈ services, service (.dpuServiceTemplate, dpuServiceTemplates s) = s := by simp
  configuration : ∀ s ∈ services,
    service (.dpuServiceConfiguration, dpuServiceConfigurations s) = s := by simp

variable {service : Key → String}

/-- The objects that are marked, in this order. -/
def Dependencies.markAllCurrentDependencies (deps : Dependencies service) : List Key :=
  (deps.bfb.map (Kind.bfb, ·)).toList ++
  (deps.blueFieldSoftware.map (Kind.blueFieldSoftware, ·)).toList ++
  (match deps.dpuFlavorTemplate with
    | some name => [(.dpuFlavorTemplate, name)]
    | none => (deps.dpuFlavor.map (Kind.dpuFlavor, ·)).toList) ++
  deps.services.map (fun s => (.dpuServiceConfiguration, deps.dpuServiceConfigurations s)) ++
  deps.services.map fun s => (.dpuServiceTemplate, deps.dpuServiceTemplates s)

/-- The listed objects that `cleanAllStaleDependencies` skips. -/
def Dependencies.isCurrent (deps : Dependencies service) (k : Key) : Bool :=
  match k.1 with
  | .dpuServiceConfiguration =>
    service k ∈ deps.services && deps.dpuServiceConfigurations (service k) = k.2
  | .dpuServiceTemplate => service k ∈ deps.services && deps.dpuServiceTemplates (service k) = k.2
  | .bfb => deps.bfb = some k.2
  | .blueFieldSoftware => deps.blueFieldSoftware = some k.2
  | .dpuFlavor => deps.dpuFlavor = some k.2
  | .dpuFlavorTemplate => deps.dpuFlavorTemplate = some k.2

theorem Dependencies.isCurrent_iff (deps : Dependencies service) (k : Key) :
    deps.isCurrent k = true ↔ k ∈ deps.markAllCurrentDependencies := by
  obtain ⟨kind, name⟩ := k
  have hf := deps.flavor
  have hc := deps.configuration
  have ht := deps.template
  cases hn : deps.dpuFlavorTemplate <;> cases kind <;>
    simp_all [isCurrent, markAllCurrentDependencies] <;> grind

/-- A read of a call: `getDependencies` gets an object to mark, the cleanup lists a kind. -/
inductive Read where
  | get (k : Key)
  | list (kind : Kind)

def Read.isGet : Read → Bool
  | .get _ => true
  | .list _ => false

/-- A call of `updateDependencies` or `releaseAllDependencies`: the reads to come, and the copies
still to be marked or unmarked. -/
structure Pass (service : Key → String) where
  deps : Dependencies service
  reads : List Read
  todo : List (Bool × Key × Version Object)
  /-- Every read so far returned what was stored. -/
  fresh : Bool

structure World (service : Key → String) where
  keys : List Key
  stored : Key → Version Object
  pass : Deployment → Option (Pass service)

namespace World

variable (w : World service) (d : Deployment)

def setPass (p : Option (Pass service)) : World service := { w with pass := update w.pass d p }

def put (k : Key) (o : Object) : World service :=
  { w with stored := update w.stored k ⟨(w.stored k).resourceVersion + 1, o⟩ }

/-- The optimistic lock: a patch of a copy that is not the stored version fails, which ends the
call. -/
def patch (k : Key) (copy : Version Object) (p : Pass service) : Option Object → World service
  | none => w.setPass d (some p)
  | some o =>
    if copy.resourceVersion = (w.stored k).resourceVersion then (w.put k o).setPass d (some p)
    else w.setPass d none

def returned : Read → List Key
  | .get k => [k]
  | .list kind => w.keys.filter (·.1 = kind)

end World

/-- A step of a DPUDeployment: a call begins, without any dependency that of
`releaseAllDependencies`; it reads what is stored or anything older; or it patches, in any order, as
the services are in no fixed one. Any step may fail. -/
inductive Event (service : Key → String) where
  | start (deps : Dependencies service) (order : List Key)
  | read (stale : Key → Option (Version Object))
  | write (i : ℕ)
  | fail

def World.exec (w : World service) : Deployment × Event service → Option (World service)
  | (d, .start deps order) =>
    if order.Perm deps.markAllCurrentDependencies ∧ ∀ k ∈ order, k ∈ w.keys then
      some (w.setPass d (some ⟨deps, order.map .get ++ Kind.all.map .list, [], true⟩))
    else none
  | (d, .read stale) => do
    let p ← w.pass d
    match p.reads with
    | [] => none
    | r :: reads =>
      let keys := w.returned r
      let copy (k : Key) := (stale k).getD (w.stored k)
      -- the current dependencies in a list are skipped
      let calls := keys.filter fun k =>
        r.isGet || (d ∈ (copy k).content.labels && !p.deps.isCurrent k)
      if (r.isGet ∨ p.todo = []) ∧ ∀ k ∈ keys, ∀ c ∈ stale k,
          c.resourceVersion < (w.stored k).resourceVersion then
        some (w.setPass d (some { p with
          reads
          todo := p.todo ++ calls.map fun k => (r.isGet, k, copy k)
          fresh := p.fresh && keys.all fun k => (stale k).isNone }))
      else none
  | (d, .write i) => do
    let p ← w.pass d
    let (mark, k, copy) ← p.todo[i]?
    let patch := if mark then markDependency else unmarkDependency
    w.patch d k copy { p with todo := p.todo.eraseIdx i } (patch d copy.content)
  | (d, .fail) => w.setPass d none

def Finalized (o : Object) : Prop := o.labels ≠ [] → o.finalizer = true

def Init (w : World service) : Prop :=
  (∀ k, Finalized (w.stored k).content) ∧ ∀ d, w.pass d = none

section Call

variable (keys : List Key) (d : Deployment) (deps : Dependencies service) (p : Pass service)
  (k : Key) (x : Version Object)

/-- The DPUDeployment's label is on the object exactly if it is a current dependency. -/
def Settled (x : Version Object) : Prop := d ∈ x.content.labels ↔ deps.isCurrent k = true

/-- The read that finds out about the object. -/
def Dependencies.source : Read := if deps.isCurrent k then .get k else .list k.1

/-- What holds of a call and an object. With current reads, the object is as it should be, or it is
still to be handled; a copy that is as it should be tells so of the object. -/
structure Sound : Prop where
  there : p.deps.isCurrent k = true → k ∈ keys
  gets : .get k ∈ p.reads → p.deps.isCurrent k = true
  todo : ∀ mark c, (mark, k, c) ∈ p.todo → p.deps.isCurrent k = mark ∧
    (c = x ∨ c.resourceVersion < x.resourceVersion) ∧
    (p.fresh = true → Settled d p.deps k c → Settled d p.deps k x)
  handled : p.fresh = true → k ∈ keys → Settled d p.deps k x ∨
    (∃ mark c, (mark, k, c) ∈ p.todo) ∨ p.deps.source k ∈ p.reads

end Call

structure Inv (w : World service) : Prop where
  finalized : ∀ k, Finalized (w.stored k).content
  sound : ∀ d p, w.pass d = some p → ∀ k, Sound w.keys d p k (w.stored k)

/-- No label but those of `d` is written. -/
def Keeps (d : Deployment) (w w' : World service) : Prop :=
  ∀ d' ≠ d, ∀ k, d' ∈ (w'.stored k).content.labels ↔ d' ∈ (w.stored k).content.labels

variable {keys : List Key} {d : Deployment} {p : Pass service} {k : Key} {x : Version Object}
  {o o' : Object} {w w' : World service}

theorem Sound.put (h : Sound keys d p k x)
    (ho : Settled d p.deps k x → Settled d p.deps k ⟨x.resourceVersion + 1, o⟩) :
    Sound keys d p k ⟨x.resourceVersion + 1, o⟩ where
  there := h.there
  gets := h.gets
  todo mark c hc := by
    obtain ⟨hm, hl, hf⟩ := h.todo mark c hc
    refine ⟨hm, .inr ?_, fun hfr hs => ho (hf hfr hs)⟩
    rcases hl with rfl | hl
    · exact Nat.lt_succ_self _
    · exact hl.trans (Nat.lt_succ_self _)
  handled hf hk := (h.handled hf hk).imp_left ho

/-- What a patch makes of a copy. -/
structure Edits (d : Deployment) (mark : Bool) (o o' : Object) : Prop where
  finalized : Finalized o'
  own : d ∈ o'.labels ↔ mark = true
  others : ∀ d' ≠ d, (d' ∈ o'.labels ↔ d' ∈ o.labels)

theorem markDependency_edits (h : markDependency d o = some o') : Edits d true o o' := by
  unfold markDependency at h
  split_ifs at h
  cases h
  exact ⟨fun _ => rfl, by simp, fun d' hd => by simp [hd]⟩

theorem unmarkDependency_edits (hf : Finalized o) (h : unmarkDependency d o = some o') :
    Edits d false o o' := by
  unfold unmarkDependency at h
  split_ifs at h
  cases h
  refine ⟨fun hl => ?_, by simp, fun d' hd => by simp [hd]⟩
  have hn : o.labels ≠ [] := fun hn => hl (by simp [hn])
  simpa [hf hn, List.isEmpty_iff] using hl

theorem Inv.setPass (h : Inv w) {q : Option (Pass service)}
    (hq : ∀ p, q = some p → ∀ k, Sound w.keys d p k (w.stored k)) :
    Inv (w.setPass d q) ∧ Keeps d w (w.setPass d q) := by
  refine ⟨⟨h.finalized, ?_⟩, fun _ _ _ => Iff.rfl⟩
  exact (forall_update_iff w.pass fun d q => ∀ p, q = some p →
    ∀ k, Sound w.keys d p k (w.stored k)).mpr ⟨hq, fun d' _ => h.sound d'⟩

theorem Inv.start (h : Inv w) {deps : Dependencies service} {order : List Key}
    (hs : w.exec (d, .start deps order) = some w') : Inv w' ∧ Keeps d w w' := by
  simp only [World.exec] at hs
  split_ifs at hs with hk
  cases hs
  refine h.setPass ?_
  rintro _ ⟨⟩ k
  have hc := (deps.isCurrent_iff k).trans hk.1.mem_iff.symm
  refine ⟨fun h => hk.2 k (hc.mp h), fun hg => hc.mpr (by simpa using hg), nofun,
    fun _ _ => .inr (.inr ?_)⟩
  unfold Dependencies.source
  split_ifs with h
  · exact mem_append_left _ (mem_map_of_mem (hc.mp h))
  · exact mem_append_right _ (mem_map_of_mem (by cases k.1 <;> decide))

/-- What a read returns is to be handled, or it is as it should be already. -/
theorem Inv.read (h : Inv w) {stale : Key → Option (Version Object)}
    (hs : w.exec (d, .read stale) = some w') : Inv w' ∧ Keeps d w w' := by
  obtain ⟨p, hp, hs⟩ := Option.bind_eq_some_iff.mp hs
  split at hs
  · cases hs
  rename_i r reads hr
  simp only at hs
  split_ifs at hs with hv
  cases hs
  refine h.setPass ?_
  rintro _ ⟨⟩ k
  have hx := h.sound d p hp k
  -- a current read returns what is stored
  have hcur : (p.fresh && (w.returned r).all fun k => (stale k).isNone) = true →
      k ∈ w.returned r → (stale k).getD (w.stored k) = w.stored k := by
    intro hf hmem
    have hn := List.all_eq_true.mp (Bool.and_eq_true_iff.mp hf).2 k hmem
    rw [isNone_iff_eq_none.mp hn, getD_none]
  refine ⟨hx.there, fun hg => hx.gets (hr ▸ mem_cons_of_mem r hg), fun mark c hc => ?_,
    fun hf hk => ?_⟩
  · rcases mem_append.mp hc with hc | hc
    · obtain ⟨hm, hl, hf⟩ := hx.todo mark c hc
      exact ⟨hm, hl, fun hfr => hf (Bool.and_eq_true_iff.mp hfr).1⟩
    · obtain ⟨_, hmem, ⟨⟩⟩ := List.mem_map.mp hc
      obtain ⟨hmem, hca⟩ := List.mem_filter.mp hmem
      refine ⟨?_, ?_, fun hf => by rw [hcur hf hmem]; exact id⟩
      · cases r with
        | get k' =>
          cases mem_singleton.mp hmem
          exact hx.gets (hr ▸ mem_cons_self)
        | list kind => simpa [Read.isGet] using (Bool.and_eq_true_iff.mp hca).2
      · cases hst : stale k with
        | none => exact .inl rfl
        | some c => exact .inr (hv.2 k hmem c hst)
  · have hfr := (Bool.and_eq_true_iff.mp hf).1
    rcases hx.handled hfr hk with hn | ⟨mark, c, hc⟩ | hn
    · exact .inl hn
    · exact .inr (.inl ⟨mark, c, mem_append_left _ hc⟩)
    · rcases mem_cons.mp (hr ▸ hn) with rfl | hn
      swap
      · exact .inr (.inr hn)
      have hmem : k ∈ w.returned (p.deps.source k) := by
        unfold Dependencies.source
        split_ifs <;> simp [World.returned, hk]
      by_cases hca : ((p.deps.source k).isGet ||
          (d ∈ ((stale k).getD (w.stored k)).content.labels && !p.deps.isCurrent k)) = true
      · exact .inr (.inl ⟨_, _, mem_append_right _
          (mem_map_of_mem (List.mem_filter.mpr ⟨hmem, hca⟩))⟩)
      · rw [hcur hf hmem, Dependencies.source] at hca
        refine .inl ?_
        split_ifs at hca with hc
        · simp [Read.isGet] at hca
        · simpa [Settled, Read.isGet, hc] using hca

/-- An object that is as it should be needs no call any more. -/
theorem Sound.eraseIdx {mark : Bool} {c : Version Object} {k' : Key} {i : ℕ}
    (h : Sound keys d p k' x) (ht : p.todo[i]? = some (mark, k, c))
    (hs : p.fresh = true → k' = k → Settled d p.deps k' x) :
    Sound keys d { p with todo := p.todo.eraseIdx i } k' x where
  there := h.there
  gets := h.gets
  todo m c' hc := h.todo m c' (mem_of_mem_eraseIdx hc)
  handled hf hk := by
    rcases h.handled hf hk with hn | ⟨m, c', hc⟩ | hn
    · exact .inl hn
    · obtain ⟨j, hj⟩ := mem_iff_getElem?.mp hc
      by_cases hji : j = i
      · rw [hji, ht] at hj
        cases hj
        exact .inl (hs hf rfl)
      · exact .inr (.inl ⟨m, c', mem_eraseIdx_iff_getElem?.mpr ⟨j, hji, hj⟩⟩)
    · exact .inr (.inr hn)

theorem Inv.write {i : ℕ} (h : Inv w) (hs : w.exec (d, .write i) = some w') :
    Inv w' ∧ Keeps d w w' := by
  obtain ⟨p, hp, hs⟩ := Option.bind_eq_some_iff.mp hs
  have hso := h.sound d p hp
  obtain ⟨⟨mark, k, c⟩, ht, hs⟩ := Option.bind_eq_some_iff.mp hs
  obtain ⟨hm, hl, hf⟩ := (hso k).todo mark c (mem_of_getElem? ht)
  cases hs
  cases ho : (if mark then markDependency else unmarkDependency) d c.content with
  | none =>
    refine h.setPass ?_
    rintro _ ⟨⟩ k'
    refine (hso k').eraseIdx ht ?_
    rintro hfr rfl
    refine hf hfr ?_
    -- a copy that needs no patch is as it should be
    unfold Settled
    rw [hm]
    cases mark <;> simp [markDependency, unmarkDependency] at ho <;> simp [ho]
  | some o =>
    unfold World.patch
    dsimp only
    split_ifs with hv
    swap
    · exact h.setPass nofun
    obtain rfl : c = w.stored k := hl.resolve_right hv.not_lt
    have he : Edits d (p.deps.isCurrent k) (w.stored k).content o := by
      rw [hm]
      cases mark with
      | true => exact markDependency_edits ho
      | false => exact unmarkDependency_edits (h.finalized k) ho
    have hput : Inv (w.put k o) := by
      refine ⟨(forall_update_iff w.stored fun _ x => Finalized x.content).mpr
        ⟨he.finalized, fun k' _ => h.finalized k'⟩, fun d' q hq => ?_⟩
      refine (forall_update_iff w.stored fun k x => Sound w.keys d' q k x).mpr
        ⟨(h.sound d' q hq k).put fun hn => ?_, fun k' _ => h.sound d' q hq k'⟩
      by_cases hd : d' = d
      · subst hd
        cases hp.symm.trans hq
        exact he.own
      · exact (he.others d' hd).trans hn
    refine ⟨(hput.setPass ?_).1, fun d' hd => ?_⟩
    · rintro _ ⟨⟩ k'
      refine (hput.sound d p hp k').eraseIdx ht ?_
      rintro - rfl
      simpa [World.put] using show Settled d p.deps k' ⟨_, o⟩ from he.own
    · exact (forall_update_iff w.stored fun k x => d' ∈ x.content.labels ↔
        d' ∈ (w.stored k).content.labels).mpr ⟨he.others d' hd, fun _ _ => Iff.rfl⟩

theorem Inv.exec (h : Inv w) {e : Event service} (hs : w.exec (d, e) = some w') :
    Inv w' ∧ Keeps d w w' := by
  cases e with
  | start deps order => exact h.start hs
  | read stale => exact h.read hs
  | write i => exact h.write hs
  | fail =>
    cases hs
    exact h.setPass nofun

/-- In every state of every run: an object with a dependent label has the finalizer; after a call of
`updateDependencies` that ended without an error and with current reads, the current dependencies
have the label of its DPUDeployment and nothing else has; and no step of a DPUDeployment changes a
label of another one. -/
theorem dependency_marks_count (hr : Reachable Init (fun w l w' => w.exec l = some w') w) :
    (∀ k, (w.stored k).content.labels ≠ [] → (w.stored k).content.finalizer = true) ∧
    (∀ d p, w.pass d = some p → p.reads = [] → p.todo = [] → p.fresh = true → ∀ k,
      k ∈ w.keys ∧ d ∈ (w.stored k).content.labels ↔ k ∈ p.deps.markAllCurrentDependencies) ∧
    ∀ d e w', w.exec (d, e) = some w' → ∀ d' ≠ d, ∀ k,
      d' ∈ (w'.stored k).content.labels ↔ d' ∈ (w.stored k).content.labels := by
  have hinv : Inv w := hr.invariant (fun w hw => ⟨hw.1, fun d p hp => by simp [hw.2] at hp⟩)
    fun w l w' _ h hs => (h.exec hs).1
  refine ⟨hinv.finalized, fun d p hp hre ht hf k => ?_, fun d e w' hs => (hinv.exec hs).2⟩
  have hx := hinv.sound d p hp k
  have hse : k ∈ w.keys → Settled d p.deps k (w.stored k) := by
    simpa [ht, hre] using hx.handled hf
  rw [← p.deps.isCurrent_iff]
  exact ⟨fun h => (hse h.1).mp h.2, fun h => ⟨hx.there h, (hse (hx.there h)).mpr h⟩⟩

/-- The finalizer goes with the last label. -/
def Releasable (o : Object) : Prop := o.finalizer = true → o.labels ≠ []

theorem releasable_of_patch {mark : Bool}
    (h : (if mark then markDependency else unmarkDependency) d o = some o') : Releasable o' := by
  intro hf
  cases mark with
  | true => exact ne_nil_of_mem ((markDependency_edits h).own.mpr rfl)
  | false =>
    simp only [Bool.false_eq_true, if_false, unmarkDependency] at h
    split_ifs at h
    cases h
    simp only [Bool.and_eq_true, Bool.not_eq_true', List.isEmpty_eq_false_iff] at hf
    exact hf.2

theorem releasable_exec {e : Event service} (h : ∀ k, Releasable (w.stored k).content)
    (hs : w.exec (d, e) = some w') : ∀ k, Releasable (w'.stored k).content := by
  cases e with
  | start deps order =>
    simp only [World.exec] at hs
    split_ifs at hs
    cases hs
    exact h
  | read stale =>
    obtain ⟨p, -, hs⟩ := Option.bind_eq_some_iff.mp hs
    split at hs
    · cases hs
    · simp only at hs
      split_ifs at hs
      cases hs
      exact h
  | write i =>
    obtain ⟨p, -, hs⟩ := Option.bind_eq_some_iff.mp hs
    obtain ⟨⟨mark, k, c⟩, -, hs⟩ := Option.bind_eq_some_iff.mp hs
    cases hs
    cases ho : (if mark then markDependency else unmarkDependency) d c.content with
    | none => exact h
    | some o =>
      unfold World.patch
      dsimp only
      split_ifs
      · exact (forall_update_iff w.stored fun _ x => Releasable x.content).mpr
          ⟨releasable_of_patch ho, fun k' _ => h k'⟩
      · exact h
  | fail =>
    cases hs
    exact h

def ReleasableInit (w : World service) : Prop := Init w ∧ ∀ k, Releasable (w.stored k).content

/-- However the calls of the DPUDeployments interleave and fail, no object keeps the finalizer, which
blocks its deletion, without a dependent label: where this holds at first, the objects with the
finalizer are in every state of every run exactly those with such a label. -/
theorem finalizer_iff_labelled
    (hr : Reachable ReleasableInit (fun w l w' => w.exec l = some w') w) (k : Key) :
    (w.stored k).content.finalizer = true ↔ (w.stored k).content.labels ≠ [] := by
  have hinv : Inv w := hr.invariant
    (fun w hw => ⟨hw.1.1, fun d p hp => by simp [hw.1.2] at hp⟩) fun w l w' _ h hs => (h.exec hs).1
  have hrel : ∀ k, Releasable (w.stored k).content := hr.invariant
    (fun w hw => hw.2) fun w l w' _ h hs => releasable_exec h hs
  exact ⟨hrel k, hinv.finalized k⟩

/-! ## Two DPUDeployments with the same BFB -/

def noService (_ : Key) : String := ""

def unmarked : World noService where
  keys := [(.bfb, "bfb"), (.dpuFlavor, "f"), (.dpuFlavor, "g")]
  stored := fun _ => ⟨0, false, []⟩
  pass := fun _ => none

theorem unmarked_init : Init unmarked := ⟨fun _ => absurd rfl, fun _ => rfl⟩

/-- Both mark the BFB and a flavor, then the first one cleans up. -/
def sharedRun : List (Deployment × Event noService) :=
  let current := .read fun _ => none
  let marking (flavor : String) :=
    [.start { bfb := some "bfb", dpuFlavor := some flavor } [(.bfb, "bfb"), (.dpuFlavor, flavor)],
      current, current, .write 0, .write 0]
  (marking "f").map ("a", ·) ++ (marking "g").map ("b", ·) ++ replicate 6 ("a", current)

theorem shared_bfb_marked :
    ∃ (w : World noService) (p : Pass noService),
      Reachable Init (fun w l w' => w.exec l = some w') w ∧ w.pass "a" = some p ∧
      p.reads = [] ∧ p.todo = [] ∧ p.fresh = true ∧
      (w.stored (.bfb, "bfb")).content = ⟨true, ["b", "a"]⟩ ∧ ∀ k,
      k ∈ w.keys ∧ "a" ∈ (w.stored k).content.labels ↔ k ∈ p.deps.markAllCurrentDependencies := by
  obtain ⟨w, hr, ho⟩ := Reachable.exists_of_run unmarked_init World.exec sharedRun
    (fun w => ((w.pass "a").map fun p => (p.reads.isEmpty, p.todo.isEmpty, p.fresh),
      (w.stored (.bfb, "bfb")).content))
    (some (true, true, true), ⟨true, ["b", "a"]⟩) (by decide +kernel)
  obtain ⟨hp, hst⟩ := Prod.mk.inj ho
  obtain ⟨p, hp, heq⟩ := map_eq_some_iff.mp hp
  simp only [Prod.mk.injEq, List.isEmpty_iff] at heq
  obtain ⟨hre, ht, hf⟩ := heq
  exact ⟨w, p, hr, hp, hre, ht, hf, hst, (dependency_marks_count hr).2.1 "a" p hp hre ht hf⟩

theorem shared_bfb_finalized : ∃ w : World noService,
    Reachable ReleasableInit (fun w l w' => w.exec l = some w') w ∧
    (w.stored (.bfb, "bfb")).content.labels = ["b", "a"] ∧ ∀ k,
    (w.stored k).content.finalizer = true ↔ (w.stored k).content.labels ≠ [] := by
  have hi : ReleasableInit unmarked := ⟨unmarked_init, fun _ => nofun⟩
  obtain ⟨w, hr, ho⟩ := Reachable.exists_of_run hi World.exec sharedRun
    (fun w => (w.stored (.bfb, "bfb")).content.labels) ["b", "a"] (by decide +kernel)
  exact ⟨w, hr, ho, finalizer_iff_labelled hr⟩

end DocaPlatform.DependencyMarks
