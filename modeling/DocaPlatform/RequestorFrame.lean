import DocaPlatform.RequestorLedger
import Mathlib.Data.String.Basic

/-!
# What an update of the additional requestors leaves alone

One flat list holds the names of the DPUs and the service requestors of all of them. The update of
one DPU takes its last applied names out and puts its new ones in front: right as long as no other
DPU of the node has a claim on what it takes out, and nobody put in before what it puts in.
-/
namespace DocaPlatform.RequestorFrame

open NodeMaintenance RequestorLedger Runs List

/-- `UpdateDPUNodeMaintenanceRequestors` on the stored object. Without the annotation of the DPU it
waits for the node effect. -/
def updated (name : Name) (expectedRequestors : List Name) (o : DPUNodeMaintenance) :
    DPUNodeMaintenance :=
  ((o.lastApplied name).bind fun last => updateRequestors name expectedRequestors last o).getD o

/-- `NodeEffect` of a DPU that finds the object: it is added unless it is a requestor already. -/
def joinObject (name : Name) (r : Request) (o : DPUNodeMaintenance) : DPUNodeMaintenance :=
  if isDPUInRequestor o name then o else addRequestorAndUpdateForce name r o

structure World where
  dpus : List Name
  object : Option DPUNodeMaintenance
  /-- The DPUs that joined the object and did not leave it since. -/
  joined : List Name

inductive Event where
  | join (name : Name) (request : Request)
  /-- A reconcile of the DPU, with the additional requestors that its spec has now. -/
  | update (name : Name) (expectedRequestors : List Name)
  /-- `RemoveRequestorFromDPUNodeMaintenance`. -/
  | leave (name : Name)
  /-- A service or chain is ready: its requestor is dropped. -/
  | ready (requestor : Name)
  /-- Others write the object, except for the list. -/
  | touch (finalizer deleting nodeEffectApplied : Bool) (force : Option Bool)
  /-- The object is gone. -/
  | erase

def World.exec (w : World) : Event → Option World
  | .join name request =>
    if name ∉ w.dpus then none
    else
      match w.object with
      | none => some { w with object := createDPUNodeMaintenance name request, joined := [name] }
      | some o =>
        if o.deleting then some w
        else some { w with object := joinObject name request o, joined := name :: w.joined }
  | .update name expectedRequestors =>
    if name ∉ w.dpus then none
    else some { w with object := w.object.map (updated name expectedRequestors) }
  | .leave name =>
    if name ∉ w.dpus then none
    else
      some { w with
        object := w.object.map fun o => (removeRequestor name o).getD o
        joined := w.joined.filter (· != name) }
  | .ready requestor => some { w with object := w.object.map (dropRequestor requestor) }
  | .touch finalizer deleting nodeEffectApplied force =>
    some { w with
      object := w.object.map fun o => { o with
        finalizer := finalizer, deleting := deleting, nodeEffectApplied := nodeEffectApplied
        force := force } }
  | .erase => some { w with object := none, joined := [] }

/-! ## The frame of an update -/

/-- Nobody but the DPU `name` has a claim on `x`. -/
def Own (w : World) (o : DPUNodeMaintenance) (name x : Name) : Prop :=
  x ∉ w.dpus ∧ ∀ m ∈ w.joined, m ≠ name → ∀ last, o.lastApplied m = some last → x ∉ last

/-- The update takes out only names that the DPU applied last, does not want any more and nobody
else has a claim on, and no name is twice in the list after it. -/
structure Framed (w : World) (o : DPUNodeMaintenance) (name : Name) (expected : List Name) :
    Prop where
  removed : ∀ x ∈ o.requestor, x ∉ (updated name expected o).requestor →
    (∃ last, o.lastApplied name = some last ∧ x ∈ last) ∧ x ∉ expected ∧ Own w o name x
  nodup : (updated name expected o).requestor.Nodup

/-- What the update finds: the DPU alone has a claim on what it drops, its new names are not in the
list already, and no name is repeated. -/
structure Clear (w : World) (o : DPUNodeMaintenance) (name : Name) (expected : List Name) :
    Prop where
  dropped : ∀ last, o.lastApplied name = some last → ∀ x ∈ last, x ∈ o.requestor →
    x ∉ expected → Own w o name x
  /-- Nothing to update. -/
  steady : (∀ last, o.lastApplied name = some last → last.Perm expected) → o.requestor.Nodup
  changed : ∀ last, o.lastApplied name = some last → ¬ last.Perm expected →
    expected.Nodup ∧ (∀ x ∈ expected, x ∈ o.requestor → x ∈ last) ∧
      ∀ x, x ∉ last → o.requestor.count x ≤ 1

section Frame

variable {w : World} {o : DPUNodeMaintenance} {name x : Name} {expected last : List Name}

theorem sortStrings_eq_iff {a b : List Name} : sortStrings a = sortStrings b ↔ a.Perm b := by
  have ha : (sortStrings a).Perm a := perm_insertionSort _ a
  have hb : (sortStrings b).Perm b := perm_insertionSort _ b
  constructor
  · intro h
    rw [h] at ha
    exact ha.symm.trans hb
  · intro h
    exact (ha.trans (h.trans hb.symm)).eq_of_sortedLE sortedLE_insertionSort
      sortedLE_insertionSort

theorem updated_of_none (h : o.lastApplied name = none) : updated name expected o = o := by
  simp [updated, h]

theorem updated_of_perm (h : o.lastApplied name = some last) (hp : last.Perm expected) :
    updated name expected o = o := by
  simp [updated, h, updateRequestors, sortStrings_eq_iff.mpr hp]

theorem requestor_updated (h : o.lastApplied name = some last) (hp : ¬ last.Perm expected) :
    (updated name expected o).requestor =
      sortStrings expected ++ findOutDPURequestors (sortStrings last) o.requestor := by
  simp [updated, h, updateRequestors, mt sortStrings_eq_iff.mp hp]

theorem nodup_findOutDPURequestors {current : List Name} :
    (findOutDPURequestors (sortStrings last) current).Nodup ↔
      ∀ x, x ∉ last → current.count x ≤ 1 := by
  rw [nodup_iff_count_le_one]
  refine forall_congr' fun x => ?_
  by_cases hx : x ∈ last
  · have hn : x ∉ findOutDPURequestors (sortStrings last) current := by
      simp [findOutDPURequestors, hx]
    simp [hx, count_eq_zero_of_not_mem hn]
  · have hc : (findOutDPURequestors (sortStrings last) current).count x = current.count x :=
      count_filter (by simp [hx])
    simp [hx, hc]

theorem nodup_updated (h : o.lastApplied name = some last) (hp : ¬ last.Perm expected) :
    (updated name expected o).requestor.Nodup ↔
      expected.Nodup ∧ (∀ x ∈ expected, x ∈ o.requestor → x ∈ last) ∧
        ∀ x, x ∉ last → o.requestor.count x ≤ 1 := by
  have hs : (sortStrings expected).Nodup ↔ expected.Nodup :=
    (perm_insertionSort _ expected).nodup_iff
  rw [requestor_updated h hp, nodup_append, hs, nodup_findOutDPURequestors]
  have hd : (∀ a ∈ sortStrings expected,
      ∀ b ∈ findOutDPURequestors (sortStrings last) o.requestor, a ≠ b) ↔
      ∀ x ∈ expected, x ∈ o.requestor → x ∈ last := by
    simp only [mem_sortStrings, findOutDPURequestors, mem_filter]
    constructor
    · intro h x hx hmem
      by_contra hl
      exact h x hx x ⟨hmem, by simp [hl]⟩ rfl
    · rintro h a ha b ⟨hb, hl⟩ rfl
      simp [h a ha hb] at hl
  rw [hd]
  exact and_congr_right fun _ => and_comm

/-- What a changing update takes out. -/
theorem not_mem_updated_iff (h : o.lastApplied name = some last) (hp : ¬ last.Perm expected)
    (hx : x ∈ o.requestor) : x ∉ (updated name expected o).requestor ↔ x ∈ last ∧ x ∉ expected := by
  rw [requestor_updated h hp]
  simp [findOutDPURequestors, hx, and_comm]

theorem framed_iff_of_eq (h : updated name expected o = o)
    (hs : ∀ last, o.lastApplied name = some last → last.Perm expected) :
    Framed w o name expected ↔ Clear w o name expected := by
  constructor
  · intro hf
    refine ⟨fun last hl x hx _ hn => ?_, fun _ => h ▸ hf.nodup, fun last hl hp => ?_⟩
    · exact absurd ((hs last hl).mem_iff.mp hx) hn
    · exact absurd (hs last hl) hp
  · intro hc
    refine ⟨fun x hx hn => ?_, ?_⟩
    · rw [h] at hn
      exact absurd hx hn
    · rw [h]
      exact hc.steady hs

theorem framed_iff : Framed w o name expected ↔ Clear w o name expected := by
  cases hl : o.lastApplied name with
  | none =>
    refine framed_iff_of_eq (updated_of_none hl) fun last h => ?_
    cases hl.symm.trans h
  | some last =>
    by_cases hp : last.Perm expected
    · refine framed_iff_of_eq (updated_of_perm hl hp) fun last' h => ?_
      cases hl.symm.trans h
      exact hp
    · constructor
      · intro hf
        refine ⟨fun last' h x hx hmem hn => ?_, fun hs => ?_, fun last' h _ => ?_⟩
        · cases hl.symm.trans h
          exact (hf.removed x hmem ((not_mem_updated_iff hl hp hmem).mpr ⟨hx, hn⟩)).2.2
        · exact absurd (hs last hl) hp
        · cases hl.symm.trans h
          exact (nodup_updated hl hp).mp hf.nodup
      · intro hc
        refine ⟨fun x hmem hr => ?_, (nodup_updated hl hp).mpr (hc.changed last hl hp)⟩
        obtain ⟨hx, hn⟩ := (not_mem_updated_iff hl hp hmem).mp hr
        exact ⟨⟨last, hl, hx⟩, hn, hc.dropped last hl x hx hmem hn⟩

end Frame

/-- A property of every update of a stored object. -/
def OnUpdates (P : World → DPUNodeMaintenance → Name → List Name → Prop) (w : World) :
    Event → Prop
  | .update name expected => ∀ o, w.object = some o → P w o name expected
  | _ => True

/-- Along every sequence of joins, updates and leaves, the updates have their frame exactly if each
of them finds the names clear. -/
theorem updates_framed_iff_clear (w : World) (events : List Event) :
    Along (OnUpdates Framed) World.exec w events ↔ Along (OnUpdates Clear) World.exec w events := by
  refine along_congr (fun w e => ?_) w events
  cases e with
  | update name expected => exact forall_congr' fun o => imp_congr_right fun _ => framed_iff
  | join | leave | ready | touch | erase => exact Iff.rfl

def twoDPUs : World := ⟨["dpu-a", "dpu-b"], none, []⟩

/-- Both DPUs ask for the same service; the first one then asks for nothing, and the requestor that
the second one still has in its list is gone. -/
theorem shared_requestor_removed : ¬ Along (OnUpdates Framed) World.exec twoDPUs
    [.join "dpu-a" ⟨["svc"], false⟩, .join "dpu-b" ⟨["svc"], false⟩, .update "dpu-a" []] := by
  intro h
  have hf := ((h.2 _ rfl).2 _ rfl).1 _ rfl
  have hr := hf.removed "svc" (by decide +kernel) (by decide +kernel)
  exact hr.2.2.2 "dpu-b" (by decide +kernel) (by decide) ["svc"] (by decide +kernel) (by simp)

end DocaPlatform.RequestorFrame
