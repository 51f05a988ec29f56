import Mathlib.Tactic

/-!
# One object under optimistic concurrency

One key of an object store. Every write gives the object a new resource version; a write that
carries the version it was computed from fails with a conflict if the object was written since.
What a client read is related to what is stored now by `Slot.Saw`, which every write keeps.

A client that watches the object sees its versions in their order, but late. `History` keeps all
versions and how far the client has come.
-/
namespace DocaPlatform.ObjectStore

open List

/-- An object as a read returns it. -/
structure Version (α : Type) where
  resourceVersion : ℕ
  content : α

inductive WriteError where
  | notFound
  | alreadyExists
  | conflict
  deriving DecidableEq

/-- One key: the object stored under it, and the last resource version given out. -/
structure Slot (α : Type) where
  stored : Option (Version α)
  revision : ℕ

namespace Slot

variable {α : Type} {s t : Slot α} {v : Version α} {a : α}

def empty : Slot α := ⟨none, 0⟩

def content (s : Slot α) : Option α := s.stored.map Version.content

/-- The object is now `a`, under a new resource version. -/
def put (s : Slot α) (a : α) : Slot α := ⟨some ⟨s.revision + 1, a⟩, s.revision + 1⟩

/-- The object is gone. -/
def erase (s : Slot α) : Slot α := ⟨none, s.revision + 1⟩

def create (s : Slot α) (a : α) : Except WriteError (Slot α) :=
  match s.stored with
  | none => .ok (s.put a)
  | some _ => .error .alreadyExists

/-- A write that carries the resource version of the read it is based on. -/
def replace (s : Slot α) (base : Version α) (a : α) : Except WriteError (Slot α) :=
  match s.stored with
  | none => .error .notFound
  | some v => if v.resourceVersion = base.resourceVersion then .ok (s.put a) else .error .conflict

/-- A patch without such a check. -/
def amend (s : Slot α) (f : α → α) : Except WriteError (Slot α) :=
  match s.content with
  | none => .error .notFound
  | some a => .ok (s.put (f a))

@[simp] theorem content_empty : (empty : Slot α).content = none := rfl

@[simp] theorem content_put (s : Slot α) (a : α) : (s.put a).content = some a := rfl

@[simp] theorem content_erase (s : Slot α) : s.erase.content = none := rfl

theorem content_eq_some : s.content = some a ↔ ∃ v, s.stored = some v ∧ v.content = a := by
  simp [content]

theorem content_of_stored (h : s.stored = some v) : s.content = some v.content :=
  content_eq_some.mpr ⟨v, h, rfl⟩

theorem create_eq_ok : s.create a = .ok t ↔ s.content = none ∧ t = s.put a := by
  unfold create content
  cases h : s.stored with
  | none => simp [eq_comm]
  | some v => simp

theorem amend_eq_ok {f : α → α} :
    s.amend f = .ok t ↔ ∃ a, s.content = some a ∧ t = s.put (f a) := by
  unfold amend
  cases h : s.content with
  | none => simp
  | some a => simp [eq_comm]

/-- No version was given out that the object does not know of. -/
def Current (s : Slot α) : Prop := ∀ v, s.stored = some v → v.resourceVersion ≤ s.revision

/-- `v` was stored at some time: if its resource version is stored now, nothing was written
since. -/
structure Saw (s : Slot α) (v : Version α) : Prop where
  le : v.resourceVersion ≤ s.revision
  same : ∀ u, s.stored = some u → u.resourceVersion = v.resourceVersion → u = v

theorem Current.empty : (empty : Slot α).Current := by
  intro v hv
  exact absurd hv (by simp [Slot.empty])

theorem Current.put (s : Slot α) (a : α) : (s.put a).Current := by
  intro v hv
  obtain rfl : _ = v := Option.some.inj hv
  exact le_rfl

theorem Current.erase (s : Slot α) : s.erase.Current := by
  intro v hv
  exact absurd hv (by simp [Slot.erase])

theorem Current.saw (h : s.Current) (hv : s.stored = some v) : s.Saw v :=
  ⟨h v hv, fun _ hu _ => Option.some.inj (hu.symm.trans hv)⟩

theorem Saw.put (h : s.Saw v) (a : α) : (s.put a).Saw v := by
  refine ⟨h.le.trans (Nat.le_succ _), ?_⟩
  intro u hu heq
  obtain rfl : _ = u := Option.some.inj hu
  have := h.le
  change s.revision + 1 = _ at heq
  omega

theorem Saw.erase (h : s.Saw v) : s.erase.Saw v :=
  ⟨h.le.trans (Nat.le_succ _), fun u hu _ => absurd hu (by simp [Slot.erase])⟩

/-- A write that carries the version it is based on goes through only if that version is still the
stored one. -/
theorem Saw.replace_eq_ok (h : s.Saw v) :
    s.replace v a = .ok t ↔ s.stored = some v ∧ t = s.put a := by
  unfold replace
  cases hs : s.stored with
  | none => simp
  | some u =>
    by_cases heq : u.resourceVersion = v.resourceVersion
    · obtain rfl := h.same u hs heq
      simp [eq_comm]
    · have hne : u ≠ v := fun huv => heq (by rw [huv])
      simp [heq, hne]

end Slot

/-- The versions of an object, oldest first, and the one that a watching client has. -/
structure History (α : Type) where
  past : List α
  current : α
  seen : ℕ

namespace History

variable {α : Type} {h : History α} {a : α} {i : ℕ} {P : α → Prop}

def versions (h : History α) : List α := h.past ++ [h.current]

/-- What the client has in its cache. -/
def cached (h : History α) : Option α := h.versions[h.seen]?

def write (h : History α) (a : α) : History α := ⟨h.versions, a, h.seen⟩

/-- The client comes to a later version, if there is one of this number. -/
def watch (h : History α) (i : ℕ) : History α :=
  ⟨h.past, h.current, if i < h.versions.length then max h.seen i else h.seen⟩

/-- The client lists the object again. -/
def relist (h : History α) : History α := ⟨h.past, h.current, max h.seen h.past.length⟩

@[simp] theorem versions_watch (h : History α) (i : ℕ) : (h.watch i).versions = h.versions := rfl

theorem current_mem (h : History α) : h.current ∈ h.versions :=
  mem_append_right _ (mem_singleton.mpr rfl)

/-- Whatever version has the property, the later ones have it too. -/
def Kept (P : α → Prop) (h : History α) : Prop := h.versions.Pairwise fun a b => P a → P b

/-- The client's version has the property. -/
def Knows (P : α → Prop) (h : History α) : Prop := ∃ a, h.cached = some a ∧ P a

theorem Kept.current (hk : h.Kept P) (ha : a ∈ h.versions) (hP : P a) : P h.current := by
  rcases mem_append.mp ha with ha | ha
  · exact (pairwise_append.mp hk).2.2 a ha h.current (mem_singleton.mpr rfl) hP
  · exact mem_singleton.mp ha ▸ hP

theorem Kept.write (hk : h.Kept P) (ha : P h.current → P a) : (h.write a).Kept P := by
  refine pairwise_append.mpr ⟨hk, pairwise_singleton _ _, fun b hb c hc hP => ?_⟩
  rw [mem_singleton.mp hc]
  exact ha (hk.current hb hP)

theorem Knows.write (hk : h.Knows P) (a : α) : (h.write a).Knows P := by
  obtain ⟨b, hb, hP⟩ := hk
  have hlt : h.seen < h.versions.length := (List.getElem?_eq_some_iff.mp hb).1
  exact ⟨b, (getElem?_append_left hlt).trans hb, hP⟩

theorem Knows.later (hk : h.Knows P) (hke : h.Kept P) {i : ℕ} (hi : h.seen ≤ i)
    (hlt : i < h.versions.length) : ∃ a, h.versions[i]? = some a ∧ P a := by
  obtain ⟨b, hb, hP⟩ := hk
  refine ⟨h.versions[i], getElem?_eq_getElem hlt, ?_⟩
  rcases Nat.eq_or_lt_of_le hi with rfl | hlt'
  · obtain rfl := Option.some.inj ((getElem?_eq_getElem hlt).symm.trans hb)
    exact hP
  · obtain ⟨hs, rfl⟩ := List.getElem?_eq_some_iff.mp hb
    exact pairwise_iff_getElem.mp hke _ _ hs hlt hlt' hP

theorem Knows.watch (hk : h.Knows P) (hke : h.Kept P) (i : ℕ) : (h.watch i).Knows P := by
  have hs : h.seen < h.versions.length := (List.getElem?_eq_some_iff.mp hk.choose_spec.1).1
  by_cases hi : i < h.versions.length
  · have hw : (h.watch i).seen = max h.seen i := if_pos hi
    obtain ⟨a, ha, hP⟩ := hk.later hke (le_max_left h.seen i) (max_lt hs hi)
    exact ⟨a, by rw [cached, versions_watch, hw]; exact ha, hP⟩
  · have hw : (h.watch i).seen = h.seen := if_neg hi
    obtain ⟨a, ha, hP⟩ := hk
    exact ⟨a, by rw [cached, versions_watch, hw]; exact ha, hP⟩

theorem Knows.relist (hk : h.Knows P) (hke : h.Kept P) : h.relist.Knows P := by
  have hs : h.seen < h.versions.length := (List.getElem?_eq_some_iff.mp hk.choose_spec.1).1
  have hl : h.past.length < h.versions.length := by simp [versions]
  exact hk.later hke (le_max_left _ _) (max_lt hs hl)

end History

end DocaPlatform.ObjectStore
