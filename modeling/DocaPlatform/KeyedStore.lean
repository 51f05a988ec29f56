import Mathlib.Tactic

/-!
# A store of objects under keys

The objects of one kind under their keys, listed in the order in which the keys were first used. A
write changes one key: what is stored under the others, and their order, stays.
-/
namespace DocaPlatform.KeyedStore

open List Function

structure Store (κ α : Type) where
  /-- Every key in use, in the order of a list request. -/
  keys : List κ
  get : κ → Option α
  nodup : keys.Nodup
  known : ∀ k a, get k = some a → k ∈ keys

namespace Store

variable {κ α : Type}

def empty : Store κ α := ⟨[], fun _ => none, nodup_nil, nofun⟩

def items (s : Store κ α) : List (κ × α) :=
  s.keys.filterMap fun k => (s.get k).map fun a => (k, a)

@[simp] theorem get_empty (k : κ) : (empty : Store κ α).get k = none := rfl

theorem mem_items {s : Store κ α} {k : κ} {a : α} : (k, a) ∈ s.items ↔ s.get k = some a := by
  unfold items
  constructor
  · intro h
    obtain ⟨j, -, hj⟩ := mem_filterMap.mp h
    obtain ⟨b, hb, heq⟩ := Option.map_eq_some_iff.mp hj
    obtain ⟨rfl, rfl⟩ := Prod.mk.inj heq
    exact hb
  · intro h
    exact mem_filterMap.mpr ⟨k, s.known k a h, by simp [h]⟩

theorem get_of_mem_items {s : Store κ α} {o : κ × α} (h : o ∈ s.items) : s.get o.1 = some o.2 :=
  mem_items.mp h

/-- The keys of the objects that pass a test, in the order of the keys in use. -/
theorem items_filter_keys (s : Store κ α) (p : κ × α → Bool) :
    (s.items.filter p).map Prod.fst = s.keys.filter fun k => (s.get k).any fun a => p (k, a) := by
  unfold items
  rw [filter_filterMap, map_filterMap, ← filterMap_eq_filter]
  congr 1
  ext k : 1
  cases h : s.get k with
  | none => simp [Option.guard, h]
  | some a => cases hp : p (k, a) <;> simp [Option.guard, h, hp]

theorem items_nodup (s : Store κ α) : (s.items.map Prod.fst).Nodup := by
  have hk := s.items_filter_keys fun _ => true
  rw [filter_true] at hk
  exact hk ▸ s.nodup.filter _

variable [DecidableEq κ]

/-- Writes the object, under a new key or over the one that is there. -/
def put (s : Store κ α) (k : κ) (a : α) : Store κ α where
  keys := if k ∈ s.keys then s.keys else s.keys ++ [k]
  get := update s.get k (some a)
  nodup := by
    split_ifs with hk
    · exact s.nodup
    · exact nodup_append.mpr ⟨s.nodup, nodup_singleton k, by
        rintro a ha b hb rfl
        exact hk (mem_singleton.mp hb ▸ ha)⟩
  known := by
    intro j b hj
    by_cases hjk : j = k
    · subst hjk
      split_ifs with hk
      · exact hk
      · simp
    · rw [update_of_ne hjk] at hj
      have := s.known j b hj
      split_ifs <;> simp [this]

/-- Changes the object under a key, if there is one. -/
def modify (s : Store κ α) (k : κ) (f : α → α) : Store κ α where
  keys := s.keys
  get := update s.get k ((s.get k).map f)
  nodup := s.nodup
  known := by
    intro j b hj
    by_cases hjk : j = k
    · subst hjk
      rw [update_self] at hj
      obtain ⟨a, ha, -⟩ := Option.map_eq_some_iff.mp hj
      exact s.known j a ha
    · rw [update_of_ne hjk] at hj
      exact s.known j b hj

/-- The object under the key is gone. -/
def erase (s : Store κ α) (k : κ) : Store κ α where
  keys := s.keys
  get := update s.get k none
  nodup := s.nodup
  known := by
    intro j b hj
    by_cases hjk : j = k
    · subst hjk
      simp at hj
    · rw [update_of_ne hjk] at hj
      exact s.known j b hj

variable {s : Store κ α} {j k : κ} {a b : α} {f : α → α}

@[simp] theorem get_put_self : (s.put k a).get k = some a := by simp [put]

theorem get_put_of_ne (h : j ≠ k) : (s.put k a).get j = s.get j := by simp [put, h]

theorem get_put : (s.put k a).get j = if j = k then some a else s.get j := by
  simp [put, update_apply]

@[simp] theorem get_modify_self : (s.modify k f).get k = (s.get k).map f := by simp [modify]

theorem get_modify_of_ne (h : j ≠ k) : (s.modify k f).get j = s.get j := by simp [modify, h]

theorem eq_of_put (h : (s.put k a).get j = some b) : j = k ∧ b = a ∨ j ≠ k ∧ s.get j = some b := by
  rw [get_put] at h
  split_ifs at h with hj
  · exact .inl ⟨hj, (Option.some.inj h).symm⟩
  · exact .inr ⟨hj, h⟩

theorem exists_of_modify (h : (s.modify k f).get j = some b) :
    ∃ c, s.get j = some c ∧ (j = k ∧ b = f c ∨ j ≠ k ∧ b = c) := by
  by_cases hj : j = k
  · subst hj
    rw [get_modify_self] at h
    obtain ⟨c, hc, rfl⟩ := Option.map_eq_some_iff.mp h
    exact ⟨c, hc, .inl ⟨rfl, rfl⟩⟩
  · exact ⟨b, get_modify_of_ne hj ▸ h, .inr ⟨hj, rfl⟩⟩

theorem get_erase : (s.erase k).get j = if j = k then none else s.get j := by
  simp [erase, update_apply]

theorem keys_put : (s.put k a).keys = if k ∈ s.keys then s.keys else s.keys ++ [k] := rfl

end Store

end DocaPlatform.KeyedStore
