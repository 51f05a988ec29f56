import Mathlib.Data.List.Nodup
import Mathlib.Data.List.Range
import Mathlib.Data.List.Perm.Subperm
import Mathlib.Tactic.Linarith

/-!
# Free numbers

A counter that hands out natural numbers in increasing order and skips those on a list. What it has
handed out between two of its positions are all numbers in between that are not on the list.
-/
namespace DocaPlatform.FreeNumbers

open List

/-- The numbers from `a` up to `b` that are not on the list, in increasing order. -/
def free (reserved : List ℕ) (a b : ℕ) : List ℕ :=
  (List.range' a (b - a)).filter (· ∉ reserved)

/-- The first number from `next` on that is not on the list, looking at no more than `fuel`
numbers. -/
def firstFree (reserved : List ℕ) : ℕ → ℕ → ℕ
  | 0, next => next
  | fuel + 1, next => if next ∈ reserved then firstFree reserved fuel (next + 1) else next

/-- The next `n` numbers, and where the counter is then. -/
def takeFree (reserved : List ℕ) : ℕ → ℕ → List ℕ × ℕ
  | 0, next => ([], next)
  | n + 1, next =>
    let num := firstFree reserved reserved.length next
    let rest := takeFree reserved n (num + 1)
    (num :: rest.1, rest.2)

variable {reserved : List ℕ}

@[simp] theorem free_self (a : ℕ) : free reserved a a = [] := by simp [free]

theorem free_append {a b c : ℕ} (hab : a ≤ b) (hbc : b ≤ c) :
    free reserved a b ++ free reserved b c = free reserved a c := by
  unfold free
  have hs : List.range' a (c - a) = List.range' a (b - a) ++ List.range' b (c - b) := by
    have ha := @range'_append_1 a (b - a) (c - b)
    rw [show a + (b - a) = b by omega, show b - a + (c - b) = c - a by omega] at ha
    exact ha.symm
  rw [hs, filter_append]

/-- What the search has passed is on the list. -/
theorem firstFree_spec (reserved : List ℕ) (fuel next : ℕ) :
    next ≤ firstFree reserved fuel next ∧ firstFree reserved fuel next ≤ next + fuel ∧
      (∀ n, next ≤ n → n < firstFree reserved fuel next → n ∈ reserved) ∧
      (firstFree reserved fuel next < next + fuel → firstFree reserved fuel next ∉ reserved) := by
  induction fuel generalizing next with
  | zero =>
    refine ⟨le_rfl, le_rfl, fun n h h' => ?_, fun h => ?_⟩
    · simp only [firstFree] at h'
      omega
    · simp only [firstFree] at h
      omega
  | succ fuel ih =>
    unfold firstFree
    split_ifs with hmem
    · obtain ⟨hle, hub, hp, hf⟩ := ih (next + 1)
      refine ⟨by omega, by omega, fun n h h' => ?_, fun h => hf (by omega)⟩
      by_cases heq : n = next
      · rwa [heq]
      · exact hp n (by omega) h'
    · exact ⟨le_rfl, by omega, fun n h h' => by omega, fun _ => hmem⟩

/-- As many steps as there are numbers on the list are enough. -/
theorem firstFree_not_mem (reserved : List ℕ) (next : ℕ) :
    firstFree reserved reserved.length next ∉ reserved := by
  obtain ⟨-, hub, hp, hf⟩ := firstFree_spec reserved reserved.length next
  by_cases hlt : firstFree reserved reserved.length next < next + reserved.length
  · exact hf hlt
  · -- The search has used all its steps, so the list is full of the numbers it has passed.
    have heq : firstFree reserved reserved.length next = next + reserved.length := by omega
    intro hmem
    have hs : List.range' next (reserved.length + 1) ⊆ reserved := by
      intro n hn
      rw [mem_range'_1] at hn
      by_cases hl : n = next + reserved.length
      · rw [hl, ← heq]
        exact hmem
      · exact hp n hn.1 (by omega)
    have hlen := (subperm_of_subset nodup_range' hs).length_le
    rw [length_range'] at hlen
    omega

theorem free_firstFree (reserved : List ℕ) (next : ℕ) :
    free reserved next (firstFree reserved reserved.length next + 1) =
      [firstFree reserved reserved.length next] := by
  obtain ⟨hle, -, hp, -⟩ := firstFree_spec reserved reserved.length next
  have hno : free reserved next (firstFree reserved reserved.length next) = [] := by
    refine filter_eq_nil_iff.mpr fun n hn => ?_
    rw [mem_range'_1] at hn
    simpa using hp n hn.1 (by omega)
  rw [← free_append hle (Nat.le_succ _), hno]
  simp [free, firstFree_not_mem]

/-- The numbers handed out are the free ones between the positions of the counter. -/
theorem takeFree_spec (reserved : List ℕ) (n next : ℕ) :
    next ≤ (takeFree reserved n next).2 ∧ (takeFree reserved n next).1.length = n ∧
      (takeFree reserved n next).1 = free reserved next (takeFree reserved n next).2 := by
  induction n generalizing next with
  | zero => exact ⟨le_rfl, rfl, (free_self next).symm⟩
  | succ n ih =>
    obtain ⟨hle, hl, hf⟩ := ih (firstFree reserved reserved.length next + 1)
    have hn := (firstFree_spec reserved reserved.length next).1
    simp only [takeFree]
    refine ⟨by omega, by rw [length_cons, hl], ?_⟩
    rw [← free_append (show next ≤ firstFree reserved reserved.length next + 1 by omega) hle,
      free_firstFree, ← hf]
    rfl

/-- With nothing on the list the numbers are in sequence. -/
theorem takeFree_nil (n next : ℕ) : takeFree [] n next = (List.range' next n, next + n) := by
  induction n generalizing next with
  | zero => rfl
  | succ n ih =>
    simp only [takeFree, length_nil, firstFree, ih, range'_succ]
    rw [show next + 1 + n = next + (n + 1) by omega]

end DocaPlatform.FreeNumbers
