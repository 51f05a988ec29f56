import Mathlib.Tactic

/-!
# Texts that are made of words

Words of a fixed length over an alphabet, and what a test for a leading or a trailing part says
about a text that is made of a stem, a separator and such a word.
-/
namespace DocaPlatform.Words

open List

/-- A word of `n` characters over an alphabet. -/
structure Word (alphabet : List Char) (n : ℕ) where
  chars : List Char
  length_eq : chars.length = n
  mem_alphabet : ∀ c ∈ chars, c ∈ alphabet

section Parts

variable {α : Type*} {p q r t : List α} {c : α}

/-- A leading part of `q ++ c :: r` ends within `q`, or goes on past the separator. -/
theorem prefix_append_cons_iff : p <+: q ++ c :: r ↔ p <+: q ∨ ∃ w, p = q ++ c :: w ∧ w <+: r := by
  constructor
  · rintro ⟨rest, hre⟩
    rcases append_eq_append_iff.mp hre with ⟨mid, hq, -⟩ | ⟨mid, hp, hm⟩
    · exact .inl ⟨mid, hq.symm⟩
    · cases mid with
      | nil => exact .inl ⟨[], by simpa using hp⟩
      | cons d w =>
        obtain ⟨rfl, hr⟩ := List.cons.inj hm
        exact .inr ⟨w, hp, rest, hr.symm⟩
  · rintro (h | ⟨w, rfl, rest, rfl⟩)
    · exact h.trans (prefix_append q _)
    · exact ⟨rest, by simp⟩

theorem suffix_append_cons_iff : t <:+ q ++ c :: r ↔ t <:+ r ∨ ∃ u, u <:+ q ∧ t = u ++ c :: r := by
  constructor
  · intro h
    rcases suffix_or_suffix_of_suffix h (suffix_append q (c :: r)) with ht | ht
    · rcases suffix_cons_iff.mp ht with rfl | ht
      · exact .inr ⟨[], nil_suffix, rfl⟩
      · exact .inl ht
    · obtain ⟨u, rfl⟩ := ht
      obtain ⟨rest, hr⟩ := h
      rw [← append_assoc] at hr
      exact .inr ⟨u, ⟨rest, append_cancel_right hr⟩, rfl⟩
  · rintro (h | ⟨u, ⟨rest, rfl⟩, rfl⟩)
    · exact h.trans ((suffix_cons c r).trans (suffix_append q _))
    · exact ⟨rest, by simp⟩

end Parts

section Fill

variable {alphabet : List Char} {n : ℕ} {w : List Char} {d : Char}

theorem mem_of_mem_replicate (hd : d ∈ alphabet) : ∀ c ∈ List.replicate n d, c ∈ alphabet :=
  fun _ hc => eq_of_mem_replicate hc ▸ hd

theorem exists_word_of_start (hd : d ∈ alphabet) (hl : w.length ≤ n)
    (hw : ∀ c ∈ w, c ∈ alphabet) : ∃ r : Word alphabet n, w <+: r.chars := by
  refine ⟨⟨w ++ List.replicate (n - w.length) d, ?_, ?_⟩, prefix_append w _⟩
  · simp only [length_append, length_replicate]
    omega
  · intro c hc
    rcases mem_append.mp hc with hc | hc
    · exact hw c hc
    · exact mem_of_mem_replicate hd c hc

theorem exists_word_of_end (hd : d ∈ alphabet) (hl : w.length ≤ n)
    (hw : ∀ c ∈ w, c ∈ alphabet) : ∃ r : Word alphabet n, w <:+ r.chars := by
  refine ⟨⟨List.replicate (n - w.length) d ++ w, ?_, ?_⟩, suffix_append _ w⟩
  · simp only [length_append, length_replicate]
    omega
  · intro c hc
    rcases mem_append.mp hc with hc | hc
    · exact mem_of_mem_replicate hd c hc
    · exact hw c hc

end Fill

end DocaPlatform.Words
