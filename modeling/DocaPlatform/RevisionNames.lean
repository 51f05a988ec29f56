import DocaPlatform.DeploymentRevisions

/-!
# Whose revision a generated name is

A pass finds the revisions of a service or of an interface by their names alone. This module says
exactly which sets of names the two tests tell apart, whatever the random suffixes are, and that no
call of a pass made for one service or interface then touches a revision of another.
-/
namespace DocaPlatform.DeploymentRevisions

open KeyedStore Words List

theorem matchInterfaceName_iff {name service interface : Name} :
    matchInterfaceName name service interface = true ↔ interfaceStem service interface <+: name :=
  isPrefixOf_iff_prefix

theorem dash_not_mem_alphanums : '-' ∉ alphanums := by decide

theorem Suffix.dash_not_mem (suffix : Suffix) : '-' ∉ suffix.chars := fun h =>
  dash_not_mem_alphanums (suffix.mem_alphabet _ h)

theorem lastIndex_append_cons {c : Char} (stem : Name) {tail : Name} (h : c ∉ tail) :
    lastIndex c (stem ++ c :: tail) = some stem.length := by
  have hf : (stem ++ c :: tail).reverse.findIdx? (· == c) = some tail.length := by
    rw [reverse_append, reverse_cons, append_assoc, findIdx?_append]
    have hn : tail.reverse.findIdx? (· == c) = none := by
      rw [findIdx?_eq_none_iff]
      intro d hd
      simp only [beq_eq_false_iff_ne]
      intro heq
      exact h (heq ▸ mem_reverse.mp hd)
    rw [hn]
    simp [findIdx?_cons]
  unfold lastIndex
  rw [hf]
  simp only [Option.map_some, length_append, length_cons, Option.some.injEq]
  omega

theorem lastIndex_eq_none {c : Char} {name : Name} (h : c ∉ name) : lastIndex c name = none := by
  unfold lastIndex
  rw [Option.map_eq_none_iff, findIdx?_eq_none_iff]
  intro d hd
  simp only [beq_eq_false_iff_ne]
  intro heq
  exact h (heq ▸ mem_reverse.mp hd)

theorem exists_last_dash {name : Name} (h : '-' ∈ name) :
    ∃ stem tail, name = stem ++ '-' :: tail ∧ '-' ∉ tail := by
  obtain ⟨tail, stem, heq, ht⟩ := eq_append_cons_of_mem (mem_reverse.mpr h)
  refine ⟨stem.reverse, tail.reverse, ?_, fun hmem => ht (mem_reverse.mp hmem)⟩
  have hr := congrArg List.reverse heq
  simpa using hr

theorem last_dash_unique {stem stem' tail tail' : Name}
    (h : stem ++ '-' :: tail = stem' ++ '-' :: tail') (ht : '-' ∉ tail) (htail' : '-' ∉ tail') :
    stem = stem' := by
  have hi := congrArg (lastIndex '-') h
  rw [lastIndex_append_cons stem ht, lastIndex_append_cons stem' htail'] at hi
  exact (append_inj h (Option.some.inj hi)).1

/-- A name is taken for a revision of a service if it ends with the service's name, or is the
service's name with a tail of the length of a suffix. -/
theorem matchDPUServiceName_iff {name service : Name} :
    matchDPUServiceName name service = true ↔
      service <:+ name ∨ ∃ tail, name = service ++ '-' :: tail ∧ '-' ∉ tail ∧
        tail.length = resourceNameGeneratedSuffixLength := by
  unfold matchDPUServiceName
  by_cases hs : service <:+ name
  · rw [if_pos (isSuffixOf_iff_suffix.mpr hs)]
    exact ⟨fun _ => .inl hs, fun _ => rfl⟩
  rw [if_neg (fun h => hs (isSuffixOf_iff_suffix.mp h))]
  by_cases hd : '-' ∈ name
  · obtain ⟨stem, tail, rfl, hta⟩ := exists_last_dash hd
    rw [lastIndex_append_cons stem hta]
    simp only [drop_left, take_left, length_cons, ne_eq]
    constructor
    · intro h
      split_ifs at h with hl
      obtain rfl := beq_iff_eq.mp h
      exact .inr ⟨tail, rfl, hta, by omega⟩
    · rintro (h | ⟨tail', heq, htail', hl⟩)
      · exact absurd h hs
      · obtain rfl := last_dash_unique heq hta htail'
        have ht := append_cancel_left heq
        obtain rfl := (List.cons.inj ht).2
        simp [hl]
  · rw [lastIndex_eq_none hd]
    constructor
    · intro h
      exact absurd h Bool.false_ne_true
    · rintro (h | ⟨tail, rfl, -⟩)
      · exact absurd h hs
      · simp at hd

theorem matchDPUServiceName_generated (service : Name) (suffix : Suffix) :
    matchDPUServiceName (generatedServiceName service suffix) service = true :=
  matchDPUServiceName_iff.mpr
    (.inr ⟨suffix.chars, rfl, suffix.dash_not_mem, suffix.length_eq⟩)

theorem matchInterfaceName_generated (service interface : Name) (suffix : Suffix) :
    matchInterfaceName (generatedInterfaceName service interface suffix) service interface = true :=
  matchInterfaceName_iff.mpr (prefix_append _ _)

/-- For a suffix of service `s`: only by its end can the name match another service. -/
theorem matchDPUServiceName_generated_iff {s t : Name} {suffix : Suffix} (hne : t ≠ s) :
    matchDPUServiceName (generatedServiceName s suffix) t = true ↔
      t <:+ suffix.chars ∨ ∃ u, u <:+ s ∧ t = u ++ '-' :: suffix.chars := by
  rw [matchDPUServiceName_iff]
  unfold generatedServiceName
  rw [suffix_append_cons_iff]
  constructor
  · rintro (h | ⟨tail, heq, ht, -⟩)
    · exact h
    · exact absurd (last_dash_unique heq suffix.dash_not_mem ht).symm hne
  · exact .inl

/-- No service of the set is named like the end of a revision of another one: not with at most five
characters of the random alphabet, and not with such a tail after a part that ends the other's
name. -/
def ServiceNamesApart (services : Set Name) : Prop :=
  ∀ s ∈ services, ∀ t ∈ services, s ≠ t →
    ¬(t.length ≤ resourceNameGeneratedSuffixLength ∧ ∀ c ∈ t, c ∈ alphanums) ∧
    ¬∃ u w, t = u ++ '-' :: w ∧ u <:+ s ∧ w.length = resourceNameGeneratedSuffixLength ∧
      ∀ c ∈ w, c ∈ alphanums

/-- No interface of the set has a stem that starts the stem of another one, or that goes on from it
with a dash and at most five characters of the random alphabet. -/
def InterfaceNamesApart (interfaces : Set (Name × Name)) : Prop :=
  ∀ p ∈ interfaces, ∀ q ∈ interfaces, p ≠ q →
    ¬interfaceStem p.1 p.2 <+: interfaceStem q.1 q.2 ∧
    ¬∃ w, interfaceStem p.1 p.2 = interfaceStem q.1 q.2 ++ '-' :: w ∧
      w.length ≤ resourceNameGeneratedSuffixLength ∧ ∀ c ∈ w, c ∈ alphanums

theorem serviceNamesApart_iff {services : Set Name} :
    ServiceNamesApart services ↔ ∀ s ∈ services, ∀ t ∈ services, ∀ suffix : Suffix,
      matchDPUServiceName (generatedServiceName s suffix) t = true → t = s := by
  have hb : 'b' ∈ alphanums := by decide
  constructor
  · intro h s hs t ht suffix hm
    by_contra hne
    obtain ⟨hsh, hta⟩ := h s hs t ht (Ne.symm hne)
    rcases (matchDPUServiceName_generated_iff hne).mp hm with he | ⟨u, hu, rfl⟩
    · refine hsh ⟨?_, fun c hc => suffix.mem_alphabet c (he.subset hc)⟩
      have hl := he.length_le
      rwa [suffix.length_eq] at hl
    · exact hta ⟨u, suffix.chars, rfl, hu, suffix.length_eq, suffix.mem_alphabet⟩
  · intro h s hs t ht hne
    have hne' : t ≠ s := Ne.symm hne
    refine ⟨?_, ?_⟩
    · rintro ⟨hl, ho⟩
      obtain ⟨suffix, he⟩ := exists_word_of_end hb hl ho
      exact hne' (h s hs t ht suffix ((matchDPUServiceName_generated_iff hne').mpr (.inl he)))
    · rintro ⟨u, w, rfl, hu, hl, ho⟩
      exact hne' (h s hs _ ht ⟨w, hl, ho⟩
        ((matchDPUServiceName_generated_iff hne').mpr (.inr ⟨u, hu, rfl⟩)))

theorem interfaceNamesApart_iff {interfaces : Set (Name × Name)} :
    InterfaceNamesApart interfaces ↔ ∀ q ∈ interfaces, ∀ p ∈ interfaces, ∀ suffix : Suffix,
      matchInterfaceName (generatedInterfaceName q.1 q.2 suffix) p.1 p.2 = true → p = q := by
  have hb : 'b' ∈ alphanums := by decide
  constructor
  · intro h q hq p hp suffix hm
    by_contra hne
    obtain ⟨hst, ht⟩ := h p hp q hq hne
    rcases prefix_append_cons_iff.mp (matchInterfaceName_iff.mp hm) with hs | ⟨w, hw, hwo⟩
    · exact hst hs
    · refine ht ⟨w, hw, ?_, fun c hc => suffix.mem_alphabet c (hwo.subset hc)⟩
      have hl := hwo.length_le
      rwa [suffix.length_eq] at hl
  · intro h p hp q hq hne
    refine ⟨?_, ?_⟩
    · intro hs
      exact hne (h q hq p hp ⟨List.replicate 5 'b', rfl, mem_of_mem_replicate hb⟩
        (matchInterfaceName_iff.mpr (prefix_append_cons_iff.mpr (.inl hs))))
    · rintro ⟨w, hw, hl, ho⟩
      obtain ⟨suffix, hwo⟩ := exists_word_of_start hb hl ho
      exact hne (h q hq p hp suffix
        (matchInterfaceName_iff.mpr (prefix_append_cons_iff.mpr (.inr ⟨w, hw, hwo⟩))))

end DocaPlatform.DeploymentRevisions
