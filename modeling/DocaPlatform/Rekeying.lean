import Mathlib.Data.Set.Insert

/-!
# Replacing the key of a replicated store

A store whose objects are each encrypted with one key is served by replicas, each with a list of
keys it has loaded. A replica decrypts with every key of its list and encrypts with the first one.
The list that replicas load goes through the stages of a key change; what has to hold before each
change of stage makes every object readable for every replica at all times.
-/
namespace DocaPlatform.Rekeying

variable {κ : Type*}

/-- The stages of a key change. -/
inductive Stage (κ : Type*) where
  | single (key : κ)
  | adding (old new : κ)
  | switching (old new : κ)
  | dropping (key : κ)

/-- The list of keys that a replica loads in a stage. -/
def Stage.ring : Stage κ → List κ
  | .single key => [key]
  | .adding old new => [old, new]
  | .switching old new => [new, old]
  | .dropping key => [key]

/-- The stage, the lists that replicas hold and the keys that objects are encrypted with. -/
structure State (κ : Type*) where
  stage : Stage κ
  loaded : Set (List κ)
  inUse : Set κ

/-- Replicas load the current list, objects are written with the first key of a loaded list, and
both may go away. -/
structure Background (s t : State κ) : Prop where
  stage : t.stage = s.stage
  loaded : ∀ l ∈ t.loaded, l ∈ s.loaded ∨ l = s.stage.ring
  inUse : ∀ k ∈ t.inUse, k ∈ s.inUse ∨ ∃ l, k :: l ∈ s.loaded

/-- Every replica holds the current list. -/
def State.Synced (s : State κ) : Prop :=
  ∀ l ∈ s.loaded, l = s.stage.ring

/-- The changes of stage, each with what has to hold before it. -/
inductive Change (s : State κ) : Stage κ → Prop where
  | add {old new : κ} : s.stage = .single old → Change s (.adding old new)
  | switch {old new : κ} : s.stage = .adding old new → s.Synced → Change s (.switching old new)
  | drop {old new : κ} : s.stage = .switching old new → s.Synced → (∀ k ∈ s.inUse, k = new) →
      Change s (.dropping new)
  | settle {key : κ} : s.stage = .dropping key → s.Synced → Change s (.single key)
  | keep {key : κ} : s.stage = .single key → Change s (.single key)

inductive Step : State κ → State κ → Prop where
  | background {s t : State κ} : Background s t → Step s t
  | change {s : State κ} {stage : Stage κ} : Change s stage → Step s { s with stage := stage }

/-- Every replica can decrypt every object. -/
def Readable (s : State κ) : Prop :=
  ∀ l ∈ s.loaded, ∀ k ∈ s.inUse, k ∈ l

/-- What replicas hold and objects use in each stage. -/
def Inv (s : State κ) : Prop :=
  match s.stage with
  | .single key => (∀ l ∈ s.loaded, l = [key]) ∧ ∀ k ∈ s.inUse, k = key
  | .adding old new =>
    (∀ l ∈ s.loaded, l = [old] ∨ l = [old, new]) ∧ ∀ k ∈ s.inUse, k = old
  | .switching old new =>
    (∀ l ∈ s.loaded, l = [old, new] ∨ l = [new, old]) ∧ ∀ k ∈ s.inUse, k = old ∨ k = new
  | .dropping key => (∀ l ∈ s.loaded, ∃ rest, l = key :: rest) ∧ ∀ k ∈ s.inUse, k = key

variable {s t : State κ}

theorem Inv.readable (h : Inv s) : Readable s := by
  intro l hl k hk
  unfold Inv at h
  split at h
  · rw [h.1 l hl, h.2 k hk]
    exact List.mem_singleton_self _
  · rw [h.2 k hk]
    rcases h.1 l hl with rfl | rfl <;> simp
  · rcases h.1 l hl with rfl | rfl <;> rcases h.2 k hk with rfl | rfl <;> simp
  · obtain ⟨rest, rfl⟩ := h.1 l hl
    rw [h.2 k hk]
    exact List.mem_cons_self

/-- The current list has the keys that objects use, and those that replicas encrypt with. -/
theorem Inv.ring (h : Inv s) : (∀ k ∈ s.inUse, k ∈ s.stage.ring) ∧
    ∀ l ∈ s.loaded, ∃ k ∈ s.stage.ring, l.head? = some k := by
  unfold Inv at h
  refine ⟨fun k hk => ?_, fun l hl => ?_⟩ <;> split at h <;> rename_i hs <;> rw [hs, Stage.ring]
  · simp [h.2 k hk]
  · simp [h.2 k hk]
  · simpa [or_comm] using h.2 k hk
  · simp [h.2 k hk]
  · simp [h.1 l hl]
  · rcases h.1 l hl with rfl | rfl <;> simp
  · rcases h.1 l hl with rfl | rfl <;> simp
  · obtain ⟨rest, rfl⟩ := h.1 l hl
    simp

theorem Inv.background (h : Inv s) (hb : Background s t) : Inv t := by
  obtain ⟨hst, hlo, hu⟩ := hb
  unfold Inv at h ⊢
  rw [hst]
  cases hs : s.stage with rw [hs] at h hlo
  | single key =>
    refine ⟨fun l hl => ?_, fun k hk => ?_⟩
    · exact (hlo l hl).elim (h.1 l) id
    · rcases hu k hk with hk | ⟨l, hl⟩
      · exact h.2 k hk
      · exact (List.cons.inj (h.1 _ hl)).1
  | adding old new =>
    refine ⟨fun l hl => ?_, fun k hk => ?_⟩
    · exact (hlo l hl).elim (h.1 l) .inr
    · rcases hu k hk with hk | ⟨l, hl⟩
      · exact h.2 k hk
      · exact (h.1 _ hl).elim (fun he => (List.cons.inj he).1) fun he => (List.cons.inj he).1
  | switching old new =>
    refine ⟨fun l hl => ?_, fun k hk => ?_⟩
    · exact (hlo l hl).elim (h.1 l) .inr
    · rcases hu k hk with hk | ⟨l, hl⟩
      · exact h.2 k hk
      · exact (h.1 _ hl).imp (fun he => (List.cons.inj he).1) fun he => (List.cons.inj he).1
  | dropping key =>
    refine ⟨fun l hl => ?_, fun k hk => ?_⟩
    · exact (hlo l hl).elim (h.1 l) fun he => ⟨[], he⟩
    · rcases hu k hk with hk | ⟨l, hl⟩
      · exact h.2 k hk
      · obtain ⟨rest, he⟩ := h.1 _ hl
        exact (List.cons.inj he).1

theorem Inv.change (h : Inv s) {stage : Stage κ} (hc : Change s stage) :
    Inv { s with stage := stage } := by
  unfold Inv at h
  cases hc with rw [hs] at h
  | add hs =>
    exact ⟨fun l hl => .inl (h.1 l hl), h.2⟩
  | switch hs hsy =>
    unfold State.Synced at hsy
    rw [hs] at hsy
    exact ⟨fun l hl => .inl (hsy l hl), fun k hk => .inl (h.2 k hk)⟩
  | drop hs hsy hu =>
    unfold State.Synced at hsy
    rw [hs] at hsy
    exact ⟨fun l hl => ⟨_, hsy l hl⟩, hu⟩
  | settle hs hsy =>
    unfold State.Synced at hsy
    rw [hs] at hsy
    exact ⟨hsy, h.2⟩
  | keep hs =>
    exact h

theorem Inv.step (h : Inv s) (hs : Step s t) : Inv t := by
  cases hs with
  | background hb => exact h.background hb
  | change hc => exact h.change hc

theorem Background.synced (hb : Background s t) (h : s.Synced) : t.Synced := by
  intro l hl
  rw [hb.stage]
  exact (hb.loaded l hl).elim (h l) id

/-- Once replicas hold the current list, the first key of it stays the only one in use. -/
theorem Background.inUse_eq (hb : Background s t) (h : s.Synced) {key : κ} {rest : List κ}
    (hr : s.stage.ring = key :: rest) (hu : ∀ k ∈ s.inUse, k = key) : ∀ k ∈ t.inUse, k = key := by
  intro k hk
  rcases hb.inUse k hk with hk | ⟨l, hl⟩
  · exact hu k hk
  · exact (List.cons.inj ((h _ hl).trans hr)).1

/-- What allows a change of stage is not undone in the background. -/
theorem Change.background {stage : Stage κ} (h : Change s stage) (hb : Background s t) :
    Change t stage := by
  cases h with
  | add hs => exact .add (hb.stage.trans hs)
  | switch hs hsy => exact .switch (hb.stage.trans hs) (hb.synced hsy)
  | @drop old new hs hsy hu =>
    have hr : s.stage.ring = [new, old] := by rw [hs, Stage.ring]
    exact .drop (hb.stage.trans hs) (hb.synced hsy) (hb.inUse_eq hsy hr hu)
  | settle hs hsy => exact .settle (hb.stage.trans hs) (hb.synced hsy)
  | keep hs => exact .keep (hb.stage.trans hs)

end DocaPlatform.Rekeying
