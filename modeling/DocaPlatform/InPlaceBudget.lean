import DocaPlatform.InPlaceReconfig

/-!
# In-place marks and the budget of unavailable DPUs

A pass of in-place reconfiguration counts the slots once, before it writes anything, and hands out
the slots of completions that it has only planned. The completions are written before the marks, and
the first patch that fails ends the pass. A slot is occupied by an expected device without a DPU and
by a DPU that is not Ready, is being deleted or is in progress; the pass itself counts a DPU whose
Ready condition is Unknown as Ready.
-/
namespace DocaPlatform.InPlaceBudget

open InPlaceReconfig List

/-- A plan, the DPU as it is stored, and whether the API server accepts a patch of it. -/
structure Write where
  plan : PlannedReconfig
  stored : DPU
  accepted : Bool

def withReconfig (d : DPU) (reconfig : Option DPUReconfigStatus) : DPU :=
  { d with status := { d.status with dpuReconfig := reconfig } }

/-- `patchDPUReconfig`; `none` is a failed patch. No other party deletes the DPU meanwhile. -/
def Write.patch (w : Write) : Option Write :=
  match w.plan.next with
  | none => some w
  | some next =>
    if reconfigEqual w.plan.dpu.status.dpuReconfig (some next) then
      some { w with plan := ⟨w.plan.dpu, none⟩ }
    else if w.accepted then
      some { w with stored := withReconfig w.stored (some (patchDPUReconfig
        w.plan.dpu.status.dpuReconfig next w.stored.status.dpuReconfig)) }
    else none

/-- The plans that a call of `patchInPlacePlans` writes. -/
def Write.selected (starts : Bool) (w : Write) : Bool :=
  w.plan.next.isSome && reconfigInProgress w.plan.next == starts

/-- `patchInPlacePlans`, with whether it got to the end. -/
def patchInPlacePlans (starts : Bool) : List Write → List Write × Bool
  | [] => ([], true)
  | w :: rest =>
    if w.selected starts then
      match w.patch with
      | none => (w :: rest, false)
      | some written =>
        let after := patchInPlacePlans starts rest
        (written :: after.1, after.2)
    else
      let after := patchInPlacePlans starts rest
      (w :: after.1, after.2)

/-- The two calls of `patchInPlacePlans`: no DPU is marked unless all completions are written. -/
def writePlans (writes : List Write) : List Write :=
  let completed := patchInPlacePlans false writes
  if completed.2 then (patchInPlacePlans true completed.1).1 else completed.1

/-- What `reconcileInPlaceReconfig` does to the listed DPUs once the round is open: `accepts` says
which patches the API server accepts. -/
def reconcileInPlaceReconfig (maxUnavailable : ℤ) (totalDPUDevices round : ℕ) (startedAt : Time)
    (requested : Bool) (accepts : ℕ → Bool) (dpus : List DPU) : List Write :=
  writePlans ((planInPlace maxUnavailable totalDPUDevices round startedAt requested dpus).mapIdx
    fun i p => ⟨p, p.dpu, accepts i⟩)

def isReady (d : DPU) : Bool := d.status.readySince.isSome

/-- A DPU with the given reconfig status takes a slot. -/
def occupiedWith (d : DPU) (reconfig : Option DPUReconfigStatus) : Bool :=
  !isReady d || d.deleting || reconfigInProgress reconfig

/-- The DPU is not Ready, is being deleted or is in progress. -/
def isOccupied (d : DPU) : Bool := occupiedWith d d.status.dpuReconfig

def occupiedSlots (total : ℕ) (dpus : List DPU) : ℕ :=
  (total - dpus.length) + dpus.countP isOccupied

/-- The limit of `inPlaceReadySlots`. -/
def slotLimit (maxUnavailable : ℤ) (total : ℕ) : ℕ :=
  if maxUnavailable < 1 then 1
  else if (total : ℤ) < maxUnavailable then total
  else maxUnavailable.toNat

def freed (w : Write) : Bool := isOccupied w.plan.dpu && !isOccupied w.stored

def taken (w : Write) : Bool := !isOccupied w.plan.dpu && isOccupied w.stored

/-! ## What a pass writes -/

def Write.Untouched (w : Write) : Prop := w.stored = w.plan.dpu

theorem reconfigEqual_some {a : Option DPUReconfigStatus} {b : DPUReconfigStatus}
    (h : reconfigEqual a (some b) = true) : a = some b := by
  cases a with
  | none => simp [reconfigEqual] at h
  | some a =>
    simp only [reconfigEqual, Bool.and_eq_true, beq_iff_eq] at h
    obtain ⟨⟨hr, hc⟩, hp⟩ := h
    cases a
    cases b
    simp_all

theorem patchDPUReconfig_self (base : Option DPUReconfigStatus) (next : DPUReconfigStatus) :
    patchDPUReconfig base next base = next := by
  simp [patchDPUReconfig]

theorem Write.patch_spec {w w' : Write} (hw : w.Untouched) {next : DPUReconfigStatus}
    (hn : w.plan.next = some next) (h : w.patch = some w') :
    w'.plan.dpu = w.plan.dpu ∧ isOccupied w'.stored = occupiedWith w.plan.dpu (some next) ∧
      (w'.plan.next = some next ∨ w'.plan.next = none) := by
  unfold Write.patch at h
  rw [hn] at h
  dsimp only at h
  split_ifs at h with he
  · cases h
    refine ⟨rfl, ?_, .inr rfl⟩
    rw [hw, isOccupied, reconfigEqual_some he]
  · cases h
    refine ⟨rfl, ?_, .inl hn⟩
    rw [hw, patchDPUReconfig_self]
    rfl

theorem Write.patch_ne_none (w : Write) (h : w.accepted = true) : w.patch ≠ none := by
  unfold Write.patch
  cases w.plan.next with
  | none => simp
  | some next =>
    simp only [h, if_true]
    split_ifs <;> simp

theorem Write.patch_frame {w w' : Write} (h : w.patch = some w') :
    w'.plan.dpu = w.plan.dpu ∧ w'.accepted = w.accepted := by
  unfold Write.patch at h
  cases hn : w.plan.next with
  | none =>
    simp only [hn, Option.some.injEq] at h
    subst h
    exact ⟨rfl, rfl⟩
  | some next =>
    simp only [hn] at h
    split_ifs at h with he ha
    · cases h
      exact ⟨rfl, rfl⟩
    · cases h
      exact ⟨rfl, rfl⟩

/-- What a call of `patchInPlacePlans` does to one plan. -/
def Wrote (starts : Bool) (w w' : Write) : Prop :=
  w.selected starts = true ∧ w.patch = some w'

/-- Every plan is written or left as it is. -/
theorem patchInPlacePlans_forall₂ (starts : Bool) (ws : List Write) :
    List.Forall₂ (fun w w' => w' = w ∨ Wrote starts w w') ws (patchInPlacePlans starts ws).1 := by
  have hr (ws : List Write) : List.Forall₂ (fun w w' => w' = w ∨ Wrote starts w w') ws ws :=
    List.forall₂_same.mpr fun w _ => .inl rfl
  induction ws with
  | nil => exact .nil
  | cons w rest ih =>
    unfold patchInPlacePlans
    split_ifs with hs
    · cases hp : w.patch with
      | none => exact hr _
      | some written => exact .cons (.inr ⟨hs, hp⟩) ih
    · exact .cons (.inl rfl) ih

theorem patchInPlacePlans_map {α : Type*} {f : Write → α}
    (hf : ∀ w w', w.patch = some w' → f w' = f w) (starts : Bool) (ws : List Write) :
    (patchInPlacePlans starts ws).1.map f = ws.map f := by
  induction ws with
  | nil => rfl
  | cons w rest ih =>
    unfold patchInPlacePlans
    split_ifs with hs
    · cases hp : w.patch with
      | none => rfl
      | some written => simp [ih, hf w written hp]
    · simp [ih]

/-- A call that gets to the end writes every plan that it selects. -/
theorem patchInPlacePlans_done {starts : Bool} {ws : List Write}
    (h : (patchInPlacePlans starts ws).2 = true) :
    List.Forall₂ (fun w w' => Wrote starts w w' ∨ w.selected starts = false ∧ w' = w) ws
      (patchInPlacePlans starts ws).1 := by
  induction ws with
  | nil => exact .nil
  | cons w rest ih =>
    unfold patchInPlacePlans at h ⊢
    split_ifs at h ⊢ with hs
    · cases hp : w.patch with
      | none => simp [hp] at h
      | some written =>
        simp only [hp] at h
        exact .cons (.inl ⟨hs, hp⟩) (ih h)
    · exact .cons (.inr ⟨by simpa using hs, rfl⟩) (ih h)

theorem patchInPlacePlans_of_accepted {starts : Bool} {ws : List Write}
    (h : ∀ w ∈ ws, w.accepted = true) : (patchInPlacePlans starts ws).2 = true := by
  induction ws with
  | nil => rfl
  | cons w rest ih =>
    have hr := ih fun x hx => h x (mem_cons_of_mem _ hx)
    have hw := h w mem_cons_self
    unfold patchInPlacePlans
    split_ifs with hs
    · cases hp : w.patch with
      | none => exact absurd hp (w.patch_ne_none hw)
      | some written => exact hr
    · exact hr

/-! ## From plans to slots -/

def frees (p : PlannedReconfig) : Bool := isOccupied p.dpu && !occupiedWith p.dpu p.effective

def takes (p : PlannedReconfig) : Bool := !isOccupied p.dpu && occupiedWith p.dpu p.effective

section Elements

variable {p : PlannedReconfig} {w w₁ w₂ : Write}

/-- The plan before anything is written. -/
def Begins (p : PlannedReconfig) (w : Write) : Prop := w.plan = p ∧ w.Untouched

theorem Write.Untouched.freed (h : w.Untouched) : freed w = false := by
  rw [InPlaceBudget.freed, h, Bool.and_not_self]

theorem Write.Untouched.taken (h : w.Untouched) : taken w = false := by
  rw [InPlaceBudget.taken, h, Bool.not_and_self]

/-- While completions are written, no DPU takes a slot. -/
theorem taken_of_completing (h : Begins p w) (h₁ : w₁ = w ∨ Wrote false w w₁) :
    taken w₁ = false := by
  obtain ⟨rfl, hu⟩ := h
  rcases h₁ with rfl | ⟨hs, hp⟩
  · exact hu.taken
  · cases hn : w.plan.next with
    | none => simp [Write.selected, hn] at hs
    | some next =>
      obtain ⟨hd, ho, -⟩ := w.patch_spec hu hn hp
      have hc : reconfigInProgress (some next) = false := by
        simpa [Write.selected, hn] using hs
      rw [taken, hd, ho, isOccupied, occupiedWith, occupiedWith, hc]
      cases isReady w.plan.dpu <;> cases w.plan.dpu.deleting <;> simp

variable (h : Begins p w) (h₁ : Wrote false w w₁ ∨ w.selected false = false ∧ w₁ = w)

include h h₁

/-- A plan that is not a mark is written with the completions, and then stays. -/
theorem completed_eq (hm : reconfigInProgress p.next = false) :
    w₁.selected true = false ∧ freed w₁ = frees p ∧ taken w₁ = takes p := by
  obtain ⟨rfl, hu⟩ := h
  cases hn : w.plan.next with
  | none =>
    have hk : w₁ = w := by
      rcases h₁ with ⟨hs, -⟩ | ⟨-, hk⟩
      · simp [Write.selected, hn] at hs
      · exact hk
    have he : w.plan.effective = w.plan.dpu.status.dpuReconfig := by
      simp [PlannedReconfig.effective, hn]
    rw [hk, hu.freed, hu.taken, frees, takes, he, ← isOccupied]
    simp [Write.selected, hn]
  | some next =>
    rw [hn] at hm
    have hp : w.patch = some w₁ := by
      rcases h₁ with ⟨-, hp⟩ | ⟨hs, -⟩
      · exact hp
      · simp [Write.selected, hn, hm] at hs
    obtain ⟨hd, ho, hke⟩ := w.patch_spec hu hn hp
    have he : w.plan.effective = some next := by
      simp [PlannedReconfig.effective, hn]
    rw [freed, taken, frees, takes, hd, ho, he]
    refine ⟨?_, rfl, rfl⟩
    rcases hke with hke | hke <;> simp [Write.selected, hke, hm]

/-- A mark is left alone while completions are written; written, it takes its slot. -/
theorem marked_eq (hm : reconfigInProgress p.next = true) :
    w₁ = w ∧ w.selected true = true ∧ frees p = false ∧
      ∀ w₂, Wrote true w w₂ → freed w₂ = false ∧ taken w₂ = takes p := by
  obtain ⟨rfl, hu⟩ := h
  cases hn : w.plan.next with
  | none => simp [hn, reconfigInProgress] at hm
  | some next =>
    rw [hn] at hm
    have he : w.plan.effective = some next := by
      simp [PlannedReconfig.effective, hn]
    have hoc : occupiedWith w.plan.dpu (some next) = true := by simp [occupiedWith, hm]
    refine ⟨?_, by simp [Write.selected, hn, hm], ?_, ?_⟩
    · rcases h₁ with ⟨hs, -⟩ | ⟨-, hk⟩
      · simp [Write.selected, hn, hm] at hs
      · exact hk
    · rw [frees, he, hoc, Bool.not_true, Bool.and_false]
    · rintro w₂ ⟨-, hp⟩
      obtain ⟨hd, ho, -⟩ := w.patch_spec hu hn hp
      rw [freed, taken, takes, hd, ho, he, hoc]
      simp

/-- Once all completions are written, a DPU has lost its slot as planned, and taken one only as
planned. -/
theorem marking_le (h₂ : w₂ = w₁ ∨ Wrote true w₁ w₂) :
    freed w₂ = frees p ∧ (taken w₂ = true → takes p = true) := by
  cases hm : reconfigInProgress p.next with
  | false =>
    obtain ⟨hs, hf, hta⟩ := completed_eq h h₁ hm
    rcases h₂ with rfl | ⟨hselected', -⟩
    · exact ⟨hf, fun ht => hta ▸ ht⟩
    · rw [hs] at hselected'
      cases hselected'
  | true =>
    obtain ⟨rfl, -, hfr, hw⟩ := marked_eq h h₁ hm
    rcases h₂ with rfl | h₂
    · rw [h.2.freed, h.2.taken, hfr]
      exact ⟨rfl, nofun⟩
    · obtain ⟨hf, hta⟩ := hw _ h₂
      exact ⟨hf.trans hfr.symm, fun ht => hta ▸ ht⟩

/-- Once all marks are written as well, every slot is taken as planned. -/
theorem marking_eq
    (h₂ : Wrote true w₁ w₂ ∨ w₁.selected true = false ∧ w₂ = w₁) : taken w₂ = takes p := by
  cases hm : reconfigInProgress p.next with
  | false =>
    obtain ⟨hs, -, ht⟩ := completed_eq h h₁ hm
    rcases h₂ with ⟨hselected', -⟩ | ⟨-, rfl⟩
    · rw [hs] at hselected'
      cases hselected'
    · exact ht
  | true =>
    obtain ⟨rfl, hs, -, hw⟩ := marked_eq h h₁ hm
    rcases h₂ with h₂ | ⟨hn, -⟩
    · exact (hw _ h₂).2
    · rw [hs] at hn
      cases hn

end Elements

section Lists

variable {α β γ : Type*} {R : α → β → Prop} {S : β → γ → Prop}

variable {p : α → Bool} {l : List α} {m : List β}

theorem countP_add_eq {q r s : α → Bool}
    (h : ∀ x, (p x).toNat + (q x).toNat = (r x).toNat + (s x).toNat) (l : List α) :
    l.countP p + l.countP q = l.countP r + l.countP s := by
  have hc (f : α → Bool) (x : α) (l : List α) :
      (x :: l).countP f = l.countP f + (f x).toNat := by
    rw [countP_cons]
    cases f x <;> rfl
  induction l with
  | nil => rfl
  | cons x rest ih =>
    have := h x
    simp only [hc]
    omega

theorem forall₂_comp {n : List γ} (h : List.Forall₂ R l m) (h' : List.Forall₂ S m n) :
    List.Forall₂ (fun a c => ∃ b, R a b ∧ S b c) l n := by
  induction h generalizing n with
  | nil =>
    cases h'
    exact .nil
  | @cons a b l m hab _ ih =>
    cases h' with
    | cons hbc hr => exact .cons ⟨b, hab, hbc⟩ (ih hr)

theorem countP_le_of_forall₂ {q : β → Bool} (h : List.Forall₂ R l m)
    (hR : ∀ a b, R a b → q b = true → p a = true) : m.countP q ≤ l.countP p := by
  induction h with
  | nil => simp
  | @cons a b l m hab _ ih =>
    simp only [countP_cons]
    have := hR a b hab
    split_ifs with hq hp hp
    · omega
    · exact absurd (this hq) hp
    · omega
    · omega

theorem countP_eq_of_forall₂ {q : β → Bool} (h : List.Forall₂ R l m)
    (hR : ∀ a b, R a b → q b = p a) : m.countP q = l.countP p := by
  induction h with
  | nil => rfl
  | @cons a b l m hab _ ih => rw [countP_cons, countP_cons, hR a b hab, ih]

end Lists

theorem begins_mapIdx (planned : List PlannedReconfig) (accepts : ℕ → Bool) :
    List.Forall₂ Begins planned (planned.mapIdx fun i p => ⟨p, p.dpu, accepts i⟩) := by
  induction planned generalizing accepts with
  | nil => exact .nil
  | cons p rest ih =>
    rw [mapIdx_cons]
    exact .cons ⟨rfl, rfl⟩ (ih fun i => accepts (i + 1))

variable {planned : List PlannedReconfig} {ws : List Write}

theorem begins_dpus (h : List.Forall₂ Begins planned ws) :
    ws.map (fun w => w.plan.dpu) = planned.map fun p => p.dpu := by
  induction h with
  | nil => rfl
  | cons hw _ ih => rw [map_cons, map_cons, ih, hw.1]

/-- The writes of a pass: it took no slot, or it freed all slots that it planned to free and took at
most those that it planned to take. -/
theorem writePlans_spec (h : List.Forall₂ Begins planned ws) :
    (writePlans ws).countP taken = 0 ∨
      (writePlans ws).countP freed = planned.countP frees ∧
        (writePlans ws).countP taken ≤ planned.countP takes := by
  unfold writePlans
  dsimp only
  split_ifs with hd
  · right
    have hall := forall₂_comp h (forall₂_comp (patchInPlacePlans_done hd)
      (patchInPlacePlans_forall₂ true (patchInPlacePlans false ws).1))
    exact ⟨countP_eq_of_forall₂ hall fun p w₂ ⟨w, hw, w₁, h₁, h₂⟩ => (marking_le hw h₁ h₂).1,
      countP_le_of_forall₂ hall fun p w₂ ⟨w, hw, w₁, h₁, h₂⟩ => (marking_le hw h₁ h₂).2⟩
  · left
    have hall := forall₂_comp h (patchInPlacePlans_forall₂ false ws)
    rw [countP_eq_of_forall₂ (p := fun _ => false) hall fun p w₁ ⟨w, hw, h₁⟩ =>
      taken_of_completing hw h₁]
    simp

theorem writePlans_accepted (h : List.Forall₂ Begins planned ws)
    (ha : ∀ w ∈ ws, w.accepted = true) :
    (writePlans ws).countP freed = planned.countP frees ∧
      (writePlans ws).countP taken = planned.countP takes := by
  have hd : (patchInPlacePlans false ws).2 = true := patchInPlacePlans_of_accepted ha
  have hs : ∀ w ∈ (patchInPlacePlans false ws).1, w.accepted = true := by
    intro w hw
    have hmem := mem_map_of_mem (f := Write.accepted) hw
    rw [patchInPlacePlans_map (fun _ _ hp => (Write.patch_frame hp).2)] at hmem
    obtain ⟨w', hw', heq⟩ := mem_map.mp hmem
    rw [← heq]
    exact ha w' hw'
  have hdone' : (patchInPlacePlans true (patchInPlacePlans false ws).1).2 = true :=
    patchInPlacePlans_of_accepted hs
  have hall := forall₂_comp h (forall₂_comp (patchInPlacePlans_done hd)
    (patchInPlacePlans_done hdone'))
  unfold writePlans
  rw [if_pos hd]
  refine ⟨countP_eq_of_forall₂ hall fun p w₂ ⟨w, hw, w₁, h₁, h₂⟩ => ?_,
    countP_eq_of_forall₂ hall fun p w₂ ⟨w, hw, w₁, h₁, h₂⟩ => marking_eq hw h₁ h₂⟩
  exact (marking_le hw h₁ (h₂.symm.imp And.right id)).1

theorem writePlans_dpus (ws : List Write) :
    (writePlans ws).map (fun w => w.plan.dpu) = ws.map fun w => w.plan.dpu := by
  have hk (starts : Bool) (ws : List Write) :
      (patchInPlacePlans starts ws).1.map (fun w => w.plan.dpu) = ws.map fun w => w.plan.dpu :=
    patchInPlacePlans_map (fun _ _ hp => (Write.patch_frame hp).1) starts ws
  unfold writePlans
  dsimp only
  split_ifs
  · rw [hk, hk]
  · exact hk false ws

/-! ## Counting the plans -/

/-- The pass takes the DPU out of progress. -/
def finishes (startedAt : Time) (d : DPU) : Bool :=
  !d.deleting && agentSupportsInPlace d && reconfigInProgress d.status.dpuReconfig &&
    (d.status.outdated || readyAtOrAfter d startedAt)

/-- The DPU still takes a slot after the completions. -/
def staysOccupied (startedAt : Time) (d : DPU) : Bool :=
  !isReady d || d.deleting ||
    (reconfigInProgress d.status.dpuReconfig && !finishes startedAt d)

/-- The DPU takes a slot that the pass does not count: its Ready condition is Unknown, and it is
neither being deleted nor in progress after the completions. -/
def isUncounted (startedAt : Time) (d : DPU) : Bool :=
  d.status.ready.any (fun c => c.status == .isUnknown) && !d.deleting &&
    !(reconfigInProgress d.status.dpuReconfig && !finishes startedAt d)

/-- The DPU waits for a free slot to be marked. -/
def isStartable (round : ℕ) (startedAt : Time) (requested : Bool) (d : DPU) : Bool :=
  requested && !d.deleting && !d.status.outdated && agentSupportsInPlace d &&
    !reconfigInProgress d.status.dpuReconfig && decide (completedRound d.status.dpuReconfig < round) &&
    !createdAfterRound d startedAt && readyBeforeRound d startedAt

section Plans

variable {round : ℕ} {startedAt : Time} {requested : Bool} {d : DPU}

theorem isReady_of_readyAtOrAfter (h : readyAtOrAfter d startedAt = true) : isReady d = true := by
  obtain ⟨-, t, ht, -⟩ := readyAtOrAfter_iff.mp h
  simp [isReady, ht]

theorem readyBeforeRound_iff : readyBeforeRound d startedAt = true ↔
    d.status.phase = .ready ∧ ∃ t, d.status.readySince = some t ∧ (t = 0 ∨ t < startedAt) := by
  unfold readyBeforeRound readyConditionTime
  by_cases hph : d.status.phase = .ready
  · rw [if_pos hph]
    cases d.status.readySince with
    | none => simp
    | some t => simp [hph]
  · simp [hph]

theorem readyAtOrAfter_of_before (h : readyBeforeRound d startedAt = true) :
    readyAtOrAfter d startedAt = false := by
  obtain ⟨-, t, ht, hb⟩ := readyBeforeRound_iff.mp h
  by_contra ha
  obtain ⟨-, t', ht', hne, hle⟩ := readyAtOrAfter_iff.mp (by simpa using ha)
  cases ht.symm.trans ht'
  rcases hb with hz | hlt
  · exact hne hz
  · exact absurd hle (not_le.mpr hlt)

theorem planInPlaceCompletion_of_finishes (h : finishes startedAt d = true) :
    (planInPlaceCompletion d round startedAt requested).next.isSome = true := by
  unfold finishes at h
  simp only [Bool.and_eq_true, Bool.not_eq_true', Bool.or_eq_true] at h
  obtain ⟨⟨⟨hd, ha⟩, hp⟩, hc⟩ := h
  unfold planInPlaceCompletion
  simp only [hd, ha, hp, Bool.not_true, Bool.or_false, Bool.false_eq_true, if_false,
    if_true, Bool.true_and]
  cases ho : d.status.outdated with
  | true => rfl
  | false =>
    rw [ho] at hc
    simp only [Bool.false_eq_true, false_or] at hc
    rw [if_neg (by simp), if_pos hc]
    rfl

/-- A DPU with a plan is not startable. -/
theorem planInPlaceCompletion_isSome
    (h : (planInPlaceCompletion d round startedAt requested).next.isSome = true) :
    agentSupportsInPlace d = true ∧ isStartable round startedAt requested d = false ∧
      (d.status.outdated = true → reconfigInProgress d.status.dpuReconfig = true) := by
  unfold planInPlaceCompletion at h
  dsimp only at h
  split_ifs at h with hs ho hp hd hst
  all_goals simp only [Option.isSome_none, Bool.false_eq_true] at h
  all_goals
    simp only [Bool.or_eq_true, Bool.not_eq_true', not_or, Bool.not_eq_true, Bool.not_eq_false]
      at hs
  · exact ⟨hs.2, by simp [isStartable, ho], fun _ => hp⟩
  · refine ⟨hs.2, ?_, fun ht => absurd ht ho⟩
    rw [Bool.and_eq_true] at hd
    simp [isStartable, hd.1]
  · refine ⟨hs.2, ?_, fun ht => absurd ht ho⟩
    rw [Bool.and_eq_true] at hst
    have hn : readyBeforeRound d startedAt = false := by
      by_contra hb
      have := readyAtOrAfter_of_before (by simpa using hb)
      rw [hst.2] at this
      cases this
    simp [isStartable, hn]

/-- What the completion of a DPU does to its slot, as it is and as the pass counts it. -/
theorem completion_slots :
    takes (planInPlaceCompletion d round startedAt requested) = false ∧
    frees (planInPlaceCompletion d round startedAt requested) =
      (finishes startedAt d && isReady d) ∧
    completionFreedSlot (planInPlaceCompletion d round startedAt requested) =
      (finishes startedAt d && !isUnavailable d) := by
  have hfi : finishes startedAt d = true →
      (planInPlaceCompletion d round startedAt requested).next.isSome = true :=
    planInPlaceCompletion_of_finishes
  rw [takes, frees, completionFreedSlot, PlannedReconfig.effective, planInPlaceCompletion_dpu]
  cases hn : (planInPlaceCompletion d round startedAt requested).next with
  | none =>
    have hno : finishes startedAt d = false := by
      by_contra hf
      rw [hn] at hfi
      simpa using hfi (by simpa using hf)
    simp [hno, isOccupied]
  | some next =>
    obtain ⟨hi, -, hd, hc⟩ := planInPlaceCompletion_settles hn
    rw [planInPlaceCompletion_dpu] at hd hc
    have hs : (planInPlaceCompletion d round startedAt requested).next.isSome = true := by
      rw [hn]
      rfl
    obtain ⟨hag, -, hp⟩ := planInPlaceCompletion_isSome hs
    have hr : d.status.outdated = false → isReady d = true := by
      intro ho
      rcases hc with ⟨ht, -⟩ | ⟨-, ha, -⟩
      · rw [ho] at ht
        cases ht
      · exact isReady_of_readyAtOrAfter ha
    have ha : d.status.outdated = false → readyAtOrAfter d startedAt = true := by
      intro ho
      rcases hc with ⟨ht, -⟩ | ⟨-, ha, -⟩
      · rw [ho] at ht
        cases ht
      · exact ha
    simp only [Option.isSome_some, if_true, isOccupied, occupiedWith, hd, hi, finishes, hag,
      inProgressStillReady]
    cases ho : d.status.outdated <;> cases isReady d <;>
      cases reconfigInProgress d.status.dpuReconfig <;> simp_all

/-- A DPU that joins without a slot is out of service already. -/
def OutOfService (d : DPU) : Prop :=
  phaseJoinsWithoutNewSlot d.status.phase = true →
    reconfigInProgress d.status.dpuReconfig = false → isReady d = false

instance (d : DPU) : Decidable (OutOfService d) :=
  inferInstanceAs (Decidable (_ → _ → _))

theorem slots_of_unplanned (d : DPU) : frees ⟨d, none⟩ = false ∧ takes ⟨d, none⟩ = false := by
  rw [frees, takes, PlannedReconfig.effective, isOccupied]
  simp

theorem slots_of_mark (d : DPU) {next : DPUReconfigStatus} (h : next.inProgress = some true) :
    frees ⟨d, some next⟩ = false ∧ takes ⟨d, some next⟩ = !isOccupied d := by
  have hp : reconfigInProgress (some next) = true := by simp [reconfigInProgress, h]
  simp [frees, takes, PlannedReconfig.effective, occupiedWith, hp]

theorem isStartable_eq : isStartable round startedAt requested d =
    (!(!requested || d.deleting || d.status.outdated || !agentSupportsInPlace d) &&
      !(reconfigInProgress d.status.dpuReconfig ||
        decide (round ≤ completedRound d.status.dpuReconfig) || createdAfterRound d startedAt) &&
      readyBeforeRound d startedAt) := by
  have hlt : decide (completedRound d.status.dpuReconfig < round) =
      !decide (round ≤ completedRound d.status.dpuReconfig) := by
    rw [← decide_not]
    simp only [not_le]
  simp only [isStartable, hlt, Bool.not_or, Bool.not_not, Bool.and_assoc]

theorem isOccupied_of_isStartable (h : isStartable round startedAt requested d = true) :
    isOccupied d = false := by
  simp only [isStartable, Bool.and_eq_true, Bool.not_eq_true'] at h
  obtain ⟨⟨⟨⟨⟨⟨⟨-, hd⟩, -⟩, -⟩, hi⟩, -⟩, -⟩, hb⟩ := h
  obtain ⟨-, t, ht, -⟩ := readyBeforeRound_iff.mp hb
  simp [isOccupied, occupiedWith, isReady, ht, hd, hi]

/-- `planInPlaceStart` leaves a DPU alone, marks it for a slot, or marks it in a phase that needs no
slot. -/
theorem planInPlaceStart_cases (round : ℕ) (startedAt : Time) (requested : Bool) (d : DPU)
    (slots : ℤ) :
    planInPlaceStart d round startedAt requested slots = (⟨d, none⟩, 0) ∧
      (isStartable round startedAt requested d && decide (0 < slots)) = false ∨
    ∃ next : DPUReconfigStatus, next.inProgress = some true ∧
      (planInPlaceStart d round startedAt requested slots = (⟨d, some next⟩, 1) ∧
          isStartable round startedAt requested d = true ∧ 0 < slots ∨
        planInPlaceStart d round startedAt requested slots = (⟨d, some next⟩, 0) ∧
          isStartable round startedAt requested d = false ∧
          phaseJoinsWithoutNewSlot d.status.phase = true ∧
          reconfigInProgress d.status.dpuReconfig = false) := by
  unfold planInPlaceStart
  dsimp only
  rw [isStartable_eq]
  by_cases hs : (!requested || d.deleting || d.status.outdated || !agentSupportsInPlace d) = true
  · rw [if_pos hs, hs]
    exact .inl ⟨rfl, by simp⟩
  rw [if_neg hs, Bool.eq_false_of_not_eq_true hs]
  by_cases hd : (reconfigInProgress d.status.dpuReconfig ||
      decide (round ≤ completedRound d.status.dpuReconfig) || createdAfterRound d startedAt) = true
  · rw [if_pos hd, hd]
    exact .inl ⟨rfl, by simp⟩
  have hi : reconfigInProgress d.status.dpuReconfig = false := by
    simp only [Bool.or_eq_true, not_or, Bool.not_eq_true] at hd
    exact hd.1.1
  rw [if_neg hd, Bool.eq_false_of_not_eq_true hd]
  cases hb : readyBeforeRound d startedAt with
  | true =>
    rw [if_pos rfl]
    by_cases hsl : slots ≤ 0
    · rw [if_pos hsl]
      exact .inl ⟨rfl, by simp [hsl]⟩
    · rw [if_neg hsl]
      exact .inr ⟨_, rfl, .inl ⟨rfl, rfl, not_le.mp hsl⟩⟩
  | false =>
    rw [if_neg (by simp)]
    by_cases hj : phaseJoinsWithoutNewSlot d.status.phase = true
    · rw [if_pos hj]
      exact .inr ⟨_, rfl, .inr ⟨rfl, rfl, hj, hi⟩⟩
    · rw [if_neg hj]
      exact .inl ⟨rfl, by simp⟩

/-- A startable DPU takes a slot if there is one; no other DPU takes a slot by being marked. -/
theorem start_slots (hd : OutOfService d) (slots : ℤ) :
    frees (planInPlaceStart d round startedAt requested slots).1 = false ∧
    takes (planInPlaceStart d round startedAt requested slots).1 =
      (isStartable round startedAt requested d && decide (0 < slots)) ∧
    (planInPlaceStart d round startedAt requested slots).2 =
      if isStartable round startedAt requested d && decide (0 < slots) then 1 else 0 := by
  rcases planInPlaceStart_cases round startedAt requested d slots with
    ⟨heq, hno⟩ | ⟨next, hn, ⟨heq, hst, hs⟩ | ⟨heq, hno, hj, hi⟩⟩
  · obtain ⟨hf, ht⟩ := slots_of_unplanned d
    rw [heq, hno]
    exact ⟨hf, ht, rfl⟩
  · obtain ⟨hf, ht⟩ := slots_of_mark d hn
    rw [heq, hf, ht, isOccupied_of_isStartable hst, hst]
    simp [hs]
  · obtain ⟨hf, ht⟩ := slots_of_mark d hn
    have ho : isOccupied d = true := by simp [isOccupied, occupiedWith, hd hj hi]
    rw [heq, hf, ht, ho, hno]
    simp

/-- The second loop frees nothing, and hands out its slots to startable DPUs while they last. -/
theorem planStarts_slots {dpus : List DPU} (hd : ∀ d ∈ dpus, OutOfService d) (slots : ℤ) :
    (planStarts round startedAt requested slots
        (dpus.map fun d => planInPlaceCompletion d round startedAt requested)).countP frees =
      dpus.countP (fun d => finishes startedAt d && isReady d) ∧
    (planStarts round startedAt requested slots
        (dpus.map fun d => planInPlaceCompletion d round startedAt requested)).countP takes =
      min (dpus.countP (isStartable round startedAt requested)) slots.toNat := by
  induction dpus generalizing slots with
  | nil => simp [planStarts]
  | cons d rest ih =>
    have hr := fun slots => ih (fun x hx => hd x (mem_cons_of_mem _ hx)) slots
    obtain ⟨ht, hfr, -⟩ := @completion_slots round startedAt requested d
    rw [map_cons, planStarts]
    split_ifs with hn
    · have hno := (planInPlaceCompletion_isSome hn).2.1
      simp only [countP_cons, hr, ht, hfr, hno]
      simp
    · have hno : finishes startedAt d = false := by
        by_contra hf
        exact hn (planInPlaceCompletion_of_finishes (by simpa using hf))
      rw [planInPlaceCompletion_dpu]
      obtain ⟨hfrees', htakes', hu⟩ :=
        @start_slots round startedAt requested d (hd d mem_cons_self) slots
      simp only [countP_cons, hr, hfrees', htakes', hu, hno, Bool.false_and]
      refine ⟨by simp, ?_⟩
      cases isStartable round startedAt requested d with
      | false => simp
      | true =>
        by_cases hs : 0 < slots
        · simp only [hs, decide_true, Bool.and_true, if_true]
          omega
        · simp only [hs, decide_false, Bool.and_false, Bool.false_eq_true, if_false, if_true]
          omega

end Plans

/-! ## Counting the slots -/

section Counting

variable {startedAt : Time}

theorem finishes_inProgress {d : DPU} (h : finishes startedAt d = true) :
    d.deleting = false ∧ reconfigInProgress d.status.dpuReconfig = true := by
  simp only [finishes, Bool.and_eq_true, Bool.not_eq_true'] at h
  exact ⟨h.1.1.1, h.1.2⟩

/-- The slot of one DPU after the completions, as it is and as the pass counts it. -/
theorem toNat_slots (d : DPU) :
    (isUnavailable d || inProgressStillReady d).toNat + (isUncounted startedAt d).toNat =
      (staysOccupied startedAt d).toNat + (finishes startedAt d && !isUnavailable d).toNat ∧
    (staysOccupied startedAt d).toNat + (finishes startedAt d && isReady d).toNat =
      (isOccupied d).toNat + false.toNat := by
  have hf : finishes startedAt d = true →
      d.deleting = false ∧ reconfigInProgress d.status.dpuReconfig = true := finishes_inProgress
  unfold isUncounted staysOccupied isOccupied occupiedWith inProgressStillReady isUnavailable
    isReady DPUStatus.readySince
  revert hf
  -- Everything else is read off the Ready condition and three flags.
  cases finishes startedAt d <;> cases d.deleting <;>
    cases reconfigInProgress d.status.dpuReconfig <;> intro hf
  all_goals simp only [Bool.false_eq_true, Bool.true_eq_false, and_false, and_true, imp_false,
    not_true_eq_false] at hf
  all_goals
    cases d.status.ready with
    | none => exact ⟨rfl, rfl⟩
    | some c =>
      obtain ⟨status, _⟩ := c
      cases status <;> exact ⟨rfl, rfl⟩

/-- The occupied slots after the completions, as they are and as the pass counts them. -/
theorem countP_slots (dpus : List DPU) :
    dpus.countP (fun d => isUnavailable d || inProgressStillReady d) +
        dpus.countP (isUncounted startedAt) = dpus.countP (staysOccupied startedAt) +
        dpus.countP (fun d => finishes startedAt d && !isUnavailable d) ∧
    dpus.countP (staysOccupied startedAt) +
        dpus.countP (fun d => finishes startedAt d && isReady d) = dpus.countP isOccupied := by
  constructor
  · exact countP_add_eq (fun d => (toNat_slots d).1) dpus
  · have ha := countP_add_eq (fun d => (@toNat_slots startedAt d).2) dpus
    simpa using ha

/-- The slots that the second loop of a pass has. -/
theorem inPlaceReadySlots_toNat (maxUnavailable : ℤ) (total : ℕ) (dpus : List DPU) :
    (inPlaceReadySlots maxUnavailable total dpus
        (dpus.countP fun d => finishes startedAt d && !isUnavailable d)).toNat =
      slotLimit maxUnavailable total + dpus.countP (isUncounted startedAt) -
        ((total - dpus.length) + dpus.countP (staysOccupied startedAt)) := by
  have hc := (@countP_slots startedAt dpus).1
  have hl : (slotLimit maxUnavailable total : ℤ) =
      if maxUnavailable < 1 then (1 : ℤ)
      else if (total : ℤ) < maxUnavailable then (total : ℤ) else maxUnavailable := by
    unfold slotLimit
    split_ifs <;> omega
  unfold inPlaceReadySlots
  simp only [← hl]
  split_ifs with hf
  · omega
  · omega

end Counting

section Pass

variable {maxUnavailable : ℤ} {total round : ℕ} {startedAt : Time} {requested : Bool}
  {dpus : List DPU}

/-- The slots that a pass plans to free and to take. -/
theorem planInPlace_slots (hd : ∀ d ∈ dpus, OutOfService d) :
    (planInPlace maxUnavailable total round startedAt requested dpus).countP frees =
      dpus.countP (fun d => finishes startedAt d && isReady d) ∧
    (planInPlace maxUnavailable total round startedAt requested dpus).countP takes =
      min (dpus.countP (isStartable round startedAt requested))
        (slotLimit maxUnavailable total + dpus.countP (isUncounted startedAt) -
          ((total - dpus.length) + dpus.countP (staysOccupied startedAt))) := by
  have hf : (dpus.map fun d => planInPlaceCompletion d round startedAt requested).countP
      completionFreedSlot = dpus.countP fun d => finishes startedAt d && !isUnavailable d := by
    rw [countP_map]
    exact countP_congr fun d _ => by
      rw [Function.comp_apply, (@completion_slots round startedAt requested d).2.2]
  unfold planInPlace
  dsimp only
  rw [hf, ← inPlaceReadySlots_toNat]
  exact planStarts_slots hd _

/-- The occupied slots after a pass are those before it, without the freed and with the taken. -/
theorem occupiedSlots_after (accepts : ℕ → Bool) :
    occupiedSlots total ((reconcileInPlaceReconfig maxUnavailable total round startedAt requested
        accepts dpus).map Write.stored) +
      (reconcileInPlaceReconfig maxUnavailable total round startedAt requested accepts dpus).countP
        freed = occupiedSlots total dpus +
      (reconcileInPlaceReconfig maxUnavailable total round startedAt requested accepts dpus).countP
        taken := by
  have hd : (reconcileInPlaceReconfig maxUnavailable total round startedAt requested accepts
      dpus).map (fun w => w.plan.dpu) = dpus := by
    unfold reconcileInPlaceReconfig
    rw [writePlans_dpus, begins_dpus (begins_mapIdx _ accepts), planInPlace_dpus]
  generalize reconcileInPlaceReconfig maxUnavailable total round startedAt requested accepts
    dpus = ws at hd ⊢
  have hc := countP_add_eq (p := fun w => isOccupied w.stored) (q := freed)
    (r := fun w => isOccupied w.plan.dpu) (s := taken) (fun w => by
      unfold freed taken
      cases isOccupied w.stored <;> cases isOccupied w.plan.dpu <;> rfl) ws
  have hb : ws.countP (fun w => isOccupied w.plan.dpu) = dpus.countP isOccupied := by
    rw [← hd, countP_map]
    rfl
  have hl : ws.length = dpus.length := by rw [← hd, length_map]
  unfold occupiedSlots
  rw [countP_map, length_map, hl]
  change _ + ws.countP (fun w => isOccupied w.stored) + _ = _
  omega

/-- A pass takes no slot, or it frees all slots that it can and takes at most those that it has. -/
theorem pass_slots (hd : ∀ d ∈ dpus, OutOfService d) (accepts : ℕ → Bool) :
    (reconcileInPlaceReconfig maxUnavailable total round startedAt requested accepts dpus).countP
        taken = 0 ∨
    (reconcileInPlaceReconfig maxUnavailable total round startedAt requested accepts dpus).countP
        freed = dpus.countP (fun d => finishes startedAt d && isReady d) ∧
    (reconcileInPlaceReconfig maxUnavailable total round startedAt requested accepts dpus).countP
        taken ≤ min (dpus.countP (isStartable round startedAt requested))
          (slotLimit maxUnavailable total + dpus.countP (isUncounted startedAt) -
            ((total - dpus.length) + dpus.countP (staysOccupied startedAt))) := by
  obtain ⟨hf, ht⟩ :=
    @planInPlace_slots maxUnavailable total round startedAt requested dpus hd
  rw [← hf, ← ht]
  exact writePlans_spec (begins_mapIdx _ accepts)

/-- A pass in which every patch is accepted takes all slots that it has. -/
theorem pass_slots_accepted (hd : ∀ d ∈ dpus, OutOfService d) :
    (reconcileInPlaceReconfig maxUnavailable total round startedAt requested (fun _ => true)
        dpus).countP freed = dpus.countP (fun d => finishes startedAt d && isReady d) ∧
    (reconcileInPlaceReconfig maxUnavailable total round startedAt requested (fun _ => true)
        dpus).countP taken = min (dpus.countP (isStartable round startedAt requested))
          (slotLimit maxUnavailable total + dpus.countP (isUncounted startedAt) -
            ((total - dpus.length) + dpus.countP (staysOccupied startedAt))) := by
  obtain ⟨hf, ht⟩ :=
    @planInPlace_slots maxUnavailable total round startedAt requested dpus hd
  rw [← hf, ← ht]
  refine writePlans_accepted (begins_mapIdx _ fun _ => true) fun w hw => ?_
  obtain ⟨i, hi, rfl⟩ := mem_mapIdx.mp hw
  rfl

/-- The pass keeps to the budget: it counts every DPU, no DPU waits for a slot, the limit is reached
even without the DPUs that it does not count, or there is a slot for every DPU that waits. -/
def WithinBudget (maxUnavailable : ℤ) (total round : ℕ) (startedAt : Time) (requested : Bool)
    (dpus : List DPU) : Prop :=
  let limit := slotLimit maxUnavailable total
  let uncounted := dpus.countP (isUncounted startedAt)
  let startable := dpus.countP (isStartable round startedAt requested)
  let occupied := (total - dpus.length) + dpus.countP (staysOccupied startedAt)
  uncounted = 0 ∨ startable = 0 ∨ limit + uncounted ≤ occupied ∨ occupied + startable ≤ limit

end Pass

/-- One pass keeps the occupied slots within the limit, or within those before it without the slots
that its completions freed, whichever patches fail, exactly if the listed DPUs meet the condition. -/
theorem inPlace_within_budget_iff (maxUnavailable : ℤ) (total round : ℕ) (startedAt : Time)
    (requested : Bool) {dpus : List DPU} (hdpus : ∀ d ∈ dpus, OutOfService d) :
    (∀ accepts : ℕ → Bool,
      occupiedSlots total ((reconcileInPlaceReconfig maxUnavailable total round startedAt requested
          accepts dpus).map Write.stored) ≤
        max (slotLimit maxUnavailable total)
          (occupiedSlots total dpus - (reconcileInPlaceReconfig maxUnavailable total round startedAt
            requested accepts dpus).countP freed)) ↔
    WithinBudget maxUnavailable total round startedAt requested dpus := by
  have hs := (@countP_slots startedAt dpus).2
  have hb : occupiedSlots total dpus = (total - dpus.length) + dpus.countP isOccupied := rfl
  unfold WithinBudget
  dsimp only
  constructor
  · intro h
    have hall := h fun _ => true
    have ha := @occupiedSlots_after maxUnavailable total round startedAt requested dpus
      fun _ => true
    obtain ⟨hf, ht⟩ :=
      @pass_slots_accepted maxUnavailable total round startedAt requested dpus hdpus
    omega
  · intro h accepts
    have ha := @occupiedSlots_after maxUnavailable total round startedAt requested dpus accepts
    rcases @pass_slots maxUnavailable total round startedAt requested dpus hdpus accepts with
      hn | ⟨hf, ht⟩
    · omega
    · omega

def dpuIn (name : String) (phase : Phase) (ready : ConditionStatus) : DPU where
  name := name
  resourceVersion := 1
  creationTimestamp := 1
  deleting := false
  status :=
    { phase := phase
      previousPhase := none
      ready := some ⟨ready, "", "", 5⟩
      reconfiguring := none
      failed := false
      postProvisioningDPUConfig := none
      postProvisioningNodeEffect := none
      agentLastStartupTime := none
      agentStatus := some ⟨"v1", none, none, none, 0⟩
      outdated := false
      dpuReconfig := none }

/-- Two Ready DPUs beside one in Node Effect, with two slots. -/
def oneOutOfService : List DPU :=
  [dpuIn "a" .nodeEffect .isFalse, dpuIn "b" .ready .isTrue, dpuIn "c" .ready .isTrue]

/-- One of the two Ready DPUs is marked, and the third joins without a slot. -/
theorem one_out_of_service_within_budget :
    occupiedSlots 3 oneOutOfService = 1 ∧
      ∀ accepts, occupiedSlots 3 ((reconcileInPlaceReconfig 2 3 1 10 true accepts
        oneOutOfService).map Write.stored) ≤ 2 := by
  have hb : occupiedSlots 3 oneOutOfService = 1 := by decide
  have ho : ∀ d ∈ oneOutOfService, OutOfService d := by decide
  have hw : WithinBudget 2 3 1 10 true oneOutOfService := .inl (by decide)
  refine ⟨hb, fun accepts => ?_⟩
  have hle := (inPlace_within_budget_iff 2 3 1 10 true ho).mpr hw accepts
  have hl : slotLimit 2 3 = 2 := by decide
  omega

def unknownAndReady : List DPU :=
  [dpuIn "a" .ready .isUnknown, dpuIn "b" .ready .isTrue]

/-- The first DPU is not Ready but takes no slot, so that the second one is marked as well. -/
theorem unknown_ready_overspends_marks :
    (∀ d ∈ unknownAndReady, OutOfService d) ∧ slotLimit 1 2 = 1 ∧
      occupiedSlots 2 unknownAndReady = 1 ∧
      ¬ occupiedSlots 2 ((reconcileInPlaceReconfig 1 2 1 10 true (fun _ => true)
          unknownAndReady).map Write.stored) ≤
        max (slotLimit 1 2) (occupiedSlots 2 unknownAndReady - (reconcileInPlaceReconfig 1 2 1 10
          true (fun _ => true) unknownAndReady).countP freed) := by
  decide

end DocaPlatform.InPlaceBudget
