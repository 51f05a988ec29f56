import DocaPlatform.Runs

/-!
# Forcing a resync of all service chains

`TriggerResync` may be called by several goroutines at once. A call that finds a resync active
leaves a note and returns; the call that runs the resync repeats it as long as there is a note. The
calls are taken statement by statement, with the mutex as the party that holds it. Every call is
followed by a pass that started after the call took the lock.
-/
namespace DocaPlatform.ServiceChainResync

open Runs Function

/-! ## Calls -/

/-- Where a call stands. Errors and chains are of arbitrary types. -/
inductive Loc (ε ν : Type) where
  | outside
  /-- Before `resyncMu.Lock()`. -/
  | start
  /-- With the lock, before it reads `resyncActive`. -/
  | entered
  /-- `resyncPending` is set, before the lock is released. -/
  | coalesced
  /-- `resyncActive` is set, before the lock is released. -/
  | claimed
  /-- Before `resyncAllChains`. -/
  | looping
  /-- In `resyncAllChains`: before the list request, or with the chains that are still to be
  enqueued. -/
  | passing (todo : Option (List ν))
  | passed (err : Option ε)
  /-- With the lock, before it reads `resyncPending`. -/
  | checking (err : Option ε)
  /-- `resyncActive` is reset, before the lock is released. -/
  | leaving (err : Option ε)
  /-- `resyncPending` is reset, before the lock is released. -/
  | repeating
  | returned (err : Option ε)

/-- A call, with what happened to it. Only `loc` is state of the program. -/
structure Call (ε ν : Type) where
  loc : Loc ε ν
  /-- How many passes had started when the call took the lock. -/
  accepted : Option ℕ
  /-- What the call read of `resyncActive`. -/
  found : Option Bool
  /-- How many passes the call has started. -/
  passes : ℕ

def Call.outside {ε ν : Type} : Call ε ν := ⟨.outside, none, none, 0⟩

structure World (κ ε ν : Type) where
  /-- Who holds `resyncMu`. -/
  holder : Option κ
  resyncActive : Bool
  resyncPending : Bool
  calls : κ → Call ε ν
  /-- The chains that were sent to `resyncCh`. -/
  enqueued : List ν
  /-- How many passes have started. -/
  started : ℕ

inductive Event (κ ε ν : Type) where
  | call (c : κ)
  | lock (c : κ)
  /-- Under the lock: read and set the flags. -/
  | decide (c : κ)
  | unlock (c : κ)
  | startPass (c : κ)
  | list (c : κ) (chains : Except ε (List ν))
  | send (c : κ)
  /-- The context is done. -/
  | cancel (c : κ) (err : ε)
  /-- All chains are enqueued. -/
  | finish (c : κ)

variable {κ ε ν : Type} [DecidableEq κ]

namespace World

def loc (w : World κ ε ν) (c : κ) : Loc ε ν := (w.calls c).loc

def setCall (w : World κ ε ν) (c : κ) (call : Call ε ν) : World κ ε ν :=
  { w with calls := update w.calls c call }

def move (w : World κ ε ν) (c : κ) (loc : Loc ε ν) : World κ ε ν :=
  w.setCall c { w.calls c with loc := loc }

def exec (w : World κ ε ν) : Event κ ε ν → Option (World κ ε ν)
  | .call c =>
    match w.loc c with
    | .outside => some (w.move c .start)
    | _ => none
  | .lock c =>
    if w.holder.isSome then none
    else
      match w.loc c with
      | .start => some { w.setCall c { w.calls c with loc := .entered, accepted := some w.started }
                         with holder := some c }
      | .passed err => some { w.move c (.checking err) with holder := some c }
      | _ => none
  | .decide c =>
    match w.loc c with
    | .entered =>
      if w.resyncActive then
        some { w.setCall c { w.calls c with loc := .coalesced, found := some true }
               with resyncPending := true }
      else
        some { w.setCall c { w.calls c with loc := .claimed, found := some false }
               with resyncActive := true }
    | .checking err =>
      if !w.resyncPending then some { w.move c (.leaving err) with resyncActive := false }
      else some { w.move c .repeating with resyncPending := false }
    | _ => none
  | .unlock c =>
    match w.loc c with
    | .coalesced => some { w.move c (.returned none) with holder := none }
    | .claimed => some { w.move c .looping with holder := none }
    | .leaving err => some { w.move c (.returned err) with holder := none }
    | .repeating => some { w.move c .looping with holder := none }
    | _ => none
  | .startPass c =>
    match w.loc c with
    | .looping =>
      some { w.setCall c { w.calls c with loc := .passing none, passes := (w.calls c).passes + 1 }
             with started := w.started + 1 }
    | _ => none
  | .list c chains =>
    match w.loc c, chains with
    | .passing none, .error err => some (w.move c (.passed (some err)))
    | .passing none, .ok chains => some (w.move c (.passing (some chains)))
    | _, _ => none
  | .send c =>
    match w.loc c with
    | .passing (some (chain :: rest)) =>
      some { w.move c (.passing (some rest)) with enqueued := w.enqueued ++ [chain] }
    | _ => none
  | .cancel c err =>
    match w.loc c with
    | .passing (some (_ :: _)) => some (w.move c (.passed (some err)))
    | _ => none
  | .finish c =>
    match w.loc c with
    | .passing (some []) => some (w.move c (.passed none))
    | _ => none

end World

def Step (w : World κ ε ν) (e : Event κ ε ν) (w' : World κ ε ν) : Prop := w.exec e = some w'

structure Init (w : World κ ε ν) : Prop where
  holder : w.holder = none
  active : w.resyncActive = false
  pending : w.resyncPending = false
  calls : ∀ c, w.calls c = .outside

def Loc.holding : Loc ε ν → Bool
  | .entered | .coalesced | .claimed | .checking _ | .leaving _ | .repeating => true
  | _ => false

/-- The call runs the resync. -/
def Loc.running : Loc ε ν → Bool
  | .claimed | .looping | .passing _ | .passed _ | .checking _ | .repeating => true
  | _ => false

/-- The call starts a pass without looking at the flags again. -/
def Loc.imminent : Loc ε ν → Bool
  | .claimed | .looping | .repeating => true
  | _ => false

variable {l : Loc ε ν} {call : Call ε ν}

theorem Loc.running_of_imminent (h : l.imminent = true) : l.running = true := by
  cases l <;> first | rfl | cases h

/-- A call that found a resync active starts no pass, and has returned nothing but nil. -/
def CallOk (call : Call ε ν) : Prop :=
  match call.loc with
  | .outside | .start | .entered => call.found = none ∧ call.passes = 0
  | .coalesced => call.found = some true ∧ call.passes = 0
  | .returned err => call.found = some true ∧ call.passes = 0 ∧ err = none ∨ call.found = some false
  | _ => call.found = some false

theorem CallOk.of_passes (h : CallOk call) (hp : 0 < call.passes) : call.found = some false := by
  unfold CallOk at h
  split at h
  · omega
  · omega
  · omega
  · omega
  · rcases h with ⟨-, hz, -⟩ | hf
    · omega
    · exact hf
  · exact h

/-- A pass is going to start. -/
def World.Due (w : World κ ε ν) : Prop :=
  w.resyncPending = true ∨ ∃ c, (w.loc c).imminent = true

structure Inv (w : World κ ε ν) : Prop where
  call : ∀ c, CallOk (w.calls c)
  holder : ∀ c, (w.loc c).holding = true ↔ w.holder = some c
  active : ∀ c, (w.loc c).running = true → w.resyncActive = true
  single : ∀ a b, (w.loc a).running = true → (w.loc b).running = true → a = b
  pending : w.resyncPending = true → w.resyncActive = true
  /-- Every call that was accepted before the next pass is followed by one. -/
  accepted : ∀ c k, (w.calls c).accepted = some k →
    k ≤ w.started ∧ (k < w.started ∨ w.loc c = .entered ∨ w.Due)

variable {w w' : World κ ε ν} {c d : κ}

omit [DecidableEq κ] in
theorem Init.inv (h : Init w) : Inv w := by
  have hl : ∀ c, w.loc c = .outside := fun c => by rw [World.loc, h.calls c]; rfl
  constructor
  · intro c
    rw [h.calls c]
    exact ⟨rfl, rfl⟩
  · intro c
    rw [hl c, h.holder]
    exact ⟨nofun, nofun⟩
  · intro c hr
    rw [hl c] at hr
    cases hr
  · intro a b hr
    rw [hl a] at hr
    cases hr
  · intro hp
    rw [h.pending] at hp
    cases hp
  · intro c k hk
    rw [h.calls c] at hk
    cases hk

/-! ## Steps -/

omit [DecidableEq κ] in
theorem Inv.alone (h : Inv w) (hc : (w.loc c).running = true) (hd : d ≠ c) :
    (w.loc d).running = false := by
  by_contra hr
  exact hd (h.single d c (by simpa using hr) hc)

omit [DecidableEq κ] in
theorem Inv.idle (h : Inv w) (ha : w.resyncActive = false) (d : κ) : (w.loc d).running = false := by
  by_contra hr
  have := h.active d (by simpa using hr)
  rw [ha] at this
  cases this

omit [DecidableEq κ] in
theorem Inv.not_pending (h : Inv w) (ha : w.resyncActive = false) : w.resyncPending = false := by
  by_contra hp
  have := h.pending (by simpa using hp)
  rw [ha] at this
  cases this

/-- What has to hold of a step in which one call goes on. -/
structure Goes (w w' : World κ ε ν) (c : κ) (call : Call ε ν) : Prop where
  calls : w'.calls = update w.calls c call
  ok : CallOk call
  holds : call.loc.holding = true ↔ w'.holder = some c
  holder : ∀ d, d ≠ c → (w'.holder = some d ↔ w.holder = some d)
  running : call.loc.running = true → ∀ d, d ≠ c → (w.loc d).running = false
  active : w'.resyncActive = false → call.loc.running = false ∧ w'.resyncPending = false ∧
    ∀ d, d ≠ c → (w.loc d).running = false
  started : w.started ≤ w'.started
  accepted : ∀ k, call.accepted = some k →
    k ≤ w'.started ∧ (k < w'.started ∨ call.loc = .entered ∨ w'.Due)
  due : w.Due → w'.Due ∨ w.started < w'.started

theorem Inv.goes (h : Inv w) (hg : Goes w w' c call) : Inv w' := by
  have hs : w'.calls c = call := by rw [hg.calls, update_self]
  have ho : ∀ d, d ≠ c → w'.calls d = w.calls d := fun d hd => by
    rw [hg.calls, update_of_ne hd]
  have hl : ∀ d, d ≠ c → w'.loc d = w.loc d := fun d hd => congrArg Call.loc (ho d hd)
  have hlo : w'.loc c = call.loc := congrArg Call.loc hs
  constructor
  · intro d
    by_cases hd : d = c
    · rw [hd, hs]
      exact hg.ok
    · rw [ho d hd]
      exact h.call d
  · intro d
    by_cases hd : d = c
    · rw [hd, hlo]
      exact hg.holds
    · rw [hl d hd, hg.holder d hd]
      exact h.holder d
  · intro d hr
    by_contra hact
    obtain ⟨hc, -, hot⟩ := hg.active (by simpa using hact)
    by_cases hd : d = c
    · rw [hd, hlo, hc] at hr
      cases hr
    · rw [hl d hd, hot d hd] at hr
      cases hr
  · intro a b ha hb
    by_cases hac : a = c <;> by_cases hbc : b = c
    · rw [hac, hbc]
    · rw [hac, hlo] at ha
      rw [hl b hbc, hg.running ha b hbc] at hb
      cases hb
    · rw [hbc, hlo] at hb
      rw [hl a hac, hg.running hb a hac] at ha
      cases ha
    · rw [hl a hac] at ha
      rw [hl b hbc] at hb
      exact h.single a b ha hb
  · intro hp
    by_contra hact
    rw [(hg.active (by simpa using hact)).2.1] at hp
    cases hp
  · intro d k hk
    by_cases hd : d = c
    · rw [hd, hlo]
      rw [hd, hs] at hk
      exact hg.accepted k hk
    · rw [ho d hd] at hk
      rw [hl d hd]
      obtain ⟨hle, hlt | he | hdu⟩ := h.accepted d k hk
      · exact ⟨hle.trans hg.started, .inl (hlt.trans_le hg.started)⟩
      · exact ⟨hle.trans hg.started, .inr (.inl he)⟩
      · rcases hg.due hdu with hdu | hst
        · exact ⟨hle.trans hg.started, .inr (.inr hdu)⟩
        · exact ⟨hle.trans hg.started, .inl (hle.trans_lt hst)⟩

/-- A step of a call that leaves the flags alone. -/
structure Moves (w w' : World κ ε ν) (c : κ) (l : Loc ε ν) : Prop where
  calls : w'.calls = update w.calls c { w.calls c with loc := l }
  active : w'.resyncActive = w.resyncActive
  pending : w'.resyncPending = w.resyncPending
  started : w'.started = w.started

theorem Moves.due (hm : Moves w w' c l) (hi : (w.loc c).imminent = true → l.imminent = true)
    (hdu : w.Due) : w'.Due := by
  rcases hdu with hp | ⟨d, hd⟩
  · exact .inl (hm.pending.trans hp)
  · refine .inr ⟨d, ?_⟩
    by_cases hdc : d = c
    · subst hdc
      have hs : w'.loc d = l := by rw [World.loc, hm.calls, update_self]
      rw [hs]
      exact hi hd
    · have ho : w'.loc d = w.loc d := by
        rw [World.loc, hm.calls, update_of_ne hdc]
        rfl
      rw [ho]
      exact hd

theorem Inv.moves (h : Inv w) (hm : Moves w w' c l) (hok : CallOk { w.calls c with loc := l })
    (hho : l.holding = true ↔ w'.holder = some c)
    (hh : ∀ d, d ≠ c → (w'.holder = some d ↔ w.holder = some d))
    (hru : l.running = (w.loc c).running) (him : (w.loc c).imminent = true → l.imminent = true)
    (hen : w.loc c ≠ .entered) : Inv w' := by
  refine h.goes ⟨hm.calls, hok, hho, hh, fun hr d hd => ?_, fun ha => ?_,
    hm.started.ge, fun k hk => ?_, fun hdu => .inl (hm.due him hdu)⟩
  · exact h.alone (hru ▸ hr) hd
  · have hi := h.idle (hm.active.symm.trans ha)
    have hp := h.not_pending (hm.active.symm.trans ha)
    exact ⟨hru.trans (hi c), hm.pending.trans hp, fun d _ => hi d⟩
  · rw [hm.started]
    obtain ⟨hle, hlt | he | hdu⟩ := h.accepted c k hk
    · exact ⟨hle, .inl hlt⟩
    · exact absurd he hen
    · exact ⟨hle, .inr (.inr (hm.due him hdu))⟩

/-- The same under a holder that stays. -/
theorem Inv.moves_same (h : Inv w) (hm : Moves w w' c l) (hs : w'.holder = w.holder)
    (hok : CallOk { w.calls c with loc := l }) (hh : l.holding = (w.loc c).holding)
    (hr : l.running = (w.loc c).running) (hi : (w.loc c).imminent = true → l.imminent = true)
    (he : w.loc c ≠ .entered) : Inv w' := by
  refine h.moves hm hok ?_ (fun d _ => by rw [hs]) hr hi he
  rw [hh, hs]
  exact h.holder c

theorem Inv.unlocks (h : Inv w) (hm : Moves w w' c l) (hf : w'.holder = none)
    (hh : (w.loc c).holding = true) (hok : CallOk { w.calls c with loc := l })
    (hhold : l.holding = false) (hr : l.running = (w.loc c).running)
    (hi : (w.loc c).imminent = true → l.imminent = true) (he : w.loc c ≠ .entered) : Inv w' := by
  have hho := (h.holder c).mp hh
  refine h.moves hm hok ?_ (fun d hd => ?_) hr hi he
  · rw [hhold, hf]
    exact ⟨nofun, nofun⟩
  · rw [hf, hho]
    exact ⟨nofun, fun heq => absurd (Option.some.inj heq).symm hd⟩

omit [DecidableEq κ] in
theorem Inv.ok_of_loc (h : Inv w) (hl : w.loc c = l) : CallOk { w.calls c with loc := l } := by
  rw [← hl]
  exact h.call c

theorem Inv.call_step (h : Inv w) (hs : w.exec (.call c) = some w') : Inv w' := by
  dsimp only [World.exec] at hs
  split at hs <;> cases hs
  next hl =>
    have hf : (w.calls c).found = none ∧ (w.calls c).passes = 0 := h.ok_of_loc hl
    exact h.moves_same ⟨rfl, rfl, rfl, rfl⟩ rfl hf (by rw [hl]; rfl) (by rw [hl]; rfl)
      (by rw [hl]; exact nofun) (by rw [hl]; exact nofun)

theorem Inv.lock_step (h : Inv w) (hs : w.exec (.lock c) = some w') : Inv w' := by
  dsimp only [World.exec] at hs
  obtain ⟨hfree, hs⟩ := Option.ite_none_left_eq_some.mp hs
  have hn : w.holder = none := by simpa using hfree
  -- Nobody else held the lock, and nobody else does now.
  have hot : ∀ d, d ≠ c → (some c = some d ↔ w.holder = some d) := fun d hd => by
    rw [hn]
    exact ⟨fun heq => absurd (Option.some.inj heq).symm hd, nofun⟩
  split at hs <;> cases hs
  next hl =>
    have hfr : (w.calls c).found = none ∧ (w.calls c).passes = 0 := h.ok_of_loc hl
    refine h.goes ⟨rfl, hfr, ⟨fun _ => rfl, fun _ => rfl⟩, hot, nofun,
      fun ha => ⟨rfl, h.not_pending ha, fun d _ => h.idle ha d⟩, le_rfl,
      fun k hk => ?_, fun hdu => ?_⟩
    · cases hk
      exact ⟨le_rfl, .inr (.inl rfl)⟩
    · rcases hdu with hp | ⟨d, hd⟩
      · exact .inl (.inl hp)
      · have hne : d ≠ c := by
          rintro rfl
          rw [hl] at hd
          cases hd
        refine .inl (.inr ⟨d, ?_⟩)
        have ho : update w.calls c
            { w.calls c with loc := .entered, accepted := some w.started } d = w.calls d :=
          update_of_ne hne _ _
        exact (congrArg (fun call => call.loc.imminent) ho).trans hd
  next err hl =>
    have hf : (w.calls c).found = some false := h.ok_of_loc hl
    exact h.moves ⟨rfl, rfl, rfl, rfl⟩ hf ⟨fun _ => rfl, fun _ => rfl⟩ hot
      (by rw [hl]; rfl) (by rw [hl]; exact nofun) (by rw [hl]; exact nofun)

theorem Inv.unlock_step (h : Inv w) (hs : w.exec (.unlock c) = some w') : Inv w' := by
  dsimp only [World.exec] at hs
  split at hs <;> cases hs
  next hl =>
    have hc : (w.calls c).found = some true ∧ (w.calls c).passes = 0 := h.ok_of_loc hl
    exact h.unlocks ⟨rfl, rfl, rfl, rfl⟩ rfl (by rw [hl]; rfl)
      (.inl ⟨hc.1, hc.2, rfl⟩) rfl (by rw [hl]; rfl)
      (by rw [hl]; exact nofun) (by rw [hl]; exact nofun)
  next hl =>
    have hf : (w.calls c).found = some false := h.ok_of_loc hl
    exact h.unlocks ⟨rfl, rfl, rfl, rfl⟩ rfl (by rw [hl]; rfl) hf rfl
      (by rw [hl]; rfl) (fun _ => rfl) (by rw [hl]; exact nofun)
  next err hl =>
    exact h.unlocks ⟨rfl, rfl, rfl, rfl⟩ rfl (by rw [hl]; rfl) (.inr (h.ok_of_loc hl)) rfl
      (by rw [hl]; rfl) (by rw [hl]; exact nofun) (by rw [hl]; exact nofun)
  next hl =>
    have hf : (w.calls c).found = some false := h.ok_of_loc hl
    exact h.unlocks ⟨rfl, rfl, rfl, rfl⟩ rfl (by rw [hl]; rfl) hf rfl
      (by rw [hl]; rfl) (fun _ => rfl) (by rw [hl]; exact nofun)

theorem Inv.pass_step (h : Inv w) {todo : Option (List ν)} (hm : Moves w w' c l)
    (hs : w'.holder = w.holder) (hlo : w.loc c = .passing todo)
    (hl : (∃ rest, l = .passing rest) ∨ ∃ err, l = .passed err) : Inv w' := by
  have hok : (w.calls c).found = some false := h.ok_of_loc hlo
  rcases hl with ⟨rest, rfl⟩ | ⟨err, rfl⟩
  · exact h.moves_same hm hs hok (by rw [hlo]; rfl) (by rw [hlo]; rfl)
      (by rw [hlo]; exact nofun) (by rw [hlo]; exact nofun)
  · exact h.moves_same hm hs hok (by rw [hlo]; rfl) (by rw [hlo]; rfl)
      (by rw [hlo]; exact nofun) (by rw [hlo]; exact nofun)

theorem due_of_imminent (hc : w'.calls = update w.calls c call)
    (hi : call.loc.imminent = true) : w'.Due := by
  refine .inr ⟨c, ?_⟩
  rw [World.loc, hc, update_self]
  exact hi

theorem Inv.decide_step (h : Inv w) (hs : w.exec (.decide c) = some w') : Inv w' := by
  dsimp only [World.exec] at hs
  split at hs
  next hl =>
    have hfr : (w.calls c).found = none ∧ (w.calls c).passes = 0 := h.ok_of_loc hl
    have hh : w.holder = some c := (h.holder c).mp (by rw [hl]; rfl)
    split_ifs at hs with ha <;> cases hs
    · refine h.goes ⟨rfl, ⟨rfl, hfr.2⟩, ⟨fun _ => hh, fun _ => rfl⟩, fun d _ => Iff.rfl,
        nofun, fun hi => ?_, le_rfl, fun k hk => ?_, fun _ => .inl (.inl rfl)⟩
      · cases ha.symm.trans hi
      · exact ⟨(h.accepted c k hk).1, .inr (.inr (.inl rfl))⟩
    · have hi := h.idle (by simpa using ha)
      refine h.goes ⟨rfl, rfl, ⟨fun _ => hh, fun _ => rfl⟩, fun d _ => Iff.rfl,
        fun _ d _ => hi d, nofun, le_rfl, fun k hk => ?_, fun _ => ?_⟩
      · exact ⟨(h.accepted c k hk).1, .inr (.inr (due_of_imminent rfl rfl))⟩
      · exact .inl (due_of_imminent rfl rfl)
  next err hl =>
    have hf : (w.calls c).found = some false := h.ok_of_loc hl
    have hh : w.holder = some c := (h.holder c).mp (by rw [hl]; rfl)
    have hr : (w.loc c).running = true := by rw [hl]; rfl
    split_ifs at hs with hp <;> cases hs
    · -- No pass is going to start: only this call runs, and it is not about to.
      have hn : w.resyncPending = false := by simpa using hp
      have hdu : ¬ w.Due := by
        rintro (hdu | ⟨d, hd⟩)
        · cases hn.symm.trans hdu
        · rw [h.single d c (Loc.running_of_imminent hd) hr, hl] at hd
          cases hd
      refine h.goes ⟨rfl, hf, ⟨fun _ => hh, fun _ => rfl⟩, fun d _ => Iff.rfl, nofun,
        fun _ => ⟨rfl, hn, fun d hd => h.alone hr hd⟩, le_rfl, fun k hk => ?_,
        fun hd => absurd hd hdu⟩
      obtain ⟨hle, hlt | he | hd⟩ := h.accepted c k hk
      · exact ⟨hle, .inl hlt⟩
      · rw [hl] at he
        cases he
      · exact absurd hd hdu
    · refine h.goes ⟨rfl, hf, ⟨fun _ => hh, fun _ => rfl⟩, fun d _ => Iff.rfl,
        fun _ d hd => h.alone hr hd, fun hi => ?_, le_rfl, fun k hk => ?_, fun _ => ?_⟩
      · cases (h.active c hr).symm.trans hi
      · exact ⟨(h.accepted c k hk).1, .inr (.inr (due_of_imminent rfl rfl))⟩
      · exact .inl (due_of_imminent rfl rfl)
  next => cases hs

theorem Inv.startPass_step (h : Inv w) (hs : w.exec (.startPass c) = some w') : Inv w' := by
  dsimp only [World.exec] at hs
  split at hs <;> cases hs
  next hl =>
    have hf : (w.calls c).found = some false := h.ok_of_loc hl
    have hr : (w.loc c).running = true := by rw [hl]; rfl
    have hh : ¬ w.holder = some c := fun heq => by
      have := (h.holder c).mpr heq
      rw [hl] at this
      cases this
    refine h.goes ⟨rfl, hf, ⟨nofun, fun heq => absurd heq hh⟩, fun d _ => Iff.rfl,
      fun _ d hd => h.alone hr hd, fun hi => ?_, Nat.le_succ _, fun k hk => ?_,
      fun _ => .inr (Nat.lt_succ_self _)⟩
    · cases (h.active c hr).symm.trans hi
    · have hle := (h.accepted c k hk).1
      exact ⟨hle.trans (Nat.le_succ _), .inl (Nat.lt_succ_of_le hle)⟩

theorem Inv.step (h : Inv w) {e : Event κ ε ν} (hs : Step w e w') : Inv w' := by
  cases e with dsimp only [Step, World.exec] at hs
  | call c => exact h.call_step hs
  | lock c => exact h.lock_step hs
  | decide c => exact h.decide_step hs
  | unlock c => exact h.unlock_step hs
  | startPass c => exact h.startPass_step hs
  | list c chains =>
    split at hs <;> cases hs
    next err hl => exact h.pass_step ⟨rfl, rfl, rfl, rfl⟩ rfl hl (.inr ⟨_, rfl⟩)
    next todo hl => exact h.pass_step ⟨rfl, rfl, rfl, rfl⟩ rfl hl (.inl ⟨_, rfl⟩)
  | send c =>
    split at hs <;> cases hs
    next hl => exact h.pass_step ⟨rfl, rfl, rfl, rfl⟩ rfl hl (.inl ⟨_, rfl⟩)
  | cancel c err | finish c =>
    split at hs <;> cases hs
    next hl => exact h.pass_step ⟨rfl, rfl, rfl, rfl⟩ rfl hl (.inr ⟨_, rfl⟩)

theorem reachable_inv (h : Reachable Init Step w) : Inv w :=
  h.invariant (fun _ hi => hi.inv) fun _ _ _ _ hinv hs => hinv.step hs

/-- What callers can rely on. -/
structure Coalesces (w : World κ ε ν) : Prop where
  /-- With no resync active, every call that took the lock, but for one that has it and has not
  looked at the flag yet, is followed by a pass. -/
  covered : w.resyncActive = false → ∀ c k, (w.calls c).accepted = some k → w.loc c ≠ .entered →
    k < w.started
  onePass : ∀ a b s t, w.loc a = .passing s → w.loc b = .passing t → a = b
  /-- Only a call that found no resync active has started passes. -/
  onlyFirst : ∀ c, 0 < (w.calls c).passes → (w.calls c).found = some false
  /-- Any other call goes to its end by itself, whatever the others do. -/
  prompt : ∀ c, w.loc c = .entered → w.resyncActive = true → ∃ w₁ w₂, Step w (.decide c) w₁ ∧
    Step w₁ (.unlock c) w₂ ∧ w₂.loc c = .returned none ∧ ∀ d, d ≠ c → w₂.loc d = w.loc d
  /-- The lock is not held during a pass, and its holder can always go on. -/
  released : ∀ c, w.holder = some c →
    ∃ w', Step w (.decide c) w' ∨ Step w (.unlock c) w'

/-- Whoever holds the lock has a next step. -/
theorem exists_step_of_holding (h : (w.loc c).holding = true) :
    ∃ w', Step w (.decide c) w' ∨ Step w (.unlock c) w' := by
  unfold Step
  dsimp only [World.exec]
  cases hl : w.loc c with
  | entered =>
    by_cases ha : w.resyncActive = true
    · exact ⟨_, .inl (if_pos ha)⟩
    · exact ⟨_, .inl (if_neg ha)⟩
  | checking err =>
    by_cases hp : (!w.resyncPending) = true
    · exact ⟨_, .inl (if_pos hp)⟩
    · exact ⟨_, .inl (if_neg hp)⟩
  | coalesced => exact ⟨_, .inr rfl⟩
  | claimed => exact ⟨_, .inr rfl⟩
  | leaving err => exact ⟨_, .inr rfl⟩
  | repeating => exact ⟨_, .inr rfl⟩
  | outside => rw [hl] at h; cases h
  | start => rw [hl] at h; cases h
  | looping => rw [hl] at h; cases h
  | passing todo => rw [hl] at h; cases h
  | passed err => rw [hl] at h; cases h
  | returned err => rw [hl] at h; cases h

theorem exists_return_of_active (hlo : w.loc c = .entered) (ha : w.resyncActive = true) :
    ∃ w₁ w₂, Step w (.decide c) w₁ ∧ Step w₁ (.unlock c) w₂ ∧ w₂.loc c = .returned none ∧
      ∀ d, d ≠ c → w₂.loc d = w.loc d := by
  let w₁ : World κ ε ν :=
    { w.setCall c { w.calls c with loc := .coalesced, found := some true }
      with resyncPending := true }
  have hs : w₁.loc c = .coalesced := congrArg Call.loc (update_self c _ w.calls)
  refine ⟨w₁, { w₁.move c (.returned none) with holder := none }, ?_, ?_, ?_, fun d hd => ?_⟩
  · unfold Step
    dsimp only [World.exec]
    rw [hlo]
    exact if_pos ha
  · unfold Step
    dsimp only [World.exec]
    rw [hs]
  · exact congrArg Call.loc (update_self c _ w₁.calls)
  · have hl : (w₁.move c (.returned none)).calls d = w₁.calls d :=
      update_of_ne hd _ w₁.calls
    have hf : w₁.calls d = w.calls d := update_of_ne hd _ w.calls
    exact congrArg Call.loc (hl.trans hf)

/-- In every run of any number of calls, with any outcome of the passes. -/
theorem triggerResync_coalesces (h : Reachable Init Step w) : Coalesces w := by
  have hinv := reachable_inv h
  refine ⟨fun hi c k hk hen => ?_, fun a b s t ha hb => ?_,
    fun c => (hinv.call c).of_passes, fun c => exists_return_of_active,
    fun c hc => exists_step_of_holding ((hinv.holder c).mpr hc)⟩
  · obtain ⟨-, hlt | he | hp | ⟨d, hd⟩⟩ := hinv.accepted c k hk
    · exact hlt
    · exact absurd he hen
    · cases (hinv.not_pending hi).symm.trans hp
    · cases (hinv.idle hi d).symm.trans (Loc.running_of_imminent hd)
  · exact hinv.single a b (by rw [ha]; rfl) (by rw [hb]; rfl)

/-- A call comes in during a pass, which fails. The pass is repeated. -/
theorem second_call_covered :
    ∃ w : World Bool String String, Reachable Init Step w ∧ w.resyncActive = false ∧
      (w.calls true).accepted = some 1 ∧ 1 < w.started ∧ (w.calls true).found = some true := by
  obtain ⟨w, hr, ho⟩ := Reachable.exists_of_run
    (show Init ⟨none, false, false, fun _ => .outside, [], 0⟩ from ⟨rfl, rfl, rfl, fun _ => rfl⟩)
    World.exec
    [.call false, .lock false, .decide false, .unlock false, .startPass false, .call true,
      .lock true, .decide true, .unlock true, .list false (.error "timeout"), .lock false,
      .decide false, .unlock false, .startPass false, .list false (.ok ["chain"]), .send false,
      .finish false, .lock false, .decide false, .unlock false]
    (fun w => (w.resyncActive, (w.calls true).accepted, (w.calls true).found,
      match w.loc true with | .entered => true | _ => false)) (false, some 1, some true, false)
    (by decide +kernel)
  simp only [Prod.mk.injEq] at ho
  obtain ⟨hi, ha, hf, hl⟩ := ho
  have he : w.loc true ≠ .entered := fun h => by rw [h] at hl; cases hl
  have hc := triggerResync_coalesces hr
  exact ⟨w, hr, hi, ha, hc.covered hi true 1 ha he, hf⟩

end DocaPlatform.ServiceChainResync
