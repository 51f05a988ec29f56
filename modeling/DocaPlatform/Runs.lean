import Mathlib.Tactic

/-!
# Fallible computations and runs

Inversion of a bind in `Except`, and the states that a labelled transition system reaches. A run
under a condition on its steps is a run of the restricted system.
-/
namespace DocaPlatform.Runs

theorem bind_eq_ok {ε α β : Type} {x : Except ε α} {f : α → Except ε β} {b : β} :
    (x >>= f) = .ok b ↔ ∃ a, x = .ok a ∧ f a = .ok b := by
  cases x <;> simp [bind, Except.bind]

theorem bind_eq_error {ε α β : Type} {x : Except ε α} {f : α → Except ε β} {e : ε} :
    (x >>= f) = .error e ↔ x = .error e ∨ ∃ a, x = .ok a ∧ f a = .error e := by
  cases x <;> simp [bind, Except.bind]

theorem toOption_eq_some {ε α : Type} {x : Except ε α} {a : α} :
    x.toOption = some a ↔ x = .ok a := by
  cases x <;> simp [Except.toOption]

theorem mapError_eq_ok {ε δ α : Type} {x : Except ε α} {f : ε → δ} {a : α} :
    x.mapError f = .ok a ↔ x = .ok a := by
  cases x <;> simp [Except.mapError]

/-- What holds of the elements visited so far is carried through a loop that ends without an
error. -/
theorem foldlM_induction {α β : Type} {f : β → α → Option β} {motive : List α → β → Prop}
    {l : List α} {b b' : β} (hi : motive [] b)
    (hs : ∀ visited a c c', a ∈ l → motive visited c → f c a = some c' →
      motive (visited ++ [a]) c')
    (h : l.foldlM f b = some b') : motive l b' := by
  suffices hl : ∀ (rest visited : List α) (c : β), (∀ a ∈ rest, a ∈ l) → motive visited c →
      rest.foldlM f c = some b' → motive (visited ++ rest) b' from
    hl l [] b (fun _ ha => ha) hi h
  intro rest
  induction rest with
  | nil =>
    intro visited c _ hc h
    cases h
    rw [List.append_nil]
    exact hc
  | cons a rest ih =>
    intro visited c hmem hc h
    rw [List.foldlM_cons] at h
    obtain ⟨d, hd, h⟩ := Option.bind_eq_some_iff.mp h
    have hn := hs visited a c d (hmem a List.mem_cons_self) hc hd
    have hr := ih (visited ++ [a]) d (fun x hx => hmem x (List.mem_cons_of_mem _ hx)) hn h
    rw [List.append_assoc] at hr
    exact hr

section Reachability

variable {σ ι : Type*}

/-- The states that some run from an initial state ends in. -/
inductive Reachable (init : σ → Prop) (step : σ → ι → σ → Prop) : σ → Prop where
  | start {s : σ} : init s → Reachable init step s
  | next {s t : σ} {l : ι} : Reachable init step s → step s l t → Reachable init step t

/-- The steps that meet a condition on the state they start from and on their label. -/
def Restrict (ok : σ → ι → Prop) (step : σ → ι → σ → Prop) (s : σ) (l : ι) (t : σ) : Prop :=
  ok s l ∧ step s l t

theorem Restrict.of_step {ok : σ → ι → Prop} {step : σ → ι → σ → Prop} {s t : σ} {l : ι}
    (h : step s l t) (hok : ok s l) : Restrict ok step s l t :=
  ⟨hok, h⟩

variable {init : σ → Prop} {step : σ → ι → σ → Prop} {P : σ → Prop}

/-- What holds at the start and is kept by every step from a reachable state holds in every
reachable state. -/
theorem Reachable.invariant (hi : ∀ s, init s → P s)
    (hst : ∀ s l t, Reachable init step s → P s → step s l t → P t) {s : σ}
    (h : Reachable init step s) : P s := by
  induction h with
  | start hs => exact hi _ hs
  | next hr hs ih => exact hst _ _ _ hr ih hs

theorem Reachable.of_restrict {ok : σ → ι → Prop} {s : σ}
    (h : Reachable init (Restrict ok step) s) : Reachable init step s := by
  induction h with
  | start hs => exact .start hs
  | next _ hs ih => exact .next ih hs.2

/-- Runs a list of labels, each of which has to meet the condition in the state it starts from. -/
def runIf (ok : σ → ι → Bool) (exec : σ → ι → Option σ) : σ → List ι → Option σ
  | s, [] => some s
  | s, l :: rest => if ok s l then (exec s l).bind fun t => runIf ok exec t rest else none

/-- The state after such a list of labels is reached by a restricted run. -/
theorem Reachable.of_runIf {ok : σ → ι → Bool} {exec : σ → ι → Option σ} {labels : List ι} {s t : σ}
    (h : Reachable init (Restrict (fun s l => ok s l = true) fun s l t => exec s l = some t) s)
    (hru : runIf ok exec s labels = some t) :
    Reachable init (Restrict (fun s l => ok s l = true) fun s l t => exec s l = some t) t := by
  induction labels generalizing s with
  | nil =>
    cases hru
    exact h
  | cons l rest ih =>
    unfold runIf at hru
    split_ifs at hru with hok
    obtain ⟨u, hu, hr⟩ := Option.bind_eq_some_iff.mp hru
    exact ih (h.next ⟨hok, hu⟩) hr

section Observed

variable {s : σ} {β : Type*} (hi : init s) (ok : σ → ι → Bool) (exec : σ → ι → Option σ)
  (labels : List ι) (f : σ → β) (b : β)

include hi

/-- A list of labels that `runIf` follows to its end, with what is observed there. -/
theorem Reachable.exists_of_runIf (hr : (runIf ok exec s labels).map f = some b) :
    ∃ t, Reachable init (Restrict (fun s l => ok s l = true) fun s l t => exec s l = some t) t ∧
      f t = b := by
  obtain ⟨t, ht, hb⟩ := Option.map_eq_some_iff.mp hr
  exact ⟨t, Reachable.of_runIf (.start hi) ht, hb⟩

theorem Reachable.exists_of_run (hr : (runIf (fun _ _ => true) exec s labels).map f = some b) :
    ∃ t, Reachable init (fun s l t => exec s l = some t) t ∧ f t = b := by
  obtain ⟨t, ht, hb⟩ := Reachable.exists_of_runIf hi _ exec labels f b hr
  exact ⟨t, ht.of_restrict, hb⟩

end Observed

/-- What holds of every step of a run. -/
def Along (P : σ → ι → Prop) (exec : σ → ι → Option σ) : σ → List ι → Prop
  | _, [] => True
  | s, l :: rest => P s l ∧ ∀ t, exec s l = some t → Along P exec t rest

theorem along_congr {P Q : σ → ι → Prop} {exec : σ → ι → Option σ} (h : ∀ s l, P s l ↔ Q s l)
    (s : σ) (labels : List ι) : Along P exec s labels ↔ Along Q exec s labels := by
  induction labels generalizing s with
  | nil => exact Iff.rfl
  | cons l rest ih =>
    unfold Along
    rw [h s l]
    exact and_congr_right fun _ => forall_congr' fun t => imp_congr_right fun _ => ih t

end Reachability

end DocaPlatform.Runs
