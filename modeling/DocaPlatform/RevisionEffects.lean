import DocaPlatform.PlannedInterfaces

/-!
# What a pass leaves in the cluster

The calls of a pass act on one object each, so that the object under a name after the pass is the one
before it, changed by the successful calls with that name, in their order.
-/
namespace DocaPlatform.DeploymentRevisions

open KeyedStore Words List

section Folds

variable {σ γ : Type} {act : σ → γ → σ} {calls : List γ} {call : γ} {s : σ} {P : σ → Prop}

/-- What one call establishes and no call destroys holds in the end. -/
theorem foldl_of_mem (hmem : call ∈ calls) (hca : ∀ s, P (act s call))
    (hk : ∀ c ∈ calls, ∀ s, P s → P (act s c)) : P (calls.foldl act s) := by
  obtain ⟨before, after, rfl⟩ := append_of_mem hmem
  rw [foldl_append, foldl_cons]
  refine List.foldlRecOn after act (hca _) fun u hu c hc => ?_
  exact hk c (mem_append_right _ (mem_cons_of_mem _ hc)) u hu

end Folds

/-! ## Services -/

/-- What a successful call does to the object with its name. -/
def ServiceCall.act (now : ℕ) (stored : Option DPUService) : ServiceCall → Option DPUService
  | .pause _ => stored.map fun v => { v with paused := true }
  | .resume _ => stored.map fun v => { v with paused := false }
  | .delete _ => stored.map fun v => { v with deleting := true }
  | .apply _ versionDigest interfaces =>
    match stored with
    | some v => some { v with versionDigest, interfaces, paused := false }
    | none => some ⟨versionDigest, now, false, interfaces, false⟩

theorem get_effect (now : ℕ) (services : Store Name DPUService) (call : ServiceCall) (m : Name) :
    (call.effect now services).get m =
      if call.name = m then call.act now (services.get m) else services.get m := by
  by_cases hm : call.name = m
  · subst hm
    rw [if_pos rfl]
    cases call with
    | apply name versionDigest interfaces =>
      simp only [ServiceCall.effect, ServiceCall.name, ServiceCall.act, Store.get_put_self]
      cases services.get name <;> rfl
    | pause name | resume name | delete name =>
      simp [ServiceCall.effect, ServiceCall.name, ServiceCall.act]
  · rw [if_neg hm]
    have hne : m ≠ call.name := Ne.symm hm
    cases call with
    | apply name versionDigest interfaces => exact Store.get_put_of_ne hne
    | pause name | resume name | delete name => exact Store.get_modify_of_ne hne

section Services

variable {Values Template : Type} {inputs : Inputs Values Template}
  {services : Store Name DPUService} {calls : List (Option Name × ServiceCall)} {m : Name}

def touching (inputs : Inputs Values Template) (calls : List (Option Name × ServiceCall))
    (m : Name) : List ServiceCall :=
  (calls.filter fun c => inputs.serviceOk c.1 c.2 && c.2.name == m).map Prod.snd

theorem mem_touching {call : ServiceCall} :
    call ∈ touching inputs calls m ↔
      ∃ behalf, (behalf, call) ∈ calls ∧ inputs.serviceOk behalf call = true ∧ call.name = m := by
  simp [touching, and_assoc]

theorem get_serviceEffects :
    (serviceEffects inputs services calls).get m =
      (touching inputs calls m).foldl (fun stored call => call.act inputs.now stored)
        (services.get m) := by
  unfold serviceEffects touching
  induction calls generalizing services with
  | nil => rfl
  | cons first rest ih =>
    cases hok : inputs.serviceOk first.1 first.2 with
    | false =>
      rw [filter_cons_of_neg (by simp [hok]), filter_cons_of_neg (by simp [hok])]
      exact ih
    | true =>
      rw [filter_cons_of_pos (by simp [hok]), foldl_cons, ih, get_effect]
      by_cases hm : first.2.name = m
      · rw [if_pos hm, filter_cons_of_pos (by simp [hok, hm])]
        rfl
      · rw [if_neg hm, filter_cons_of_neg (by simp [hm])]

/-- An apply with the name is among the calls. -/
def AppliedTo (inputs : Inputs Values Template) (calls : List (Option Name × ServiceCall))
    (m : Name) (versionDigest : String) (interfaces : List Name) : Prop :=
  ServiceCall.apply m versionDigest interfaces ∈ touching inputs calls m

theorem name_of_mem_touching {call : ServiceCall} (h : call ∈ touching inputs calls m) :
    call.name = m := by
  obtain ⟨-, -, -, hn⟩ := mem_touching.mp h
  exact hn

/-- Where an object comes from: an apply wrote its digest and its interfaces, or it has those of the
object before, which was not being deleted if it is not. -/
def Origin (inputs : Inputs Values Template) (services : Store Name DPUService)
    (calls : List (Option Name × ServiceCall)) (m : Name) (v' : DPUService) : Prop :=
  AppliedTo inputs calls m v'.versionDigest v'.interfaces ∨
    ∃ v, services.get m = some v ∧ v'.versionDigest = v.versionDigest ∧
      v'.interfaces = v.interfaces ∧ (v'.deleting = false → v.deleting = false)

theorem serviceEffects_origin {v' : DPUService}
    (h : (serviceEffects inputs services calls).get m = some v') :
    Origin inputs services calls m v' := by
  rw [get_serviceEffects] at h
  -- each call keeps the object's origin, or is an apply and sets it
  refine List.foldlRecOn (motive := fun stored => ∀ v', stored = some v' →
    Origin inputs services calls m v') (touching inputs calls m) _ ?_ ?_ v' h
  · intro v' h
    exact .inr ⟨v', h, rfl, rfl, id⟩
  · intro stored ih call hc v' h
    cases call with
    | apply name versionDigest interfaces =>
      obtain rfl : name = m := name_of_mem_touching hc
      cases stored with
      | none | some v =>
        cases h
        exact .inl hc
    | pause name | resume name =>
      obtain ⟨v, rfl, rfl⟩ := Option.map_eq_some_iff.mp h
      exact ih v rfl
    | delete name =>
      obtain ⟨v, rfl, rfl⟩ := Option.map_eq_some_iff.mp h
      rcases ih v rfl with ha | ⟨u, hu, hd, hi, -⟩
      · exact .inl ha
      · exact .inr ⟨u, hu, hd, hi, nofun⟩

/-- If all applies with a name write the same interfaces and digest, and there is one, the object has
them in the end. -/
theorem serviceEffects_applied {versionDigest : String} {interfaces : List Name}
    (h : AppliedTo inputs calls m versionDigest interfaces)
    (hall : ∀ d l, AppliedTo inputs calls m d l → d = versionDigest ∧ l = interfaces) :
    ∃ v', (serviceEffects inputs services calls).get m = some v' ∧
      v'.versionDigest = versionDigest ∧ v'.interfaces = interfaces := by
  rw [get_serviceEffects]
  refine foldl_of_mem (P := fun stored : Option DPUService => ∃ v', stored = some v' ∧
    v'.versionDigest = versionDigest ∧ v'.interfaces = interfaces) h ?_ ?_
  · intro stored
    cases stored with
    | none => exact ⟨_, rfl, rfl, rfl⟩
    | some v => exact ⟨_, rfl, rfl, rfl⟩
  · rintro call hc - ⟨v, rfl, hd, hi⟩
    cases call with
    | apply name d l =>
      obtain rfl : name = m := name_of_mem_touching hc
      obtain ⟨rfl, rfl⟩ := hall d l hc
      exact ⟨_, rfl, rfl, rfl⟩
    | pause name => exact ⟨_, rfl, hd, hi⟩
    | resume name => exact ⟨_, rfl, hd, hi⟩
    | delete name => exact ⟨_, rfl, hd, hi⟩

section Unapplied

variable {v' : DPUService} (hno : ∀ d l, ¬AppliedTo inputs calls m d l)
  (hget : (serviceEffects inputs services calls).get m = some v')

include hno hget

theorem serviceEffects_deleting (h : ServiceCall.delete m ∈ touching inputs calls m) :
    v'.deleting = true := by
  rw [get_serviceEffects] at hget
  refine foldl_of_mem (P := fun stored => ∀ v', stored = some v' → v'.deleting = true) h ?_ ?_
    v' hget
  · intro stored v' hget
    obtain ⟨v, -, rfl⟩ := Option.map_eq_some_iff.mp hget
    rfl
  · intro call hc stored hs v' hget
    cases call with
    | apply name d l =>
      obtain rfl : name = m := name_of_mem_touching hc
      exact absurd hc (hno d l)
    | pause name | resume name =>
      obtain ⟨v, rfl, rfl⟩ := Option.map_eq_some_iff.mp hget
      exact hs v rfl
    | delete name =>
      obtain ⟨v, rfl, rfl⟩ := Option.map_eq_some_iff.mp hget
      rfl

/-- Without a resume, an object that was paused before or is paused now stays paused. -/
theorem serviceEffects_paused (hr : ServiceCall.resume m ∉ touching inputs calls m)
    (h : (∀ v, services.get m = some v → v.paused = true) ∨
      ServiceCall.pause m ∈ touching inputs calls m) : v'.paused = true := by
  rw [get_serviceEffects] at hget
  have hk : ∀ call ∈ touching inputs calls m, ∀ stored : Option DPUService,
      (∀ v, stored = some v → v.paused = true) →
      ∀ v, call.act inputs.now stored = some v → v.paused = true := by
    intro call hc stored hs v hv
    cases call with
    | apply name d l =>
      obtain rfl : name = m := name_of_mem_touching hc
      exact absurd hc (hno d l)
    | pause name =>
      obtain ⟨u, rfl, rfl⟩ := Option.map_eq_some_iff.mp hv
      rfl
    | resume name =>
      obtain rfl : name = m := name_of_mem_touching hc
      exact absurd hc hr
    | delete name =>
      obtain ⟨u, rfl, rfl⟩ := Option.map_eq_some_iff.mp hv
      exact hs u rfl
  rcases h with hb | hp
  · exact List.foldlRecOn (motive := fun stored => ∀ v, stored = some v → v.paused = true)
      (touching inputs calls m) _ hb (fun stored ih call hc => hk call hc stored ih)
      v' hget
  · refine foldl_of_mem (P := fun stored => ∀ v, stored = some v → v.paused = true) hp ?_ hk
      v' hget
    intro stored v hv
    obtain ⟨u, -, rfl⟩ := Option.map_eq_some_iff.mp hv
    rfl

end Unapplied

/-- New objects are listed after the ones that were there. -/
theorem serviceEffects_keys : ∃ new, (serviceEffects inputs services calls).keys =
    services.keys ++ new := by
  unfold serviceEffects
  refine List.foldlRecOn (motive := fun s => ∃ new, Store.keys s = services.keys ++ new) _ _
    ⟨[], by simp⟩ ?_
  rintro s ⟨new, hnew⟩ ⟨behalf, call⟩ -
  cases call with
  | apply name versionDigest interfaces =>
    by_cases hn : name ∈ s.keys
    · exact ⟨new, by rw [ServiceCall.effect, Store.keys_put, if_pos hn, hnew]⟩
    · refine ⟨new ++ [name], ?_⟩
      rw [ServiceCall.effect, Store.keys_put, if_neg hn, hnew, append_assoc]
  | pause name => exact ⟨new, hnew⟩
  | resume name => exact ⟨new, hnew⟩
  | delete name => exact ⟨new, hnew⟩

end Services

section Interfaces

variable {Values Template : Type} {inputs : Inputs Values Template}
  {interfaces : Store Name DPUServiceInterface}
  {calls : List (Option (Name × Name) × InterfaceCall)} {n : Name}

/-- An interface is owned by the DPUService that an apply of the pass named, or by the one it had. -/
theorem interfaceEffects_owner {o' : DPUServiceInterface}
    (h : (interfaceEffects inputs interfaces calls).get n = some o') :
    (∃ behalf versionDigest service interface,
        (behalf, InterfaceCall.apply n versionDigest o'.owner service interface) ∈ calls) ∨
      ∃ o, interfaces.get n = some o ∧ o'.owner = o.owner := by
  unfold interfaceEffects at h
  refine List.foldlRecOn (motive := fun s => ∀ o', Store.get s n = some o' →
    (∃ behalf versionDigest service interface,
        (behalf, InterfaceCall.apply n versionDigest o'.owner service interface) ∈ calls) ∨
      ∃ o, interfaces.get n = some o ∧ o'.owner = o.owner) _ _ ?_ ?_ o' h
  · intro o' h
    exact .inr ⟨o', h, rfl⟩
  · rintro s ih ⟨behalf, call⟩ hc o' h
    cases call with
    | delete name =>
      obtain ⟨o, ho, ⟨-, rfl⟩ | ⟨-, rfl⟩⟩ := Store.exists_of_modify h
      · exact ih o ho
      · exact ih o' ho
    | apply name versionDigest owner service interface =>
      rcases Store.eq_of_put h with ⟨rfl, ho⟩ | ⟨-, h⟩
      · have how : o'.owner = owner := by
          rw [ho]
          split <;> rfl
        rw [how]
        exact .inl ⟨behalf, versionDigest, service, interface, (mem_filter.mp hc).1⟩
      · exact ih o' h

end Interfaces

end DocaPlatform.DeploymentRevisions
