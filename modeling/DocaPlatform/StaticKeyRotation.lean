import DocaPlatform.EncryptionConfig
import DocaPlatform.Rekeying

/-!
# Rotation of the static encryption key

`reconcileStaticKeyRotation` over the encryption config Secret of a cluster, its kube-apiserver
replicas, the objects in etcd and the StorageVersionMigrations that rewrite them. Reconciles run
concurrently, read any stored version of the Secret, and may end after every remote call; a save
goes through only if the Secret is still the version that was read.
-/
namespace DocaPlatform.StaticKeyRotation

open EncryptionConfig Runs List Function

/-- The functions that the controller takes from elsewhere: the random, timestamped names of
`generateStaticKeyName`, call by call, the digest of two names, and the hash that a kube-apiserver
reports for the file with a list of keys. They do not collide. -/
structure Environment where
  staticKeyName : ℕ → String
  staticKeyName_injective : Function.Injective staticKeyName
  digest : String → String → String
  digest_injective : ∀ a b a' b', digest a b = digest a' b' → a = a' ∧ b = b'
  configHash : List Key → String
  configHash_injective : Function.Injective configHash

/-- An encrypted object in etcd, with the time of its last write. -/
structure StoredObject where
  resource : String
  name : String
  key : Key
  writtenAt : ℕ

structure Migration where
  name : String
  resource : String
  createdAt : ℕ
  deleting : Bool
  succeeded : Bool
  failed : Bool

/-- What `DPFOperatorConfig` says about static keys now; `none` where the source is unavailable. -/
structure OperatorConfig where
  automaticRotationDisabled : Bool
  source : Option SourceKey

/-- How far a reconcile has got. -/
inductive Thread where
  | loaded (config : StaticKeyConfig)
  | enabled (config : StaticKeyConfig)
  | migrating (config : StaticKeyConfig) (rest : List String) (done : Bool)
  | creating (config : StaticKeyConfig) (resource : String) (rest : List String)
  | cleaning (config : StaticKeyConfig) (rest : List String)
  | saving (next : StaticKeyConfig)

structure World where
  secret : Secret
  /-- The versions of the Secret before the current one. -/
  past : List Secret
  /-- The number of names generated so far. -/
  generated : ℕ
  operatorConfig : OperatorConfig
  loaded : ℕ → Option (List Key)
  objects : List StoredObject
  migrations : List Migration
  clock : ℕ
  threads : ℕ → Option Thread

def World.versions (w : World) : List Secret := w.secret :: w.past

def World.setThread (w : World) (i : ℕ) (t : Option Thread) : World :=
  { w with threads := update w.threads i t }

def storageVersionMigrationName (resource rotationID : String) : String :=
  "dpf-ear-" ++ resource ++ "-" ++ rotationID

inductive MigrationResult where
  | absent
  | pending
  | blocked
  | done
  deriving DecidableEq

/-- `reconcileStorageVersionMigration` on what it reads. -/
def reconcileStorageVersionMigration : Option Migration → MigrationResult
  | none => .absent
  | some m =>
    if m.deleting then .pending
    else if m.succeeded then .done
    else if m.failed then .blocked
    else .pending

def World.findMigration (w : World) (name : String) : Option Migration :=
  w.migrations.find? fun m => m.name = name

/-- `storageVersionMigrationObject`, as it is stored. -/
def World.createMigration (w : World) (name resource : String) : World :=
  { w with
    migrations := ⟨name, resource, w.clock, false, false, false⟩ :: w.migrations
    clock := w.clock + 1 }

/-- Changes the migrations with a name, or drops them. -/
def World.updateMigrations (w : World) (name : String) (f : Migration → Option Migration) :
    World :=
  { w with migrations := w.migrations.filterMap fun m => if m.name = name then f m else some m }

/-- Every object of the resource was rewritten since the migration was created. -/
def World.Rewritten (w : World) (m : Migration) : Prop :=
  ∀ o ∈ w.objects, o.resource = m.resource → m.createdAt ≤ o.writtenAt

/-- `VerifyReload` returns true only if every replica loaded the config with the given hash. -/
def Verified (env : Environment) (w : World) (c : StaticKeyConfig) : Prop :=
  ∀ i l, w.loaded i = some l → env.configHash l = env.configHash (c.keys.map KeyEntry.key)

/-! ## Steps -/

inductive Event where
  | configure (config : OperatorConfig)
  | load (i : ℕ) (s : Secret)
  | check (i : ℕ)
  | prepare (i : ℕ)
  | promote (i : ℕ)
  | verify (i : ℕ)
  | observe (i : ℕ)
  | create (i : ℕ)
  | migrated (i : ℕ)
  | cleanup (i : ℕ)
  | finalize (i : ℕ)
  | settle (i : ℕ)
  | save (i : ℕ)
  | stop (i : ℕ)
  | reload (replica : ℕ)
  | shutdown (replica : ℕ)
  | write (replica : ℕ) (resource name : String)
  | remove (resource name : String)
  | report (name : String) (succeeded : Bool)
  | dropMigration (name : String)

variable (env : Environment)

inductive Step : World → Event → World → Prop where
  | configure {w : World} {config : OperatorConfig} :
      Step w (.configure config) { w with operatorConfig := config }
  /-- `Load`, possibly from a cache that is behind. -/
  | load {w : World} {i : ℕ} {s : Secret} {c : StaticKeyConfig} :
      w.threads i = none → s ∈ w.versions → parseStaticKey s = .ok c →
      Step w (.load i s) (w.setThread i (some (.loaded c)))
  /-- `isAutomaticStaticKeyRotationDisabled` returns false. -/
  | check {w : World} {i : ℕ} {c : StaticKeyConfig} :
      w.threads i = some (.loaded c) → w.operatorConfig.automaticRotationDisabled = false →
      Step w (.check i) (w.setThread i (some (.enabled c)))
  /-- `reconcileStableStaticKey` up to the save. -/
  | prepare {w : World} {i : ℕ} {c next : StaticKeyConfig} {source : SourceKey} :
      w.threads i = some (.enabled c) → w.operatorConfig.source = some source →
      c.transitionToPrepared (env.staticKeyName w.generated) source = .ok next →
      Step w (.prepare i)
        { w.setThread i (some (.saving next)) with generated := w.generated + 1 }
  /-- `reconcileInFlightStaticKey` in the Prepared phase. -/
  | promote {w : World} {i : ℕ} {c next : StaticKeyConfig} :
      w.threads i = some (.enabled c) → Verified env w c → c.transitionToPromoted = .ok next →
      Step w (.promote i) (w.setThread i (some (.saving next)))
  /-- `reconcileInFlightStaticKey` in the Promoted phase, up to the migration. -/
  | verify {w : World} {i : ℕ} {c : StaticKeyConfig} :
      w.threads i = some (.enabled c) → c.phase = .promoted → Verified env w c →
      Step w (.verify i) (w.setThread i (some (.migrating c encryptedResources true)))
  /-- The read of `reconcileStorageVersionMigration`. -/
  | observe {w : World} {i : ℕ} {c : StaticKeyConfig} {resource rotationID : String}
      {rest : List String} {done : Bool} :
      w.threads i = some (.migrating c (resource :: rest) done) →
      c.rotationID env.digest = .ok rotationID →
      Step w (.observe i) (w.setThread i (some
        (match reconcileStorageVersionMigration
            (w.findMigration (storageVersionMigrationName resource rotationID)) with
        | .absent => .creating c resource rest
        | .done => .migrating c rest done
        | _ => .migrating c rest false)))
  /-- The create of `reconcileStorageVersionMigration`. -/
  | create {w : World} {i : ℕ} {c : StaticKeyConfig} {resource rotationID : String}
      {rest : List String} :
      w.threads i = some (.creating c resource rest) →
      c.rotationID env.digest = .ok rotationID →
      w.findMigration (storageVersionMigrationName resource rotationID) = none →
      Step w (.create i)
        ((w.createMigration (storageVersionMigrationName resource rotationID) resource).setThread i
          (some (.migrating c rest false)))
  | migrated {w : World} {i : ℕ} {c : StaticKeyConfig} :
      w.threads i = some (.migrating c [] true) →
      Step w (.migrated i) (w.setThread i (some (.cleaning c encryptedResources)))
  /-- `cleanupStaticKeyStorageMigrations` deletes one migration, or fails to and goes on. -/
  | cleanup {w : World} {i : ℕ} {c : StaticKeyConfig} {resource rotationID : String}
      {rest : List String} {f : Migration → Option Migration} :
      w.threads i = some (.cleaning c (resource :: rest)) →
      c.rotationID env.digest = .ok rotationID →
      (∀ m, f m = none ∨ f m = some m ∨ f m = some { m with deleting := true }) →
      Step w (.cleanup i)
        ((w.updateMigrations (storageVersionMigrationName resource rotationID) f).setThread i
          (some (.cleaning c rest)))
  | finalize {w : World} {i : ℕ} {c next : StaticKeyConfig} :
      w.threads i = some (.cleaning c []) → c.transitionToFinalized = .ok next →
      Step w (.finalize i) (w.setThread i (some (.saving next)))
  /-- `reconcileInFlightStaticKey` in the Finalized phase. -/
  | settle {w : World} {i : ℕ} {c next : StaticKeyConfig} :
      w.threads i = some (.enabled c) → Verified env w c → c.transitionToIdle = .ok next →
      Step w (.settle i) (w.setThread i (some (.saving next)))
  /-- `Save`: the update carries the version that was read, and there is something to write. -/
  | save {w : World} {i : ℕ} {next : StaticKeyConfig} :
      w.threads i = some (.saving next) → next.secret.uid = w.secret.uid →
      next.secret.resourceVersion = w.secret.resourceVersion → next.secret ≠ w.secret →
      Step w (.save i)
        { w.setThread i none with
          secret := { next.secret with resourceVersion := w.secret.resourceVersion + 1 }
          past := w.secret :: w.past }
  /-- A reconcile ends: rotation is disabled, a call failed, it has to wait, or a crash. -/
  | stop {w : World} {i : ℕ} : Step w (.stop i) (w.setThread i none)
  /-- A replica starts, or notices that the file changed. -/
  | reload {w : World} {i : ℕ} :
      Step w (.reload i)
        { w with loaded := update w.loaded i (some w.secret.loadedKeys) }
  | shutdown {w : World} {i : ℕ} :
      Step w (.shutdown i) { w with loaded := update w.loaded i none }
  /-- A replica writes an object with the first of its keys. -/
  | write {w : World} {i : ℕ} {key : Key} {keys : List Key} {resource name : String} :
      w.loaded i = some (key :: keys) → resource ∈ encryptedResources →
      Step w (.write i resource name)
        { w with
          objects := ⟨resource, name, key, w.clock⟩ ::
            w.objects.filter fun o => ¬ (o.resource = resource ∧ o.name = name)
          clock := w.clock + 1 }
  | remove {w : World} {resource name : String} :
      Step w (.remove resource name)
        { w with objects := w.objects.filter fun o => ¬ (o.resource = resource ∧ o.name = name) }
  /-- A migration fails, or it succeeds after every object of its resource was rewritten. -/
  | report {w : World} {name : String} {succeeded : Bool} :
      (succeeded = true → ∀ m ∈ w.migrations, m.name = name → w.Rewritten m) →
      Step w (.report name succeeded) (w.updateMigrations name fun m =>
        some { m with succeeded := m.succeeded || succeeded, failed := !succeeded })
  | dropMigration {w : World} {name : String} :
      Step w (.dropMigration name) (w.updateMigrations name fun _ => none)

/-- A cluster right after `InitializeStaticKey`: replicas have loaded the only key, if they are
up, and nothing is stored yet. -/
structure Init (w : World) : Prop where
  secret : ∃ secretNamespace secretName source c,
    newStaticKeyConfig secretNamespace secretName (env.staticKeyName 0) source = .ok c ∧
      w.secret = { c.secret with uid := w.secret.uid, resourceVersion := w.secret.resourceVersion }
  past : w.past = []
  generated : w.generated = 1
  loaded : ∀ i l, w.loaded i = some l → l = w.secret.loadedKeys
  objects : w.objects = []
  migrations : w.migrations = []
  threads : ∀ i, w.threads i = none

/-- The stage of the key change that a version of the Secret stands for. -/
def stageOf (s : Secret) : Option (Rekeying.Stage Key) :=
  match Phase.ofText s.phase, s.loadedKeys with
  | .idle, [key] => some (.single key)
  | .prepared, [old, new] => some (.adding old new)
  | .promoted, [new, old] => some (.switching old new)
  | .finalized, [key] => some (.dropping key)
  | _, _ => none

theorem stageOf_ring {s : Secret} {stage : Rekeying.Stage Key} (h : stageOf s = some stage) :
    stage.ring = s.loadedKeys := by
  unfold stageOf at h
  split at h <;> cases h <;> (rename_i hk; exact hk.symm)

/-- What the replicas and the objects of a world look like in a stage. -/
def World.view (w : World) (stage : Rekeying.Stage Key) : Rekeying.State Key where
  stage := stage
  loaded := { l | ∃ i, w.loaded i = some l }
  inUse := { k | ∃ o ∈ w.objects, o.key = k }

/-- Every replica can decrypt every stored object. -/
def Decryptable (w : World) : Prop :=
  ∀ i l, w.loaded i = some l → ∀ o ∈ w.objects, o.key ∈ l

/-- Every running replica has loaded the current keys. -/
def World.Synced (w : World) : Prop :=
  ∀ i l, w.loaded i = some l → l = w.secret.loadedKeys

/-- Every object of the resource is encrypted with the current first key. -/
def World.Migrated (w : World) (resource : String) : Prop :=
  ∀ o ∈ w.objects, o.resource = resource → w.secret.loadedKeys.head? = some o.key

/-- A wrapper of a stored version. -/
def World.Read (w : World) (c : StaticKeyConfig) : Prop :=
  c.secret ∈ w.versions ∧ parseStaticKey c.secret = .ok c

/-- The names of a list of keys are new. -/
def World.NewName (w : World) (name : String) : Prop :=
  ∀ s ∈ w.versions, ∀ k ∈ s.loadedKeys, k.name ≠ name

/-- Saving the wrapper over the current version is a change of stage that is allowed now. -/
structure Allowed (w : World) (next : StaticKeyConfig) : Prop where
  data : next.secret.data = .yaml (renderStaticKeyEncryptionConfig next.keys)
  change : ∃ stage stage', stageOf w.secret = some stage ∧ stageOf next.secret = some stage' ∧
    Rekeying.Change (w.view stage) stage'
  fresh : ∀ old new, stageOf next.secret = some (.adding old new) → w.NewName new.name
  names : ∀ k ∈ next.secret.loadedKeys, ∃ j < w.generated, k.name = env.staticKeyName j

/-- What a reconcile may rely on, as long as the version it read is the current one. -/
def ThreadInv (w : World) : Thread → Prop
  | .loaded c => w.Read c
  | .enabled c => w.Read c
  | .migrating c rest done => w.Read c ∧ c.phase = .promoted ∧ rest ⊆ encryptedResources ∧
      (c.secret = w.secret →
        w.Synced ∧ (done = true → ∀ r ∈ encryptedResources, r ∉ rest → w.Migrated r))
  | .creating c resource rest => w.Read c ∧ c.phase = .promoted ∧
      resource :: rest ⊆ encryptedResources ∧ (c.secret = w.secret → w.Synced)
  | .cleaning c _ => w.Read c ∧ c.phase = .promoted ∧ (c.secret = w.secret →
      w.Synced ∧ ∀ r ∈ encryptedResources, w.Migrated r)
  | .saving next => next.secret.resourceVersion ≤ w.secret.resourceVersion ∧
      (next.secret.resourceVersion = w.secret.resourceVersion → Allowed env w next)

/-- A migration belongs to a version that promoted a key. While that version is the current one,
replicas write with its first key, so what was written since the migration was created, and
everything once it succeeded, is encrypted with that key. -/
structure MigrationInv (w : World) (m : Migration) : Prop where
  resource : m.resource ∈ encryptedResources
  origin : ∃ s ∈ w.versions, ∃ old new, stageOf s = some (.switching old new) ∧
    m.name = storageVersionMigrationName m.resource (env.digest old.name new.name)
  current : ∀ old new, stageOf w.secret = some (.switching old new) →
    m.name = storageVersionMigrationName m.resource (env.digest old.name new.name) →
    w.Synced ∧ (∀ o ∈ w.objects, o.resource = m.resource → m.createdAt ≤ o.writtenAt →
      o.key = new) ∧ (m.succeeded = true → w.Migrated m.resource)

structure Inv (w : World) : Prop where
  stage : ∃ stage, stageOf w.secret = some stage
  rendered : ∀ s ∈ w.versions, ∃ keys, s.data = .yaml (renderStaticKeyEncryptionConfig keys)
  past : ∀ s ∈ w.past, s.resourceVersion < w.secret.resourceVersion
  names : ∀ s ∈ w.versions, ∀ k ∈ s.loadedKeys, ∃ j < w.generated, k.name = env.staticKeyName j
  added : ∀ old new, stageOf w.secret = some (.adding old new) →
    ∀ s ∈ w.past, ∀ k ∈ s.loadedKeys, k.name ≠ new.name
  promoted : ∀ old new, stageOf w.secret = some (.switching old new) →
    ∀ s ∈ w.past, ∀ old' new', stageOf s = some (.switching old' new') → new'.name ≠ new.name
  objects : ∀ o ∈ w.objects, o.resource ∈ encryptedResources ∧ o.writtenAt < w.clock
  migrations : ∀ m ∈ w.migrations, MigrationInv env w m
  threads : ∀ i t, w.threads i = some t → ThreadInv env w t

/-! ## Steps that leave the Secret alone -/

/-- The Secret stays; replicas load it, objects are written by replicas, and both may go away. -/
structure Quiet (w w' : World) : Prop where
  secret : w'.secret = w.secret
  past : w'.past = w.past
  generated : w.generated ≤ w'.generated
  clock : w.clock ≤ w'.clock
  loaded : ∀ i l, w'.loaded i = some l → w.loaded i = some l ∨ l = w.secret.loadedKeys
  objects : ∀ o ∈ w'.objects, o ∈ w.objects ∨ (o.resource ∈ encryptedResources ∧
    o.writtenAt = w.clock ∧ w.clock < w'.clock ∧ ∃ i l, w.loaded i = some (o.key :: l))

variable {env} {w w' : World}

theorem Quiet.of_eq (hs : w'.secret = w.secret) (hp : w'.past = w.past)
    (hg : w.generated ≤ w'.generated) (hc : w.clock ≤ w'.clock)
    (hl : w'.loaded = w.loaded) (ho : w'.objects = w.objects) : Quiet w w' :=
  ⟨hs, hp, hg, hc, fun _ _ h => .inl (hl ▸ h), fun _ h => .inl (ho ▸ h)⟩

theorem Quiet.versions (h : Quiet w w') : w'.versions = w.versions := by
  rw [World.versions, World.versions, h.secret, h.past]

variable {stage : Rekeying.Stage Key} {c next : StaticKeyConfig} {s : Secret}
  {resource rotationID : String} {e : Event}

theorem Quiet.background (h : Quiet w w') (hs : stageOf w.secret = some stage) :
    Rekeying.Background (w.view stage) (w'.view stage) where
  stage := rfl
  loaded := by
    rintro l ⟨i, hi⟩
    rcases h.loaded i l hi with hl | rfl
    · exact .inl ⟨i, hl⟩
    · exact .inr (stageOf_ring hs).symm
  inUse := by
    rintro k ⟨o, ho, rfl⟩
    rcases h.objects o ho with ho | ⟨-, -, -, i, l, hl⟩
    · exact .inl ⟨o, ho, rfl⟩
    · exact .inr ⟨l, i, hl⟩

theorem Quiet.synced (h : Quiet w w') (hs : w.Synced) : w'.Synced := by
  intro i l hl
  rw [h.secret]
  exact (h.loaded i l hl).elim (hs i l) id

/-- Replicas that hold the current keys write with the first of them. -/
theorem Quiet.migrated (h : Quiet w w') (hs : w.Synced) {r : String} (hm : w.Migrated r) :
    w'.Migrated r := by
  intro o ho hr
  rw [h.secret]
  rcases h.objects o ho with ho | ⟨-, -, -, i, l, hl⟩
  · exact hm o ho hr
  · rw [← hs i _ hl, head?_cons]

theorem Quiet.read (h : Quiet w w') (hc : w.Read c) : w'.Read c :=
  ⟨h.versions ▸ hc.1, hc.2⟩

theorem Quiet.allowed (h : Quiet w w') (ha : Allowed env w next) :
    Allowed env w' next where
  data := ha.data
  change := by
    obtain ⟨stage, stage', hst, hstage', hc⟩ := ha.change
    exact ⟨stage, stage', h.secret ▸ hst, hstage', hc.background (h.background hst)⟩
  fresh := by
    intro old new hn s hs
    exact ha.fresh old new hn s (h.versions ▸ hs)
  names := by
    intro k hk
    obtain ⟨j, hj, hna⟩ := ha.names k hk
    exact ⟨j, hj.trans_le h.generated, hna⟩

theorem Quiet.threadInv (h : Quiet w w') {t : Thread} (ht : ThreadInv env w t) :
    ThreadInv env w' t := by
  cases t with
  | loaded c => exact h.read ht
  | enabled c => exact h.read ht
  | migrating c rest done =>
    obtain ⟨hre, hph, hrest, hcu⟩ := ht
    refine ⟨h.read hre, hph, hrest, fun hc => ?_⟩
    obtain ⟨hs, hm⟩ := hcu (hc.trans h.secret)
    exact ⟨h.synced hs, fun hd r hr hrest => h.migrated hs (hm hd r hr hrest)⟩
  | creating c resource rest =>
    obtain ⟨hre, hph, hrest, hcu⟩ := ht
    exact ⟨h.read hre, hph, hrest, fun hc => h.synced (hcu (hc.trans h.secret))⟩
  | cleaning c rest =>
    obtain ⟨hre, hph, hcu⟩ := ht
    refine ⟨h.read hre, hph, fun hc => ?_⟩
    obtain ⟨hs, hm⟩ := hcu (hc.trans h.secret)
    exact ⟨h.synced hs, fun r hr => h.migrated hs (hm r hr)⟩
  | saving next =>
    obtain ⟨hle, hcu⟩ := ht
    rw [ThreadInv, h.secret]
    exact ⟨hle, fun heq => h.allowed (hcu heq)⟩

theorem Quiet.migrationInv (h : Quiet w w') {m : Migration} (hm : MigrationInv env w m) :
    MigrationInv env w' m where
  resource := hm.resource
  origin := h.versions ▸ hm.origin
  current := by
    intro old new hst hn
    rw [h.secret] at hst
    obtain ⟨hs, hnew, hdo⟩ := hm.current old new hst hn
    refine ⟨h.synced hs, ?_, fun hd => h.migrated hs (hdo hd)⟩
    intro o ho hr hsi
    rcases h.objects o ho with ho | ⟨-, -, -, i, l, hl⟩
    · exact hnew o ho hr hsi
    · have hk := (hs i _ hl).trans (stageOf_ring hst).symm
      exact (List.cons.inj hk).1

/-- A step that leaves the Secret alone has to account for the migrations and reconciles it
changes. -/
theorem Inv.quiet (h : Inv env w) (hq : Quiet w w')
    (hmi : ∀ m ∈ w'.migrations, m ∉ w.migrations → MigrationInv env w' m)
    (hth : ∀ i t, w'.threads i = some t → w.threads i ≠ some t → ThreadInv env w' t) :
    Inv env w' where
  stage := hq.secret ▸ h.stage
  rendered := hq.versions ▸ h.rendered
  past := by
    rw [hq.past, hq.secret]
    exact h.past
  names := by
    rw [hq.versions]
    intro s hs k hk
    obtain ⟨j, hj, hn⟩ := h.names s hs k hk
    exact ⟨j, hj.trans_le hq.generated, hn⟩
  added := by
    rw [hq.secret, hq.past]
    exact h.added
  promoted := by
    rw [hq.secret, hq.past]
    exact h.promoted
  objects := by
    intro o ho
    rcases hq.objects o ho with ho | ⟨hr, hat, hlt, -⟩
    · exact ⟨(h.objects o ho).1, (h.objects o ho).2.trans_le hq.clock⟩
    · exact ⟨hr, hat ▸ hlt⟩
  migrations := by
    intro m hm
    by_cases hold : m ∈ w.migrations
    · exact hq.migrationInv (h.migrations m hold)
    · exact hmi m hm hold
  threads := by
    intro i t ht
    by_cases hold : w.threads i = some t
    · exact hq.threadInv (h.threads i t hold)
    · exact hth i t ht hold

/-- A step of one reconcile that leaves everything else as it is. -/
theorem Inv.setThread (h : Inv env w) {i : ℕ} {t : Option Thread}
    (ht : ∀ t', t = some t' → ThreadInv env w t') : Inv env (w.setThread i t) := by
  have hq : Quiet w (w.setThread i t) := Quiet.of_eq rfl rfl le_rfl le_rfl rfl rfl
  refine h.quiet hq (fun m hm hno => absurd hm hno) ?_
  intro j t' hj hne
  by_cases hij : j = i
  · subst hij
    exact hq.threadInv (ht t' (by simpa [World.setThread] using hj))
  · exact absurd (by simpa [World.setThread, update_of_ne hij] using hj) hne

theorem Inv.updateMigrations (h : Inv env w) {name : String} {f : Migration → Option Migration}
    (hf : ∀ m ∈ w.migrations, m.name = name → ∀ m', f m = some m' → MigrationInv env w m') :
    Inv env (w.updateMigrations name f) := by
  have hq : Quiet w (w.updateMigrations name f) := Quiet.of_eq rfl rfl le_rfl le_rfl rfl rfl
  refine h.quiet hq ?_ fun i t ht hne => absurd ht hne
  intro m' hm' hno
  obtain ⟨m, hm, hmm⟩ := mem_filterMap.mp hm'
  split_ifs at hmm with hn
  · exact hq.migrationInv (hf m hm hn m' hmm)
  · cases hmm
    exact absurd hm hno

/-! ## What a reconcile has read -/

theorem Inv.read_spec (h : Inv env w) (hc : w.Read c) :
    c.phase = Phase.ofText c.secret.phase ∧ c.secret.loadedKeys = c.keys.map KeyEntry.key := by
  obtain ⟨keys, hd⟩ := h.rendered _ hc.1
  obtain ⟨-, hph, -, hk⟩ := parseStaticKey_ok hc.2
  rw [hk keys hd]
  exact ⟨hph, loadedKeys_of_rendered hd⟩

theorem Inv.version_le (h : Inv env w) (hs : s ∈ w.versions) :
    s.resourceVersion ≤ w.secret.resourceVersion := by
  rcases mem_cons.mp hs with rfl | hs
  · exact le_rfl
  · exact (h.past s hs).le

theorem Inv.eq_secret (h : Inv env w) (hs : s ∈ w.versions)
    (heq : s.resourceVersion = w.secret.resourceVersion) : s = w.secret := by
  rcases mem_cons.mp hs with rfl | hs
  · rfl
  · exact absurd heq (h.past s hs).ne

/-- Replicas whose config has the hash of the current one hold the current keys. -/
theorem Inv.synced_of_verified (h : Inv env w) (hc : w.Read c) (hv : Verified env w c)
    (hcu : c.secret = w.secret) : w.Synced := by
  intro i l hl
  rw [env.configHash_injective (hv i l hl), ← (h.read_spec hc).2, hcu]

theorem Inv.stage_promoted (h : Inv env w) (hc : w.Read c) {active old : KeyEntry}
    (hph : c.phase = .promoted) (hke : c.keys = [active, old]) :
    stageOf c.secret = some (.switching old.key active.key) := by
  obtain ⟨hp, hk⟩ := h.read_spec hc
  simp [stageOf, ← hp, hph, hk, hke]

/-- The wrapper that a transition returned may be saved if the change of stage is allowed while the
wrapper it came from is current. -/
theorem Inv.saving (h : Inv env w) (hc : w.Read c) (hr : Rewrites c next)
    (hall : c.secret = w.secret → Allowed env w next) : ThreadInv env w (.saving next) := by
  refine ⟨hr.resourceVersion ▸ h.version_le hc.1, fun heq => hall ?_⟩
  exact h.eq_secret hc.1 (hr.resourceVersion ▸ heq)

/-- A transition that adds no key. -/
theorem Inv.allowed (h : Inv env w) (hc : w.Read c) (hr : Rewrites c next)
    (hcu : c.secret = w.secret) {stage' : Rekeying.Stage Key}
    (hs : stageOf w.secret = some stage) (hstage' : stageOf next.secret = some stage')
    (hch : Rekeying.Change (w.view stage) stage') (ha : ∀ old new, stage' ≠ .adding old new)
    (hke : next.keys ⊆ c.keys) :
    Allowed env w next where
  data := hr.data
  change := ⟨stage, stage', hs, hstage', hch⟩
  fresh := by
    intro old new hn
    rw [hstage'] at hn
    cases hn
    exact absurd rfl (ha old new)
  names := by
    intro k hk
    rw [loadedKeys_of_rendered hr.data] at hk
    obtain ⟨e, he, rfl⟩ := mem_map.mp hk
    refine h.names w.secret mem_cons_self _ ?_
    rw [← hcu, (h.read_spec hc).2]
    exact mem_map_of_mem (hke he)

theorem view_synced (hst : stageOf w.secret = some stage) (hs : w.Synced) :
    (w.view stage).Synced := by
  rintro l ⟨i, hi⟩
  exact (hs i l hi).trans (stageOf_ring hst).symm

theorem Inv.prepare (h : Inv env w) (hc : w.Read c) {source : SourceKey}
    (hnext : c.transitionToPrepared (env.staticKeyName w.generated) source = .ok next) :
    ThreadInv env { w with generated := w.generated + 1 } (.saving next) := by
  obtain ⟨hr, hph, active, hkeys, hca⟩ := StaticKeyConfig.transitionToPrepared_ok hnext
  obtain ⟨hp, hk⟩ := h.read_spec hc
  have hq : Quiet w { w with generated := w.generated + 1 } :=
    Quiet.of_eq rfl rfl (Nat.le_succ _) le_rfl rfl rfl
  have hst : stageOf c.secret = some (.single active.key) := by
    simp [stageOf, ← hp, hph, hk, hkeys]
  rcases hca with ⟨hnp, hnk⟩ | ⟨target, hna, hnp, hnk⟩
  · have hstage' : stageOf next.secret = some (.single active.key) := by
      simp [stageOf, hr.phase, hnp, loadedKeys_of_rendered hr.data, hnk]
    refine hq.threadInv (h.saving hc hr fun hcu => ?_)
    exact h.allowed hc hr hcu (hcu ▸ hst) hstage' (.keep rfl) (by simp)
      (by rw [hnk, hkeys]; exact List.Subset.refl _)
  · have hstage' : stageOf next.secret = some (.adding active.key target.key) := by
      simp [stageOf, hr.phase, hnp, loadedKeys_of_rendered hr.data, hnk]
    -- The name was just generated, so no stored version has it.
    have hnew : w.NewName target.name := by
      intro s hs k hke heq
      obtain ⟨j, hj, hkj⟩ := h.names s hs k hke
      rw [hkj, hna] at heq
      exact absurd (env.staticKeyName_injective heq) hj.ne
    refine ⟨hr.resourceVersion ▸ h.version_le hc.1, fun heq => ?_⟩
    have hcu : c.secret = w.secret := h.eq_secret hc.1 (hr.resourceVersion ▸ heq)
    refine ⟨hr.data, ⟨_, _, hcu ▸ hst, hstage', .add rfl⟩, ?_, ?_⟩
    · intro old new hn
      rw [hstage'] at hn
      cases hn
      exact hnew
    · intro k hke
      rw [loadedKeys_of_rendered hr.data, hnk] at hke
      rcases mem_cons.mp hke with rfl | hke
      · obtain ⟨j, hj, hkj⟩ := h.names c.secret hc.1 active.key (by rw [hk, hkeys]; simp)
        exact ⟨j, Nat.lt_succ_of_lt hj, hkj⟩
      · obtain rfl : k = target.key := by simpa using hke
        exact ⟨w.generated, Nat.lt_succ_self _, hna⟩

theorem Inv.promote (h : Inv env w) (hc : w.Read c) (hv : Verified env w c)
    (hn : c.transitionToPromoted = .ok next) : ThreadInv env w (.saving next) := by
  obtain ⟨hr, hph, active, target, hke, hnp, hnk⟩ :=
    StaticKeyConfig.transitionToPromoted_ok hn
  obtain ⟨hp, hk⟩ := h.read_spec hc
  refine h.saving hc hr fun hcu => ?_
  have hs : stageOf w.secret = some (.adding active.key target.key) := by
    simp [← hcu, stageOf, ← hp, hph, hk, hke]
  have hstage' : stageOf next.secret = some (.switching active.key target.key) := by
    simp [stageOf, hr.phase, hnp, loadedKeys_of_rendered hr.data, hnk]
  refine h.allowed hc hr hcu hs hstage'
    (.switch rfl (view_synced hs (h.synced_of_verified hc hv hcu))) (by simp) ?_
  rw [hnk, hke]
  simp

theorem Inv.settle (h : Inv env w) (hc : w.Read c) (hv : Verified env w c)
    (hn : c.transitionToIdle = .ok next) : ThreadInv env w (.saving next) := by
  obtain ⟨hr, hph, active, hke, hnp, hnk⟩ := StaticKeyConfig.transitionToIdle_ok hn
  obtain ⟨hp, hk⟩ := h.read_spec hc
  refine h.saving hc hr fun hcu => ?_
  have hs : stageOf w.secret = some (.dropping active.key) := by
    simp [← hcu, stageOf, ← hp, hph, hk, hke]
  have hstage' : stageOf next.secret = some (.single active.key) := by
    simp [stageOf, hr.phase, hnp, loadedKeys_of_rendered hr.data, hnk]
  refine h.allowed hc hr hcu hs hstage'
    (.settle rfl (view_synced hs (h.synced_of_verified hc hv hcu))) (by simp) ?_
  rw [hnk, hke]
  exact List.Subset.refl _

theorem Inv.finalize (h : Inv env w) (ht : ThreadInv env w (.cleaning c []))
    (hn : c.transitionToFinalized = .ok next) : ThreadInv env w (.saving next) := by
  obtain ⟨hc, hph, hd⟩ := ht
  obtain ⟨hr, -, active, old, hk, hnp, hnk⟩ := StaticKeyConfig.transitionToFinalized_ok hn
  refine h.saving hc hr fun hcu => ?_
  obtain ⟨hsy, hm⟩ := hd hcu
  have hs : stageOf w.secret = some (.switching old.key active.key) :=
    hcu ▸ h.stage_promoted hc hph hk
  have hstage' : stageOf next.secret = some (.dropping active.key) := by
    simp [stageOf, hr.phase, hnp, loadedKeys_of_rendered hr.data, hnk]
  refine h.allowed hc hr hcu hs hstage' (.drop rfl (view_synced hs hsy) ?_) (by simp) ?_
  · rintro k ⟨o, ho, rfl⟩
    have hh := hm o.resource (h.objects o ho).1 o ho rfl
    rw [← stageOf_ring hs] at hh
    simpa [Rekeying.Stage.ring] using hh.symm
  · rw [hnk, hk]
    simp

/-! ## Migrations -/

theorem storageVersionMigrationName_inj {r r' a a' : String} (hr : r ∈ encryptedResources)
    (hr' : r' ∈ encryptedResources)
    (h : storageVersionMigrationName r a = storageVersionMigrationName r' a') :
    r = r' ∧ a = a' := by
  have hl := congrArg String.toList h
  simp only [encryptedResources, mem_cons, not_mem_nil, or_false] at hr hr'
  rcases hr with rfl | rfl <;> rcases hr' with rfl | rfl <;>
    simp [storageVersionMigrationName] at hl
  · exact ⟨rfl, String.toList_inj.mp hl⟩
  · exact ⟨rfl, String.toList_inj.mp hl⟩

/-- The migrations of the current version are those that carry its names. -/
theorem Inv.eq_of_names (h : Inv env w) (hs : s ∈ w.versions) {old new old' new' : Key}
    (hst : stageOf s = some (.switching old new))
    (hc : stageOf w.secret = some (.switching old' new')) (hn : new.name = new'.name) :
    s = w.secret := by
  rcases mem_cons.mp hs with rfl | hs
  · rfl
  · exact absurd hn (h.promoted old' new' hc s hs old new hst)

theorem Inv.createMigration (h : Inv env w) {rest : List String}
    (ht : ThreadInv env w (.creating c resource rest))
    (hid : c.rotationID env.digest = .ok rotationID) :
    Inv env (w.createMigration (storageVersionMigrationName resource rotationID) resource) := by
  obtain ⟨hc, hph, hre, hsy⟩ := ht
  obtain ⟨-, active, old, hk, rfl⟩ := StaticKeyConfig.rotationID_ok hid
  have hr : resource ∈ encryptedResources := hre mem_cons_self
  have hst := h.stage_promoted hc hph hk
  have hq : Quiet w (w.createMigration
      (storageVersionMigrationName resource (env.digest old.name active.name)) resource) :=
    Quiet.of_eq rfl rfl le_rfl (Nat.le_succ _) rfl rfl
  refine h.quiet hq ?_ fun i t ht hne => absurd ht hne
  intro m hm hno
  rcases mem_cons.mp hm with rfl | hm
  · refine hq.migrationInv ⟨hr, ⟨c.secret, hc.1, _, _, hst, rfl⟩, ?_⟩
    intro old' new' hcu hn
    have hd := (storageVersionMigrationName_inj hr hr hn).2
    have heq := h.eq_of_names hc.1 hst hcu (env.digest_injective _ _ _ _ hd).2
    refine ⟨hsy heq, ?_, by simp⟩
    -- Nothing was written yet since the migration was created.
    intro o ho _ hs
    exact absurd (h.objects o ho).2 (not_lt.mpr hs)
  · exact absurd hm hno

/-- A migration that a reconcile finds done has rewritten its resource. -/
theorem Inv.migrated_of_done (h : Inv env w) (hc : w.Read c)
    (hre : resource ∈ encryptedResources) (hid : c.rotationID env.digest = .ok rotationID)
    (hcu : c.secret = w.secret)
    (hd : reconcileStorageVersionMigration
      (w.findMigration (storageVersionMigrationName resource rotationID)) = .done) :
    w.Migrated resource := by
  obtain ⟨hph, active, old, hk, rfl⟩ := StaticKeyConfig.rotationID_ok hid
  have hs := hcu ▸ h.stage_promoted hc hph hk
  cases hf : w.findMigration
      (storageVersionMigrationName resource (env.digest old.name active.name)) with
  | none =>
    rw [hf] at hd
    cases hd
  | some m =>
    rw [hf] at hd
    have hsu : m.succeeded = true := by
      unfold reconcileStorageVersionMigration at hd
      dsimp only at hd
      split_ifs at hd with _ hsu
      exact hsu
    have hn : m.name = storageVersionMigrationName resource (env.digest old.name active.name) := by
      simpa using find?_some hf
    have hm := h.migrations m (mem_of_find?_eq_some hf)
    obtain ⟨s, -, old', new', -, hname'⟩ := hm.origin
    obtain ⟨hr, -⟩ := storageVersionMigrationName_inj hre hm.resource
      (hn.symm.trans hname')
    subst hr
    exact (hm.current _ _ hs hn).2.2 hsu

theorem Inv.observe (h : Inv env w) {rest : List String} {done : Bool}
    (ht : ThreadInv env w (.migrating c (resource :: rest) done))
    (hid : c.rotationID env.digest = .ok rotationID) :
    ThreadInv env w
      (match reconcileStorageVersionMigration
          (w.findMigration (storageVersionMigrationName resource rotationID)) with
      | .absent => .creating c resource rest
      | .done => .migrating c rest done
      | _ => .migrating c rest false) := by
  obtain ⟨hc, hph, hrest, hcu⟩ := ht
  have hrest' : rest ⊆ encryptedResources := 
    fun r hr => hrest (mem_cons_of_mem _ hr)
  have hp : ThreadInv env w (.migrating c rest false) :=
    ⟨hc, hph, hrest', fun heq => ⟨(hcu heq).1, by simp⟩⟩
  cases hre : reconcileStorageVersionMigration
      (w.findMigration (storageVersionMigrationName resource rotationID)) with
  | absent => exact ⟨hc, hph, hrest, fun heq => (hcu heq).1⟩
  | pending => exact hp
  | blocked => exact hp
  | done =>
    refine ⟨hc, hph, hrest', fun heq => ⟨(hcu heq).1, fun hd r hr hno => ?_⟩⟩
    by_cases hrr : r = resource
    · subst hrr
      exact h.migrated_of_done hc hr hid heq hre
    · exact (hcu heq).2 hd r hr (by simp [hrr, hno])

/-- A migration that reports success while every object of its resource was rewritten. -/
theorem Inv.reported (h : Inv env w) {m : Migration} (hm : m ∈ w.migrations) {succeeded : Bool}
    (hd : succeeded = true → w.Rewritten m) :
    MigrationInv env w { m with succeeded := m.succeeded || succeeded, failed := !succeeded } := by
  obtain ⟨hre, hori, hc⟩ := h.migrations m hm
  refine ⟨hre, hori, fun old new hst hn => ?_⟩
  obtain ⟨hs, hnew, hsu⟩ := hc old new hst hn
  refine ⟨hs, hnew, fun hor => ?_⟩
  rcases Bool.or_eq_true_iff.mp hor with hold | hno
  · exact hsu hold
  · intro o ho hr
    rw [← stageOf_ring hst, hnew o ho hr (hd hno o ho hr)]
    rfl

theorem Inv.save (h : Inv env w) {i : ℕ} (hall : Allowed env w next) :
    Inv env { w.setThread i none with
      secret := { next.secret with resourceVersion := w.secret.resourceVersion + 1 }
      past := w.secret :: w.past } := by
  obtain ⟨stage, stage', hstg, hstage', hch⟩ := hall.change
  have hst : ∀ s ∈ w.versions,
      s ≠ { next.secret with resourceVersion := w.secret.resourceVersion + 1 } := by
    intro s hs heq
    have hle := h.version_le hs
    rw [heq] at hle
    exact absurd hle (Nat.not_succ_le_self _)
  constructor
  · exact ⟨stage', hstage'⟩
  · exact forall_mem_cons.mpr ⟨⟨next.keys, hall.data⟩, h.rendered⟩
  · intro s hs
    exact Nat.lt_succ_of_le (h.version_le hs)
  · exact forall_mem_cons.mpr ⟨hall.names, h.names⟩
  · intro old new ha
    exact hall.fresh old new ha
  · intro old new hsw s hs old' new' hs'
    change stageOf next.secret = _ at hsw
    rw [hstage'] at hsw
    cases hsw
    cases hch with
    | switch had _ =>
      change stage = _ at had
      subst had
      rcases mem_cons.mp hs with rfl | hs
      · rw [hstg] at hs'
        cases hs'
      · refine h.added old new hstg s hs new' ?_
        rw [← stageOf_ring hs']
        simp [Rekeying.Stage.ring]
  · exact h.objects
  · intro m hm
    obtain ⟨hr, ⟨s, hs, old', new', hs', hname'⟩, -⟩ := h.migrations m hm
    refine ⟨hr, ⟨s, mem_cons_of_mem _ hs, old', new', hs', hname'⟩, ?_⟩
    -- A version that promotes a key has no migration of its name yet.
    intro old new hsw hn
    change stageOf next.secret = _ at hsw
    rw [hstage'] at hsw
    cases hsw
    have hd := (storageVersionMigrationName_inj hr hr (hname'.symm.trans hn)).2
    cases hch with
    | switch had _ =>
      change stage = _ at had
      subst had
      rcases mem_cons.mp hs with rfl | hs
      · rw [hstg] at hs'
        cases hs'
      · refine absurd (env.digest_injective _ _ _ _ hd).2 (h.added old new hstg s hs new' ?_)
        rw [← stageOf_ring hs']
        simp [Rekeying.Stage.ring]
  · intro j t ht
    have ht' : w.threads j = some t := by
      by_cases hij : j = i
      · subst hij
        simp [World.setThread] at ht
      · simpa [World.setThread, update_of_ne hij] using ht
    -- Every other reconcile has read an older version now.
    have hold := h.threads j t ht'
    cases t with
    | loaded c | enabled c => exact ⟨mem_cons_of_mem _ hold.1, hold.2⟩
    | migrating c rest done | creating c resource rest =>
      obtain ⟨hc, hph, hre, -⟩ := hold
      exact ⟨⟨mem_cons_of_mem _ hc.1, hc.2⟩, hph, hre, fun heq => absurd heq (hst _ hc.1)⟩
    | cleaning c rest =>
      obtain ⟨hc, hph, -⟩ := hold
      exact ⟨⟨mem_cons_of_mem _ hc.1, hc.2⟩, hph, fun heq => absurd heq (hst _ hc.1)⟩
    | saving other =>
      exact ⟨hold.1.trans (Nat.le_succ _), fun heq => absurd heq (Nat.lt_succ_of_le hold.1).ne⟩

/-! ## Every run -/

/-- A step leaves the Secret alone, or it saves the wrapper of a reconcile. -/
theorem Step.quiet_or_save (hs : Step env w e w') :
    Quiet w w' ∨ ∃ i next, w.threads i = some (.saving next) ∧
      next.secret.resourceVersion = w.secret.resourceVersion ∧
      w' = { w.setThread i none with
        secret := { next.secret with resourceVersion := w.secret.resourceVersion + 1 }
        past := w.secret :: w.past } := by
  cases hs with
  | save ht _ heq _ => exact .inr ⟨_, _, ht, heq, rfl⟩
  | prepare => exact .inl (Quiet.of_eq rfl rfl (Nat.le_succ _) le_rfl rfl rfl)
  | create => exact .inl (Quiet.of_eq rfl rfl le_rfl (Nat.le_succ _) rfl rfl)
  | @reload i =>
    refine .inl ⟨rfl, rfl, le_rfl, le_rfl, fun j l hl => ?_, fun _ => .inl⟩
    by_cases hij : j = i
    · subst hij
      exact .inr (by simpa [eq_comm] using hl)
    · exact .inl (by simpa [update_of_ne hij] using hl)
  | @shutdown i =>
    refine .inl ⟨rfl, rfl, le_rfl, le_rfl, fun j l hl => ?_, fun _ => .inl⟩
    by_cases hij : j = i
    · subst hij
      simp at hl
    · exact .inl (by simpa [update_of_ne hij] using hl)
  | @write i key keys resource name hl hr =>
    refine .inl ⟨rfl, rfl, le_rfl, Nat.le_succ _, fun _ _ => .inl, fun o ho => ?_⟩
    rcases mem_cons.mp ho with rfl | ho
    · exact .inr ⟨hr, rfl, Nat.lt_succ_self _, i, keys, hl⟩
    · exact .inl (mem_filter.mp ho).1
  | remove =>
    refine .inl ⟨rfl, rfl, le_rfl, le_rfl, fun _ _ => .inl, fun o ho => ?_⟩
    exact .inl (mem_filter.mp ho).1
  | _ => exact .inl (Quiet.of_eq rfl rfl le_rfl le_rfl rfl rfl)

theorem Inv.step (h : Inv env w) (hs : Step env w e w') : Inv env w' := by
  rcases hs.quiet_or_save with hq | ⟨i, next, hth, heq, rfl⟩
  swap
  · exact h.save ((h.threads i _ hth).2 heq)
  cases hs with
  | load _ hmem hp =>
    apply h.setThread
    rintro t ⟨⟩
    obtain ⟨hse, -⟩ := parseStaticKey_ok hp
    exact ⟨hse ▸ hmem, hse ▸ hp⟩
  | @check i c hth =>
    apply h.setThread
    rintro t ⟨⟩
    have hc : w.Read c := h.threads _ _ hth
    exact hc
  | @prepare i c next source hth _ hnext =>
    have hn : Inv env { w with generated := w.generated + 1 } :=
      h.quiet (Quiet.of_eq rfl rfl (Nat.le_succ _) le_rfl rfl rfl)
        (fun _ hm hno => absurd hm hno) fun _ _ ht hne => absurd ht hne
    apply hn.setThread
    rintro t ⟨⟩
    exact h.prepare (h.threads _ _ hth) hnext
  | promote hth hv hnext =>
    apply h.setThread
    rintro t ⟨⟩
    exact h.promote (h.threads _ _ hth) hv hnext
  | verify hth hph hv =>
    apply h.setThread
    rintro t ⟨⟩
    have hc := h.threads _ _ hth
    exact ⟨hc, hph, List.Subset.refl _,
      fun hcu => ⟨h.synced_of_verified hc hv hcu, fun _ r hr hno => absurd hr hno⟩⟩
  | observe hth hid =>
    apply h.setThread
    rintro t ⟨⟩
    exact h.observe (h.threads _ _ hth) hid
  | create hth hid _ =>
    have ht := h.threads _ _ hth
    apply (h.createMigration ht hid).setThread
    rintro t ⟨⟩
    obtain ⟨hc, hph, hrest, hcu⟩ := hq.threadInv ht
    exact ⟨hc, hph, fun r hr => hrest (mem_cons_of_mem _ hr), fun heq => ⟨hcu heq, by simp⟩⟩
  | migrated hth =>
    apply h.setThread
    rintro t ⟨⟩
    obtain ⟨hc, hph, -, hcu⟩ := h.threads _ _ hth
    exact ⟨hc, hph, fun heq => ⟨(hcu heq).1, fun r hr => (hcu heq).2 rfl r hr (by simp)⟩⟩
  | @cleanup i c resource rotationID rest f hth hid hf =>
    have hu : Inv env (w.updateMigrations (storageVersionMigrationName resource rotationID) f) := by
      refine h.updateMigrations fun m hm _ m' hm' => ?_
      obtain ⟨hre, ho, hcu⟩ := h.migrations m hm
      rcases hf m with hnone | hso | hso
      · rw [hnone] at hm'
        cases hm'
      · rw [hso] at hm'
        cases hm'
        exact ⟨hre, ho, hcu⟩
      · rw [hso] at hm'
        cases hm'
        exact ⟨hre, ho, hcu⟩
    apply hu.setThread
    rintro t ⟨⟩
    exact h.threads _ _ hth
  | finalize hth hnext =>
    apply h.setThread
    rintro t ⟨⟩
    exact h.finalize (h.threads _ _ hth) hnext
  | settle hth hv hnext =>
    apply h.setThread
    rintro t ⟨⟩
    exact h.settle (h.threads _ _ hth) hv hnext
  | save => exact absurd (congrArg Secret.resourceVersion hq.secret) (Nat.succ_ne_self _)
  | stop =>
    apply h.setThread
    rintro t ⟨⟩
  | report hd =>
    refine h.updateMigrations fun m hm hna m' hm' => ?_
    cases hm'
    exact h.reported hm fun hs => hd hs m hm hna
  | dropMigration =>
    refine h.updateMigrations fun m hm hna m' hm' => ?_
    cases hm'
  | _ => exact h.quiet hq (fun _ hm hno => absurd hm hno) fun _ _ ht hne => absurd ht hne

/-- Every step of the parties is a step of the abstract key change. -/
theorem Inv.refines (h : Inv env w) (hs : Step env w e w') :
    ∃ stage stage', stageOf w.secret = some stage ∧ stageOf w'.secret = some stage' ∧
      Rekeying.Step (w.view stage) (w'.view stage') := by
  rcases hs.quiet_or_save with hq | ⟨i, next, ht, heq, rfl⟩
  · obtain ⟨stage, hst⟩ := h.stage
    exact ⟨stage, stage, hst, hq.secret ▸ hst, .background (hq.background hst)⟩
  · obtain ⟨stage, stage', hst, hstage', hc⟩ := ((h.threads i _ ht).2 heq).change
    exact ⟨stage, stage', hst, hstage', .change hc⟩

theorem Init.first_key (h : Init env w) : ∃ e : KeyEntry, e.name = env.staticKeyName 0 ∧
    w.secret.data = .yaml (renderStaticKeyEncryptionConfig [e]) ∧
    stageOf w.secret = some (.single e.key) := by
  obtain ⟨secretNamespace, secretName, source, c, hc, hs⟩ := h.secret
  obtain ⟨base64Key, -, hp⟩ := bind_eq_ok.mp hc
  obtain ⟨hcs, -⟩ := parseStaticKey_ok hp
  have hd : w.secret.data = .yaml (renderStaticKeyEncryptionConfig
      [⟨env.staticKeyName 0, base64Key.1, base64Key.2⟩]) := by
    rw [hs, hcs]
  have hph : Phase.ofText w.secret.phase = .idle := by
    rw [hs, hcs]
    rfl
  refine ⟨_, rfl, hd, ?_⟩
  simp [stageOf, hph, loadedKeys_of_rendered hd]

theorem inv_init (h : Init env w) : Inv env w := by
  obtain ⟨e, hn, hd, hst⟩ := h.first_key
  have hv : ∀ s ∈ w.versions, s = w.secret := by
    intro s hs
    simpa [World.versions, h.past] using hs
  constructor
  · exact ⟨_, hst⟩
  · intro s hs
    exact hv s hs ▸ ⟨_, hd⟩
  · simp [h.past]
  · intro s hs k hk
    rw [hv s hs, loadedKeys_of_rendered hd] at hk
    obtain rfl : k = e.key := by simpa using hk
    exact ⟨0, h.generated ▸ Nat.zero_lt_one, hn⟩
  · simp [h.past]
  · simp [h.past]
  · simp [h.objects]
  · simp [h.migrations]
  · intro i t ht
    simp [h.threads] at ht

/-- The abstract key change that a world stands for is sound. -/
def Sound (w : World) : Prop :=
  ∃ stage, stageOf w.secret = some stage ∧ Rekeying.Inv (w.view stage)

theorem Init.sound (h : Init env w) : Sound w := by
  obtain ⟨e, -, -, hs⟩ := h.first_key
  refine ⟨_, hs, ?_, ?_⟩
  · rintro l ⟨i, hi⟩
    rw [h.loaded i l hi, ← stageOf_ring hs]
    rfl
  · rintro k ⟨o, ho, -⟩
    simp [h.objects] at ho

theorem Sound.step (h : Sound w) (hi : Inv env w) (hs : Step env w e w') : Sound w' := by
  obtain ⟨stage₀, hs₀, hso⟩ := h
  obtain ⟨stage, stage', hstg, hstage', hst⟩ := hi.refines hs
  rw [hstg] at hs₀
  cases hs₀
  exact ⟨stage', hstage', hso.step hst⟩

/-- However reconciles, replicas, writes and migrations interleave, every replica can decrypt every
stored object at all times. -/
theorem objects_decryptable (env : Environment) {w : World}
    (h : Reachable (Init env) (Step env) w) : Decryptable w := by
  obtain ⟨-, stage, -, hso⟩ := Reachable.invariant (P := fun w => Inv env w ∧ Sound w)
    (fun _ h => ⟨inv_init h, h.sound⟩)
    (fun _ _ _ _ hi hs => ⟨hi.1.step hs, hi.2.step hi.1 hs⟩) h
  intro i l hl o ho
  exact hso.readable l ⟨i, hl⟩ o.key ⟨o, ho, rfl⟩

/-- No key is dropped while it is needed: at all times the Secret has the key of every stored
object, and the key that each replica encrypts the next one with, so that a replica that starts now
can decrypt everything. -/
theorem secret_decrypts_objects (env : Environment) {w : World}
    (h : Reachable (Init env) (Step env) w) :
    (∀ o ∈ w.objects, o.key ∈ w.secret.loadedKeys) ∧
      ∀ i l, w.loaded i = some l → ∃ key ∈ w.secret.loadedKeys, l.head? = some key := by
  obtain ⟨-, stage, hst, hso⟩ := Reachable.invariant (P := fun w => Inv env w ∧ Sound w)
    (fun _ h => ⟨inv_init h, h.sound⟩)
    (fun _ _ _ _ hi hs => ⟨hi.1.step hs, hi.2.step hi.1 hs⟩) h
  rw [← stageOf_ring hst]
  exact ⟨fun o ho => hso.ring.1 o.key ⟨o, ho, rfl⟩, fun i l hl => hso.ring.2 l ⟨i, hl⟩⟩

/-- Every run of the reconciles, replicas, writes and migrations is a run of the abstract key
change, from the stage with the first key on. -/
theorem rotation_refines_rekeying (env : Environment) {w : World}
    (h : Reachable (Init env) (Step env) w) :
    ∃ w₀ key stage, Init env w₀ ∧ stageOf w₀.secret = some (.single key) ∧
      stageOf w.secret = some stage ∧
      Relation.ReflTransGen Rekeying.Step (w₀.view (.single key)) (w.view stage) := by
  induction h with
  | start h =>
    obtain ⟨e, -, -, hst⟩ := h.first_key
    exact ⟨_, _, _, h, hst, hst, .refl⟩
  | next hr hs ih =>
    obtain ⟨w₀, key, stage, h₀, hk, hst, hrun⟩ := ih
    have hi := hr.invariant (fun _ => inv_init) fun _ _ _ _ hi hs => hi.step hs
    obtain ⟨_, stage', hst', hstage', hstep⟩ := hi.refines hs
    cases hst.symm.trans hst'
    exact ⟨w₀, key, stage', h₀, hk, hstage', hrun.tail hstep⟩

/-! ## A rotation -/

/-- Two texts in one that both can be read back from. -/
def pairChars (a b : List Char) : List Char := a.flatMap (fun c => ['x', c]) ++ 'y' :: b

theorem pairChars_inj {a b a' b' : List Char} (h : pairChars a b = pairChars a' b') :
    a = a' ∧ b = b' := by
  induction a generalizing a' with
  | nil =>
    cases a' with
    | nil => simpa [pairChars] using h
    | cons c a' => simp [pairChars] at h
  | cons c a ih =>
    cases a' with
    | nil => simp [pairChars] at h
    | cons c' a' =>
      obtain ⟨hc, hr⟩ : c = c' ∧ pairChars a b = pairChars a' b' := by
        simpa [pairChars] using h
      obtain ⟨ha, hb⟩ := ih hr
      exact ⟨by rw [hc, ha], hb⟩

def listChars : List Key → List Char
  | [] => []
  | k :: ks => pairChars (pairChars k.name.toList k.secret.toList) (listChars ks)

theorem listChars_injective : Function.Injective listChars := by
  intro l l' h
  induction l generalizing l' with
  | nil =>
    cases l' with
    | nil => rfl
    | cons k ks => simp [listChars, pairChars] at h
  | cons k ks ih =>
    cases l' with
    | nil => simp [listChars, pairChars] at h
    | cons k' ks' =>
      obtain ⟨hk, hks⟩ := pairChars_inj h
      obtain ⟨hn, hs⟩ := pairChars_inj hk
      obtain rfl : k = k' := by
        cases k
        cases k'
        simpa using And.intro (String.toList_inj.mp hn) (String.toList_inj.mp hs)
      rw [ih hks]

def sampleEnvironment : Environment where
  staticKeyName n := String.ofList (List.replicate (n + 1) 'k')
  staticKeyName_injective := by
    intro a b h
    have hlen := congrArg List.length (String.ofList_injective h)
    simpa using hlen
  digest a b := String.ofList (pairChars a.toList b.toList)
  digest_injective := by
    intro a b a' b' h
    obtain ⟨ha, hb⟩ := pairChars_inj (String.ofList_injective h)
    exact ⟨String.toList_inj.mp ha, String.toList_inj.mp hb⟩
  configHash l := String.ofList (listChars l)
  configHash_injective := by
    intro l l' h
    exact listChars_injective (String.ofList_injective h)

def sampleRef (resourceVersion : String) : ObservedSecretKeyRef :=
  ⟨"key-source", "key", "dpf-operator-system", "uid-1", resourceVersion⟩

def firstKey : KeyEntry := ⟨"k", "AAAAAAAAAAAAAAAAAAAAAA==", rfl⟩

def secondKey : KeyEntry := ⟨"kk", "AQEBAQEBAQEBAQEBAQEBAQ==", rfl⟩

def sampleSecret (resourceVersion : ℕ) (phase : Phase) (keys : List KeyEntry)
    (active target : ObservedSecretKeyRef) : Secret where
  secretNamespace := "dpu-cluster"
  secretName := "etcd-encryption-config"
  uid := "uid-2"
  resourceVersion := resourceVersion
  provider := "staticKey"
  phase := phase.text
  active := active
  target := target
  data := .yaml (renderStaticKeyEncryptionConfig keys)

/-- Rotation is enabled and the source holds the second key; one replica runs. -/
def sampleWorld : World where
  secret := sampleSecret 1 .idle [firstKey] (sampleRef "1") noRef
  past := []
  generated := 1
  operatorConfig := ⟨false, some ⟨secondKey.secret, sampleRef "2"⟩⟩
  loaded := update (fun _ => none) 0 (some [firstKey.key])
  objects := []
  migrations := []
  clock := 0
  threads := fun _ => none

def idleConfig : StaticKeyConfig :=
  ⟨sampleSecret 1 .idle [firstKey] (sampleRef "1") noRef, .idle, [firstKey], sampleRef "1", none,
    rfl⟩

def preparedConfig (resourceVersion : ℕ) : StaticKeyConfig :=
  ⟨sampleSecret resourceVersion .prepared [firstKey, secondKey] (sampleRef "1") (sampleRef "2"),
    .prepared, [firstKey, secondKey], sampleRef "1", some (sampleRef "2"), rfl⟩

def promotedConfig (resourceVersion : ℕ) : StaticKeyConfig :=
  ⟨sampleSecret resourceVersion .promoted [secondKey, firstKey] (sampleRef "2") (sampleRef "2"),
    .promoted, [secondKey, firstKey], sampleRef "2", some (sampleRef "2"), rfl⟩

/-- In the middle of a rotation one replica still writes with the old key and another one with the
new key, and both can decrypt everything. -/
theorem objects_decryptable_while_promoted :
    ∃ w, Reachable (Init sampleEnvironment) (Step sampleEnvironment) w ∧
      w.objects.map StoredObject.key = [secondKey.key, firstKey.key] ∧
      w.loaded 0 = some [firstKey.key, secondKey.key] ∧
      w.loaded 1 = some [secondKey.key, firstKey.key] ∧ Decryptable w := by
  have h₀ : Reachable (Init sampleEnvironment) (Step sampleEnvironment) sampleWorld := by
    refine .start ⟨⟨"dpu-cluster", "etcd-encryption-config", ⟨firstKey.secret, sampleRef "1"⟩,
      { idleConfig with secret := { idleConfig.secret with uid := "", resourceVersion := 0 } },
      rfl, rfl⟩, rfl, rfl, ?_, rfl, rfl, fun _ => rfl⟩
    intro i l hl
    by_cases hi : i = 0
    · subst hi
      cases hl
      rfl
    · simp [sampleWorld, update_of_ne hi] at hl
  have h₁ := h₀.next (@Step.write sampleEnvironment _ 0 firstKey.key [] "secrets" "a" rfl
    (by decide))
  have h₂ := ((h₁.next (@Step.load sampleEnvironment _ 0 _ idleConfig rfl mem_cons_self
    rfl)).next (@Step.check sampleEnvironment _ 0 idleConfig rfl rfl)).next
    (@Step.prepare sampleEnvironment _ 0 idleConfig (preparedConfig 1) _ rfl rfl rfl)
  have h₃ := (h₂.next (@Step.save sampleEnvironment _ 0 (preparedConfig 1) rfl rfl rfl
    (by decide))).next (@Step.reload sampleEnvironment _ 0)
  have h₄ := (h₃.next (@Step.load sampleEnvironment _ 0 _ (preparedConfig 2) rfl
    mem_cons_self rfl)).next (@Step.check sampleEnvironment _ 0 (preparedConfig 2) rfl rfl)
  have h₅ := h₄.next (@Step.promote sampleEnvironment _ 0 (preparedConfig 2) (promotedConfig 2) rfl
    (by
      intro i l hl
      by_cases hi : i = 0
      · subst hi
        cases hl
        rfl
      · simp [World.setThread, sampleWorld, update_of_ne hi] at hl) rfl)
  have h₆ := ((h₅.next (@Step.save sampleEnvironment _ 0 (promotedConfig 2) rfl rfl rfl
    (by decide))).next (@Step.reload sampleEnvironment _ 1)).next
    (@Step.write sampleEnvironment _ 1 secondKey.key [firstKey.key] "secrets" "b" rfl (by decide))
  exact ⟨_, h₆, rfl, rfl, rfl, objects_decryptable sampleEnvironment h₆⟩

/-- A replica starts and writes an object. -/
theorem sample_written : ∃ w, Reachable (Init sampleEnvironment) (Step sampleEnvironment) w ∧
    w.objects.map StoredObject.key = [firstKey.key] := by
  have h₀ : Reachable (Init sampleEnvironment) (Step sampleEnvironment)
      { sampleWorld with loaded := fun _ => none } :=
    .start ⟨⟨"dpu-cluster", "etcd-encryption-config", ⟨firstKey.secret, sampleRef "1"⟩,
      { idleConfig with secret := { idleConfig.secret with uid := "", resourceVersion := 0 } },
      rfl, rfl⟩, rfl, rfl, nofun, rfl, rfl, fun _ => rfl⟩
  exact ⟨_, (h₀.next (@Step.reload sampleEnvironment _ 0)).next
    (@Step.write sampleEnvironment _ 0 firstKey.key [] "secrets" "a" rfl (by decide)), rfl⟩

theorem secret_decrypts_first_object :
    ∃ w, Reachable (Init sampleEnvironment) (Step sampleEnvironment) w ∧
      w.objects.map StoredObject.key = [firstKey.key] ∧
      ∀ o ∈ w.objects, o.key ∈ w.secret.loadedKeys := by
  obtain ⟨w, h, ho⟩ := sample_written
  exact ⟨w, h, ho, (secret_decrypts_objects sampleEnvironment h).1⟩

theorem sample_refines_rekeying : ∃ w w₀ key stage,
    Reachable (Init sampleEnvironment) (Step sampleEnvironment) w ∧
    w.objects.map StoredObject.key = [firstKey.key] ∧ stageOf w.secret = some stage ∧
    Relation.ReflTransGen Rekeying.Step (World.view w₀ (.single key)) (w.view stage) := by
  obtain ⟨w, h, ho⟩ := sample_written
  obtain ⟨w₀, key, stage, -, -, hst, hrun⟩ := rotation_refines_rekeying sampleEnvironment h
  exact ⟨w, w₀, key, stage, h, ho, hst, hrun⟩

end DocaPlatform.StaticKeyRotation
