import HcMap.Lib.Lock
import HcMap.Lib.Run

/-!
# Migrations at startup

Backend instances start side by side and run
`run_migrations_with_advisory_lock` before they serve. The revisions of the
schema form a chain that ends at `head`. An upgrade that raises leaves the
revision it found or a later one up to `head`.
-/

namespace HcMap.Startup

-- ---------------------------------------------------------------------------
-- The runner
-- ---------------------------------------------------------------------------

inductive Environment
  | development
  | test
  | production
  deriving DecidableEq, Repr

/-- What `_should_run` reads; `skipMigrations` is `HCMAP_SKIP_MIGRATIONS=1`. -/
structure Settings where
  environment : Environment
  skipMigrations : Bool

def shouldRun (settings : Settings) : Bool :=
  if settings.skipMigrations then false
  else if settings.environment ≠ .production then false
  else true

inductive Upgrade
  | applied
  | raised (revision : Nat)
  deriving DecidableEq, Repr

/-- Where an instance is. `lockAcquired`, `applied`, `failing` and `granted`
hold the advisory lock; `leaving` has released it and disposes its engine. -/
inductive Place
  | starting
  | lockAcquired
  | applied
  | failing
  | lockBusy
  | granted
  | leaving
  | returned
  | raised
  deriving DecidableEq, Repr

def Place.holdsLock : Place → Bool
  | .lockAcquired | .applied | .failing | .granted => true
  | _ => false

structure Deployment (ι : Type) where
  schema : Nat
  lock : Option ι
  place : ι → Place

inductive Act (ι : Type)
  | tryLock (i : ι)
  | upgrade (i : ι) (result : Upgrade)
  | waitLock (i : ι)
  | unlock (i : ι)
  | leave (i : ι)
  deriving DecidableEq, Repr

namespace Deployment

variable {ι : Type} [DecidableEq ι]

def start (schema : Nat) : Deployment ι := ⟨schema, none, fun _ => .starting⟩

def goto (d : Deployment ι) (i : ι) (p : Place) : Deployment ι :=
  { d with place := Function.update d.place i p }

def grab (d : Deployment ι) (i : ι) (p : Place) : Deployment ι :=
  { d with lock := some i, place := Function.update d.place i p }

def release (d : Deployment ι) (i : ι) (p : Place) : Deployment ι :=
  { d with lock := none, place := Function.update d.place i p }

def tryLock (settings : ι → Settings) (d : Deployment ι) (i : ι) : Deployment ι :=
  match d.place i with
  | .starting =>
    if ¬ shouldRun (settings i) then d.goto i .returned
    else if d.lock = none then d.grab i .lockAcquired
    else d.goto i .lockBusy
  | _ => d

def upgrade (head : Nat) (d : Deployment ι) (i : ι) (result : Upgrade) : Deployment ι :=
  match d.place i, result with
  | .lockAcquired, .applied => { d.goto i .applied with schema := head }
  | .lockAcquired, .raised revision =>
    if revision = d.schema ∨ (d.schema < revision ∧ revision ≤ head) then
      { d.goto i .failing with schema := revision }
    else d
  | _, _ => d

/-- `pg_advisory_lock`, which blocks while another session holds the lock. -/
def waitLock (d : Deployment ι) (i : ι) : Deployment ι :=
  match d.place i, d.lock with
  | .lockBusy, none => d.grab i .granted
  | _, _ => d

/-- `pg_advisory_unlock`; after a failed upgrade the error goes on. -/
def unlock (d : Deployment ι) (i : ι) : Deployment ι :=
  match d.place i with
  | .applied => d.release i .leaving
  | .failing => d.release i .raised
  | .granted => d.release i .leaving
  | _ => d

def leave (d : Deployment ι) (i : ι) : Deployment ι :=
  match d.place i with
  | .leaving => d.goto i .returned
  | _ => d

def step (head : Nat) (settings : ι → Settings) (d : Deployment ι) : Act ι → Deployment ι
  | .tryLock i => d.tryLock settings i
  | .upgrade i result => d.upgrade head i result
  | .waitLock i => d.waitLock i
  | .unlock i => d.unlock i
  | .leave i => d.leave i

end Deployment

-- ---------------------------------------------------------------------------
-- What a step does
-- ---------------------------------------------------------------------------

section
variable {ι : Type} [DecidableEq ι] {head : Nat} {settings : ι → Settings} {d : Deployment ι}

inductive Outcome (head : Nat) (settings : ι → Settings) (d : Deployment ι) :
    Act ι → Deployment ι → Prop
  | idle {act} : Outcome head settings d act d
  | skipped {i} (hp : d.place i = .starting) (hrun : shouldRun (settings i) = false) :
      Outcome head settings d (.tryLock i) (d.goto i .returned)
  | acquired {i} (hp : d.place i = .starting) (hfree : d.lock = none) :
      Outcome head settings d (.tryLock i) (d.grab i .lockAcquired)
  | busy {i} (hp : d.place i = .starting) :
      Outcome head settings d (.tryLock i) (d.goto i .lockBusy)
  | applied {i} (hp : d.place i = .lockAcquired) :
      Outcome head settings d (.upgrade i .applied) { d.goto i .applied with schema := head }
  | failed {i revision} (hp : d.place i = .lockAcquired)
      (hrevision : revision = d.schema ∨ (d.schema < revision ∧ revision ≤ head)) :
      Outcome head settings d (.upgrade i (.raised revision))
        { d.goto i .failing with schema := revision }
  | granted {i} (hp : d.place i = .lockBusy) (hfree : d.lock = none) :
      Outcome head settings d (.waitLock i) (d.grab i .granted)
  | unlocked {i} (hp : d.place i = .applied ∨ d.place i = .granted) :
      Outcome head settings d (.unlock i) (d.release i .leaving)
  | reraised {i} (hp : d.place i = .failing) :
      Outcome head settings d (.unlock i) (d.release i .raised)
  | left {i} (hp : d.place i = .leaving) :
      Outcome head settings d (.leave i) (d.goto i .returned)

theorem step_cases (head : Nat) (settings : ι → Settings) (d : Deployment ι) (act : Act ι) :
    Outcome head settings d act (d.step head settings act) := by
  cases act with
  | tryLock i =>
    simp only [Deployment.step, Deployment.tryLock]
    split
    · rename_i hp
      split
      · rename_i hrun
        exact .skipped hp (by simpa using hrun)
      · split
        · rename_i hfree
          exact .acquired hp hfree
        · exact .busy hp
    · exact .idle
  | upgrade i result =>
    simp only [Deployment.step, Deployment.upgrade]
    split
    · rename_i hp
      exact .applied hp
    · rename_i hp
      split
      · rename_i h
        exact .failed hp h
      · exact .idle
    · exact .idle
  | waitLock i =>
    simp only [Deployment.step, Deployment.waitLock]
    split
    · rename_i hp hfree
      exact .granted hp hfree
    · exact .idle
  | unlock i =>
    simp only [Deployment.step, Deployment.unlock]
    split
    · rename_i hp
      exact .unlocked (.inl hp)
    · rename_i hp
      exact .reraised hp
    · rename_i hp
      exact .unlocked (.inr hp)
    · exact .idle
  | leave i =>
    simp only [Deployment.step, Deployment.leave]
    split
    · rename_i hp
      exact .left hp
    · exact .idle

-- ---------------------------------------------------------------------------
-- One migration at a time
-- ---------------------------------------------------------------------------

def Deployment.LockOwned (d : Deployment ι) : Prop := Lock.Owned Place.holdsLock d.lock d.place

omit [DecidableEq ι] in
theorem lockOwned_start (schema : Nat) : (Deployment.start schema : Deployment ι).LockOwned :=
  Lock.owned_start fun _ => rfl

theorem lockOwned_step (act : Act ι) (h : d.LockOwned) : (d.step head settings act).LockOwned := by
  have hout := step_cases head settings d act
  generalize d.step head settings act = d' at hout
  unfold Deployment.LockOwned at h ⊢
  cases hout with
  | idle => exact h
  | skipped hp _ => exact h.stay (by simp [hp, Place.holdsLock])
  | acquired hp hfree =>
    rw [hfree] at h
    exact h.take rfl
  | busy hp => exact h.stay (by simp [hp, Place.holdsLock])
  | applied hp => exact h.stay (by simp [hp, Place.holdsLock])
  | failed hp _ => exact h.stay (by simp [hp, Place.holdsLock])
  | granted hp hfree =>
    rw [hfree] at h
    exact h.take rfl
  | unlocked hp =>
    refine h.give ?_ rfl
    rcases hp with hp | hp <;> simp [hp, Place.holdsLock]
  | reraised hp => exact h.give (by simp [hp, Place.holdsLock]) rfl
  | left hp => exact h.stay (by simp [hp, Place.holdsLock])

theorem upgrading_unique (schema : Nat) (acts : List (Act ι)) {i j : ι}
    (hi : (Run.run (Deployment.step head settings) (.start schema) acts).place i = .lockAcquired)
    (hj : (Run.run (Deployment.step head settings) (.start schema) acts).place j = .lockAcquired) :
    i = j := by
  have howned : (Run.run (Deployment.step head settings) (.start schema) acts).LockOwned :=
    Run.preserves (lockOwned_start schema) fun _ act h => lockOwned_step act h
  exact howned.unique (by simp [hi, Place.holdsLock]) (by simp [hj, Place.holdsLock])

-- ---------------------------------------------------------------------------
-- Serving a migrated schema
-- ---------------------------------------------------------------------------

def Deployment.Migrated (head : Nat) (d : Deployment ι) : Prop :=
  ∀ i, d.place i = .returned → d.schema = head

/-- A waiting instance is not handed the lock over an unfinished schema. -/
def GrantsMigrated (head : Nat) (d : Deployment ι) : Act ι → Prop
  | .waitLock i => d.place i = .lockBusy → d.lock = none → d.schema = head
  | _ => True

/-- From where an instance returns without looking at the schema again. -/
def Place.trusting : Place → Bool
  | .applied | .granted | .leaving | .returned => true
  | _ => false

def Deployment.Sound (head : Nat) (d : Deployment ι) : Prop :=
  ∀ i, (d.place i).trusting = true → d.schema = head

omit [DecidableEq ι] in
theorem Deployment.Sound.migrated (h : d.Sound head) : d.Migrated head := by
  intro i hi
  exact h i (by simp [hi, Place.trusting])

omit [DecidableEq ι] in
theorem sound_start (schema : Nat) : (Deployment.start schema : Deployment ι).Sound head := by
  intro i hi
  simp [Deployment.start, Place.trusting] at hi

theorem trusted_update {place : ι → Place} {i : ι} {p : Place} {schema : Nat}
    (h : ∀ j, (place j).trusting = true → schema = head)
    (hp : p.trusting = true → schema = head) :
    ∀ j, (Function.update place i p j).trusting = true → schema = head := by
  intro j hj
  by_cases hij : j = i
  · subst hij
    exact hp (by simpa using hj)
  · exact h j (by simpa [hij] using hj)

/-- An upgrade never takes the schema back, so who trusts it stays right. -/
theorem sound_step (hsettings : ∀ i, shouldRun (settings i) = true) (act : Act ι)
    (h : d.Sound head) (hok : GrantsMigrated head d act) :
    (d.step head settings act).Sound head := by
  have hout := step_cases head settings d act
  generalize d.step head settings act = d' at hout
  cases hout with
  | idle => exact h
  | skipped hp hrun => simp [hsettings] at hrun
  | acquired hp hfree => exact trusted_update h (by simp [Place.trusting])
  | busy hp => exact trusted_update h (by simp [Place.trusting])
  | applied hp => exact fun _ _ => rfl
  | @failed i revision hp hrevision =>
    refine trusted_update (fun j hj => ?_) (by simp [Place.trusting])
    have hhead : d.schema = head := h j hj
    have : revision = head := by omega
    exact this
  | granted hp hfree =>
    have hhead : d.schema = head := hok hp hfree
    exact trusted_update h fun _ => hhead
  | @unlocked i hp =>
    have htrusting : (d.place i).trusting = true := by
      rcases hp with hp | hp <;> simp [hp, Place.trusting]
    exact trusted_update h fun _ => h i htrusting
  | reraised hp => exact trusted_update h (by simp [Place.trusting])
  | @left i hp =>
    have htrusting : (d.place i).trusting = true := by simp [hp, Place.trusting]
    exact trusted_update h fun _ => h i htrusting

theorem not_migrated_of_grant {i : ι} (hp : d.place i = .lockBusy)
    (hfree : d.lock = none) (hschema : d.schema ≠ head) :
    ¬ (Run.run (Deployment.step head settings) d
      [.waitLock i, .unlock i, .leave i]).Migrated head := by
  intro h
  have := h i
  simp [Deployment.step, Deployment.waitLock, Deployment.unlock, Deployment.leave, hp, hfree,
    Deployment.grab, Deployment.release, Deployment.goto, hschema] at this

/-- Instances that migrate serve the schema at head as long as no waiting one
is handed the lock over an unfinished schema, and only then: that one needs
nothing more than its own next steps to serve it. -/
theorem serving_migrated (schema : Nat) (hsettings : ∀ i, shouldRun (settings i) = true)
    (acts : List (Act ι)) :
    (Run.Along (Deployment.step head settings) (GrantsMigrated head) (.start schema) acts →
      Run.Always (Deployment.step head settings) (Deployment.Migrated head) (.start schema) acts) ∧
    (¬ Run.Along (Deployment.step head settings) (GrantsMigrated head) (.start schema) acts →
      ∃ before i, before ++ [.waitLock i] <+: acts ∧
        ¬ (Run.run (Deployment.step head settings) (.start schema)
          (before ++ [.waitLock i, .unlock i, .leave i])).Migrated head) := by
  constructor
  · intro hok
    exact hok.always (sound_start schema) (fun _ act h hgrant => sound_step hsettings act h hgrant)
      fun _ h => h.migrated
  · intro hbad
    obtain ⟨before, act, rest, rfl, -, hact⟩ := Run.exists_bad_step hbad
    cases act with
    | waitLock i =>
      simp only [GrantsMigrated, Classical.not_imp] at hact
      obtain ⟨hp, hfree, hne⟩ := hact
      refine ⟨before, i, ⟨rest, by simp⟩, ?_⟩
      rw [Run.run_append]
      exact not_migrated_of_grant hp hfree hne
    | tryLock i => exact absurd trivial hact
    | upgrade i result => exact absurd trivial hact
    | unlock i => exact absurd trivial hact
    | leave i => exact absurd trivial hact

end

-- ---------------------------------------------------------------------------
-- Two instances
-- ---------------------------------------------------------------------------

def production (_ : Nat) : Settings := ⟨.production, false⟩

def finishedUpgrade : List (Act Nat) :=
  [.tryLock 0, .tryLock 1, .upgrade 0 .applied, .unlock 0, .waitLock 1, .unlock 1, .leave 1]

theorem finishedUpgrade_serves_migrated :
    Run.Always (Deployment.step 1 production) (Deployment.Migrated 1) (.start 0) finishedUpgrade :=
  (serving_migrated 0 (fun _ => rfl) finishedUpgrade).1 <| by
    simp [finishedUpgrade, Run.Along, GrantsMigrated, Deployment.step, Deployment.tryLock,
      Deployment.upgrade, Deployment.unlock, Deployment.start, Deployment.goto, Deployment.grab,
      Deployment.release, production, shouldRun]

def failedUpgrade : List (Act Nat) :=
  [.tryLock 0, .tryLock 1, .upgrade 0 (.raised 0), .unlock 0, .waitLock 1, .unlock 1, .leave 1]

theorem failedUpgrade_serves_unmigrated :
    (∀ i, shouldRun (production i) = true) ∧
      ¬ Run.Always (Deployment.step 1 production) (Deployment.Migrated 1) (.start 0)
        failedUpgrade := by
  refine ⟨fun _ => rfl, fun h => ?_⟩
  have := h.last 1
  simp [failedUpgrade, Deployment.step, Deployment.tryLock, Deployment.upgrade, Deployment.waitLock,
    Deployment.unlock, Deployment.leave, Deployment.start, Deployment.goto, Deployment.grab,
    Deployment.release, production, shouldRun] at this

end HcMap.Startup
