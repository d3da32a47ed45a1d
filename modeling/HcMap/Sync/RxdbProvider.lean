import HcMap.Lib.Effect
import HcMap.Lib.Run

/-!
# The local database and its replication

`database.ts` builds the database once for a page, `provider.tsx` starts the
replication of it for as long as it is mounted, and `replication.ts` makes one
status of what the three collections report. A build may fail, and the provider
may be mounted and unmounted while one is under way.
-/

namespace HcMap.Sync

open Run

inductive Collection
  | events | applications | eventParticipants
  deriving DecidableEq

inductive SyncStatus
  | idle | active | error | offline
  deriving DecidableEq

/-- The flags that `startReplication` keeps, and the value of `status$`. A
stopped one has no subscriptions and no listeners. -/
structure Replication where
  active : Collection → Bool
  errored : Collection → Bool
  status : SyncStatus
  stopped : Bool

namespace Replication

variable (r : Replication) (onLine : Bool)

def aggregate : SyncStatus :=
  if !onLine then .offline
  else if r.errored .events || r.errored .applications || r.errored .eventParticipants then .error
  else if r.active .events || r.active .applications || r.active .eventParticipants then .active
  else .idle

def recompute : Replication := { r with status := r.aggregate onLine }

def setActive (c : Collection) (active : Bool) : Replication :=
  { r with active := fun c' => if c' = c then active else r.active c' }

def setErrored (c : Collection) : Replication :=
  { r with errored := fun c' => if c' = c then true else r.errored c' }

end Replication

def startReplication (onLine : Bool) : Replication where
  active _ := false
  errored _ := false
  status := if !onLine then .offline else .idle
  stopped := false

inductive Build
  | pending | resolved | rejected
  deriving DecidableEq

/-- The page: `dbPromise` of `database.ts` is the place of the promise in
`builds`, `database` that of the one that resolved to it. A task of the
provider's effect awaits the promise that is its argument. `handles` is the
place of the run's replication. -/
structure RxdbPage where
  builds : List Build
  dbPromise : Option Nat
  mounted : Bool
  database : Option Nat
  error : Bool
  status : SyncStatus
  calls : Effect Nat
  handles : Option Nat
  replications : List Replication
  onLine : Bool
  -- The listeners have run since `onLine` last changed.
  notified : Bool

inductive RxdbAct
  -- Strict mode runs the effect twice.
  | mount (strict : Bool)
  | unmount
  | built (build : Nat) (ok : Bool)
  | resumed (id : Nat)
  | active (replication : Nat) (c : Collection) (active : Bool)
  | errored (replication : Nat) (c : Collection)
  | connection (onLine : Bool)
  | listeners

namespace RxdbPage

def start (onLine : Bool) : RxdbPage :=
  { builds := [], dbPromise := none, mounted := false, database := none, error := false
    status := .idle, calls := .idle, handles := none, replications := [], onLine
    notified := true }

variable (p : RxdbPage)

def getDatabase : Nat × RxdbPage :=
  match p.dbPromise with
  | some build => (build, p)
  | none =>
    (p.builds.length,
      { p with builds := p.builds ++ [.pending], dbPromise := some p.builds.length })

def effect : RxdbPage :=
  { p.getDatabase.2 with
    calls := p.getDatabase.2.calls.rerun.begin p.getDatabase.1
    handles := none }

def stop : List Replication :=
  match p.handles with
  | some i => p.replications.modify i fun r => { r with stopped := true }
  | none => p.replications

def cleanup : RxdbPage := { p with calls := p.calls.cleanup, replications := p.stop }

/-- A build that fails is forgotten, so that the next call builds again. -/
def settle (build : Nat) (ok : Bool) : RxdbPage :=
  if p.builds[build]? = some .pending then
    if ok then { p with builds := p.builds.set build .resolved }
    else { p with builds := p.builds.set build .rejected, dbPromise := none }
  else p

def resume (t : Effect.Task Nat) (calls : Effect Nat) : RxdbPage :=
  match p.builds[t.arg]? with
  | some .resolved =>
    if t.cancelled then { p with calls }
    else
      { p with
        calls, database := some t.arg, handles := some p.replications.length
        replications := p.replications ++ [startReplication p.onLine]
        status := (startReplication p.onLine).status }
  | some .rejected => if t.cancelled then { p with calls } else { p with calls, error := true }
  | _ => p

def emit (i : Nat) (f : Replication → Replication) : RxdbPage :=
  match p.replications[i]? with
  | some r =>
    if r.stopped then p
    else
      { p with
        replications := p.replications.set i ((f r).recompute p.onLine)
        status := (f r).aggregate p.onLine }
  | none => p

def step : RxdbAct → RxdbPage
  | .mount strict =>
    if p.mounted then p
    else
      let first := { p with mounted := true, database := none, error := false, status := .idle }
      if strict then first.effect.cleanup.effect else first.effect
  | .unmount => if p.mounted then { p.cleanup with mounted := false } else p
  | .built build ok => p.settle build ok
  | .resumed id =>
    match p.calls.settle id with
    | some (t, calls) => p.resume t calls
    | none => p
  | .active i c active => p.emit i (·.setActive c active)
  | .errored i c => p.emit i (·.setErrored c)
  | .connection onLine =>
    { p with onLine, notified := p.notified && decide (onLine = p.onLine) }
  | .listeners =>
    { (List.range p.replications.length).foldl (fun p i => p.emit i id) p with notified := true }

-- ---------------------------------------------------------------------------
-- What holds at any moment
-- ---------------------------------------------------------------------------

/-- One promise at most is not rejected, and it is the one handed out. -/
structure Single (p : RxdbPage) : Prop where
  kept : ∀ i b, p.builds[i]? = some b → (b ≠ .rejected ↔ p.dbPromise = some i)
  handed : ∀ i, p.dbPromise = some i → i < p.builds.length

def AllStopped (replications : List Replication) : Prop :=
  ∀ (i : Nat) (r : Replication), replications[i]? = some r → r.stopped = true

structure Runs (replications : List Replication) (i : Nat) (r : Replication) : Prop where
  found : replications[i]? = some r
  running : r.stopped = false
  others : ∀ (j : Nat) (s : Replication), replications[j]? = some s → j ≠ i → s.stopped = true

inductive Phase (p : RxdbPage) : Prop
  | off (hmounted : p.mounted = false) (hlive : p.calls.live = [])
      (hstopped : AllStopped p.replications)
  | awaiting (hmounted : p.mounted = true) {t : Effect.Task Nat} (hlive : p.calls.live = [t])
      (hdatabase : p.database = none) (herror : p.error = false)
      (hstopped : AllStopped p.replications)
  | failed (hmounted : p.mounted = true) (hlive : p.calls.live = [])
      (hdatabase : p.database = none) (herror : p.error = true)
      (hstopped : AllStopped p.replications)
  | running (hmounted : p.mounted = true) (hlive : p.calls.live = [])
      (herror : p.error = false) {d i : Nat} {r : Replication}
      (hdatabase : p.database = some d) (hbuilt : p.builds[d]? = some .resolved)
      (hhandles : p.handles = some i) (hruns : Runs p.replications i r)
      (hshown : p.status = r.status)
      (hcurrent : p.notified = true → r.status = r.aggregate p.onLine)

structure Sound (p : RxdbPage) : Prop where
  single : p.Single
  tidy : p.calls.Tidy
  known : ∀ t ∈ p.calls.tasks, t.arg < p.builds.length
  phase : p.Phase

section
variable {replications : List Replication} {i : Nat} {r r' : Replication}

theorem Runs.eq_of_running (h : Runs replications i r) {j : Nat}
    (hfound : replications[j]? = some r') (hrunning : r'.stopped = false) : j = i ∧ r' = r := by
  have hij : j = i := by
    by_contra hne
    have htrue := h.others j r' hfound hne
    simp [hrunning] at htrue
  subst hij
  exact ⟨rfl, Option.some.inj (hfound.symm.trans h.found)⟩

theorem AllStopped.append (h : AllStopped replications) (hr : r.stopped = false) :
    Runs (replications ++ [r]) replications.length r where
  found := by simp
  running := hr
  others j s hs hne := by
    rw [List.getElem?_append] at hs
    split at hs
    · exact h j s hs
    · obtain ⟨hlt, -⟩ := List.getElem?_eq_some_iff.mp hs
      simp only [List.length_singleton] at hlt
      omega

theorem Runs.set (h : Runs replications i r) (hr' : r'.stopped = false) :
    Runs (replications.set i r') i r' where
  found := by
    obtain ⟨hlt, -⟩ := List.getElem?_eq_some_iff.mp h.found
    simp [hlt]
  running := hr'
  others j s hs hne := by
    rw [List.getElem?_set_ne (Ne.symm hne)] at hs
    exact h.others j s hs hne

theorem Runs.stop (h : Runs replications i r) :
    AllStopped (replications.modify i fun r => { r with stopped := true }) := by
  intro j s hs
  rw [List.getElem?_modify] at hs
  obtain ⟨s', hs', rfl⟩ := Option.map_eq_some_iff.mp hs
  by_cases hij : i = j
  · simp [hij]
  · simp only [if_neg hij]
    exact h.others j s' hs' (Ne.symm hij)

theorem AllStopped.modify (h : AllStopped replications) :
    AllStopped (replications.modify i fun r => { r with stopped := true }) := by
  intro j s hs
  rw [List.getElem?_modify] at hs
  obtain ⟨s', hs', rfl⟩ := Option.map_eq_some_iff.mp hs
  by_cases hij : i = j
  · simp [hij]
  · simpa only [if_neg hij] using h j s' hs'

end

section
variable {p}

theorem Single.getDatabase (h : p.Single) : p.getDatabase.2.Single := by
  unfold RxdbPage.getDatabase
  split
  · exact h
  · rename_i hnone
    refine ⟨fun i b hb => ?_, fun i hi => ?_⟩
    · rw [List.getElem?_append] at hb
      split at hb
      · have hrejected := h.kept i b hb
        simp only [hnone, reduceCtorEq, iff_false] at hrejected
        simp only [hrejected, false_iff, Option.some.injEq]
        omega
      · rename_i hge
        obtain ⟨hlt, rfl⟩ := List.getElem?_eq_some_iff.mp hb
        have hi : i = p.builds.length := by
          simp only [List.length_singleton] at hlt
          omega
        simp [hi]
    · obtain rfl := Option.some.inj hi
      simp

theorem getDatabase_handed (h : p.Single) :
    p.getDatabase.1 < p.getDatabase.2.builds.length := by
  unfold RxdbPage.getDatabase
  split
  · exact h.handed _ ‹_›
  · simp

theorem length_builds_getDatabase : p.builds.length ≤ p.getDatabase.2.builds.length := by
  unfold RxdbPage.getDatabase
  split
  · exact Nat.le_refl _
  · simp

theorem getDatabase_frame :
    p.getDatabase.2 =
      { p with builds := p.getDatabase.2.builds, dbPromise := p.getDatabase.2.dbPromise } := by
  unfold RxdbPage.getDatabase
  split <;> rfl

/-- Nothing of an earlier run can act any more. -/
structure Quiet (p : RxdbPage) : Prop where
  single : p.Single
  tidy : p.calls.Tidy
  known : ∀ t ∈ p.calls.tasks, t.arg < p.builds.length
  stopped : AllStopped p.replications

theorem Quiet.effect (h : p.Quiet) (hmounted : p.mounted = true) (hdatabase : p.database = none)
    (herror : p.error = false) : p.effect.Sound := by
  have hcalls : p.getDatabase.2.calls = p.calls := by rw [getDatabase_frame]
  have hreplications : p.getDatabase.2.replications = p.replications := by rw [getDatabase_frame]
  have hmounted' : p.getDatabase.2.mounted = true := by rw [getDatabase_frame]; exact hmounted
  have hdatabase' : p.getDatabase.2.database = none := by rw [getDatabase_frame]; exact hdatabase
  have herror' : p.getDatabase.2.error = false := by rw [getDatabase_frame]; exact herror
  have hlive := Effect.live_begin p.getDatabase.2.calls.rerun p.getDatabase.1
  rw [hcalls, h.tidy.live_rerun, List.nil_append] at hlive
  exact
    { single := ⟨h.single.getDatabase.kept, h.single.getDatabase.handed⟩
      tidy := by
        show ((p.getDatabase.2.calls.rerun).begin _).Tidy
        rw [hcalls]
        exact h.tidy.rerun.begin _
      known := by
        intro t ht
        show t.arg < p.getDatabase.2.builds.length
        replace ht : t ∈ (p.getDatabase.2.calls.rerun.begin p.getDatabase.1).tasks := ht
        rw [hcalls] at ht
        rcases List.mem_append.mp ht with ht | ht
        · obtain ⟨t', ht', rfl⟩ := List.mem_map.mp ht
          have hknown := h.known t' ht'
          have hmore := length_builds_getDatabase (p := p)
          split <;> exact Nat.lt_of_lt_of_le hknown hmore
        · obtain rfl := List.mem_singleton.mp ht
          exact getDatabase_handed h.single
      phase := .awaiting hmounted' (hcalls ▸ hlive) hdatabase' herror' (hreplications ▸ h.stopped) }

theorem Sound.stopped (h : p.Sound) : AllStopped p.stop := by
  unfold stop
  cases h.phase with
  | off _ _ hstopped | awaiting _ _ _ _ hstopped | failed _ _ _ _ hstopped =>
    split
    · exact hstopped.modify
    · exact hstopped
  | running _ _ _ _ _ hhandles hruns =>
    rw [hhandles]
    exact hruns.stop

theorem Sound.cleanup (h : p.Sound) : p.cleanup.Quiet where
  single := ⟨h.single.kept, h.single.handed⟩
  tidy := h.tidy.cleanup
  known t ht := by
    obtain ⟨t', ht', rfl⟩ := List.mem_map.mp ht
    have hknown := h.known t' ht'
    split <;> exact hknown
  stopped := h.stopped

theorem Sound.unmount (h : p.Sound) : ({ p.cleanup with mounted := false } : RxdbPage).Sound where
  single := ⟨h.single.kept, h.single.handed⟩
  tidy := h.tidy.cleanup
  known := h.cleanup.known
  phase := .off rfl h.tidy.live_cleanup h.stopped

theorem Sound.mount (h : p.Sound) (hmounted : p.mounted = false) (strict : Bool) :
    (p.step (.mount strict)).Sound := by
  have hstopped : AllStopped p.replications := by
    cases h.phase with
    | off _ _ hstopped => exact hstopped
    | awaiting htrue | failed htrue | running htrue => simp [hmounted] at htrue
  have hquiet : ({ p with
      mounted := true, database := none, error := false, status := .idle } : RxdbPage).Quiet :=
    ⟨⟨h.single.kept, h.single.handed⟩, h.tidy, h.known, hstopped⟩
  have hfirst := hquiet.effect rfl rfl rfl
  simp only [RxdbPage.step, hmounted, Bool.false_eq_true, if_false]
  split
  · refine hfirst.cleanup.effect ?_ ?_ ?_
    all_goals
      simp only [RxdbPage.cleanup, RxdbPage.effect]
      rw [getDatabase_frame]
  · exact hfirst

theorem Single.settle (h : p.Single) (build : Nat) (ok : Bool) : (p.settle build ok).Single := by
  unfold RxdbPage.settle
  split
  case isFalse => exact h
  rename_i hpending
  have hlt := (List.getElem?_eq_some_iff.mp hpending).1
  have hbuild : p.dbPromise = some build := (h.kept build _ hpending).mp (by simp)
  split
  · refine ⟨fun i b hb => ?_, fun i hi => ?_⟩
    · by_cases hi : build = i
      · subst hi
        rw [List.getElem?_set_self hlt] at hb
        cases hb
        simp [hbuild]
      · rw [List.getElem?_set_ne hi] at hb
        exact h.kept i b hb
    · simpa using h.handed i hi
  · refine ⟨fun i b hb => ?_, fun i hi => nomatch hi⟩
    by_cases hi : build = i
    · subst hi
      rw [List.getElem?_set_self hlt] at hb
      cases hb
      simp
    · rw [List.getElem?_set_ne hi] at hb
      have hother : b = .rejected := by
        by_contra hne
        exact hi (Option.some.inj (hbuild.symm.trans ((h.kept i b hb).mp hne)))
      simp [hother]

theorem settle_frame (build : Nat) (ok : Bool) :
    p.settle build ok =
        { p with
          builds := (p.settle build ok).builds
          dbPromise := (p.settle build ok).dbPromise } ∧
      (p.settle build ok).builds.length = p.builds.length ∧
      ∀ d : Nat, p.builds[d]? = some .resolved →
        (p.settle build ok).builds[d]? = some .resolved := by
  unfold RxdbPage.settle
  split
  case isFalse => exact ⟨rfl, rfl, fun _ hi => hi⟩
  rename_i hpending
  have hkept : ∀ (b : Build) (d : Nat), p.builds[d]? = some .resolved →
      (p.builds.set build b)[d]? = some .resolved := by
    intro b d hd
    have hne : build ≠ d := by
      rintro rfl
      simp [hpending] at hd
    rw [List.getElem?_set_ne hne, hd]
  split
  · exact ⟨rfl, List.length_set, hkept _⟩
  · exact ⟨rfl, List.length_set, hkept _⟩

theorem Sound.settle (h : p.Sound) (build : Nat) (ok : Bool) : (p.settle build ok).Sound := by
  obtain ⟨hframe, hlength, hresolved⟩ := settle_frame (p := p) build ok
  have hsingle := h.single.settle build ok
  rw [hframe] at hsingle ⊢
  exact
    { single := hsingle
      tidy := h.tidy
      known := fun t ht => hlength ▸ h.known t ht
      phase := by
        cases h.phase with
        | off hmounted hlive hstopped => exact .off hmounted hlive hstopped
        | awaiting hmounted hlive hdatabase herror hstopped =>
          exact .awaiting hmounted hlive hdatabase herror hstopped
        | failed hmounted hlive hdatabase herror hstopped =>
          exact .failed hmounted hlive hdatabase herror hstopped
        | running hmounted hlive herror hdatabase hbuilt hhandles hruns hshown hcurrent =>
          exact .running hmounted hlive herror hdatabase (hresolved _ hbuilt) hhandles hruns hshown
            hcurrent }

theorem Sound.resume (h : p.Sound) {id : Nat} {t : Effect.Task Nat} {calls : Effect Nat}
    (hsettle : p.calls.settle id = some (t, calls)) : (p.resume t calls).Sound := by
  have htidy := h.tidy.settle hsettle
  have hknown : ∀ t' ∈ calls.tasks, t'.arg < p.builds.length := by
    intro t' ht'
    obtain ⟨-, rfl⟩ := Effect.settle_eq_some.mp hsettle
    exact h.known t' (List.mem_of_mem_filter ht')
  -- A run that was cleaned up does nothing more.
  have hcancelled : t.cancelled = true → ({ p with calls } : RxdbPage).Sound := by
    intro hc
    have hlive : calls.live = p.calls.live := h.tidy.live_settle_cancelled hsettle hc
    refine ⟨⟨h.single.kept, h.single.handed⟩, htidy, hknown, ?_⟩
    cases h.phase with
    | off hmounted hlive' hstopped => exact .off hmounted (hlive.trans hlive') hstopped
    | awaiting hmounted hlive' hdatabase herror hstopped =>
      exact .awaiting hmounted (hlive.trans hlive') hdatabase herror hstopped
    | failed hmounted hlive' hdatabase herror hstopped =>
      exact .failed hmounted (hlive.trans hlive') hdatabase herror hstopped
    | running hmounted hlive' herror hdatabase hbuilt hhandles hruns hshown hcurrent =>
      exact .running hmounted (hlive.trans hlive') herror hdatabase hbuilt hhandles hruns hshown
        hcurrent
  -- One that was not is the run that the provider waits for.
  have hawaiting : t.cancelled = false → calls.live = [] ∧ p.mounted = true ∧ p.database = none ∧
      p.error = false ∧ AllStopped p.replications := by
    intro hc
    cases h.phase with
    | off _ hlive | failed _ hlive | running _ hlive =>
      simp [Effect.cancelled_of_live_nil hlive hsettle] at hc
    | awaiting hmounted hlive hdatabase herror hstopped =>
      exact ⟨(Effect.live_settle_one hlive hsettle hc).2, hmounted, hdatabase, herror, hstopped⟩
  unfold RxdbPage.resume
  split
  · rename_i hbuilt
    split
    · exact hcancelled ‹_›
    · rename_i hc
      obtain ⟨hlive, hmounted, -, herror, hstopped⟩ := hawaiting (by simpa using hc)
      have hcurrent : (startReplication p.onLine).status =
          (startReplication p.onLine).aggregate p.onLine := by
        cases p.onLine <;> rfl
      exact
        { single := ⟨h.single.kept, h.single.handed⟩
          tidy := htidy
          known := hknown
          phase := .running hmounted hlive herror rfl hbuilt rfl (hstopped.append rfl) rfl
            fun _ => hcurrent }
  · split
    · exact hcancelled ‹_›
    · rename_i hc
      obtain ⟨hlive, hmounted, hdatabase, -, hstopped⟩ := hawaiting (by simpa using hc)
      exact ⟨⟨h.single.kept, h.single.handed⟩, htidy, hknown,
        .failed hmounted hlive hdatabase rfl hstopped⟩
  · exact h

theorem emit_of_allStopped (hstopped : AllStopped p.replications) (i : Nat)
    (f : Replication → Replication) : p.emit i f = p := by
  unfold RxdbPage.emit
  split
  · rename_i r hr
    rw [if_pos (hstopped i r hr)]
  · rfl

theorem emit_of_runs {i : Nat} {r : Replication} (hruns : Runs p.replications i r) (j : Nat)
    (f : Replication → Replication) :
    p.emit j f =
      if j = i then
        { p with
          replications := p.replications.set i ((f r).recompute p.onLine)
          status := (f r).aggregate p.onLine }
      else p := by
  unfold RxdbPage.emit
  by_cases hj : j = i
  · subst hj
    simp only [hruns.found, hruns.running, Bool.false_eq_true, if_false, if_true]
  · rw [if_neg hj]
    split
    · rename_i s hs
      rw [if_pos (hruns.others j s hs hj)]
    · rfl

theorem Sound.emit (h : p.Sound) (j : Nat) {f : Replication → Replication}
    (hf : ∀ r, (f r).stopped = r.stopped) : (p.emit j f).Sound := by
  cases h.phase with
  | off _ _ hstopped | awaiting _ _ _ _ hstopped | failed _ _ _ _ hstopped =>
    rw [emit_of_allStopped hstopped]
    exact h
  | @running hmounted hlive herror d i r hdatabase hbuilt hhandles hruns hshown hcurrent' =>
    rw [emit_of_runs hruns]
    split
    · exact
        { single := ⟨h.single.kept, h.single.handed⟩
          tidy := h.tidy
          known := h.known
          phase := .running hmounted hlive herror hdatabase hbuilt hhandles
            (hruns.set ((hf r).trans hruns.running)) rfl fun _ => rfl }
    · exact h

def Current (p : RxdbPage) : Prop :=
  ∀ (i : Nat) (r : Replication), Runs p.replications i r → r.status = r.aggregate p.onLine

theorem current_of_allStopped (hstopped : AllStopped p.replications) : Current p := by
  intro i r hruns
  have htrue := hstopped i r hruns.found
  simp [hruns.running] at htrue

theorem Sound.alone (h : p.Sound) :
    AllStopped p.replications ∨ ∃ i r, Runs p.replications i r := by
  cases h.phase with
  | off _ _ hstopped | awaiting _ _ _ _ hstopped | failed _ _ _ _ hstopped => exact .inl hstopped
  | running _ _ _ _ _ _ hruns => exact .inr ⟨_, _, hruns⟩

theorem Sound.current_emit (h : p.Sound) (j : Nat)
    (hj : Current p ∨ ∃ r, Runs p.replications j r) : Current (p.emit j id) := by
  rcases h.alone with hstopped | ⟨i, r, hruns⟩
  · rw [emit_of_allStopped hstopped]
    exact current_of_allStopped hstopped
  · rw [emit_of_runs hruns]
    split
    · intro i' r' hruns'
      have hnow : Runs (p.replications.set i (r.recompute p.onLine)) i (r.recompute p.onLine) :=
        hruns.set hruns.running
      obtain ⟨-, rfl⟩ := hnow.eq_of_running hruns'.found hruns'.running
      rfl
    · rename_i hne
      exact hj.elim (fun hcurrent => hcurrent) fun ⟨_, hruns'⟩ =>
        absurd (hruns.eq_of_running hruns'.found hruns'.running).1 hne

theorem Sound.listen (h : p.Sound) (is : List Nat)
    (his : Current p ∨ ∃ i ∈ is, ∃ r, Runs p.replications i r) :
    (is.foldl (fun p i => p.emit i id) p).Sound ∧
      Current (is.foldl (fun p i => p.emit i id) p) := by
  induction is generalizing p with
  | nil => exact ⟨h, his.elim (fun hcurrent => hcurrent) fun ⟨_, hi, _⟩ => nomatch hi⟩
  | cons j is ih =>
    refine ih (h.emit j fun _ => rfl) ?_
    rcases his with hcurrent | ⟨i, hi, r, hruns⟩
    · exact .inl (h.current_emit j (.inl hcurrent))
    · rcases List.mem_cons.mp hi with rfl | hi
      · exact .inl (h.current_emit i (.inr ⟨r, hruns⟩))
      · refine .inr ⟨i, hi, ?_⟩
        show ∃ r, Runs (p.emit j id).replications i r
        rw [emit_of_runs hruns]
        split
        · exact ⟨_, hruns.set hruns.running⟩
        · exact ⟨r, hruns⟩

theorem Sound.listeners (h : p.Sound) : (p.step .listeners).Sound := by
  have hin : Current p ∨ ∃ i ∈ List.range p.replications.length,
      ∃ r, Runs p.replications i r := by
    rcases h.alone with hstopped | ⟨i, r, hruns⟩
    · exact .inl (current_of_allStopped hstopped)
    · have hlt := (List.getElem?_eq_some_iff.mp hruns.found).1
      exact .inr ⟨i, List.mem_range.mpr hlt, r, hruns⟩
  obtain ⟨hsound, hcurrent⟩ := h.listen _ hin
  refine ⟨⟨hsound.single.kept, hsound.single.handed⟩, hsound.tidy, hsound.known, ?_⟩
  cases hsound.phase with
  | off hmounted hlive hstopped => exact .off hmounted hlive hstopped
  | awaiting hmounted hlive hdatabase herror hstopped =>
    exact .awaiting hmounted hlive hdatabase herror hstopped
  | failed hmounted hlive hdatabase herror hstopped =>
    exact .failed hmounted hlive hdatabase herror hstopped
  | running hmounted hlive herror hdatabase hbuilt hhandles hruns hshown =>
    exact .running hmounted hlive herror hdatabase hbuilt hhandles hruns hshown fun _ =>
      hcurrent _ _ hruns

theorem Sound.connection (h : p.Sound) (onLine : Bool) : (p.step (.connection onLine)).Sound := by
  refine ⟨⟨h.single.kept, h.single.handed⟩, h.tidy, h.known, ?_⟩
  cases h.phase with
  | off hmounted hlive hstopped => exact .off hmounted hlive hstopped
  | awaiting hmounted hlive hdatabase herror hstopped =>
    exact .awaiting hmounted hlive hdatabase herror hstopped
  | failed hmounted hlive hdatabase herror hstopped =>
    exact .failed hmounted hlive hdatabase herror hstopped
  | running hmounted hlive herror hdatabase hbuilt hhandles hruns hshown hcurrent =>
    refine .running hmounted hlive herror hdatabase hbuilt hhandles hruns hshown fun hnotified => ?_
    obtain ⟨hbefore, hsame⟩ := Bool.and_eq_true_iff.mp hnotified
    rw [show onLine = p.onLine from of_decide_eq_true hsame]
    exact hcurrent hbefore

theorem Sound.step (h : p.Sound) (act : RxdbAct) : (p.step act).Sound := by
  cases act with
  | mount strict =>
    cases hmounted : p.mounted with
    | true =>
      simp only [RxdbPage.step, hmounted, if_true]
      exact h
    | false => exact h.mount hmounted strict
  | unmount =>
    simp only [RxdbPage.step]
    split
    · exact h.unmount
    · exact h
  | built build ok => exact h.settle build ok
  | resumed id =>
    simp only [RxdbPage.step]
    split
    · exact h.resume ‹_›
    · exact h
  | active i c active => exact h.emit i fun _ => rfl
  | errored i c => exact h.emit i fun _ => rfl
  | connection onLine => exact h.connection onLine
  | listeners => exact h.listeners

theorem sound_start (onLine : Bool) : (start onLine).Sound where
  single := ⟨fun _ _ h => (by simp [start] at h), fun _ h => nomatch h⟩
  tidy := Effect.tidy_idle
  known _ h := nomatch h
  phase := .off rfl rfl fun _ _ h => (by simp [start] at h)

structure Orderly (p : RxdbPage) : Prop where
  -- The database is not built twice, and a failed build is not handed out again.
  builds : ∀ (i j : Nat) (b c : Build), p.builds[i]? = some b → p.builds[j]? = some c →
    b ≠ .rejected → c ≠ .rejected → i = j
  handed : ∀ i, p.dbPromise = some i → ∃ b, p.builds[i]? = some b ∧ b ≠ .rejected
  -- No two replications run, and none without a mounted provider that shows its database.
  single : ∀ (i j : Nat) (r s : Replication), p.replications[i]? = some r →
    p.replications[j]? = some s → r.stopped = false → s.stopped = false → i = j
  running : (∃ (i : Nat) (r : Replication), p.replications[i]? = some r ∧ r.stopped = false) ↔
    p.mounted = true ∧ p.database.isSome
  database : ∀ d, p.mounted = true → p.database = some d → p.builds[d]? = some .resolved
  -- The provider shows the database or the error, or waits for a build.
  waiting : p.mounted = true → p.database = none → p.error = false →
    ∃ t ∈ p.calls.live, ∃ b, p.builds[t.arg]? = some b
  error : p.mounted = true → p.error = true → p.database = none
  status : ∀ (i : Nat) (r : Replication), p.replications[i]? = some r → r.stopped = false →
    p.status = r.status ∧ (p.notified = true → r.status = r.aggregate p.onLine)

theorem Sound.orderly (h : p.Sound) : p.Orderly where
  builds i j b c hb hc hbkept hckept := by
    have hi := (h.single.kept i b hb).mp hbkept
    have hj := (h.single.kept j c hc).mp hckept
    exact Option.some.inj (hi.symm.trans hj)
  handed i hi := by
    have hlt := h.single.handed i hi
    exact ⟨p.builds[i], List.getElem?_eq_getElem hlt,
      (h.single.kept i _ (List.getElem?_eq_getElem hlt)).mpr hi⟩
  single i j r s hr hs hrunning hsrunning := by
    rcases h.alone with hstopped | ⟨k, r', hruns⟩
    · simp [hstopped i r hr] at hrunning
    · exact (hruns.eq_of_running hr hrunning).1.trans (hruns.eq_of_running hs hsrunning).1.symm
  running := by
    constructor
    · rintro ⟨i, r, hr, hrunning⟩
      cases h.phase with
      | off _ _ hstopped | awaiting _ _ _ _ hstopped | failed _ _ _ _ hstopped =>
        simp [hstopped i r hr] at hrunning
      | running hmounted _ _ hdatabase => exact ⟨hmounted, by simp [hdatabase]⟩
    · rintro ⟨hmounted, hdatabase⟩
      cases h.phase with
      | off hfalse => simp [hmounted] at hfalse
      | awaiting _ _ hnone | failed _ _ hnone => simp [hnone] at hdatabase
      | running _ _ _ _ _ _ hruns => exact ⟨_, _, hruns.found, hruns.running⟩
  database d hmounted hdatabase := by
    cases h.phase with
    | off hfalse => simp [hmounted] at hfalse
    | awaiting _ _ hnone | failed _ _ hnone => simp [hnone] at hdatabase
    | running _ _ _ hsome hbuilt =>
      obtain rfl := Option.some.inj (hsome.symm.trans hdatabase)
      exact hbuilt
  waiting hmounted hdatabase herror := by
    cases h.phase with
    | off hfalse => simp [hmounted] at hfalse
    | failed _ _ _ htrue => simp [herror] at htrue
    | running _ _ _ hsome => simp [hdatabase] at hsome
    | @awaiting _ t hlive =>
      have ht : t ∈ p.calls.live := by simp [hlive]
      exact ⟨t, ht, _, List.getElem?_eq_getElem (h.known t (List.mem_of_mem_filter ht))⟩
  error hmounted herror := by
    cases h.phase with
    | off hfalse => simp [hmounted] at hfalse
    | awaiting _ _ hnone | failed _ _ hnone => exact hnone
    | running _ _ hfalse => simp [herror] at hfalse
  status i r hr hrunning := by
    cases h.phase with
    | off _ _ hstopped | awaiting _ _ _ _ hstopped | failed _ _ _ _ hstopped =>
      simp [hstopped i r hr] at hrunning
    | running _ _ _ _ _ _ hruns hshown hcurrent =>
      obtain ⟨-, rfl⟩ := hruns.eq_of_running hr hrunning
      exact ⟨hshown, hcurrent⟩

/-- However builds, clean-ups and reports fall, the page has one database at most
and one replication at most, none without a mounted provider; the provider is
never left without a database, an error or a build to wait for; and the status is
that of the running replication's collections. -/
theorem provider_orderly (onLine : Bool) (acts : List RxdbAct) :
    Always step Orderly (start onLine) acts :=
  always_of_preserves (sound_start onLine) (fun _ act h => h.step act) fun _ h => h.orderly

end

end RxdbPage
end HcMap.Sync
