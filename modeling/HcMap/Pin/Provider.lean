import HcMap.Lib.Run
import HcMap.Pin.Record
import Mathlib.Logic.Function.Basic

/-!
# The PIN lock

`PinLockProvider` in any number of tabs over the one record that `hcmap-pin`
stores. A tab is one mounted provider; what it calls runs on between its
events, one storage operation or state change at a time, and is gone when its
page is. A put or delete is stored when its promise resolves. The length of
the inactivity timeout is left out, as a timer may go off at any time after it
was set.
-/

namespace HcMap.Pin

inductive Status
  | loading
  | noPin
  | unlocked
  | locked
  deriving DecidableEq

/-- The state of a provider; `timer` tells if its inactivity timer is set. -/
structure Tab where
  status : Status
  record : Option PinRecord
  timer : Bool
  deriving DecidableEq

inductive Task
  -- The initial load: the read, then the state.
  | reading
  | loaded (record : Option PinRecord)
  -- `setPin`: the put, then the state.
  | saving (next : PinRecord)
  | saved (next : PinRecord)
  -- `clearPin`: the delete, then the state.
  | clearing
  | cleared
  -- `tryUnlock`: the put of the counter, the state, the verification, the put
  -- of the counter that is reset, the state.
  | counting (candidate : String) (tentative : PinRecord)
  | counted (candidate : String) (tentative : PinRecord)
  | verifying (candidate : String) (tentative : PinRecord)
  | resetting (candidate : String) (record : PinRecord)
  | reset (candidate : String) (record : PinRecord)
  -- `forceLogout`: the delete, the state, the request.
  | wiping
  | wiped
  | loggingOut
  deriving DecidableEq

/-- The tabs `ι`, the stored record, and the calls `κ` under way, each of a
tab. -/
structure World (ι κ : Type) where
  store : Option PinRecord
  tabs : ι → Tab
  calls : κ → Option (ι × Task)

inductive Event (ι κ : Type)
  /-- A page load, of a new tab or of one whose page is lost by it. -/
  | load (i : ι) (c : κ)
  /-- `pointerdown`, `keydown`, `visibilitychange` to visible, or
  `setInactivityMs`. -/
  | activity (i : ι)
  | hidden (i : ι)
  | timeout (i : ι)
  | lock (i : ι)
  | setPin (i : ι) (c : κ) (pin : String) (salt : List UInt8) (setAt : Nat)
  | clearPin (i : ι) (c : κ)
  | tryUnlock (i : ι) (c : κ) (candidate : String)
  /-- What the call waits for is done. -/
  | advance (c : κ)
  /-- What the call waits for throws. -/
  | fail (c : κ)

-- ---------------------------------------------------------------------------
-- One tab
-- ---------------------------------------------------------------------------

namespace Tab

def start : Tab := ⟨.loading, none, false⟩

def resetTimer (t : Tab) : Tab := { t with timer := t.status = .unlocked }

def clearTimer (t : Tab) : Tab := { t with timer := false }

def setStatus (t : Tab) (status : Status) : Tab :=
  if t.status = status then t else resetTimer { t with status := status }

def setRecord (t : Tab) (record : Option PinRecord) : Tab := { t with record := record }

def lock (t : Tab) : Tab := if t.status = .unlocked then t.setStatus .locked else t

end Tab

def Tab.show (t : Tab) (record : Option PinRecord) (status : Status) : Tab :=
  (t.setRecord record).setStatus status

-- ---------------------------------------------------------------------------
-- One call
-- ---------------------------------------------------------------------------

namespace Task

variable (deriveBits : DeriveBits)

def write (store : Option PinRecord) : Task → Option PinRecord
  | .saving next => some next
  | .counting _ tentative => some tentative
  | .resetting _ record => some record
  | .clearing | .wiping => none
  | _ => store

def display (t : Tab) : Task → Tab
  | .loaded record => t.show record (if record.isSome then .unlocked else .noPin)
  | .saved next => t.show (some next) .unlocked
  | .counted _ tentative => t.setRecord (some tentative)
  | .reset _ record => t.show (some record) .unlocked
  | .cleared | .wiped => t.show none .noPin
  | _ => t

/-- After a candidate that did not pass: `forceLogout`, or nothing. -/
def rejected (tentative : PinRecord) : Option Task :=
  if pinFailLimit ≤ tentative.failCount then some .wiping else none

def next (store : Option PinRecord) : Task → Option Task
  | .reading => some (.loaded store)
  | .saving next => some (.saved next)
  | .clearing => some .cleared
  | .counting candidate tentative => some (.counted candidate tentative)
  | .counted candidate tentative => some (.verifying candidate tentative)
  | .verifying candidate tentative =>
    if verifyPin deriveBits candidate tentative = some true then
      some (.resetting candidate (tentative.withFailCount 0))
    else rejected tentative
  | .resetting candidate record => some (.reset candidate record)
  | .wiping => some .wiped
  | .wiped => some .loggingOut
  | .loaded _ | .saved _ | .cleared | .reset _ _ | .loggingOut => none

/-- What the tab shows when the task throws: the initial load catches that. -/
def displayThrown (t : Tab) : Task → Tab
  | .reading => t.show none .noPin
  | _ => t

/-- And what the call waits for next: the verification and the delete of
`forceLogout` are caught. A state change does not throw. -/
def nextThrown : Task → Option Task
  | .verifying _ tentative => rejected tentative
  | .wiping => some .wiped
  | .reading | .saving _ | .clearing | .counting _ _ | .resetting _ _ | .loggingOut => none
  | task => some task

end Task

-- ---------------------------------------------------------------------------
-- Steps
-- ---------------------------------------------------------------------------

namespace World

variable {ι κ : Type} [DecidableEq ι] [DecidableEq κ] (deriveBits : DeriveBits)

def start : World ι κ := ⟨none, fun _ => Tab.start, fun _ => none⟩

def setTab (w : World ι κ) (i : ι) (t : Tab) : World ι κ :=
  { w with tabs := Function.update w.tabs i t }

def call (w : World ι κ) (i : ι) (c : κ) (task : Task) : World ι κ :=
  if w.calls c = none then { w with calls := Function.update w.calls c (some (i, task)) } else w

def unload (w : World ι κ) (i : ι) : World ι κ where
  store := w.store
  tabs := Function.update w.tabs i Tab.start
  calls c := (w.calls c).filter fun call => call.1 ≠ i

def proceed (w : World ι κ) (c : κ) (i : ι) (task : Task) : World ι κ where
  store := task.write w.store
  tabs := Function.update w.tabs i (task.display (w.tabs i))
  calls := Function.update w.calls c ((task.next deriveBits w.store).map (i, ·))

def recover (w : World ι κ) (c : κ) (i : ι) (task : Task) : World ι κ where
  store := w.store
  tabs := Function.update w.tabs i (task.displayThrown (w.tabs i))
  calls := Function.update w.calls c (task.nextThrown.map (i, ·))

def step (w : World ι κ) : Event ι κ → World ι κ
  | .load i c => (w.unload i).call i c .reading
  | .activity i =>
    if (w.tabs i).status = .unlocked then w.setTab i (w.tabs i).resetTimer else w
  | .hidden i => if (w.tabs i).status = .unlocked then w.setTab i (w.tabs i).clearTimer else w
  | .timeout i => if (w.tabs i).timer then w.setTab i (w.tabs i).clearTimer.lock else w
  | .lock i => w.setTab i (w.tabs i).lock
  | .setPin i c pin salt setAt =>
    match hashPin deriveBits pin salt setAt with
    | none => w
    | some next => w.call i c (.saving next)
  | .clearPin i c => w.call i c .clearing
  | .tryUnlock i c candidate =>
    match (w.tabs i).record with
    | none => w
    | some record =>
      w.call i c (.counting candidate (record.withFailCount (record.failCount + 1)))
  | .advance c =>
    match w.calls c with
    | none => w
    | some (i, task) => w.proceed deriveBits c i task
  | .fail c =>
    match w.calls c with
    | none => w
    | some (i, task) => w.recover c i task

end World

-- ---------------------------------------------------------------------------
-- What a step does
-- ---------------------------------------------------------------------------

inductive Task.Follows (deriveBits : DeriveBits) (store : Option PinRecord) : Task → Task → Prop
  | reads : Follows deriveBits store .reading (.loaded store)
  | saves {next} : Follows deriveBits store (.saving next) (.saved next)
  | clears : Follows deriveBits store .clearing .cleared
  | counts {candidate tentative} :
      Follows deriveBits store (.counting candidate tentative) (.counted candidate tentative)
  | verifies {candidate tentative} :
      Follows deriveBits store (.counted candidate tentative) (.verifying candidate tentative)
  | accepts {candidate tentative}
      (hverified : verifyPin deriveBits candidate tentative = some true) :
      Follows deriveBits store (.verifying candidate tentative)
        (.resetting candidate (tentative.withFailCount 0))
  | limits {candidate tentative} (hlimit : pinFailLimit ≤ tentative.failCount) :
      Follows deriveBits store (.verifying candidate tentative) .wiping
  | resets {candidate record} :
      Follows deriveBits store (.resetting candidate record) (.reset candidate record)
  | wipes : Follows deriveBits store .wiping .wiped
  | logsOut : Follows deriveBits store .wiped .loggingOut

inductive Task.Recovers : Task → Task → Prop
  | limits {candidate tentative} (hlimit : pinFailLimit ≤ tentative.failCount) :
      Recovers (.verifying candidate tentative) .wiping
  | wipes : Recovers .wiping .wiped
  | still {t} : Recovers t t

inductive Waits {ι κ : Type} (deriveBits : DeriveBits) (w : World ι κ) (c : κ) (i : ι) :
    Event ι κ → Task → Prop
  | still {e t} (hcall : w.calls c = some (i, t)) (hother : e ≠ .advance c) :
      Waits deriveBits w c i e t
  | loads : Waits deriveBits w c i (.load i c) .reading
  | sets {pin salt setAt next} (hnext : hashPin deriveBits pin salt setAt = some next) :
      Waits deriveBits w c i (.setPin i c pin salt setAt) (.saving next)
  | clears : Waits deriveBits w c i (.clearPin i c) .clearing
  | tries {candidate record} (hrecord : (w.tabs i).record = some record) :
      Waits deriveBits w c i (.tryUnlock i c candidate)
        (.counting candidate (record.withFailCount (record.failCount + 1)))
  | advanced {t t'} (hcall : w.calls c = some (i, t))
      (hnext : t.next deriveBits w.store = some t') : Waits deriveBits w c i (.advance c) t'
  | thrown {t t'} (hcall : w.calls c = some (i, t)) (hnext : t.nextThrown = some t') :
      Waits deriveBits w c i (.fail c) t'

inductive Shows {ι κ : Type} (w : World ι κ) (i : ι) : Event ι κ → Tab → Prop
  | still {e} : Shows w i e (w.tabs i)
  | loads {c} : Shows w i (.load i c) Tab.start
  | timed {e} (timer : Bool) : Shows w i e { w.tabs i with timer := timer }
  | locks {e} (h : (w.tabs i).status = .unlocked) :
      Shows w i e { w.tabs i with status := .locked, timer := false }
  | advanced {c t} (hcall : w.calls c = some (i, t)) :
      Shows w i (.advance c) (t.display (w.tabs i))
  | thrown {c t} (hcall : w.calls c = some (i, t)) :
      Shows w i (.fail c) (t.displayThrown (w.tabs i))

inductive Steps {ι κ : Type} [DecidableEq ι] [DecidableEq κ] (deriveBits : DeriveBits)
    (w : World ι κ) : Event ι κ → World ι κ → Prop
  | idle {e} (h : ∀ c, e = .advance c → w.calls c = none) : Steps deriveBits w e w
  | loads {i c} : Steps deriveBits w (.load i c) ((w.unload i).call i c .reading)
  | timed {e} (i) (timer : Bool) (h : ∀ c, e ≠ .advance c) :
      Steps deriveBits w e (w.setTab i { w.tabs i with timer := timer })
  | locks {e} (i) (hunlocked : (w.tabs i).status = .unlocked) (h : ∀ c, e ≠ .advance c) :
      Steps deriveBits w e (w.setTab i { w.tabs i with status := .locked, timer := false })
  | sets {i c pin salt setAt next} (hnext : hashPin deriveBits pin salt setAt = some next) :
      Steps deriveBits w (.setPin i c pin salt setAt) (w.call i c (.saving next))
  | clears {i c} : Steps deriveBits w (.clearPin i c) (w.call i c .clearing)
  | tries {i c candidate record} (hrecord : (w.tabs i).record = some record) :
      Steps deriveBits w (.tryUnlock i c candidate)
        (w.call i c (.counting candidate (record.withFailCount (record.failCount + 1))))
  | proceeds {c i t} (hcall : w.calls c = some (i, t)) :
      Steps deriveBits w (.advance c) (w.proceed deriveBits c i t)
  | recovers {c i t} (hcall : w.calls c = some (i, t)) :
      Steps deriveBits w (.fail c) (w.recover c i t)

section
variable {deriveBits : DeriveBits} {store : Option PinRecord} {t t' : Task} {r : PinRecord}

theorem rejected_eq (h : Task.rejected r = some t) : t = .wiping ∧ pinFailLimit ≤ r.failCount := by
  unfold Task.rejected at h
  split at h
  · rename_i hlimit
    exact ⟨(Option.some.inj h).symm, hlimit⟩
  · cases h

theorem next_cases (h : t.next deriveBits store = some t') : t.Follows deriveBits store t' := by
  cases t with
  | reading =>
    cases h
    exact .reads
  | saving next =>
    cases h
    exact .saves
  | clearing =>
    cases h
    exact .clears
  | counting candidate tentative =>
    cases h
    exact .counts
  | counted candidate tentative =>
    cases h
    exact .verifies
  | verifying candidate tentative =>
    simp only [Task.next] at h
    split at h
    · rename_i hverified
      cases h
      exact .accepts hverified
    · obtain ⟨rfl, hlimit⟩ := rejected_eq h
      exact .limits hlimit
  | resetting candidate record =>
    cases h
    exact .resets
  | wiping =>
    cases h
    exact .wipes
  | wiped =>
    cases h
    exact .logsOut
  | loaded record => cases h
  | saved next => cases h
  | cleared => cases h
  | reset candidate record => cases h
  | loggingOut => cases h

theorem nextThrown_cases (h : t.nextThrown = some t') : t.Recovers t' := by
  cases t with
  | verifying candidate tentative =>
    obtain ⟨rfl, hlimit⟩ := rejected_eq h
    exact .limits hlimit
  | wiping =>
    cases h
    exact .wipes
  | reading => cases h
  | saving next => cases h
  | clearing => cases h
  | counting candidate tentative => cases h
  | resetting candidate record => cases h
  | loggingOut => cases h
  | _ =>
    cases h
    exact .still

end

section
variable {ι κ : Type} [DecidableEq κ] {w : World ι κ} {i j : ι} {b c : κ} {t : Task}

theorem call_calls {t' : Task} (h : (w.call j b t').calls c = some (i, t)) :
    w.calls c = some (i, t) ∨ (b = c ∧ j = i ∧ t' = t) := by
  unfold World.call at h
  split at h
  · by_cases hb : c = b
    · subst hb
      simp only [Function.update_self, Option.some.injEq, Prod.mk.injEq] at h
      exact .inr ⟨rfl, h.1, h.2⟩
    · exact .inl (by simpa [hb] using h)
  · exact .inl h

@[simp] theorem call_tabs : (w.call i c t).tabs = w.tabs := by
  unfold World.call
  split <;> rfl

@[simp] theorem call_store : (w.call i c t).store = w.store := by
  unfold World.call
  split <;> rfl

theorem waits_update {next : Option Task}
    (h : Function.update w.calls b (next.map (j, ·)) c = some (i, t)) :
    (c = b ∧ j = i ∧ next = some t) ∨ (c ≠ b ∧ w.calls c = some (i, t)) := by
  by_cases hb : c = b
  · subst hb
    rw [Function.update_self, Option.map_eq_some_iff] at h
    obtain ⟨t', ht, heq⟩ := h
    cases heq
    exact .inl ⟨rfl, rfl, ht⟩
  · exact .inr ⟨hb, by simpa [hb] using h⟩

theorem call_keeps {t' : Task} (h : w.calls c = some (i, t)) :
    (w.call j b t').calls c = some (i, t) := by
  unfold World.call
  split
  · rename_i hfree
    have hne : c ≠ b := by
      rintro rfl
      rw [h] at hfree
      cases hfree
    simpa [hne] using h
  · exact h

variable [DecidableEq ι] {deriveBits : DeriveBits} {e : Event ι κ}

theorem Tab.lock_cases (t : Tab) :
    t.lock = t ∨
      (t.status = .unlocked ∧ t.lock = { t with status := .locked, timer := false }) := by
  unfold Tab.lock
  split
  · rename_i h
    exact .inr ⟨h, by simp [Tab.setStatus, Tab.resetTimer, h]⟩
  · exact .inl rfl

theorem step_cases (deriveBits : DeriveBits) (w : World ι κ) (e : Event ι κ) :
    Steps deriveBits w e (w.step deriveBits e) := by
  cases e with
  | load i c => exact .loads
  | activity i =>
    simp only [World.step]
    split
    · exact .timed i _ (by simp)
    · exact .idle (by simp)
  | hidden i =>
    simp only [World.step]
    split
    · exact .timed i _ (by simp)
    · exact .idle (by simp)
  | timeout i =>
    simp only [World.step]
    split
    · rcases Tab.lock_cases (w.tabs i).clearTimer with h | ⟨hs, h⟩
      · rw [h]
        exact .timed i false (by simp)
      · rw [h]
        exact .locks i hs (by simp)
    · exact .idle (by simp)
  | lock i =>
    simp only [World.step]
    rcases Tab.lock_cases (w.tabs i) with h | ⟨hs, h⟩
    · have hsame : w.setTab i (w.tabs i) = w := by simp [World.setTab]
      rw [h, hsame]
      exact .idle (by simp)
    · rw [h]
      exact .locks i hs (by simp)
  | setPin i c pin salt setAt =>
    simp only [World.step]
    split
    · exact .idle (by simp)
    · rename_i next hnext
      exact .sets hnext
  | clearPin i c => exact .clears
  | tryUnlock i c candidate =>
    simp only [World.step]
    split
    · exact .idle (by simp)
    · rename_i record hrecord
      exact .tries hrecord
  | advance c =>
    simp only [World.step]
    split
    · rename_i hnone
      exact .idle fun c' hc => by
        cases hc
        exact hnone
    · rename_i i t hcall
      exact .proceeds hcall
  | fail c =>
    simp only [World.step]
    split
    · exact .idle (by simp)
    · rename_i i t hcall
      exact .recovers hcall

theorem step_calls (h : (w.step deriveBits e).calls c = some (i, t)) :
    Waits deriveBits w c i e t := by
  have hsteps := step_cases deriveBits w e
  generalize w.step deriveBits e = w' at h hsteps
  cases hsteps with
  | idle hnone =>
    refine .still h ?_
    rintro rfl
    rw [hnone c rfl] at h
    cases h
  | loads =>
    rcases call_calls h with h | ⟨rfl, rfl, rfl⟩
    · exact .still (Option.filter_eq_some_iff.mp h).1 (by simp)
    · exact .loads
  | timed _ _ hother | locks _ _ hother => exact .still h (hother c)
  | sets hnext =>
    rcases call_calls h with h | ⟨rfl, rfl, rfl⟩
    · exact .still h (by simp)
    · exact .sets hnext
  | clears =>
    rcases call_calls h with h | ⟨rfl, rfl, rfl⟩
    · exact .still h (by simp)
    · exact .clears
  | tries hrecord =>
    rcases call_calls h with h | ⟨rfl, rfl, rfl⟩
    · exact .still h (by simp)
    · exact .tries hrecord
  | proceeds hcall =>
    rcases waits_update h with ⟨rfl, rfl, hnext⟩ | ⟨hne, h⟩
    · exact .advanced hcall hnext
    · exact .still h (by simpa using Ne.symm hne)
  | recovers hcall =>
    rcases waits_update h with ⟨rfl, rfl, hnext⟩ | ⟨-, h⟩
    · exact .thrown hcall hnext
    · exact .still h (by simp)

theorem step_keeps (h : w.calls c = some (i, t)) (hadvance : e ≠ .advance c) (hfail : e ≠ .fail c)
    (hload : ∀ b, e ≠ .load i b) : (w.step deriveBits e).calls c = some (i, t) := by
  have hsteps := step_cases deriveBits w e
  generalize w.step deriveBits e = w' at hsteps ⊢
  cases hsteps with
  | idle | timed | locks => exact h
  | @loads j b =>
    have hne : i ≠ j := fun hij => hload b (by rw [hij])
    exact call_keeps (by simp [World.unload, h, hne])
  | sets | clears | tries => exact call_keeps h
  | @proceeds b =>
    have hne : c ≠ b := fun hcb => hadvance (by rw [hcb])
    simpa [World.proceed, hne] using h
  | @recovers b =>
    have hne : c ≠ b := fun hcb => hfail (by rw [hcb])
    simpa [World.recover, hne] using h

theorem step_tabs (deriveBits : DeriveBits) (w : World ι κ) (e : Event ι κ) (i : ι) :
    Shows w i e ((w.step deriveBits e).tabs i) := by
  -- The step changes the tab `j`, to a tab that it may show if that is `i`.
  have hupdate : ∀ {j : ι} {tab : Tab}, (j = i → Shows w i e tab) →
      Shows w i e (Function.update w.tabs j tab i) := by
    intro j tab h
    by_cases hij : i = j
    · subst hij
      rw [Function.update_self]
      exact h rfl
    · rw [Function.update_of_ne hij]
      exact .still
  have hsteps := step_cases deriveBits w e
  generalize w.step deriveBits e = w' at hsteps ⊢
  cases hsteps with
  | idle => exact .still
  | loads =>
    rw [call_tabs]
    exact hupdate fun hj => hj ▸ .loads
  | timed j timer => exact hupdate fun hj => hj ▸ .timed timer
  | locks j hunlocked =>
    refine hupdate ?_
    rintro rfl
    exact .locks hunlocked
  | sets | clears | tries =>
    rw [call_tabs]
    exact .still
  | proceeds hcall =>
    refine hupdate ?_
    rintro rfl
    exact .advanced hcall
  | recovers hcall =>
    refine hupdate ?_
    rintro rfl
    exact .thrown hcall

theorem step_store (deriveBits : DeriveBits) (w : World ι κ) (e : Event ι κ) :
    (w.step deriveBits e).store = w.store ∨
      ∃ c i t, e = .advance c ∧ w.calls c = some (i, t) ∧
        (w.step deriveBits e).store = t.write w.store := by
  have hsteps := step_cases deriveBits w e
  generalize w.step deriveBits e = w' at hsteps ⊢
  cases hsteps with
  | idle | timed | locks | recovers => exact .inl rfl
  | loads | sets | clears | tries => exact .inl call_store
  | @proceeds c i t hcall => exact .inr ⟨c, i, t, rfl, hcall, rfl⟩

end
end HcMap.Pin
