import HcMap.Lib.Effect
import HcMap.Lib.Run

/-!
# The screen lock of a running event

`use-wake-lock.ts`: the hook asks the browser to keep the screen on while it is
enabled. A request is granted or refused later, the browser takes a lock back
when the page is hidden, and the hook may be switched off or unmounted at any
moment in between.
-/

namespace HcMap.Hooks

open Run

inductive WakeLockStatus
  | idle | requesting | active | released | unsupported | error
  deriving DecidableEq

/-- A lock that was granted. `cancelled` is what its `release` listener reads:
whether the run of the effect that asked for it has been cleaned up. -/
structure Sentinel where
  id : Nat
  run : Nat
  released : Bool
  cancelled : Bool

/-- Whether there is a wake lock API, and whether its sentinels tell when they
are released. -/
structure Platform where
  supported : Bool
  notifies : Bool

structure WakeLock where
  enabled : Bool
  mounted : Bool
  status : WakeLockStatus
  message : Option String
  sentinelRef : Option Nat
  calls : Effect Unit
  sentinels : List Sentinel

inductive WakeLockAct
  | setEnabled (enabled : Bool)
  | unmount
  | granted (id : Nat)
  | refused (id : Nat) (message : Option String)
  -- The browser takes the lock back.
  | takenBack (id : Nat)
  | visibilityChange (visible : Bool)

def unsupportedMessage : String :=
  "Bildschirm bitte nicht sperren — Wake-Lock-API nicht verfügbar."

namespace WakeLock

variable (p : Platform) (w : WakeLock)

/-- The effect has returned a clean-up, and listens for the page to be shown. -/
def running : Bool := w.mounted && w.enabled && p.supported

/-- `sentinel.release()`; it cannot fail. -/
def release (id : Nat) : WakeLock :=
  { w with
    sentinels := w.sentinels.map fun x => if x.id = id then { x with released := true } else x }

def acquire : WakeLock := { w with calls := w.calls.begin () }

def cancel : WakeLock :=
  { w with
    calls := w.calls.cleanup
    sentinelRef := none
    sentinels := w.sentinels.map fun x =>
      if x.run = w.calls.run then { x with cancelled := true } else x }

def cleanup : WakeLock :=
  match w.sentinelRef with
  | some id => w.cancel.release id
  | none => w.cancel

def effect : WakeLock :=
  if !w.enabled then { w with status := .idle, message := none }
  else if !p.supported then { w with status := .unsupported, message := some unsupportedMessage }
  else { w with status := .requesting, message := none, calls := w.calls.rerun }.acquire

def start (enabled : Bool) : WakeLock :=
  effect p
    { enabled, mounted := true, status := .idle, message := none, sentinelRef := none
      calls := .idle, sentinels := [] }

def stopped : WakeLock := if w.running p then w.cleanup else w

/-- The request is granted: one that nobody waits for any more is released at
once. -/
def grant (t : Effect.Task Unit) (calls : Effect Unit) : WakeLock :=
  if t.cancelled then
    { w with calls, sentinels := ⟨t.id, t.run, true, true⟩ :: w.sentinels }
  else
    { w with
      calls, sentinelRef := some t.id, status := .active, message := none
      sentinels := ⟨t.id, t.run, false, false⟩ :: w.sentinels }

def step : WakeLockAct → WakeLock
  | .setEnabled enabled =>
    if w.mounted ∧ enabled ≠ w.enabled then { w.stopped p with enabled }.effect p else w
  | .unmount => { w.stopped p with mounted := false }
  | .granted id =>
    match w.calls.settle id with
    | some (t, calls) => w.grant t calls
    | none => w
  | .refused id message =>
    match w.calls.settle id with
    | some (t, calls) =>
      if t.cancelled then { w with calls }
      else
        { w with
          calls, status := .error
          message := some (message.getD "Wake-Lock fehlgeschlagen.") }
    | none => w
  | .takenBack id =>
    match w.sentinels.find? fun x => x.id = id ∧ x.released = false with
    | some x =>
      let w := w.release id
      if p.notifies ∧ x.cancelled = false then { w with status := .released } else w
    | none => w
  | .visibilityChange visible =>
    if w.running p ∧ visible ∧
        (∃ x ∈ w.sentinels, w.sentinelRef = some x.id ∧ x.released = true) then
      { w with sentinelRef := none }.acquire
    else w

def held : List Sentinel := w.sentinels.filter (!·.released)

def ids : List Nat := w.sentinels.map Sentinel.id

structure Filed (ids : List Nat) (calls : Effect Unit) : Prop where
  tidy : calls.Tidy
  fresh : ∀ id ∈ ids, id < calls.nextId
  apart : ∀ id ∈ ids, id ∉ calls.tasks.map Effect.Task.id
  nodup : ids.Nodup

/-- At most one lock is asked for or held, and only while the effect runs. -/
structure Sound (p : Platform) (w : WakeLock) : Prop where
  filed : Filed w.ids w.calls
  held : ∀ x ∈ w.sentinels, x.released = false →
    w.sentinelRef = some x.id ∧ x.cancelled = false
  ref : ∀ id ∈ w.sentinelRef, w.running p ∧ w.calls.live = []
  asked : w.calls.live = [] ∨ w.running p ∧ ∃ t, w.calls.live = [t]
  status : p.notifies → w.mounted →
    (w.status = .active ↔ ∃ x ∈ w.sentinels, x.released = false)

structure Stopped (w : WakeLock) : Prop where
  filed : Filed w.ids w.calls
  released : ∀ x ∈ w.sentinels, x.released = true
  ref : w.sentinelRef = none
  asked : w.calls.live = []

section
variable {p : Platform} {w : WakeLock} {ids : List Nat} {calls calls' : Effect Unit}
  {t : Effect.Task Unit} {id : Nat}

theorem Filed.cleanup (h : Filed ids calls) : Filed ids calls.cleanup where
  tidy := h.tidy.cleanup
  fresh := h.fresh
  apart i hi := by
    rw [Effect.map_id_cleanup]
    exact h.apart i hi
  nodup := h.nodup

theorem Filed.rerun (h : Filed ids calls) : Filed ids calls.rerun where
  tidy := h.tidy.rerun
  fresh := h.fresh
  apart := h.cleanup.apart
  nodup := h.nodup

theorem Filed.begin (h : Filed ids calls) : Filed ids (calls.begin ()) where
  tidy := h.tidy.begin ()
  fresh i hi := Nat.lt_succ_of_lt (h.fresh i hi)
  apart i hi := by
    have hlt := h.fresh i hi
    have hout := h.apart i hi
    simp only [Effect.begin, List.map_append, List.map_cons, List.map_nil, List.mem_append,
      List.mem_singleton]
    rintro (hin | rfl)
    · exact hout hin
    · exact absurd hlt (Nat.lt_irrefl _)
  nodup := h.nodup

theorem Filed.settle (h : Filed ids calls) (hsettle : calls.settle id = some (t, calls')) :
    Filed ids calls' ∧ Filed (t.id :: ids) calls' := by
  have htidy := h.tidy.settle hsettle
  obtain ⟨ht, rfl⟩ := Effect.mem_of_settle hsettle
  obtain ⟨-, rfl⟩ := Effect.settle_eq_some.mp hsettle
  have hnew : t.id ∉ ids := fun hi => h.apart _ hi (List.mem_map_of_mem ht)
  have hrest : Filed ids { calls with tasks := calls.tasks.filter (·.id ≠ t.id) } :=
    { tidy := htidy
      fresh := h.fresh
      apart := fun i hi hin => h.apart i hi
        ((List.filter_sublist.map _).subset hin)
      nodup := h.nodup }
  refine ⟨hrest, { hrest with fresh := ?_, apart := ?_, nodup := ?_ }⟩
  · intro i hi
    rcases List.mem_cons.mp hi with rfl | hi
    · exact h.tidy.fresh t ht
    · exact h.fresh i hi
  · intro i hi
    rcases List.mem_cons.mp hi with rfl | hi
    · simp
    · exact hrest.apart i hi
  · exact List.nodup_cons.mpr ⟨hnew, h.nodup⟩

theorem ids_map {f : Sentinel → Sentinel} (hf : ∀ x, (f x).id = x.id) (xs : List Sentinel) :
    (xs.map f).map Sentinel.id = xs.map Sentinel.id := by
  rw [List.map_map]
  exact List.map_congr_left fun x _ => hf x

theorem ids_release : (w.release id).ids = w.ids :=
  ids_map (fun x => by split <;> rfl) _

theorem mem_release {x : Sentinel} : x ∈ (w.release id).sentinels ↔
    ∃ y ∈ w.sentinels, (if y.id = id then { y with released := true } else y) = x :=
  List.mem_map

theorem held_release {x : Sentinel} (hx : x ∈ (w.release id).sentinels)
    (hheld : x.released = false) : x ∈ w.sentinels ∧ x.id ≠ id := by
  obtain ⟨y, hy, rfl⟩ := mem_release.mp hx
  by_cases hid : y.id = id
  · simp [hid] at hheld
  · simpa [hid] using hy

theorem Sound.stopped_of_not_running (h : w.Sound p) (hrunning : ¬ w.running p) : w.Stopped where
  filed := h.filed
  released x hx := by
    by_contra hreleased
    obtain ⟨href, -⟩ := h.held x hx (by simpa using hreleased)
    exact hrunning (h.ref _ href).1
  ref := by
    rw [Option.eq_none_iff_forall_not_mem]
    exact fun id hid => hrunning (h.ref id hid).1
  asked := h.asked.resolve_right fun hasked => hrunning hasked.1

theorem ids_cancel : w.cancel.ids = w.ids :=
  ids_map (fun x => by split <;> rfl) _

theorem held_cancel {x : Sentinel} (hx : x ∈ w.cancel.sentinels) (hheld : x.released = false) :
    ∃ y ∈ w.sentinels, y.id = x.id ∧ y.released = false := by
  obtain ⟨y, hy, rfl⟩ := List.mem_map.mp hx
  refine ⟨y, hy, ?_⟩
  by_cases hrun : y.run = w.calls.run
  · simpa [hrun] using hheld
  · simpa [hrun] using hheld

theorem Sound.cleanup (h : w.Sound p) : w.cleanup.Stopped := by
  have hfiled : Filed w.cancel.ids w.cancel.calls := by
    rw [ids_cancel]
    exact h.filed.cleanup
  have hlive : w.cancel.calls.live = [] := h.filed.tidy.live_cleanup
  unfold WakeLock.cleanup
  cases href : w.sentinelRef with
  | none =>
    refine ⟨hfiled, fun x hx => ?_, rfl, hlive⟩
    by_contra hheld
    obtain ⟨y, hy, -, hyheld⟩ := held_cancel hx (by simpa using hheld)
    rw [(h.held y hy hyheld).1] at href
    cases href
  | some id =>
    refine ⟨?_, fun x hx => ?_, rfl, hlive⟩
    · rw [ids_release]
      exact hfiled
    · by_contra hheld
      obtain ⟨hx', hne⟩ := held_release hx (by simpa using hheld)
      obtain ⟨y, hy, hid, hyheld⟩ := held_cancel hx' (by simpa using hheld)
      rw [(h.held y hy hyheld).1] at href
      exact hne (hid.symm.trans (Option.some.inj href))

theorem Sound.stopped (h : w.Sound p) : (w.stopped p).Stopped := by
  unfold WakeLock.stopped
  by_cases hrunning : w.running p
  · rw [if_pos hrunning]
    exact h.cleanup
  · rw [if_neg hrunning]
    exact h.stopped_of_not_running hrunning

theorem Stopped.effect (h : w.Stopped) (hmounted : w.mounted) : (w.effect p).Sound p := by
  have hnone : ∀ x ∈ w.sentinels, ¬ x.released = false := fun x hx => by simp [h.released x hx]
  have hstatus {q : Prop} (hq : ¬ q) : q ↔ ∃ x ∈ w.sentinels, x.released = false :=
    ⟨fun hq' => absurd hq' hq, fun ⟨x, hx, hheld⟩ => absurd hheld (hnone x hx)⟩
  have hidle : ∀ status message, status ≠ .active → Sound p { w with status, message } :=
    fun status message hne =>
      { filed := h.filed
        held := fun x hx hheld => absurd hheld (hnone x hx)
        ref := fun id hid => by
          rw [show w.sentinelRef = none from h.ref] at hid
          cases hid
        asked := .inl h.asked
        status := fun _ _ => hstatus hne }
  unfold WakeLock.effect
  by_cases henabled : w.enabled
  · by_cases hsupported : p.supported
    · have hlive := Effect.live_begin w.calls.rerun ()
      rw [h.filed.tidy.live_rerun, List.nil_append] at hlive
      simp only [henabled, hsupported, Bool.not_true, Bool.false_eq_true, if_false]
      exact
        { filed := h.filed.rerun.begin
          held := fun x hx hheld => absurd hheld (hnone x hx)
          ref := fun id hid => nomatch h.ref.symm.trans hid
          asked := .inr ⟨by simp [running, acquire, hmounted, hsupported], _, hlive⟩
          status := fun _ _ => hstatus nofun }
    · simpa [henabled, hsupported] using hidle .unsupported (some unsupportedMessage) nofun
  · simpa [henabled] using hidle .idle none nofun

theorem stopped_mounted : (w.stopped p).mounted = w.mounted := by
  unfold WakeLock.stopped WakeLock.cleanup
  split
  · split <;> rfl
  · rfl

theorem sound_start (p : Platform) (enabled : Bool) : (start p enabled).Sound p :=
  Stopped.effect
    { filed := ⟨Effect.tidy_idle, fun _ h => (nomatch h), fun _ h => (nomatch h), List.nodup_nil⟩
      released := fun _ h => nomatch h
      ref := rfl
      asked := rfl } rfl

theorem Sound.settle (h : w.Sound p) (hsettle : w.calls.settle id = some (t, calls))
    (hc : ¬ t.cancelled) :
    w.running p ∧ calls.live = [] ∧ ∀ x ∈ w.sentinels, ¬ x.released = false := by
  have hmem : t ∈ w.calls.live :=
    Effect.mem_live.mpr ⟨(Effect.mem_of_settle hsettle).1, by simpa using hc⟩
  obtain ⟨hrunning, t', hone⟩ := h.asked.resolve_left fun hnone => by simp [hnone] at hmem
  refine ⟨hrunning, (Effect.live_settle_one hone hsettle (by simpa using hc)).2, ?_⟩
  intro x hx hheld
  have hempty := (h.ref _ (h.held x hx hheld).1).2
  rw [hempty] at hmem
  cases hmem

theorem Sound.grant (h : w.Sound p) (hsettle : w.calls.settle id = some (t, calls)) :
    (w.grant t calls).Sound p := by
  obtain ⟨-, hfiled⟩ := h.filed.settle hsettle
  unfold WakeLock.grant
  by_cases hc : t.cancelled
  · rw [if_pos hc]
    have hlive := h.filed.tidy.live_settle_cancelled hsettle hc
    exact
      { filed := hfiled
        held := by
          intro x hx hheld
          rcases List.mem_cons.mp hx with rfl | hx
          · cases hheld
          · exact h.held x hx hheld
        ref := fun id hid => hlive ▸ h.ref id hid
        asked := hlive ▸ h.asked
        status := fun hn hm => (h.status hn hm).trans (by simp) }
  · rw [if_neg hc]
    obtain ⟨hrunning, hlive, hnone⟩ := h.settle hsettle hc
    exact
      { filed := hfiled
        held := by
          intro x hx hheld
          rcases List.mem_cons.mp hx with rfl | hx
          · exact ⟨rfl, rfl⟩
          · exact absurd hheld (hnone x hx)
        ref := fun _ _ => ⟨hrunning, hlive⟩
        asked := .inl hlive
        status := fun _ _ => ⟨fun _ => ⟨_, List.mem_cons_self, rfl⟩, fun _ => rfl⟩ }

theorem Sound.refuse (h : w.Sound p) (hsettle : w.calls.settle id = some (t, calls))
    (message : Option String) :
    Sound p (if t.cancelled then { w with calls }
      else { w with calls, status := .error, message }) := by
  obtain ⟨hfiled, -⟩ := h.filed.settle hsettle
  by_cases hc : t.cancelled
  · rw [if_pos hc]
    have hlive := h.filed.tidy.live_settle_cancelled hsettle hc
    exact ⟨hfiled, h.held, fun id hid => hlive ▸ h.ref id hid, hlive ▸ h.asked, h.status⟩
  · rw [if_neg hc]
    obtain ⟨-, hlive, hnone⟩ := h.settle hsettle hc
    exact
      { filed := hfiled
        held := h.held
        ref := fun id hid => ⟨(h.ref id hid).1, hlive⟩
        asked := .inl hlive
        status := fun _ _ => ⟨nofun, fun ⟨x, hx, hheld⟩ => absurd hheld (hnone x hx)⟩ }

theorem Sound.takenBack (h : w.Sound p) {x : Sentinel} (hx : x ∈ w.sentinels)
    (hheld : x.released = false) :
    Sound p (if p.notifies ∧ x.cancelled = false then { w.release x.id with status := .released }
      else w.release x.id) := by
  obtain ⟨href, hlistens⟩ := h.held x hx hheld
  have hnone : ∀ y ∈ (w.release x.id).sentinels, ¬ y.released = false := by
    intro y hy hyheld
    obtain ⟨hy', hne⟩ := held_release hy hyheld
    rw [(h.held y hy' hyheld).1] at href
    exact hne (Option.some.inj href)
  have hfiled : Filed (w.release x.id).ids w.calls := by
    rw [ids_release]
    exact h.filed
  by_cases hnotifies : p.notifies
  · rw [if_pos ⟨hnotifies, hlistens⟩]
    exact
      { filed := hfiled
        held := fun y hy hyheld => absurd hyheld (hnone y hy)
        ref := h.ref
        asked := h.asked
        status := fun _ _ => ⟨nofun, fun ⟨y, hy, hyheld⟩ => absurd hyheld (hnone y hy)⟩ }
  · rw [if_neg fun hn => hnotifies hn.1]
    exact
      { filed := hfiled
        held := fun y hy hyheld => absurd hyheld (hnone y hy)
        ref := h.ref
        asked := h.asked
        status := fun hn => absurd hn hnotifies }

theorem Sound.reacquire (h : w.Sound p) {x : Sentinel} (hx : x ∈ w.sentinels)
    (href : w.sentinelRef = some x.id) (hreleased : x.released = true) :
    Sound p { w with sentinelRef := none }.acquire := by
  obtain ⟨hrunning, hlive⟩ := h.ref x.id href
  have hnone : ∀ y ∈ w.sentinels, ¬ y.released = false := by
    intro y hy hyheld
    have hid := Option.some.inj ((h.held y hy hyheld).1.symm.trans href)
    obtain rfl := List.inj_on_of_nodup_map h.filed.nodup hy hx hid
    simp [hreleased] at hyheld
  have hone := Effect.live_begin w.calls ()
  rw [hlive, List.nil_append] at hone
  exact
    { filed := h.filed.begin
      held := fun y hy hyheld => absurd hyheld (hnone y hy)
      ref := fun id hid => nomatch hid
      asked := .inr ⟨hrunning, _, hone⟩
      status := h.status }

theorem Sound.step (h : w.Sound p) (act : WakeLockAct) : (w.step p act).Sound p := by
  have hstopped := h.stopped
  cases act with
  | setEnabled enabled =>
    simp only [WakeLock.step]
    by_cases hchange : w.mounted ∧ enabled ≠ w.enabled
    · rw [if_pos hchange]
      have hsame : Stopped { w.stopped p with enabled } :=
        ⟨hstopped.filed, hstopped.released, hstopped.ref, hstopped.asked⟩
      exact hsame.effect (stopped_mounted.trans hchange.1)
    · rw [if_neg hchange]
      exact h
  | unmount =>
    exact
      { filed := hstopped.filed
        held := fun x hx hheld => by simp [hstopped.released x hx] at hheld
        ref := fun id hid => nomatch hstopped.ref.symm.trans hid
        asked := .inl hstopped.asked
        status := fun _ hmounted => nomatch hmounted }
  | granted id =>
    cases hsettle : w.calls.settle id with
    | none => simpa only [WakeLock.step, hsettle] using h
    | some r => simpa only [WakeLock.step, hsettle] using h.grant hsettle
  | refused id message =>
    cases hsettle : w.calls.settle id with
    | none => simpa only [WakeLock.step, hsettle] using h
    | some r => simpa only [WakeLock.step, hsettle] using h.refuse hsettle _
  | takenBack id =>
    cases hfind : w.sentinels.find? fun x => x.id = id ∧ x.released = false with
    | none => simpa only [WakeLock.step, hfind] using h
    | some x =>
      obtain ⟨rfl, hheld⟩ : x.id = id ∧ x.released = false := by
        simpa using List.find?_some hfind
      simpa only [WakeLock.step, hfind] using
        h.takenBack (List.mem_of_find?_eq_some hfind) hheld
  | visibilityChange visible =>
    simp only [WakeLock.step]
    split
    · rename_i hshown
      obtain ⟨-, -, x, hx, href, hreleased⟩ := hshown
      exact h.reacquire hx href hreleased
    · exact h

/-- What a user and the battery rely on. -/
structure Orderly (p : Platform) (w : WakeLock) : Prop where
  one : w.held.length ≤ 1
  released : w.running p = false → w.held = []
  status : p.notifies → w.mounted → (w.status = .active ↔ w.held ≠ [])

theorem Sound.orderly (h : w.Sound p) : w.Orderly p where
  one := by
    have hnodup : w.held.Nodup := List.Nodup.of_map _ (h.filed.nodup.sublist
      (List.filter_sublist.map _))
    have hmem : ∀ x ∈ w.held, w.sentinelRef = some x.id ∧ x ∈ w.sentinels := by
      intro x hx
      obtain ⟨hx, hheld⟩ := List.mem_filter.mp hx
      exact ⟨(h.held x hx (by simpa using hheld)).1, hx⟩
    match hheld : w.held with
    | [] => exact Nat.zero_le _
    | [_] => exact Nat.le_refl _
    | x :: y :: rest =>
      rw [hheld] at hnodup hmem
      obtain ⟨hxref, hx⟩ := hmem x List.mem_cons_self
      obtain ⟨hyref, hy⟩ := hmem y (List.mem_cons_of_mem _ List.mem_cons_self)
      have hid := Option.some.inj (hxref.symm.trans hyref)
      obtain rfl := List.inj_on_of_nodup_map h.filed.nodup hx hy hid
      exact absurd List.mem_cons_self (List.nodup_cons.mp hnodup).1
  released := by
    intro hrunning
    have hstopped := h.stopped_of_not_running (by simp [hrunning])
    exact List.filter_eq_nil_iff.mpr fun x hx => by simp [hstopped.released x hx]
  status hn hm := by
    rw [h.status hn hm]
    simp [WakeLock.held, List.filter_eq_nil_iff]

end

/-- Whatever the order of grants, refusals, releases and clean-ups, at most one
lock is held, none is once the hook is switched off or unmounted, not even one
that is granted later, and the hook says it is active just while one is held. -/
theorem wakeLock_orderly (p : Platform) (enabled : Bool) (acts : List WakeLockAct) :
    Always (step p) (Orderly p) (start p enabled) acts :=
  always_of_preserves (sound_start p enabled) (fun _ act h => h.step act) fun _ h => h.orderly

end WakeLock

end HcMap.Hooks
