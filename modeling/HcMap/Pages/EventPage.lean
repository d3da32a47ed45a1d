import HcMap.Lib.Effect
import HcMap.Lib.Run
import HcMap.Pages.EventDetail

/-!
# The event page

`events/[id]/page.tsx` over time: the local collections tell of changes at any
moment, the answers of the server come late, and an effect asks again as long as
the collections know a participant that the last answer does not.
-/

namespace HcMap.Pages

open Run
open Services (PersonRead)
open Sync (EventDoc EventParticipantDoc)

abbrev RequestFailure := Option Nat

abbrev DetailAnswer := Except RequestFailure EventDetail

/-- The page of the event `id`, and the answers that have come. `rxdb` is what
the page has heard of the event document, `eventDoc` what the view has, each by
its own subscription. -/
structure EventPage where
  id : Uuid
  rxdb : Option (Option EventDoc)
  eventDoc : Option EventDoc
  participantIds : List Uuid
  server : ServerState
  serverFetchVersion : Nat
  calls : Effect Nat
  answers : List (Nat × DetailAnswer)

inductive PageAct
  | eventResolved (doc : Option EventDoc)
  | eventDocChanged (doc : Option EventDoc)
  | participantsChanged (rows : List EventParticipantDoc)
  | answered (callId : Nat) (answer : DetailAnswer)

def livePersonIds (id : Uuid) (rows : List EventParticipantDoc) : List Uuid :=
  ((rows.filter fun row => row.eventId = id ∧ row.deleted = false).map
    EventParticipantDoc.personId).insertionSort (· ≤ ·)

def ServerState.ofAnswer : DetailAnswer → ServerState
  | .ok detail => .ok detail
  | .error status => if status = some 404 then .notFound else .error

namespace EventPage

variable (p : EventPage)

def fetchEffect : EventPage :=
  { p with server := .loading, calls := p.calls.rerun.begin p.serverFetchVersion }

/-- The effect of `[participantIds, server]`, and the fetch that a bumped version
brings about. -/
def refetchEffect : EventPage :=
  match p.server with
  | .ok detail =>
    if p.participantIds.length = 0 then p
    else if p.participantIds.any fun pid => pid ∉ detail.participants.map PersonRead.id then
      { p with serverFetchVersion := p.serverFetchVersion + 1 }.fetchEffect
    else p
  | _ => p

def mount (id : Uuid) : EventPage :=
  fetchEffect
    { id, rxdb := none, eventDoc := none, participantIds := [], server := .loading
      serverFetchVersion := 0, calls := .idle, answers := [] }

def step : PageAct → EventPage
  | .eventResolved doc => { p with rxdb := some doc }
  | .eventDocChanged doc => { p with eventDoc := doc }
  | .participantsChanged rows =>
    let next := livePersonIds p.id rows
    if p.participantIds = next then p else { p with participantIds := next }.refetchEffect
  | .answered callId answer =>
    match p.calls.settle callId with
    | some (t, calls) =>
      let p := { p with calls, answers := (t.arg, answer) :: p.answers }
      if t.cancelled then p else { p with server := .ofAnswer answer }.refetchEffect
    | none => p

def listed (me : Uuid) : List PersonRead :=
  match pickInitialEvent p.server p.rxdb p.participantIds with
  | some initialEvent => listedParticipants initialEvent p.eventDoc me
  | none => []

-- ---------------------------------------------------------------------------
-- What holds at any moment
-- ---------------------------------------------------------------------------

/-- The page waits for one answer, to its newest request. -/
structure Waits (p : EventPage) : Prop where
  server : p.server = .loading
  live : ∃ t, p.calls.live = [t] ∧ t.arg = p.serverFetchVersion

/-- The newest answer is in, and leaves nothing to ask. -/
structure Rests (p : EventPage) : Prop where
  live : p.calls.live = []
  answered : ∃ answer, (p.serverFetchVersion, answer) ∈ p.answers ∧ p.server = .ofAnswer answer
  known : ∀ detail, p.server = .ok detail →
    ∀ pid ∈ p.participantIds, pid ∈ detail.participants.map PersonRead.id

structure Sound (p : EventPage) : Prop where
  tidy : p.calls.Tidy
  asked : ∀ t ∈ p.calls.tasks, t.arg ≤ p.serverFetchVersion
  answered : ∀ x ∈ p.answers, x.1 ≤ p.serverFetchVersion
  state : p.Waits ∨ p.Rests

section
variable {p : EventPage}

theorem asked_rerun {calls : Effect Nat} {n : Nat} (h : ∀ t ∈ calls.tasks, t.arg ≤ n) :
    ∀ t ∈ calls.rerun.tasks, t.arg ≤ n := by
  intro t ht
  obtain ⟨t', ht', rfl⟩ := List.mem_map.mp ht
  have harg := h t' ht'
  by_cases hrun : t'.run = calls.run <;> simpa [hrun] using harg

theorem sound_fetchEffect (htidy : p.calls.Tidy)
    (hasked : ∀ t ∈ p.calls.tasks, t.arg ≤ p.serverFetchVersion)
    (hanswered : ∀ x ∈ p.answers, x.1 ≤ p.serverFetchVersion) : p.fetchEffect.Sound where
  tidy := htidy.rerun.begin _
  asked t ht := by
    rcases List.mem_append.mp ht with ht | ht
    · exact asked_rerun hasked t ht
    · obtain rfl := List.mem_singleton.mp ht
      exact Nat.le_refl _
  answered := hanswered
  state := by
    have hlive := Effect.live_begin p.calls.rerun p.serverFetchVersion
    rw [htidy.live_rerun, List.nil_append] at hlive
    exact .inl ⟨rfl, _, hlive, rfl⟩

theorem sound_refetchEffect (htidy : p.calls.Tidy)
    (hasked : ∀ t ∈ p.calls.tasks, t.arg ≤ p.serverFetchVersion)
    (hanswered : ∀ x ∈ p.answers, x.1 ≤ p.serverFetchVersion) (hlive : p.calls.live = [])
    (hanswer : ∃ answer, (p.serverFetchVersion, answer) ∈ p.answers ∧
      p.server = .ofAnswer answer) : p.refetchEffect.Sound := by
  have hrests (hknown : ∀ detail, p.server = .ok detail →
      ∀ pid ∈ p.participantIds, pid ∈ detail.participants.map PersonRead.id) : p.Sound :=
    ⟨htidy, hasked, hanswered, .inr ⟨hlive, hanswer, hknown⟩⟩
  unfold refetchEffect
  split
  · rename_i detail hserver
    by_cases hnone : p.participantIds.length = 0
    · rw [if_pos hnone]
      refine hrests fun _ _ pid hpid => ?_
      rw [List.length_eq_zero_iff.mp hnone] at hpid
      cases hpid
    · rw [if_neg hnone]
      by_cases hunknown : p.participantIds.any fun pid =>
          pid ∉ detail.participants.map PersonRead.id
      · rw [if_pos hunknown]
        exact sound_fetchEffect (p := { p with serverFetchVersion := p.serverFetchVersion + 1 })
          htidy (fun t ht => Nat.le_succ_of_le (hasked t ht))
          fun x hx => Nat.le_succ_of_le (hanswered x hx)
      · rw [if_neg hunknown]
        refine hrests fun detail' hserver' pid hpid => ?_
        obtain rfl : detail = detail' := by
          rw [hserver] at hserver'
          exact ServerState.ok.inj hserver'
        simp only [List.any_eq_true, decide_eq_true_eq, not_exists, not_and, not_not] at hunknown
        exact hunknown pid hpid
  · rename_i hserver
    exact hrests fun detail hdetail => absurd hdetail (hserver detail)

theorem sound_mount (id : Uuid) : (mount id).Sound :=
  sound_fetchEffect Effect.tidy_idle (fun _ h => nomatch h) fun _ h => nomatch h

theorem Sound.participants (h : p.Sound) (ids : List Uuid) :
    ({ p with participantIds := ids } : EventPage).refetchEffect.Sound := by
  rcases h.state with hwaits | hrests
  · -- The effect returns at once while the page is loading.
    have hsame : ({ p with participantIds := ids } : EventPage).refetchEffect =
        { p with participantIds := ids } := by
      simp only [refetchEffect, hwaits.server]
    rw [hsame]
    exact ⟨h.tidy, h.asked, h.answered, .inl ⟨hwaits.server, hwaits.live⟩⟩
  · exact sound_refetchEffect (p := { p with participantIds := ids }) h.tidy h.asked h.answered
      hrests.live hrests.answered

theorem Sound.step (h : p.Sound) (act : PageAct) : (p.step act).Sound := by
  cases act with
  | eventResolved doc =>
    exact ⟨h.tidy, h.asked, h.answered, h.state.imp (fun hw => ⟨hw.server, hw.live⟩)
      fun hr => ⟨hr.live, hr.answered, hr.known⟩⟩
  | eventDocChanged doc =>
    exact ⟨h.tidy, h.asked, h.answered, h.state.imp (fun hw => ⟨hw.server, hw.live⟩)
      fun hr => ⟨hr.live, hr.answered, hr.known⟩⟩
  | participantsChanged rows =>
    simp only [EventPage.step]
    split
    · exact h
    · exact h.participants _
  | answered callId answer =>
    cases hsettle : p.calls.settle callId with
    | none => simpa only [EventPage.step, hsettle] using h
    | some r =>
      obtain ⟨t, calls⟩ := r
      have htidy := h.tidy.settle hsettle
      have ht := (Effect.mem_of_settle hsettle).1
      have hasked : ∀ t' ∈ calls.tasks, t'.arg ≤ p.serverFetchVersion := by
        obtain ⟨-, rfl⟩ := Effect.settle_eq_some.mp hsettle
        exact fun t' ht' => h.asked t' (List.mem_of_mem_filter ht')
      have hanswered : ∀ x ∈ (t.arg, answer) :: p.answers, x.1 ≤ p.serverFetchVersion :=
        List.forall_mem_cons.mpr ⟨h.asked t ht, h.answered⟩
      simp only [EventPage.step, hsettle]
      by_cases hc : t.cancelled
      · rw [if_pos hc]
        have hlive := h.tidy.live_settle_cancelled hsettle hc
        refine ⟨htidy, hasked, hanswered, h.state.imp (fun hw => ⟨hw.server, hlive ▸ hw.live⟩)
          fun hr => ⟨hlive ▸ hr.live, ?_, hr.known⟩⟩
        obtain ⟨answer', hmem, hserver⟩ := hr.answered
        exact ⟨answer', List.mem_cons_of_mem _ hmem, hserver⟩
      · rw [if_neg hc]
        have hwaits := h.state.resolve_right fun hrests =>
          hc (Effect.cancelled_of_live_nil hrests.live hsettle)
        obtain ⟨t', hone, harg⟩ := hwaits.live
        obtain ⟨rfl, hlive⟩ := Effect.live_settle_one hone hsettle (by simpa using hc)
        exact sound_refetchEffect
          (p := { p with
            calls, answers := (t.arg, answer) :: p.answers, server := .ofAnswer answer })
          htidy hasked hanswered hlive
          ⟨answer, harg ▸ List.mem_cons_self, rfl⟩

theorem Sound.rests (h : p.Sound) (hserver : p.server ≠ .loading) : p.Rests :=
  h.state.resolve_left fun hwaits => hserver hwaits.server

structure Complete (p : EventPage) : Prop where
  waiting : p.server = .loading ↔ p.calls.live ≠ []
  newest : p.server ≠ .loading → ∃ answer, (p.serverFetchVersion, answer) ∈ p.answers ∧
    p.server = .ofAnswer answer ∧ ∀ x ∈ p.answers, x.1 ≤ p.serverFetchVersion
  named : ∀ detail, p.server = .ok detail → p.participantIds ≠ [] →
    ∃ initialEvent, pickInitialEvent p.server p.rxdb p.participantIds = some initialEvent ∧
      initialEvent.participants.map PersonRead.id = p.participantIds ∧
      ∀ person ∈ initialEvent.participants, person ∈ detail.participants

theorem ofAnswer_ne_loading (answer : DetailAnswer) : ServerState.ofAnswer answer ≠ .loading := by
  unfold ServerState.ofAnswer
  split
  · exact nofun
  · split <;> exact nofun

theorem Sound.complete (h : p.Sound) : p.Complete where
  waiting := by
    rcases h.state with hwaits | hrests
    · obtain ⟨t, hlive, -⟩ := hwaits.live
      simp [hwaits.server, hlive]
    · obtain ⟨answer, -, hserver⟩ := hrests.answered
      simp [hrests.live, hserver, ofAnswer_ne_loading]
  newest hserver := by
    obtain ⟨answer, hmem, hanswer⟩ := (h.rests hserver).answered
    exact ⟨answer, hmem, hanswer, h.answered⟩
  named detail hserver hne := by
    have hrests := h.rests (by simp [hserver])
    refine ⟨mergeParticipants detail p.participantIds, ?_, ?_⟩
    · simp only [pickInitialEvent, hserver]
    · exact mergeParticipants_known (hrests.known detail hserver) hne

end

section
variable (le : String → String → Prop) [DecidableRel le]
  (columns : Uuid → Services.PersonColumns)
  (encodePlusCode : Numeric 90 → Numeric 180 → String) (me : Uuid)

def Served (eventId : Uuid) (detail : EventDetail) : Prop :=
  ∃ (db : Database) (s : Session) (d : Services.EventDetail), s.personId = me ∧
    Services.buildDetail le columns encodePlusCode db s eventId = .ok d ∧ detail = .ofServer d

def Honest (p : EventPage) : PageAct → Prop
  | .answered _ (.ok detail) => Served le columns encodePlusCode me p.id detail
  | _ => True

/-- Of anyone but `me`, a name is listed only where the answer that is shown and
the local document both reveal it. -/
def Discreet (me : Uuid) (p : EventPage) : Prop :=
  ∀ person ∈ p.listed me, person.id ≠ me → Nameless person ∨
    ∃ detail, p.server = .ok detail ∧ person ∈ detail.participants ∧
      detail.revealParticipants = true ∧ ∀ doc ∈ p.eventDoc, doc.revealParticipants = true

variable {le columns encodePlusCode me} {p : EventPage} {eventId : Uuid} {detail : EventDetail}

theorem Served.masked (h : Served le columns encodePlusCode me eventId detail)
    (hreveal : detail.revealParticipants = false) :
    ∀ person ∈ detail.participants, person.id ≠ me → Nameless person := by
  obtain ⟨db, s, d, rfl, hbuild, rfl⟩ := h
  unfold Services.buildDetail at hbuild
  cases hevent : Services.getEvent db s eventId with
  | none =>
    rw [hevent] at hbuild
    cases hbuild
  | some event =>
    rw [hevent] at hbuild
    obtain rfl := Except.ok.inj hbuild
    intro person hmem hother
    have hmem' : person ∈ Services.participantsOf le columns db s eventId := hmem
    simp only [Services.participantsOf, hevent, List.mem_map] at hmem'
    obtain ⟨q, -, rfl⟩ := hmem'
    have hevent' : event.revealParticipants = false := hreveal
    have hid : q.id ≠ s.personId := by simpa using hother
    rw [Services.projectParticipant, if_neg (by simp [hevent']), if_neg hid]
    exact ⟨.inl rfl, rfl, rfl⟩

theorem nameless_of_not_ok (hserver : ∀ detail, p.server ≠ .ok detail) {person : PersonRead}
    (hperson : person ∈ p.listed me) (hother : person.id ≠ me) : Nameless person := by
  unfold listed at hperson
  split at hperson
  · rename_i initialEvent hinitial
    unfold pickInitialEvent at hinitial
    split at hinitial
    · rename_i detail hdetail
      exact absurd hdetail (hserver detail)
    split at hinitial
    · rename_i doc hrxdb
      obtain rfl := Option.some.inj hinitial
      rcases mem_maskParticipants hperson hother with hnameless | ⟨hmem, -⟩
      · exact hnameless
      · have hanonymous : person ∈ p.participantIds.map anonymousPerson := by
          cases hdoc : p.eventDoc <;> simpa only [hdoc, mergeEvent, synthesizeFromRxdb] using hmem
        obtain ⟨id, -, rfl⟩ := List.mem_map.mp hanonymous
        exact nameless_anonymousPerson id
    · cases hinitial
  · cases hperson

theorem discreet_of_served
    (hserved : ∀ detail, p.server = .ok detail →
      Served le columns encodePlusCode me p.id detail) : Discreet me p := by
  intro person hperson hother
  by_cases hok : ∃ detail, p.server = .ok detail
  · obtain ⟨detail, hserver⟩ := hok
    simp only [listed, hserver, pickInitialEvent, listedParticipants] at hperson
    rcases mem_maskParticipants hperson hother with hnameless | ⟨hmem, hreveal⟩
    · exact .inl hnameless
    · have hmerged : person ∈ (mergeParticipants detail p.participantIds).participants := by
        cases hdoc : p.eventDoc <;> simpa only [hdoc, mergeEvent] using hmem
      rcases mem_mergeParticipants hmerged with hdelivered | hnameless
      · by_cases hdetail : detail.revealParticipants
        · refine .inr ⟨detail, hserver, hdelivered, hdetail, fun doc hdoc => ?_⟩
          obtain hdoc : p.eventDoc = some doc := hdoc
          simpa only [hdoc, mergeEvent] using hreveal
        · exact .inl ((hserved detail hserver).masked (by simpa using hdetail) person hdelivered
            hother)
      · exact .inl hnameless
  · exact .inl (nameless_of_not_ok (fun detail hserver => hok ⟨detail, hserver⟩) hperson hother)

def AllServed (le : String → String → Prop) [DecidableRel le]
    (columns : Uuid → Services.PersonColumns)
    (encodePlusCode : Numeric 90 → Numeric 180 → String) (me eventId : Uuid) (p : EventPage) :
    Prop :=
  p.id = eventId ∧ ∀ x ∈ p.answers, ∀ detail, x.2 = .ok detail →
    Served le columns encodePlusCode me eventId detail

theorem refetchEffect_frame : p.refetchEffect.id = p.id ∧ p.refetchEffect.answers = p.answers := by
  unfold refetchEffect
  split
  · split
    · exact ⟨rfl, rfl⟩
    · split <;> exact ⟨rfl, rfl⟩
  · exact ⟨rfl, rfl⟩

theorem AllServed.step {act : PageAct} (h : AllServed le columns encodePlusCode me eventId p)
    (hact : Honest le columns encodePlusCode me p act) :
    AllServed le columns encodePlusCode me eventId (p.step act) := by
  cases act with
  | eventResolved doc => exact h
  | eventDocChanged doc => exact h
  | participantsChanged rows =>
    simp only [EventPage.step]
    split
    · exact h
    · rw [AllServed, refetchEffect_frame.1, refetchEffect_frame.2]
      exact h
  | answered callId answer =>
    cases hsettle : p.calls.settle callId with
    | none => simpa only [EventPage.step, hsettle] using h
    | some r =>
      have hall : ∀ x ∈ (r.1.arg, answer) :: p.answers, ∀ detail, x.2 = .ok detail →
          Served le columns encodePlusCode me eventId detail := by
        intro x hx detail hdetail
        rcases List.mem_cons.mp hx with rfl | hx
        · obtain rfl : answer = .ok detail := hdetail
          exact h.1 ▸ hact
        · exact h.2 x hx detail hdetail
      simp only [EventPage.step, hsettle]
      split
      · exact ⟨h.1, hall⟩
      · rw [AllServed, refetchEffect_frame.1, refetchEffect_frame.2]
        exact ⟨h.1, hall⟩

theorem Sound.discreet (h : p.Sound) (hall : AllServed le columns encodePlusCode me eventId p) :
    Discreet me p := by
  have hserved : ∀ detail, p.server = .ok detail →
      Served le columns encodePlusCode me p.id detail := by
    intro detail hserver
    obtain ⟨answer, hmem, hanswer⟩ := (h.rests (by simp [hserver])).answered
    have hok : answer = .ok detail := by
      rw [hserver] at hanswer
      cases answer with
      | ok detail' => rw [ServerState.ok.inj hanswer]
      | error status =>
        simp only [ServerState.ofAnswer] at hanswer
        split at hanswer <;> cases hanswer
    exact hall.1.symm ▸ hall.2 _ hmem detail hok
  exact discreet_of_served hserved

end

/-- Whatever states of the server the answers come from, and whatever the local
collections say in between, the page never lists a name of another person that
either the answer on display or the local document wants hidden. -/
theorem page_discreet (le : String → String → Prop) [DecidableRel le]
    (columns : Uuid → Services.PersonColumns)
    (encodePlusCode : Numeric 90 → Numeric 180 → String) (me id : Uuid) {acts : List PageAct}
    (hacts : Along step (Honest le columns encodePlusCode me) (mount id) acts) :
    Always step (Discreet me) (mount id) acts := by
  have hstep : ∀ p act, p.Sound ∧ AllServed le columns encodePlusCode me id p →
      Honest le columns encodePlusCode me p act →
      (step p act).Sound ∧ AllServed le columns encodePlusCode me id (step p act) :=
    fun _ act h hact => ⟨h.1.step act, h.2.step hact⟩
  exact hacts.always ⟨sound_mount id, rfl, fun _ h => nomatch h⟩ hstep fun _ h => h.1.discreet h.2

def sampleColumns (_ : Uuid) : Services.PersonColumns := ⟨.managed, false, 0⟩

def samplePlusCode (_ : Numeric 90) (_ : Numeric 180) : String := ""

def sampleDoc : EventDoc where
  id := 1
  startedAt := 0
  lat := .zero
  lon := .zero
  createdAt := 0
  updatedAt := 0

theorem page_discreet_sample :
    ∃ d, Services.buildDetail (· ≤ ·) sampleColumns samplePlusCode sample sampleGuest 1 = .ok d ∧
      Always step (Discreet sampleGuest.personId) (mount 1)
        [.answered 0 (.ok (.ofServer d)), .eventDocChanged (some sampleDoc)] := by
  have hbuild : ∃ d, Services.buildDetail (· ≤ ·) sampleColumns samplePlusCode sample sampleGuest
      1 = .ok d := ⟨_, rfl⟩
  obtain ⟨d, hbuild⟩ := hbuild
  exact ⟨d, hbuild, page_discreet (· ≤ ·) sampleColumns samplePlusCode sampleGuest.personId 1
    ⟨⟨sample, sampleGuest, d, rfl, hbuild, rfl⟩, trivial, trivial⟩⟩

end EventPage

end HcMap.Pages
