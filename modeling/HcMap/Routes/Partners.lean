import HcMap.Routes.Anchored

/-!
# Auto-participants

Regel-003: performer and recipient of an application take part in its event.
The insert paths add the missing links; they take a tombstoned link for a link,
and the other paths add none. `KeepsPartners` says what each operation must
find for the rule to survive it.
-/

namespace HcMap.Routes

open Sync (EventPushItem ApplicationPushItem EventDoc ApplicationDoc)
open Services (Deletes eventWritten)

def LiveLink (db : Database) (eid pid : Uuid) : Prop :=
  ∃ ep ∈ db.participants, ep.eventId = eid ∧ ep.personId = pid ∧ ep.isDeleted = false

def LiveEvent (db : Database) (eid : Uuid) : Prop :=
  ∃ e ∈ db.events, e.id = eid ∧ e.isDeleted = false

/-- Performer and recipient of every live application of a live event are
linked to it. -/
def PartnersLinked (db : Database) : Prop :=
  ∀ a ∈ db.applications, a.isDeleted = false → LiveEvent db a.eventId →
    LiveLink db a.eventId a.performerId ∧ LiveLink db a.eventId a.recipientId

instance (db : Database) (eid pid : Uuid) : Decidable (LiveLink db eid pid) := by
  unfold LiveLink
  infer_instance
instance (db : Database) (eid : Uuid) : Decidable (LiveEvent db eid) := by
  unfold LiveEvent
  infer_instance
instance (db : Database) : Decidable (PartnersLinked db) := by
  unfold PartnersLinked
  infer_instance

-- ---------------------------------------------------------------------------
-- The condition
-- ---------------------------------------------------------------------------

/-- No tombstone stands where the live link would be. -/
def Linkable (db : Database) (eid pid : Uuid) : Prop := LiveLink db eid pid ∨ ¬ db.Linked eid pid

def AllLinked (db : Database) (eid : Uuid) : Prop :=
  ∀ a ∈ db.applications, a.eventId = eid → a.isDeleted = false →
    LiveLink db eid a.performerId ∧ LiveLink db eid a.recipientId

def RestoresLinked (s : Session) (db : Database) (item : EventPushItem) : Prop :=
  ∀ existing, Sync.EventUpdateAllowed s db item existing → existing.isDeleted = true →
    item.newDocumentState.deleted = false → AllLinked db existing.id

/-- A push that inserts an application into a live event can link its people; one
that updates finds the people it names linked. -/
def NamesLinked (s : Session) (db : Database) (item : ApplicationPushItem) : Prop :=
  item.newDocumentState.deleted = false →
    (item.assumedMasterState = none → Sync.ApplicationInsertAllowed s db item.newDocumentState →
      LiveEvent db item.newDocumentState.eventId →
        Linkable db item.newDocumentState.eventId item.newDocumentState.performerId ∧
          Linkable db item.newDocumentState.eventId item.newDocumentState.recipientId) ∧
    ∀ existing, Sync.ApplicationUpdateAllowed s db item existing →
      LiveEvent db existing.eventId →
        LiveLink db existing.eventId item.newDocumentState.performerId ∧
          LiveLink db existing.eventId item.newDocumentState.recipientId

/-- The operation finds, or can add, the links its applications need, and
removes none of them. -/
def KeepsPartners (db : Database) (s : Session) : Operation → Prop
  | .pushEvents items =>
    Batch.Along (Sync.pushEvent s) (fun db item => RestoresLinked s db item.2) db items
  | .pushApplications items =>
    Batch.Along (Sync.pushApplication s) (fun db item => NamesLinked s db item.2) db items
  | .removeParticipant eid pid =>
    childWritable db s eid → LiveEvent db eid →
      ∀ a ∈ db.applications, a.eventId = eid → a.isDeleted = false →
        a.performerId ≠ pid ∧ a.recipientId ≠ pid
  | .createApplication eid payload _ =>
    LiveEvent db eid → Linkable db eid payload.performerId ∧ Linkable db eid payload.recipientId
  | .startApplication eid payload =>
    LiveEvent db eid → Linkable db eid (payload.performerId.getD s.personId) ∧
      Linkable db eid (payload.recipientId.getD s.personId)
  | .patchApplication aid payload =>
    ∀ a, db.applications.find? aid = some a → a.isDeleted = false → LiveEvent db a.eventId →
      LiveLink db a.eventId (payload.apply a).performerId ∧
        LiveLink db a.eventId (payload.apply a).recipientId
  | .mergePerson sid tid =>
    ∀ a ∈ db.applications, a.isDeleted = false → LiveEvent db a.eventId →
      a.performerId = sid ∨ a.recipientId = sid → Linkable db a.eventId tid
  | .editEvent eid _ _ deleted =>
    deleted = false → ∀ e, db.events.find? eid = some e → e.isDeleted = true → AllLinked db e.id
  | _ => True

-- ---------------------------------------------------------------------------
-- Live links
-- ---------------------------------------------------------------------------

section
variable {db db' : Database} {s : Session} {clock : Time} {eid pid eid' pid' : Uuid}

theorem LiveLink.mono (h : LiveLink db eid pid)
    (hsub : ∀ ep ∈ db.participants, ep ∈ db'.participants) : LiveLink db' eid pid := by
  obtain ⟨ep, hep, hk⟩ := h
  exact ⟨ep, hsub ep hep, hk⟩

theorem LiveLink.ensureParticipant (h : LiveLink db eid' pid') :
    LiveLink (Sync.ensureParticipant db s clock eid pid) eid' pid' :=
  h.mono fun _ => Sync.mem_ensureParticipant_of_mem

/-- What could be linked before a link was added still can, and the link that
was added is live. -/
theorem Linkable.ensureParticipant (h : Linkable db eid pid') :
    Linkable (Sync.ensureParticipant db s clock eid pid) eid pid' := by
  rcases h with h | h
  · exact .inl h.ensureParticipant
  · by_cases hl : (Sync.ensureParticipant db s clock eid pid).Linked eid pid'
    · obtain ⟨ep, hep, he, hp⟩ := hl
      rcases Sync.mem_ensureParticipant hep with hm | ⟨-, -, -, -, rfl⟩
      · exact absurd ⟨ep, hm, he, hp⟩ h
      · exact .inl ⟨_, hep, he, hp, rfl⟩
    · exact .inr hl

theorem Linkable.liveLink (h : Linkable db eid pid) (hl : db.Linked eid pid) :
    LiveLink db eid pid :=
  h.resolve_right fun hn => hn hl

theorem liveLink_ensureParticipants {rid : Uuid} (clock : Time) (hw : childWritable db s eid)
    (he : (db.events.find? eid).isSome) (hp : (db.persons.find? pid).isSome)
    (hr : (db.persons.find? rid).isSome) (hlp : Linkable db eid pid) (hlr : Linkable db eid rid) :
    LiveLink (Sync.ensureParticipants db s clock eid pid rid) eid pid ∧
      LiveLink (Sync.ensureParticipants db s clock eid pid rid) eid rid := by
  have hlinked := Sync.linked_ensureParticipants clock hw he hp hr
  have hboth : Linkable (Sync.ensureParticipants db s clock eid pid rid) eid pid ∧
      Linkable (Sync.ensureParticipants db s clock eid pid rid) eid rid := by
    unfold Sync.ensureParticipants
    split
    · exact ⟨hlp.ensureParticipant.ensureParticipant, hlr.ensureParticipant.ensureParticipant⟩
    · exact ⟨hlp.ensureParticipant, hlr.ensureParticipant⟩
  exact ⟨hboth.1.liveLink hlinked.1, hboth.2.liveLink hlinked.2⟩

theorem LiveLink.eventWritten {old new : Event} (h : LiveLink db eid pid)
    (hkeep : eid = new.id → ¬ Deletes old new) :
    LiveLink (eventWritten db clock old new) eid pid := by
  obtain ⟨ep, hep, he, hp, hd⟩ := h
  have hsame : Services.linkAfter clock old new ep = ep := by
    by_cases heq : eid = new.id
    · exact Services.linkAfter_of_live (hkeep heq)
    · exact Services.linkAfter_of_ne (by rwa [he])
  exact ⟨ep, Services.mem_participants_eventWritten.mpr ⟨ep, hep, hsame⟩, he, hp, hd⟩

theorem LiveLink.repoint_ne {source : Person} {sid tid : Uuid} (h : LiveLink db eid pid)
    (hne : pid ≠ sid) : LiveLink (Services.repoint db clock source sid tid) eid pid := by
  obtain ⟨ep, hep, he, hp, hd⟩ := h
  have hps : ep.personId ≠ sid := by rwa [hp]
  refine ⟨ep, Services.mem_participants_repoint.mpr ⟨ep, hep, ?_⟩, he, hp, hd⟩
  simp [Services.moveParticipant, Services.dropOverlap, hps]

/-- A live link of the source becomes, or gives way to, one of the target. -/
theorem LiveLink.repoint {source : Person} {sid tid : Uuid} (h : LiveLink db eid sid)
    (hne : sid ≠ tid) (hl : Linkable db eid tid) :
    LiveLink (Services.repoint db clock source sid tid) eid tid := by
  rcases hl with hl | hl
  · exact hl.repoint_ne hne.symm
  · obtain ⟨ep, hep, he, hp, hd⟩ := h
    have hn : ¬ db.Linked ep.eventId tid := by rwa [he]
    refine ⟨{ ep with personId := tid, updatedAt := clock },
      Services.mem_participants_repoint.mpr ⟨ep, hep, ?_⟩, he, rfl, hd⟩
    simp [Services.moveParticipant, Services.dropOverlap, hn, hp, hd]

-- ---------------------------------------------------------------------------
-- Each way to change the database
-- ---------------------------------------------------------------------------

theorem PartnersLinked.ensureParticipant (h : PartnersLinked db) :
    PartnersLinked (Sync.ensureParticipant db s clock eid pid) := by
  intro a ha hlive hevent
  rw [Sync.ensureParticipant_applications] at ha
  have hevent' : LiveEvent db a.eventId := by simpa [LiveEvent] using hevent
  obtain ⟨hp, hr⟩ := h a ha hlive hevent'
  exact ⟨hp.ensureParticipant, hr.ensureParticipant⟩

theorem PartnersLinked.eventAdded {e : Event} (h : PartnersLinked db) (hanch : Anchored db)
    (ha : EventAdded db s clock e db') : PartnersLinked db' := by
  obtain ⟨t, pids, ht⟩ := ha
  have hnew : PartnersLinked { db with events := t } := by
    intro a ha hlive ⟨e', he', hid, hel⟩
    rcases (Table.mem_insert? ht).mp he' with hm | rfl
    · exact h a ha hlive ⟨e', hm, hid, hel⟩
    · -- A new event has no applications.
      have hnone := (Table.insert?_eq_some.mp ht).1
      have hsome := hanch.applications a ha
      rw [← hid, ← key_event, hnone] at hsome
      cases hsome
  clear h hanch
  unfold addLinks
  generalize { db with events := t } = db₁ at hnew
  induction pids generalizing db₁ with
  | nil => exact hnew
  | cons pid pids ih => exact ih _ hnew.ensureParticipant

theorem PartnersLinked.eventChanged {old new : Event} (h : PartnersLinked db)
    (hc : EventChanged db clock old new db')
    (hrestore : old.isDeleted = true → new.isDeleted = false → AllLinked db old.id) :
    PartnersLinked db' := by
  cases hc with
  | same => exact h
  | written hold hid =>
    intro a' ha' halive ⟨e, he, heid, hel⟩
    obtain ⟨a, ha, rfl⟩ := Services.mem_applications_eventWritten.mp ha'
    have hlive : a.isDeleted = false := by
      cases hd : a.isDeleted with
      | true => simp [Services.childAfter_isDeleted hd] at halive
      | false => rfl
    rw [Services.childAfter_eventId] at heid
    rw [Services.childAfter_eventId, Services.childAfter_performerId,
      Services.childAfter_recipientId]
    rcases Services.mem_events_eventWritten he with rfl | ⟨he, hne⟩
    · have hnew : new.isDeleted = false := hel
      have hid' : a.eventId = old.id := (heid.symm).trans hid
      have hboth : LiveLink db a.eventId a.performerId ∧ LiveLink db a.eventId a.recipientId := by
        cases hd : old.isDeleted with
        | true =>
          rw [hid']
          exact hrestore hd hnew a ha hid' hlive
        | false => exact h a ha hlive ⟨old, hold, hid'.symm, hd⟩
      have hkeep : a.eventId = new.id → ¬ Deletes old new := fun _ hdel => by simp [hdel.1] at hnew
      exact ⟨hboth.1.eventWritten hkeep, hboth.2.eventWritten hkeep⟩
    · obtain ⟨hp, hr⟩ := h a ha hlive ⟨e, he, heid, hel⟩
      have hkeep : a.eventId = new.id → ¬ Deletes old new := fun heq =>
        absurd (heid.trans heq) hne
      exact ⟨hp.eventWritten hkeep, hr.eventWritten hkeep⟩

theorem PartnersLinked.applicationAdded {a : Application} (h : PartnersLinked db)
    (ha : ApplicationAdded db s clock a db')
    (hlink : a.isDeleted = false → LiveEvent db a.eventId →
      Linkable db a.eventId a.performerId ∧ Linkable db a.eventId a.recipientId) :
    PartnersLinked db' := by
  obtain ⟨t, restraints, ht, hw, he, hp, hr⟩ := ha
  obtain ⟨ps, hps⟩ := Sync.ensureParticipants_eq { db with applications := t } s clock a.eventId
    a.performerId a.recipientId
  intro a' ha' hlive hevent
  have hevent' : LiveEvent db a'.eventId := by rwa [hps] at hevent
  rw [hps] at ha'
  rcases (Table.mem_insert? ht).mp ha' with hm | rfl
  · obtain ⟨hp', hr'⟩ := h a' hm hlive hevent'
    have hsub : ∀ ep ∈ db.participants, ep ∈ (Sync.ensureParticipants { db with applications := t }
        s clock a.eventId a.performerId a.recipientId).participants :=
      fun _ hep => Sync.mem_ensureParticipants_of_mem hep
    exact ⟨hp'.mono hsub, hr'.mono hsub⟩
  · obtain ⟨hlp, hlr⟩ := hlink hlive hevent'
    exact liveLink_ensureParticipants clock (by exact hw) he hp hr hlp hlr

theorem PartnersLinked.applicationChanged {old new : Application} (h : PartnersLinked db)
    (hc : ApplicationChanged db clock old new db')
    (hlink : new.isDeleted = false → LiveEvent db old.eventId →
      LiveLink db old.eventId new.performerId ∧ LiveLink db old.eventId new.recipientId) :
    PartnersLinked db' := by
  cases hc with
  | same => exact h
  | written _ hold _ heq =>
    intro a ha hlive hevent
    rcases Table.mem_set ha with rfl | ⟨ha, -⟩
    · have hevent' : LiveEvent db old.eventId := by rwa [← heq]
      have := hlink hlive hevent'
      rwa [← heq] at this
    · exact h a ha hlive hevent

theorem PartnersLinked.deleteEvent {e : Event} (h : PartnersLinked db) :
    PartnersLinked (db.deleteEvent s e) := by
  unfold Database.deleteEvent
  split
  · intro a ha hlive ⟨e', he', hid, hel⟩
    obtain ⟨ha, hne⟩ := Table.mem_filter.mp ha
    obtain ⟨hp, hr⟩ := h a ha hlive ⟨e', (Table.mem_filter.mp he').1, hid, hel⟩
    have hkeep : ∀ {pid}, LiveLink db a.eventId pid →
        ∃ ep ∈ db.participants.filter fun ep => ep.eventId ≠ e.id,
          ep.eventId = a.eventId ∧ ep.personId = pid ∧ ep.isDeleted = false := by
      rintro pid ⟨ep, hep, hk⟩
      exact ⟨ep, Table.mem_filter.mpr ⟨hep, by rw [hk.1]; exact hne⟩, hk⟩
    exact ⟨hkeep hp, hkeep hr⟩
  · exact h

theorem PartnersLinked.deleteApplication {a : Application} (h : PartnersLinked db) :
    PartnersLinked (db.deleteApplication s a) := by
  unfold Database.deleteApplication
  split
  · intro a' ha'
    exact h a' (Table.mem_filter.mp ha').1
  · exact h

theorem PartnersLinked.deleteParticipant {ep : EventParticipant} (h : PartnersLinked db)
    (hep : ep ∈ db.participants)
    (hfree : childWritable db s ep.eventId → LiveEvent db ep.eventId →
      ∀ a ∈ db.applications, a.eventId = ep.eventId → a.isDeleted = false →
        a.performerId ≠ ep.personId ∧ a.recipientId ≠ ep.personId) :
    PartnersLinked (db.deleteParticipant s ep) := by
  unfold Database.deleteParticipant
  split
  · rename_i hw
    intro a ha hlive hevent
    obtain ⟨hp, hr⟩ := h a ha hlive hevent
    have hkeep : ∀ {pid}, LiveLink db a.eventId pid →
        (a.eventId = ep.eventId → pid ≠ ep.personId) →
        ∃ x ∈ db.participants.filter fun x => x.id ≠ ep.id,
          x.eventId = a.eventId ∧ x.personId = pid ∧ x.isDeleted = false := by
      rintro pid ⟨x, hx, hk⟩ hne
      refine ⟨x, Table.mem_filter.mpr ⟨hx, ?_⟩, hk⟩
      simp only [ne_eq, decide_eq_true_eq]
      intro hid
      obtain rfl := Table.eq_of_key hx hep hid
      exact hne hk.1.symm hk.2.1.symm
    have hne : a.eventId = ep.eventId →
        a.performerId ≠ ep.personId ∧ a.recipientId ≠ ep.personId := fun heq =>
      hfree hw (by rw [← heq]; exact hevent) a ha heq hlive
    exact ⟨hkeep hp fun heq => (hne heq).1, hkeep hr fun heq => (hne heq).2⟩
  · exact h

theorem PartnersLinked.repoint {source : Person} {sid tid : Uuid} (h : PartnersLinked db)
    (hne : sid ≠ tid)
    (hlink : ∀ a ∈ db.applications, a.isDeleted = false → LiveEvent db a.eventId →
      a.performerId = sid ∨ a.recipientId = sid → Linkable db a.eventId tid) :
    PartnersLinked (Services.repoint db clock source sid tid) := by
  intro a ha hlive hevent
  obtain ⟨r, hr, t, rfl⟩ := Services.mem_applications_repoint ha
  obtain ⟨hp, hrec⟩ := h r hr hlive hevent
  constructor
  · show LiveLink _ r.eventId (if r.performerId = sid then tid else r.performerId)
    split
    · rename_i heq
      rw [heq] at hp
      exact hp.repoint hne (hlink r hr hlive hevent (.inl heq))
    · rename_i hps
      exact hp.repoint_ne hps
  · show LiveLink _ r.eventId (if r.recipientId = sid then tid else r.recipientId)
    split
    · rename_i heq
      rw [heq] at hrec
      exact hrec.repoint hne (hlink r hr hlive hevent (.inr heq))
    · rename_i hps
      exact hrec.repoint_ne hps

theorem PartnersLinked.pushEvent {item : Time × EventPushItem} {ds : List EventDoc}
    (h : PartnersLinked db) (hanch : Anchored db) (hcond : RestoresLinked s db item.2)
    (hp : Sync.pushEvent s db item = .ok (db', ds)) : PartnersLinked db' := by
  have hcases := Sync.pushEvent_cases s db item.1 item.2
  rw [hp] at hcases
  cases hcases with
  | reported => exact h
  | inserted t _ _ ht => exact h.eventAdded hanch (.mk t [s.personId] ht)
  | untouched => exact h
  | written existing hallow =>
    exact h.eventChanged (.written (Table.mem_of_find? hallow.find) rfl) (hcond existing hallow)

theorem PartnersLinked.pushApplication {item : Time × ApplicationPushItem}
    {ds : List ApplicationDoc} (h : PartnersLinked db) (hcond : NamesLinked s db item.2)
    (hp : Sync.pushApplication s db item = .ok (db', ds)) : PartnersLinked db' := by
  have hcases := Sync.pushApplication_cases s db item.1 item.2
  rw [hp] at hcases
  cases hcases with
  | reported => exact h
  | inserted t hitem hi ht =>
    exact h.applicationAdded (applicationAdded_of_push hi ht) fun hlive =>
      (hcond hlive).1 hitem hi
  | untouched existing hallow =>
    exact h.applicationChanged (applicationChanged_of_push_same item.1 existing _)
      (h existing hallow.mem)
  | written existing hallow =>
    exact h.applicationChanged (applicationChanged_of_push hallow _) fun hlive =>
      (hcond hlive).2 existing hallow

end

-- ---------------------------------------------------------------------------
-- Runs
-- ---------------------------------------------------------------------------

section
variable {db db' : Database} {s : Session} {clock : Time} {operation : Operation}
  {requests : List Request}

theorem PartnersLinked.effect (h : PartnersLinked db) (hanch : Anchored db)
    (hcond : KeepsPartners db s operation) (he : Effect db s clock operation db') :
    PartnersLinked db' := by
  cases he with
  | pushEvents hp =>
    exact (Batch.invariant (fun db => Anchored db ∧ PartnersLinked db)
      (fun _ _ _ _ h hok hi => ⟨h.1.pushEvent hi, h.2.pushEvent h.1 hok hi⟩)
      hp hcond ⟨hanch, h⟩).2
  | pushApplications hp =>
    exact Batch.invariant PartnersLinked (fun _ _ _ _ h hok hi => h.pushApplication hok hi)
      hp hcond h
  | createEvent _ ha => exact h.eventAdded hanch ha
  | startEvent _ ha => exact h.eventAdded hanch ha
  | endEvent hlive _ hc => exact h.eventChanged hc fun hdel => by simp [hlive] at hdel
  | endedEvent => exact h
  | patchEvent hlive hc => exact h.eventChanged hc fun hdel => by simp [hlive] at hdel
  | deleteEvent => exact h.deleteEvent
  | addParticipant => exact h.ensureParticipant
  | removeParticipant hep he hp =>
    subst he hp
    exact h.deleteParticipant hep hcond
  | createApplication he hp hr _ ha =>
    refine h.applicationAdded ha fun _ hevent => ?_
    rw [he] at hevent
    rw [he, hp, hr]
    exact hcond hevent
  | startApplication he hp hr ha =>
    refine h.applicationAdded ha fun _ hevent => ?_
    rw [he] at hevent
    rw [he, hp, hr]
    exact hcond hevent
  | patchApplication hfind hlive hc =>
    exact h.applicationChanged hc fun _ => hcond _ hfind hlive
  | endApplication hmem hlive _ hc => exact h.applicationChanged hc fun _ => h _ hmem hlive
  | endedApplication => exact h
  | deleteApplication => exact h.deleteApplication
  | mergePerson hne => exact h.repoint hne hcond
  | editEvent hfind hc => exact h.eventChanged hc fun hdel hlive => hcond hlive _ hfind hdel
  | writeReference => exact h

/-- Along requests that find, or can add, the links their applications need,
performers and recipients take part in their events. -/
theorem partners_linked_of_run (hrun : Run.Along step (Meets KeepsPartners) db requests)
    (hanch : Anchored db) (hlinked : PartnersLinked db) :
    PartnersLinked (Run.run step db requests) :=
  (run_invariant (fun db => Anchored db ∧ PartnersLinked db)
    (fun _ _ _ _ _ h hcond he => ⟨h.1.effect he, h.2.effect h.1 hcond he⟩)
    hrun ⟨hanch, hlinked⟩).2

theorem startWithNewcomer_linked :
    PartnersLinked (Run.run step sample
      [⟨2, 100, 100, .startApplication 1 ⟨none, some 4, none, none, none, none, []⟩⟩]) :=
  partners_linked_of_run
    ⟨fun s hs _ _ => by
      obtain rfl : (⟨2, .editor, 2, 100⟩ : Session) = s := Except.ok.inj hs
      exact ⟨.inl (by decide), .inr (by decide)⟩, trivial⟩
    anchored_sample (by decide)

/-- An editor records an event with an application, and removes the performer
from the participants. -/
def removePerformer : List Request :=
  [⟨2, 100, 100, .startEvent ⟨.zero, .zero, none, false, none, none, .minute⟩⟩,
    ⟨2, 110, 110, .startApplication 1 ⟨some 4, none, none, none, none, none, []⟩⟩,
    ⟨2, 120, 120, .removeParticipant 1 4⟩]

theorem removePerformer_not_linked :
    ¬ PartnersLinked (Run.run step sampleUsers removePerformer) := by
  decide +kernel

end

end HcMap.Routes
