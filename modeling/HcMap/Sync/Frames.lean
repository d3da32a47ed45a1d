import HcMap.Sync.ApplicationLaws

/-!
# What an item leaves alone

An item of either push changes the row of its own id, its event's or its own
children, and nothing that decides what a session may see or write of another
id.
-/

namespace HcMap

open Services (eventWritten mem_events_eventWritten mem_participants_eventWritten
  find?_events_eventWritten_ne)

-- ---------------------------------------------------------------------------
-- Visibility
-- ---------------------------------------------------------------------------

section
variable {db db' : Database} {s : Session} {e : Event} {a : Application} {eid pid id : Uuid}

theorem eventVisible_iff :
    eventVisible db s e ↔ s.role = .admin ∨
      ((s.role = .editor ∨ s.role = .viewer) ∧ db.Linked e.id s.personId) ∨
      (s.role = .editor ∧ e.createdBy = some s.userId) := by
  have hlink : (∃ ep ∈ db.participants, participantVisible db s ep ∧ ep.eventId = e.id ∧
      ep.personId = s.personId) ↔ db.Linked e.id s.personId := by
    constructor
    · rintro ⟨ep, hep, -, hk⟩
      exact ⟨ep, hep, hk⟩
    · rintro ⟨ep, hep, hk⟩
      exact ⟨ep, hep, participantVisible_iff.mpr (.inr (.inl ⟨ep, hep, rfl, hk.2⟩)), hk⟩
  unfold eventVisible
  rw [hlink]

/-- The helper function of the policies agrees with the policies of the event. -/
theorem eventVisible_of_canSee (he : e ∈ db.events) (h : appUserCanSeeEvent db s e.id) :
    eventVisible db s e := by
  refine eventVisible_iff.mpr ?_
  rcases h with hr | hl | ⟨hr, e', he', hid, hby⟩
  · exact .inl hr
  · cases hr : s.role with
    | admin => exact .inl rfl
    | editor => exact .inr (.inl ⟨.inl rfl, hl⟩)
    | viewer => exact .inr (.inl ⟨.inr rfl, hl⟩)
  · obtain rfl := Table.eq_of_key he' he hid
    exact .inr (.inr ⟨hr, hby⟩)

theorem canSee_of_eventVisible (he : e ∈ db.events) (h : eventVisible db s e) :
    appUserCanSeeEvent db s e.id := by
  rcases eventVisible_iff.mp h with hr | ⟨-, hl⟩ | ⟨hr, hby⟩
  · exact .inl hr
  · exact .inr (.inl hl)
  · exact .inr (.inr ⟨hr, e, he, rfl, hby⟩)

theorem getEvent_congr (hf : db'.events.find? id = db.events.find? id)
    (hl : db'.Linked id s.personId ↔ db.Linked id s.personId) :
    db'.getEvent s id = db.getEvent s id := by
  refine Option.ext fun e => ?_
  rw [Database.getEvent_eq_some, Database.getEvent_eq_some, hf, eventVisible_iff, eventVisible_iff]
  refine and_congr_right fun h => ?_
  have hid : e.id = id := Table.key_of_find? h
  rw [hid, hl]

def SameOwners (db db' : Database) : Prop :=
  ∀ s eid, appUserOwnsEvent db' s eid ↔ appUserOwnsEvent db s eid

theorem childWritable_congr (h : SameOwners db db') :
    childWritable db' s eid ↔ childWritable db s eid := by
  unfold childWritable
  rw [h s eid]

theorem appUserCanSeeEvent_iff :
    appUserCanSeeEvent db s eid ↔ s.role = .admin ∨ db.Linked eid s.personId ∨
      (s.role = .editor ∧ appUserOwnsEvent db s eid) := .rfl

theorem applicationVisible_congr (ho : SameOwners db db')
    (hs : appUserCanSeeEvent db' s a.eventId ↔ appUserCanSeeEvent db s a.eventId) :
    applicationVisible db' s a ↔ applicationVisible db s a := by
  unfold applicationVisible applicationWritable
  rw [childWritable_congr ho, hs]

theorem SameOwners.of_events (h : db'.events = db.events) : SameOwners db db' := fun s eid => by
  unfold appUserOwnsEvent
  rw [h]

structure SameReference (db db' : Database) : Prop where
  users : db'.users = db.users
  persons : db'.persons = db.persons
  armPositions : db'.armPositions = db.armPositions
  handPositions : db'.handPositions = db.handPositions
  handOrientations : db'.handOrientations = db.handOrientations
  restraintTypes : db'.restraintTypes = db.restraintTypes

/-- The session may see and write the same events, against the same reference
data. -/
structure SameAccess (s : Session) (db db' : Database) : Prop where
  owners : SameOwners db db'
  canSee : ∀ eid, appUserCanSeeEvent db' s eid ↔ appUserCanSeeEvent db s eid
  reference : SameReference db db'

theorem SameReference.rfl : SameReference db db :=
  ⟨Eq.refl _, Eq.refl _, Eq.refl _, Eq.refl _, Eq.refl _, Eq.refl _⟩

theorem SameReference.trans {db'' : Database} (h : SameReference db db')
    (h' : SameReference db' db'') : SameReference db db'' :=
  ⟨h'.users.trans h.users, h'.persons.trans h.persons, h'.armPositions.trans h.armPositions,
    h'.handPositions.trans h.handPositions, h'.handOrientations.trans h.handOrientations,
    h'.restraintTypes.trans h.restraintTypes⟩

theorem SameReference.restraintsAllowed {ids : List Uuid} (h : SameReference db db') :
    Sync.restraintsAllowed db' s ids ↔ Sync.restraintsAllowed db s ids := by
  unfold Sync.restraintsAllowed Sync.selectedRestraintTypes
  rw [h.restraintTypes]

theorem SameReference.positionFksAllowed {doc : Sync.ApplicationDoc} (h : SameReference db db') :
    Sync.positionFksAllowed db' s doc ↔ Sync.positionFksAllowed db s doc := by
  unfold Sync.positionFksAllowed
  rw [h.armPositions, h.handPositions, h.handOrientations]

theorem SameAccess.rfl : SameAccess s db db :=
  ⟨fun _ _ => Iff.rfl, fun _ => Iff.rfl, .rfl⟩

theorem SameAccess.symm (h : SameAccess s db db') : SameAccess s db' db where
  owners s eid := (h.owners s eid).symm
  canSee eid := (h.canSee eid).symm
  reference :=
    ⟨h.reference.users.symm, h.reference.persons.symm, h.reference.armPositions.symm,
      h.reference.handPositions.symm, h.reference.handOrientations.symm,
      h.reference.restraintTypes.symm⟩

theorem SameAccess.trans {db'' : Database} (h : SameAccess s db db') (h' : SameAccess s db' db'') :
    SameAccess s db db'' where
  owners s eid := (h'.owners s eid).trans (h.owners s eid)
  canSee eid := (h'.canSee eid).trans (h.canSee eid)
  reference := h.reference.trans h'.reference

end

namespace Sync

-- ---------------------------------------------------------------------------
-- Event items
-- ---------------------------------------------------------------------------

section
variable {db db' : Database} {s : Session} {clock : Time} {item : EventPushItem}
  {ds : List EventDoc} {old new : Event} {eid pid id : Uuid}

theorem linked_eventWritten :
    (eventWritten db clock old new).Linked eid pid ↔ db.Linked eid pid := by
  constructor
  · rintro ⟨ep, hep, rfl, rfl⟩
    obtain ⟨r, hr, rfl⟩ := mem_participants_eventWritten.mp hep
    exact ⟨r, hr, by simp, by simp⟩
  · rintro ⟨ep, hep, rfl, rfl⟩
    exact ⟨_, mem_participants_eventWritten.mpr ⟨ep, hep, rfl⟩, by simp, by simp⟩

theorem pushEvent_frame (h : pushEvent s db (clock, item) = .ok (db', ds))
    (hid : id ≠ item.newDocumentState.id) :
    db'.events.find? id = db.events.find? id ∧ ∀ pid, db'.Linked id pid ↔ db.Linked id pid := by
  have hcases := pushEvent_cases s db clock item
  rw [h] at hcases
  cases hcases with
  | reported doc => exact ⟨rfl, fun _ => .rfl⟩
  | inserted t _ _ ht =>
    refine ⟨?_, fun pid => ?_⟩
    · rw [ensureParticipant_events]
      exact Table.find?_insert?_ne ht hid.symm
    · rw [linked_ensureParticipant_ne hid]
      rfl
  | untouched => exact ⟨rfl, fun _ => .rfl⟩
  | written existing hallow =>
    refine ⟨find?_events_eventWritten_ne ?_, fun _ => linked_eventWritten⟩
    rw [applyEventUpdate_id, hallow.id_eq]
    exact hid.symm

theorem eventUpdateAllowed_frame {other : EventPushItem} {existing : Event}
    (h : pushEvent s db (clock, item) = .ok (db', ds))
    (hid : other.newDocumentState.id ≠ item.newDocumentState.id) :
    EventUpdateAllowed s db' other existing ↔ EventUpdateAllowed s db other existing := by
  obtain ⟨hfind, hlinked⟩ := pushEvent_frame h hid
  have hget : db'.getEvent s other.newDocumentState.id = db.getEvent s other.newDocumentState.id :=
    getEvent_congr hfind (hlinked s.personId)
  exact ⟨fun ha => ⟨hget ▸ ha.found, ha.update, ha.passes⟩,
    fun ha => ⟨hget.symm ▸ ha.found, ha.update, ha.passes⟩⟩

theorem pushEvent_users (h : pushEvent s db (clock, item) = .ok (db', ds)) :
    db'.users = db.users := by
  have hcases := pushEvent_cases s db clock item
  rw [h] at hcases
  cases hcases with
  | reported | untouched | written => rfl
  | inserted t =>
    obtain ⟨_, hp⟩ := ensureParticipant_eq { db with events := t } s clock
      item.newDocumentState.id s.personId
    rw [hp]

theorem sameOwners_eventWritten (clock : Time) (new : Event)
    (hold : db.events.find? old.id = some old) (hid : new.id = old.id)
    (hc : new.createdBy = old.createdBy) : SameOwners db (eventWritten db clock old new) := by
  intro s eid
  constructor
  · rintro ⟨e, he, rfl, hown⟩
    rcases mem_events_eventWritten he with rfl | ⟨he, -⟩
    · exact ⟨old, Table.mem_of_find? hold, hid.symm, hc.symm.trans hown⟩
    · exact ⟨e, he, rfl, hown⟩
  · rintro ⟨e, he, rfl, hown⟩
    by_cases heq : e.id = new.id
    · have : e = old := Table.eq_of_key he (Table.mem_of_find? hold) (heq.trans hid)
      subst this
      exact ⟨{ new with updatedAt := clock }, Table.mem_set_self he heq, heq.symm, hc.trans hown⟩
    · exact ⟨e, Table.mem_set_of_ne he heq, rfl, hown⟩

theorem pushEvent_sameAccess (h : pushEvent s db (clock, item) = .ok (db', ds))
    (hitem : item.assumedMasterState.isSome) : SameAccess s db db' := by
  have hcases := pushEvent_cases s db clock item
  rw [h] at hcases
  cases hcases with
  | reported doc => exact .rfl
  | inserted t hnone => simp [hnone] at hitem
  | untouched => exact .rfl
  | written existing hallow =>
    have hown := sameOwners_eventWritten clock
      (applyEventUpdate existing item.newDocumentState clock) hallow.find rfl rfl
    refine ⟨hown, fun eid => ?_, ⟨rfl, rfl, rfl, rfl, rfl, rfl⟩⟩
    rw [appUserCanSeeEvent_iff, appUserCanSeeEvent_iff, linked_eventWritten, hown s eid]

theorem ownsEvent_congr (h : db'.events.find? eid = db.events.find? eid) :
    appUserOwnsEvent db' s eid ↔ appUserOwnsEvent db s eid := by
  have hiff : ∀ db : Database, appUserOwnsEvent db s eid ↔
      ∃ e, db.events.find? eid = some e ∧ e.createdBy = some s.userId := fun db => by
    simp [appUserOwnsEvent, Table.find?_eq_some, and_assoc]
  rw [hiff, hiff, h]

theorem pushEvent_canSee (h : pushEvent s db (clock, item) = .ok (db', ds))
    (he : (db.events.find? eid).isSome) : (db'.events.find? eid).isSome ∧
      (appUserCanSeeEvent db' s eid ↔ appUserCanSeeEvent db s eid) := by
  by_cases hid : eid = item.newDocumentState.id
  · have hcases := pushEvent_cases s db clock item
    rw [h] at hcases
    cases hcases with
    | reported | untouched => exact ⟨he, .rfl⟩
    | inserted t _ _ ht =>
      have hfree : db.events.find? item.newDocumentState.id = none :=
        (Table.insert?_eq_some.mp ht).1
      rw [hid, hfree] at he
      cases he
    | written existing hallow =>
      refine ⟨?_, (pushEvent_sameAccess h hallow.update).canSee eid⟩
      rwa [eventWritten, Table.find?_set_isSome]
  · obtain ⟨hfind, hlinked⟩ := pushEvent_frame h hid
    refine ⟨hfind ▸ he, ?_⟩
    rw [appUserCanSeeEvent_iff, appUserCanSeeEvent_iff, hlinked s.personId, ownsEvent_congr hfind]

end

-- ---------------------------------------------------------------------------
-- Application items
-- ---------------------------------------------------------------------------

section
variable {db db' : Database} {s : Session} {clock : Time} {item : ApplicationPushItem}
  {ds : List ApplicationDoc} {id rid : Uuid}

theorem pushApplication_eq (h : pushApplication s db (clock, item) = .ok (db', ds)) :
    ∃ p a r, db' = { db with participants := p, applications := a, restraints := r } := by
  have hcases := pushApplication_cases s db clock item
  rw [h] at hcases
  cases hcases with
  | reported doc => exact ⟨_, _, _, rfl⟩
  | inserted t =>
    obtain ⟨p, hp⟩ := ensureParticipants_eq { db with applications := t } s clock
      item.newDocumentState.eventId item.newDocumentState.performerId
      item.newDocumentState.recipientId
    obtain ⟨r, hr⟩ := syncApplicationRestraints_eq { db with applications := t, participants := p }
      s item.newDocumentState.id item.newDocumentState.restraintTypeIds
    exact ⟨p, t, r, by rw [applicationInserted, hp, hr]⟩
  | untouched existing =>
    obtain ⟨r, hr⟩ := syncApplicationRestraints_eq db s existing.id
      item.newDocumentState.restraintTypeIds
    exact ⟨_, _, r, hr⟩
  | written existing =>
    obtain ⟨r, hr⟩ := syncApplicationRestraints_eq
      (applicationWritten db clock
        (applyApplicationUpdate existing item.newDocumentState clock)) s existing.id
      item.newDocumentState.restraintTypeIds
    exact ⟨_, _, r, hr⟩

theorem pushApplication_events (h : pushApplication s db (clock, item) = .ok (db', ds)) :
    db'.events = db.events := by
  obtain ⟨_, _, _, rfl⟩ := pushApplication_eq h
  rfl

@[simp] theorem syncApplicationRestraints_applications {ids : List Uuid} :
    (syncApplicationRestraints db s id ids).applications = db.applications := by
  obtain ⟨_, h⟩ := syncApplicationRestraints_eq db s id ids
  rw [h]

@[simp] theorem syncApplicationRestraints_participants {ids : List Uuid} :
    (syncApplicationRestraints db s id ids).participants = db.participants := by
  obtain ⟨_, h⟩ := syncApplicationRestraints_eq db s id ids
  rw [h]

theorem applicationInserted_applications {t : Table Application} {newDoc : ApplicationDoc} :
    (applicationInserted s db clock t newDoc).applications = t := by
  obtain ⟨_, h⟩ := ensureParticipants_eq { db with applications := t } s clock newDoc.eventId
    newDoc.performerId newDoc.recipientId
  rw [applicationInserted, syncApplicationRestraints_applications, h]

theorem applicationInserted_restraints_ne {t : Table Application} {newDoc : ApplicationDoc}
    (h : id ≠ newDoc.id) :
    HasRestraint (applicationInserted s db clock t newDoc) id rid ↔ HasRestraint db id rid := by
  obtain ⟨_, he⟩ := ensureParticipants_eq { db with applications := t } s clock newDoc.eventId
    newDoc.performerId newDoc.recipientId
  rw [applicationInserted, hasRestraint_syncApplicationRestraints_ne h, he]
  exact hasRestraint_congr rfl

theorem pushApplication_frame (h : pushApplication s db (clock, item) = .ok (db', ds))
    (hid : id ≠ item.newDocumentState.id) :
    db'.applications.find? id = db.applications.find? id ∧
      ∀ rid, HasRestraint db' id rid ↔ HasRestraint db id rid := by
  have hcases := pushApplication_cases s db clock item
  rw [h] at hcases
  cases hcases with
  | reported doc => exact ⟨rfl, fun _ => .rfl⟩
  | inserted t _ _ ht =>
    refine ⟨?_, fun rid => applicationInserted_restraints_ne hid⟩
    rw [applicationInserted_applications]
    exact Table.find?_insert?_ne ht hid.symm
  | untouched existing hallow =>
    rw [← hallow.id_eq] at hid
    exact ⟨by simp, fun rid => hasRestraint_syncApplicationRestraints_ne hid⟩
  | written existing hallow =>
    rw [← hallow.id_eq] at hid
    refine ⟨?_, fun rid => (hasRestraint_syncApplicationRestraints_ne hid).trans .rfl⟩
    rw [syncApplicationRestraints_applications]
    exact find?_applicationWritten_ne db clock hid.symm

theorem pushApplication_canSee (h : pushApplication s db (clock, item) = .ok (db', ds))
    (eid : Uuid) : appUserCanSeeEvent db' s eid ↔ appUserCanSeeEvent db s eid := by
  have howners : SameOwners db db' := .of_events (pushApplication_events h)
  have hcases := pushApplication_cases s db clock item
  rw [appUserCanSeeEvent_iff, appUserCanSeeEvent_iff, howners s eid]
  rw [h] at hcases
  cases hcases with
  | reported doc => rfl
  | inserted t _ hi ht =>
    constructor
    · rintro (hr | ⟨ep, hep, rfl, hp⟩ | ho)
      · exact .inl hr
      · rw [applicationInserted, syncApplicationRestraints_participants] at hep
        rcases mem_ensureParticipants hep with hm | ⟨he, -, -, hw, -⟩
        · exact .inr (.inl ⟨ep, hm, rfl, hp⟩)
        · rw [he]
          exact canSee_of_childWritable hi.writable
      · exact .inr (.inr ho)
    · rintro (hr | ⟨ep, hep, hk⟩ | ho)
      · exact .inl hr
      · refine .inr (.inl ⟨ep, ?_, hk⟩)
        rw [applicationInserted, syncApplicationRestraints_participants]
        exact mem_ensureParticipants_of_mem hep
      · exact .inr (.inr ho)
  | untouched => simp [Database.Linked]
  | written => simp [Database.Linked, applicationWritten]

theorem pushApplication_sameAccess (h : pushApplication s db (clock, item) = .ok (db', ds)) :
    SameAccess s db db' where
  owners := .of_events (pushApplication_events h)
  canSee := pushApplication_canSee h
  reference := by
    obtain ⟨_, _, _, rfl⟩ := pushApplication_eq h
    exact ⟨rfl, rfl, rfl, rfl, rfl, rfl⟩

/-- Where access is the same, an update of a row with the same event and
creator is allowed as soon as its checks pass. -/
theorem ApplicationUpdateAllowed.transfer {a a' : Application}
    (h : ApplicationUpdateAllowed s db item a) (hacc : SameAccess s db db')
    (hfind : db'.applications.find? item.newDocumentState.id = some a')
    (he : a'.eventId = a.eventId) (hc : a'.createdBy = a.createdBy) :
    ApplicationUpdateAllowed s db' item a' ↔
      checkApplicationUpdate a' item.newDocumentState s.role = none := by
  refine ⟨fun h => h.passes, fun hpass => ⟨?_, h.update, hpass,
    hacc.reference.restraintsAllowed.mpr h.restraints,
    hacc.reference.positionFksAllowed.mpr h.positions⟩⟩
  have hvis := (Database.getApplication_eq_some.mp h.found).2
  rw [← applicationVisible_congr hacc.owners (hacc.canSee a.eventId)] at hvis
  refine Database.getApplication_eq_some.mpr ⟨hfind, ?_⟩
  unfold applicationVisible applicationWritable at hvis ⊢
  rwa [he, hc]

theorem applicationUpdateAllowed_frame {other : ApplicationPushItem} {a : Application}
    (h : pushApplication s db (clock, item) = .ok (db', ds))
    (hid : other.newDocumentState.id ≠ item.newDocumentState.id) :
    ApplicationUpdateAllowed s db' other a ↔ ApplicationUpdateAllowed s db other a := by
  obtain ⟨hfind, -⟩ := pushApplication_frame h hid
  have hacc := pushApplication_sameAccess h
  constructor
  · intro ha
    exact (ha.transfer hacc.symm (hfind ▸ ha.find_doc) rfl rfl).mpr ha.passes
  · intro ha
    exact (ha.transfer hacc (hfind.symm ▸ ha.find_doc) rfl rfl).mpr ha.passes

theorem ApplicationInsertAllowed.congr {doc : ApplicationDoc}
    (h : ApplicationInsertAllowed s db doc) (href : SameReference db db')
    (hevents : db'.events = db.events)
    (hfree : db'.applications.find? doc.id = db.applications.find? doc.id) :
    ApplicationInsertAllowed s db' doc where
  free := hfree.trans h.free
  restraints := href.restraintsAllowed.mpr h.restraints
  positions := href.positionFksAllowed.mpr h.positions
  writable := (childWritable_congr (.of_events hevents)).mpr h.writable
  event := by
    rw [hevents]
    exact h.event
  performer := by
    rw [href.persons]
    exact h.performer
  recipient := by
    rw [href.persons]
    exact h.recipient
  user := by
    rw [href.users]
    exact h.user

end

-- ---------------------------------------------------------------------------
-- Batches
-- ---------------------------------------------------------------------------

section
variable {db db' : Database} {s : Session} {id eid : Uuid}

theorem pushEvents_canSee {items : List (Time × EventPushItem)} {ds : List EventDoc}
    (h : pushEvents s db items = .ok (db', ds)) (he : (db.events.find? eid).isSome) :
    appUserCanSeeEvent db' s eid ↔ appUserCanSeeEvent db s eid := by
  have hitem : ∀ db₁ item db₂ ds,
      ((db₁.events.find? eid).isSome ∧
        (appUserCanSeeEvent db₁ s eid ↔ appUserCanSeeEvent db s eid)) →
      pushEvent s db₁ item = .ok (db₂, ds) →
      ((db₂.events.find? eid).isSome ∧
        (appUserCanSeeEvent db₂ s eid ↔ appUserCanSeeEvent db s eid)) := by
    rintro db₁ item db₂ ds ⟨hthere, hsee⟩ hpush
    obtain ⟨hthere₂, hsee₂⟩ := pushEvent_canSee hpush hthere
    exact ⟨hthere₂, hsee₂.trans hsee⟩
  have hbatch := Batch.preserves hitem h
  exact (hbatch ⟨he, .rfl⟩).2

theorem pushApplications_frame {items : List (Time × ApplicationPushItem)}
    {ds : List ApplicationDoc} (h : pushApplications s db items = .ok (db', ds))
    (hid : ∀ item ∈ items, id ≠ item.2.newDocumentState.id) (rid : Uuid) :
    HasRestraint db' id rid ↔ HasRestraint db id rid := by
  have hitem : ∀ item ∈ items, ∀ db₁ db₂ ds,
      (HasRestraint db₁ id rid ↔ HasRestraint db id rid) →
      pushApplication s db₁ item = .ok (db₂, ds) →
      (HasRestraint db₂ id rid ↔ HasRestraint db id rid) :=
    fun item hmem _ _ _ hiff hpush =>
      ((pushApplication_frame hpush (hid item hmem)).2 rid).trans hiff
  have hbatch := Batch.preserves_of_mem hitem h
  exact hbatch .rfl

theorem pushApplications_sameAccess {items : List (Time × ApplicationPushItem)}
    {ds : List ApplicationDoc} (h : pushApplications s db items = .ok (db', ds)) :
    SameAccess s db db' ∧ db'.events = db.events := by
  have hitem : ∀ db₁ item db₂ ds, (SameAccess s db db₁ ∧ db₁.events = db.events) →
      pushApplication s db₁ item = .ok (db₂, ds) →
      (SameAccess s db db₂ ∧ db₂.events = db.events) :=
    fun _ _ _ _ hsame hpush => ⟨hsame.1.trans (pushApplication_sameAccess hpush),
      (pushApplication_events hpush).trans hsame.2⟩
  have hbatch := Batch.preserves hitem h
  exact hbatch ⟨.rfl, rfl⟩

end

end Sync

end HcMap
