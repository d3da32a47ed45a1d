import HcMap.Sync.ApplicationLaws
import HcMap.Sync.EventLaws
import HcMap.Sync.Forms
import HcMap.Sync.RestraintLaws

/-!
# Migrated documents

The `migrationStrategies` of `database.ts`, and a push of a document that went
through them. What a strategy makes up for a field that the server keeps as
last write wins is written there by the next push that is accepted.
-/

namespace HcMap.Sync

-- ---------------------------------------------------------------------------
-- Applications
-- ---------------------------------------------------------------------------

structure ApplicationDocV0 where
  id : Uuid
  eventId : Uuid
  performerId : Uuid
  recipientId : Uuid
  armPositionId : Option Uuid
  handPositionId : Option Uuid
  handOrientationId : Option Uuid
  sequenceNo : Nat
  startedAt : Option Time
  endedAt : Option Time
  note : Option Text
  createdBy : Option Uuid
  createdAt : Time
  updatedAt : Time
  deletedAt : Option Time
  deleted : Bool
  deriving DecidableEq

def migrateApplication1 (doc : ApplicationDocV0) : ApplicationDoc where
  id := doc.id
  eventId := doc.eventId
  performerId := doc.performerId
  recipientId := doc.recipientId
  armPositionId := doc.armPositionId
  handPositionId := doc.handPositionId
  handOrientationId := doc.handOrientationId
  sequenceNo := doc.sequenceNo
  startedAt := doc.startedAt
  endedAt := doc.endedAt
  note := doc.note
  createdBy := doc.createdBy
  createdAt := doc.createdAt
  updatedAt := doc.updatedAt
  deletedAt := doc.deletedAt
  deleted := doc.deleted
  restraintTypeIds := []

-- ---------------------------------------------------------------------------
-- Events
-- ---------------------------------------------------------------------------

structure EventDocBase where
  id : Uuid
  startedAt : Time
  endedAt : Option Time
  lat : Degrees 90
  lon : Degrees 180
  revealParticipants : Bool
  note : Option Text
  createdBy : Option Uuid
  createdAt : Time
  updatedAt : Time
  deletedAt : Option Time
  deleted : Bool
  deriving DecidableEq

/-- A missing `w3w_legacy` and a null are one to the strategy. -/
structure EventDocV0 extends EventDocBase where
  w3wLegacy : Option Text
  deriving DecidableEq

structure EventDocV1 extends EventDocBase where
  legacyExternalRef : Option Text
  deriving DecidableEq

structure EventDocV2 extends EventDocV1 where
  title : Option Text
  deriving DecidableEq

def migrateEvent1 (doc : EventDocV0) : EventDocV1 :=
  { doc with legacyExternalRef := doc.w3wLegacy }

def migrateEvent2 (doc : EventDocV1) : EventDocV2 := { doc with title := none }

def migrateEvent3 (doc : EventDocV2) : EventDoc where
  id := doc.id
  startedAt := doc.startedAt
  endedAt := doc.endedAt
  lat := doc.lat
  lon := doc.lon
  legacyExternalRef := doc.legacyExternalRef
  revealParticipants := doc.revealParticipants
  title := doc.title
  note := doc.note
  timePrecision := .minute
  createdBy := doc.createdBy
  createdAt := doc.createdAt
  updatedAt := doc.updatedAt
  deletedAt := doc.deletedAt
  deleted := doc.deleted

inductive StoredEvent
  | v0 (doc : EventDocV0)
  | v1 (doc : EventDocV1)
  | v2 (doc : EventDocV2)
  | v3 (doc : EventDoc)

def StoredEvent.migrate : StoredEvent → EventDoc
  | .v0 doc => migrateEvent3 (migrateEvent2 (migrateEvent1 doc))
  | .v1 doc => migrateEvent3 (migrateEvent2 doc)
  | .v2 doc => migrateEvent3 doc
  | .v3 doc => doc

/-- The row has what the document has, as far as its version has the three
fields, and the defaults of those it has not. -/
def StoredEvent.Agrees (row : Event) : StoredEvent → Prop
  | .v0 doc => row.title = none ∧ row.timePrecision = .minute ∧
      row.legacyExternalRef = doc.w3wLegacy
  | .v1 doc => row.title = none ∧ row.timePrecision = .minute ∧
      row.legacyExternalRef = doc.legacyExternalRef
  | .v2 doc => row.title = doc.title ∧ row.timePrecision = .minute ∧
      row.legacyExternalRef = doc.legacyExternalRef
  | .v3 doc => row.title = doc.title ∧ row.timePrecision = doc.timePrecision ∧
      row.legacyExternalRef = doc.legacyExternalRef

structure Unrelated (doc edited : EventDoc) : Prop where
  id : edited.id = doc.id
  title : edited.title = doc.title
  timePrecision : edited.timePrecision = doc.timePrecision
  legacyExternalRef : edited.legacyExternalRef = doc.legacyExternalRef

/-- The edit form can only change two of them. -/
theorem EventPatch.unrelated {patch : EventPatch} (doc : EventDoc) (now : Time)
    (htitle : patch.title = none) (hlegacy : patch.legacyExternalRef = none) :
    Unrelated doc (patch.apply doc now) :=
  ⟨rfl, by simp [EventPatch.apply, htitle], rfl, by simp [EventPatch.apply, hlegacy]⟩

-- ---------------------------------------------------------------------------
-- A push
-- ---------------------------------------------------------------------------

def landed {δ : Type} (db : Database) : Except DbError (Database × List δ) → Database
  | .ok (db', _) => db'
  | .error _ => db

def KeepsFields (db db' : Database) (id : Uuid) : Prop :=
  ∀ row ∈ db.events, row.id = id → ∃ row' ∈ db'.events, row'.id = id ∧ row'.title = row.title ∧
    row'.timePrecision = row.timePrecision ∧ row'.legacyExternalRef = row.legacyExternalRef

section
variable {db : Database} {s : Session} {clock now : Time}

theorem landed_single {α δ : Type} (push : Database → α → Except DbError (Database × List δ))
    (item : α) : landed db (Batch.process push db [item]) = landed db (push db item) := by
  simp only [Batch.process]
  cases push db item <;> rfl

-- ---------------------------------------------------------------------------
-- The restraint set of an application
-- ---------------------------------------------------------------------------

/-- The push of a note written into a migrated document. -/
def noteEdit (doc : ApplicationDocV0) (assumed : Option ApplicationDoc) (note : Option Text)
    (now : Time) : ApplicationPushItem where
  assumedMasterState := assumed
  newDocumentState :=
    ({ note := some note } : ApplicationPatch).apply (migrateApplication1 doc) now

structure TakesApplication (db : Database) (s : Session) (item : ApplicationPushItem)
    (row : Application) : Prop where
  allowed : ApplicationUpdateAllowed s db item row
  writable : applicationWritable db s row
  persons : PersonsKnown db row item.newDocumentState

theorem personsKnown_of_unchanged {row : Application} {newDoc : ApplicationDoc}
    (h : ¬ ApplicationChanges row newDoc) : PersonsKnown db row newDoc := by
  simp only [ApplicationChanges, ne_eq, not_or, not_not] at h
  exact ⟨.inl h.2.1, .inl h.2.2.1⟩

/-- Every session that may write the application takes its whole set away with
an empty one. -/
theorem syncApplicationRestraints_nil {a : Application} (ha : a ∈ db.applications)
    (hw : applicationWritable db s a) (rid : Uuid) :
    ¬ HasRestraint (syncApplicationRestraints db s a.id []) a.id rid := by
  rw [hasRestraint_syncApplicationRestraints ha rfl hw (by simp)]
  exact List.not_mem_nil

theorem noteEdit_keeps_iff (doc : ApplicationDocV0) (assumed : Option ApplicationDoc)
    (note : Option Text) {row : Application} (hrow : db.applications.find? doc.id = some row) :
    (∀ rid, HasRestraint (landed db
        (pushApplications s db [(clock, noteEdit doc assumed note now)])) doc.id rid ↔
          HasRestraint db doc.id rid) ↔
      (∀ rid, ¬ HasRestraint db doc.id rid) ∨
        ¬ TakesApplication db s (noteEdit doc assumed note now) row := by
  have hid : row.id = doc.id := Table.key_of_find? hrow
  have hmem := Table.mem_of_find? hrow
  rw [pushApplications, landed_single]
  -- an emptied set is kept only if it was empty
  have hemptied : ∀ db', (∀ rid, ¬ HasRestraint db' doc.id rid) →
      TakesApplication db s (noteEdit doc assumed note now) row →
        ((∀ rid, HasRestraint db' doc.id rid ↔ HasRestraint db doc.id rid) ↔
          (∀ rid, ¬ HasRestraint db doc.id rid) ∨
            ¬ TakesApplication db s (noteEdit doc assumed note now) row) := by
    intro db' hempty htakes
    rw [or_iff_left (not_not.mpr htakes)]
    exact forall_congr' fun rid => by simp [hempty rid]
  have hout := pushApplication_cases s db clock (noteEdit doc assumed note now)
  generalize pushApplication s db (clock, noteEdit doc assumed note now) = result at hout
  cases hout with
  | reported d hd hno => exact iff_of_true (fun rid => .rfl) (.inr fun h => hno row h.allowed)
  | inserted t hitem h =>
    have hfree : db.applications.find? doc.id = none := h.free
    rw [hrow] at hfree
    cases hfree
  | untouched existing h hc =>
    obtain rfl : existing = row := Option.some.inj (h.find_doc.symm.trans hrow)
    by_cases hw : applicationWritable db s existing
    · refine hemptied _ (fun rid => ?_) ⟨h, hw, personsKnown_of_unchanged hc⟩
      rw [← hid]
      exact syncApplicationRestraints_nil hmem hw rid
    · refine iff_of_true (fun rid => ?_) (.inr fun h => hw h.writable)
      show HasRestraint (syncApplicationRestraints db s existing.id []) doc.id rid ↔ _
      rw [syncApplicationRestraints_readonly hmem rfl hw]
  | written existing h hc hw hp =>
    obtain rfl : existing = row := Option.some.inj (h.find_doc.symm.trans hrow)
    refine hemptied _ (fun rid => ?_) ⟨h, hw, hp⟩
    rw [← hid]
    have hexists : (db.applications.find?
        (applyApplicationUpdate existing (noteEdit doc assumed note now).newDocumentState
          clock).id).isSome := Table.find?_isSome.mpr ⟨existing, hmem, rfl⟩
    have hwritten := Table.mem_of_find? (find?_applicationWritten_self db clock hexists)
    exact syncApplicationRestraints_nil hwritten hw rid
  | raised existing e h hc hw =>
    obtain rfl : existing = row := Option.some.inj (h.find_doc.symm.trans hrow)
    exact iff_of_true (fun rid => .rfl) (.inr fun h => hw ⟨h.writable, h.persons⟩)

-- ---------------------------------------------------------------------------
-- The fields of an event
-- ---------------------------------------------------------------------------

structure TakesEvent (db : Database) (s : Session) (item : EventPushItem) (row : Event) : Prop where
  allowed : EventUpdateAllowed s db item row
  writable : eventWritable s row

theorem StoredEvent.agrees_iff {doc : StoredEvent} {row : Event} :
    doc.Agrees row ↔ row.title = doc.migrate.title ∧
      row.timePrecision = doc.migrate.timePrecision ∧
        row.legacyExternalRef = doc.migrate.legacyExternalRef := by
  cases doc <;> rfl

theorem keepsFields_self (id : Uuid) : KeepsFields db db id :=
  fun row hrow hid => ⟨row, hrow, hid, rfl, rfl, rfl⟩

theorem unrelatedEdit_keeps_iff (doc : StoredEvent) (assumed : Option EventDoc)
    {edited : EventDoc} (hedit : Unrelated doc.migrate edited) {row : Event}
    (hrow : db.events.find? doc.migrate.id = some row) :
    KeepsFields db (landed db (pushEvents s db [(clock, ⟨assumed, edited⟩)])) doc.migrate.id ↔
      doc.Agrees row ∨ ¬ TakesEvent db s ⟨assumed, edited⟩ row := by
  have hid : row.id = doc.migrate.id := Table.key_of_find? hrow
  have hmem := Table.mem_of_find? hrow
  rw [pushEvents, landed_single, StoredEvent.agrees_iff, ← hedit.title, ← hedit.timePrecision,
    ← hedit.legacyExternalRef]
  have hout := pushEvent_cases s db clock ⟨assumed, edited⟩
  generalize pushEvent s db (clock, ⟨assumed, edited⟩) = result at hout
  have hsame : ∀ {existing}, EventUpdateAllowed s db ⟨assumed, edited⟩ existing →
      existing = row := by
    intro existing h
    have hfind := (Database.getEvent_eq_some.mp h.found).1
    rw [hedit.id, hrow] at hfind
    exact (Option.some.inj hfind).symm
  cases hout with
  | reported d hd hno => exact iff_of_true (keepsFields_self _) (.inr fun h => hno row h.allowed)
  | inserted t hitem hw ht =>
    have hfree : db.events.find? edited.id = none := (Table.insert?_eq_some.mp ht).1
    rw [hedit.id, hrow] at hfree
    cases hfree
  | untouched existing h hc =>
    obtain rfl := hsame h
    refine iff_of_true (keepsFields_self _) (.inl ?_)
    simp only [EventChanges, ne_eq, not_or, not_not] at hc
    exact ⟨hc.2.1.symm, hc.2.2.2.1.symm, hc.2.2.2.2.2.1.symm⟩
  | written existing h hc hw =>
    obtain rfl := hsame h
    rw [or_iff_left (not_not.mpr ⟨h, hw⟩)]
    constructor
    · intro hkeeps
      obtain ⟨row', hrow', hid', htitle, hprecision, hlegacy⟩ := hkeeps existing hmem hid
      rcases Services.mem_events_eventWritten hrow' with rfl | ⟨-, hne⟩
      · exact ⟨htitle.symm, hprecision.symm, hlegacy.symm⟩
      · exact absurd (hid'.trans hid.symm) hne
    · rintro ⟨htitle, hprecision, hlegacy⟩ other hother hotherId
      obtain rfl := Table.eq_of_key hother hmem (hotherId.trans hid.symm)
      have hexists : (db.events.find? (applyEventUpdate other edited clock).id).isSome :=
        Table.find?_isSome.mpr ⟨other, hother, rfl⟩
      have hfind := Services.find?_events_eventWritten_self clock other hexists
      exact ⟨_, Table.mem_of_find? hfind, hid, htitle.symm, hprecision.symm, hlegacy.symm⟩
  | raised existing h hc hw =>
    obtain rfl := hsame h
    exact iff_of_true (keepsFields_self _) (.inr fun h => hw h.writable)

/-- A push after the migrations leaves what the server has exactly when what
the strategies made up is what the server has, or the server does not take it. -/
theorem migrated_keeps_iff :
    (∀ (doc : ApplicationDocV0) (assumed : Option ApplicationDoc) (note : Option Text)
        (now : Time) (row : Application), db.applications.find? doc.id = some row →
      ((∀ rid, HasRestraint (landed db
          (pushApplications s db [(clock, noteEdit doc assumed note now)])) doc.id rid ↔
            HasRestraint db doc.id rid) ↔
        (∀ rid, ¬ HasRestraint db doc.id rid) ∨
          ¬ TakesApplication db s (noteEdit doc assumed note now) row)) ∧
    ∀ (doc : StoredEvent) (assumed : Option EventDoc) (edited : EventDoc) (row : Event),
      Unrelated doc.migrate edited → db.events.find? doc.migrate.id = some row →
        (KeepsFields db (landed db (pushEvents s db [(clock, ⟨assumed, edited⟩)]))
            doc.migrate.id ↔
          doc.Agrees row ∨ ¬ TakesEvent db s ⟨assumed, edited⟩ row) :=
  ⟨fun doc assumed note _ _ hrow => noteEdit_keeps_iff doc assumed note hrow,
    fun doc assumed _ _ hedit hrow => unrelatedEdit_keeps_iff doc assumed hedit hrow⟩

end

-- ---------------------------------------------------------------------------
-- A note on an old application
-- ---------------------------------------------------------------------------

def sampleApplicationV0 : ApplicationDocV0 where
  id := 1
  eventId := 1
  performerId := 2
  recipientId := 3
  armPositionId := none
  handPositionId := none
  handOrientationId := none
  sequenceNo := 1
  startedAt := some 20
  endedAt := none
  note := none
  createdBy := some 2
  createdAt := 20
  updatedAt := 20
  deletedAt := none
  deleted := false

def sampleEventV1 : EventDocV1 where
  id := 1
  startedAt := 10
  endedAt := none
  lat := sampleEvent.lat.toFloat
  lon := sampleEvent.lon.toFloat
  revealParticipants := false
  note := none
  createdBy := some 2
  createdAt := 10
  updatedAt := 10
  deletedAt := none
  deleted := false
  legacyExternalRef := none

def sampleEventNoted : EventDoc :=
  ({ note := some (some sampleNote) } : EventPatch).apply (StoredEvent.v1 sampleEventV1).migrate 90

def sampleRestrained : Database := { sample with restraints := ⟨[⟨1, 1, 20⟩], by decide⟩ }

def sampleNoteEdit : ApplicationPushItem :=
  noteEdit sampleApplicationV0 (some (migrateApplication1 sampleApplicationV0)) (some sampleNote) 90

theorem migrated_keeps_iff_sample :
    (∀ rid, HasRestraint (landed sample (pushApplications sampleOwner sample
        [(101, sampleNoteEdit)])) 1 rid ↔ HasRestraint sample 1 rid) ∧
      KeepsFields sample (landed sample (pushEvents sampleOwner sample
        [(101, ⟨some (StoredEvent.v1 sampleEventV1).migrate, sampleEventNoted⟩)])) 1 := by
  have hnone : ∀ rid, ¬ HasRestraint sample 1 rid := by
    rintro rid ⟨r, hr, -⟩
    exact List.not_mem_nil hr
  have hfound : sample.events.find? 1 = some sampleEvent := by decide
  exact ⟨(migrated_keeps_iff.1 sampleApplicationV0 _ _ _ sampleApplication (by decide)).mpr
      (.inl hnone),
    (migrated_keeps_iff.2 (.v1 sampleEventV1) _ sampleEventNoted sampleEvent
      (EventPatch.unrelated _ 90 rfl rfl) hfound).mpr (.inl ⟨rfl, rfl, rfl⟩)⟩

theorem noteEdit_drops_restraint :
    sampleRestrained.applications.find? sampleApplicationV0.id = some sampleApplication ∧
      ¬ ∀ rid, HasRestraint (landed sampleRestrained (pushApplications sampleOwner sampleRestrained
        [(101, sampleNoteEdit)])) sampleApplicationV0.id rid ↔
          HasRestraint sampleRestrained sampleApplicationV0.id rid :=
  ⟨by decide, fun h => absurd ((h 1).mpr (by decide)) (by decide)⟩

end HcMap.Sync
