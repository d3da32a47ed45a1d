import HcMap.Sync.Client

/-!
# Conflict replies

A push answers a rejected item with the server's master. In a batch of distinct
ids that reply is what a pull delivers once the batch is done: no other item
touches the row, its restraint set, or what the session sees of it.
-/

namespace HcMap.Sync

def pulledEvents (db : Database) (s : Session) : List EventDoc :=
  (pullEvents db s none db.events.rows.length).documents

def pulledApplications (db : Database) (s : Session) : List ApplicationDoc :=
  (pullApplications db db s none db.applications.rows.length).documents

section
variable {db db' : Database} {s : Session} {clock : Time} {id : Uuid}

-- ---------------------------------------------------------------------------
-- Masters and pulls
-- ---------------------------------------------------------------------------

theorem mem_pulledEvents {d : EventDoc} :
    d ∈ pulledEvents db s ↔ ∃ e, db.getEvent s e.id = some e ∧ eventToDoc e = d := by
  have hpage : ∀ e, e ∈ Cursor.page eventPosition db.events (eventVisible db s) none
      db.events.rows.length ↔ db.getEvent s e.id = some e := fun e => by
    rw [Cursor.mem_page le_rfl, Database.getEvent_eq_some, Table.find?_eq_some]
    simp [Cursor.After]
  simp [pulledEvents, pullEvents, hpage]

theorem mem_pulledApplications {d : ApplicationDoc} :
    d ∈ pulledApplications db s ↔
      ∃ a, db.getApplication s a.id = some a ∧ applicationConflictDoc db s a = d := by
  have hpage : ∀ a, a ∈ Cursor.page applicationPosition db.applications (applicationVisible db s)
      none db.applications.rows.length ↔ db.getApplication s a.id = some a := fun a => by
    rw [Cursor.mem_page le_rfl, Database.getApplication_eq_some, Table.find?_eq_some]
    simp [Cursor.After]
  simp [pulledApplications, pullApplications, hpage, applicationConflictDoc]

theorem eventMaster_pulled (db : Database) (s : Session) (clock : Time) (id : Uuid) :
    (eventMaster db s clock id).id = id ∧
      (eventMaster db s clock id ∈ pulledEvents db s ∨
        eventMaster db s clock id = syntheticEventTombstone clock id ∧
          ∀ d ∈ pulledEvents db s, d.id ≠ id) := by
  unfold eventMaster
  cases hg : db.getEvent s id with
  | some existing =>
    have hid : existing.id = id := Table.key_of_find? (Database.getEvent_eq_some.mp hg).1
    subst hid
    exact ⟨rfl, .inl (mem_pulledEvents.mpr ⟨existing, hg, rfl⟩)⟩
  | none =>
    refine ⟨rfl, .inr ⟨rfl, fun d hd hid => ?_⟩⟩
    obtain ⟨e, he, rfl⟩ := mem_pulledEvents.mp hd
    subst hid
    exact absurd (he.symm.trans hg) (by simp)

theorem applicationMaster_pulled (db : Database) (s : Session) (clock : Time)
    (newDoc : ApplicationDoc) :
    (applicationMaster db s clock newDoc).id = newDoc.id ∧
      (applicationMaster db s clock newDoc ∈ pulledApplications db s ∨
        applicationMaster db s clock newDoc =
            syntheticApplicationTombstone clock newDoc.id newDoc.eventId ∧
          ∀ d ∈ pulledApplications db s, d.id ≠ newDoc.id) := by
  unfold applicationMaster
  cases hg : db.getApplication s newDoc.id with
  | some existing =>
    have hid : existing.id = newDoc.id :=
      Table.key_of_find? (Database.getApplication_eq_some.mp hg).1
    refine ⟨hid, .inl (mem_pulledApplications.mpr ⟨existing, ?_, rfl⟩)⟩
    rw [hid]
    exact hg
  | none =>
    refine ⟨rfl, .inr ⟨rfl, fun d hd hid => ?_⟩⟩
    obtain ⟨a, ha, rfl⟩ := mem_pulledApplications.mp hd
    have hid : a.id = newDoc.id := hid
    rw [hid] at ha
    exact absurd (ha.symm.trans hg) (by simp)

-- ---------------------------------------------------------------------------
-- Items of other ids
-- ---------------------------------------------------------------------------

theorem eventMaster_frame {item : EventPushItem} {ds : List EventDoc}
    (h : pushEvent s db (clock, item) = .ok (db', ds)) (hid : id ≠ item.newDocumentState.id)
    (clock' : Time) : eventMaster db' s clock' id = eventMaster db s clock' id := by
  obtain ⟨hfind, hlinked⟩ := pushEvent_frame h hid
  unfold eventMaster
  rw [getEvent_congr hfind (hlinked s.personId)]

theorem getApplication_congr (hacc : SameAccess s db db')
    (hfind : db'.applications.find? id = db.applications.find? id) :
    db'.getApplication s id = db.getApplication s id := by
  refine Option.ext fun a => ?_
  rw [Database.getApplication_eq_some, Database.getApplication_eq_some, hfind,
    applicationVisible_congr hacc.owners (hacc.canSee a.eventId)]

theorem loadRestraintSet_frame {a : Application} (hacc : SameAccess s db db')
    (ha : a ∈ db.applications) (ha' : a ∈ db'.applications)
    (hlinks : ∀ rid, HasRestraint db' a.id rid ↔ HasRestraint db a.id rid) :
    loadRestraintSet db' s a.id = loadRestraintSet db s a.id := by
  refine loadRestraintSet_congr fun rid => ?_
  rw [mem_loadRestraintSet_iff ha', mem_loadRestraintSet_iff ha, hacc.canSee a.eventId, hlinks rid]

theorem applicationMaster_frame {item : ApplicationPushItem} {ds : List ApplicationDoc}
    {newDoc : ApplicationDoc} (h : pushApplication s db (clock, item) = .ok (db', ds))
    (hid : newDoc.id ≠ item.newDocumentState.id) (clock' : Time) :
    applicationMaster db' s clock' newDoc = applicationMaster db s clock' newDoc := by
  obtain ⟨hfind, hlinks⟩ := pushApplication_frame h hid
  have hacc := pushApplication_sameAccess h
  unfold applicationMaster
  rw [getApplication_congr hacc hfind]
  cases hg : db.getApplication s newDoc.id with
  | none => rfl
  | some a =>
    have hfound := (Database.getApplication_eq_some.mp hg).1
    have hida : a.id = newDoc.id := Table.key_of_find? hfound
    have hload : loadRestraintSet db' s a.id = loadRestraintSet db s a.id := by
      refine loadRestraintSet_frame hacc (Table.mem_of_find? hfound)
        (Table.mem_of_find? (hfind.trans hfound)) ?_
      rwa [hida]
    simp only [applicationConflictDoc, hload]

-- ---------------------------------------------------------------------------
-- Batches
-- ---------------------------------------------------------------------------

def DistinctIds {δ : Type} (id : δ → Uuid) (items : List (Time × PushItem δ)) : Prop :=
  items.Pairwise fun item other => id item.2.newDocumentState ≠ id other.2.newDocumentState

instance {δ : Type} (id : δ → Uuid) (items : List (Time × PushItem δ)) :
    Decidable (DistinctIds id items) := by
  unfold DistinctIds
  infer_instance

theorem pushEvents_master {items : List (Time × EventPushItem)} {ds : List EventDoc}
    (hids : DistinctIds EventDoc.id items) (h : pushEvents s db items = .ok (db', ds)) :
    ∀ d ∈ ds, ∃ item ∈ items, d = eventMaster db' s item.1 item.2.newDocumentState.id :=
  Batch.replies
    (fun (item : Time × EventPushItem) d db =>
      d = eventMaster db s item.1 item.2.newDocumentState.id)
    (fun item other => item.2.newDocumentState.id ≠ other.2.newDocumentState.id)
    (fun _ _ _ _ hitem d hd => by
      obtain ⟨rfl, hd⟩ := pushEvent_reply hitem hd
      exact hd)
    (fun _ item _ _ _ _ hne hd hother => hd.trans (eventMaster_frame hother hne item.1).symm)
    hids h

theorem pushApplications_master {items : List (Time × ApplicationPushItem)}
    {ds : List ApplicationDoc} (hids : DistinctIds ApplicationDoc.id items)
    (h : pushApplications s db items = .ok (db', ds)) :
    ∀ d ∈ ds, ∃ item ∈ items, d = applicationMaster db' s item.1 item.2.newDocumentState :=
  Batch.replies
    (fun (item : Time × ApplicationPushItem) d db =>
      d = applicationMaster db s item.1 item.2.newDocumentState)
    (fun item other => item.2.newDocumentState.id ≠ other.2.newDocumentState.id)
    (fun _ _ _ _ hitem d hd => by
      obtain ⟨rfl, hd⟩ := pushApplication_reply hitem hd
      exact hd)
    (fun _ item _ _ _ _ hne hd hother =>
      hd.trans (applicationMaster_frame hother hne item.1).symm)
    hids h

/-- Every reply of a batch of distinct ids is for one of these ids: the
document a pull delivers of it after the batch, or a tombstone for a row that
no pull of this session delivers. -/
theorem push_replies (s : Session) (db : Database) :
    (∀ items db' ds, DistinctIds EventDoc.id items → pushEvents s db items = .ok (db', ds) →
      ∀ d ∈ ds, ∃ item ∈ items, d.id = item.2.newDocumentState.id ∧
        (d ∈ pulledEvents db' s ∨
          d = syntheticEventTombstone item.1 d.id ∧ ∀ d' ∈ pulledEvents db' s, d'.id ≠ d.id)) ∧
    (∀ items db' ds, DistinctIds ApplicationDoc.id items →
      pushApplications s db items = .ok (db', ds) →
      ∀ d ∈ ds, ∃ item ∈ items, d.id = item.2.newDocumentState.id ∧
        (d ∈ pulledApplications db' s ∨
          d = syntheticApplicationTombstone item.1 d.id item.2.newDocumentState.eventId ∧
            ∀ d' ∈ pulledApplications db' s, d'.id ≠ d.id)) := by
  constructor
  · intro items db' ds hids h d hd
    obtain ⟨item, hitem, rfl⟩ := pushEvents_master hids h d hd
    obtain ⟨hid, hpulled⟩ := eventMaster_pulled db' s item.1 item.2.newDocumentState.id
    exact ⟨item, hitem, hid, by rwa [hid]⟩
  · intro items db' ds hids h d hd
    obtain ⟨item, hitem, rfl⟩ := pushApplications_master hids h d hd
    obtain ⟨hid, hpulled⟩ := applicationMaster_pulled db' s item.1 item.2.newDocumentState
    exact ⟨item, hitem, hid, by rwa [hid]⟩

def sampleRejected : List (Time × ApplicationPushItem) :=
  [(200, ⟨none, applicationToDoc sampleApplication []⟩),
    (210, ⟨some (applicationToDoc sampleApplication []),
      applicationToDoc { sampleApplication with id := 9 } []⟩)]

theorem push_replies_sample :
    ∃ db' ds, pushApplications sampleOwner sample sampleRejected = .ok (db', ds) ∧
      ds.length = 2 ∧ ∀ d ∈ ds, ∃ item ∈ sampleRejected, d.id = item.2.newDocumentState.id ∧
        (d ∈ pulledApplications db' sampleOwner ∨
          d = syntheticApplicationTombstone item.1 d.id item.2.newDocumentState.eventId ∧
            ∀ d' ∈ pulledApplications db' sampleOwner, d'.id ≠ d.id) := by
  have hpush : pushApplications sampleOwner sample sampleRejected =
      .ok (sample, [applicationToDoc sampleApplication [],
        syntheticApplicationTombstone 210 9 1]) := by decide +kernel
  exact ⟨_, _, hpush, rfl, (push_replies sampleOwner sample).2 sampleRejected _ _
    (by decide +kernel) hpush⟩

end

end HcMap.Sync
