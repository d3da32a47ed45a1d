import HcMap.Sync.Frames

/-!
# Accepted updates of an application

An update that is answered without a conflict has written its columns. Its
restraint set is written where the session may write the application; where it
may only see it, the statements for the set find no row or are refused, and the
item is accepted all the same.
-/

namespace HcMap.Sync

structure ColumnsStored (existing a : Application) (newDoc : ApplicationDoc) : Prop where
  performer : a.performerId = newDoc.performerId
  recipient : a.recipientId = newDoc.recipientId
  armPosition : a.armPositionId = newDoc.armPositionId
  handPosition : a.handPositionId = newDoc.handPositionId
  handOrientation : a.handOrientationId = newDoc.handOrientationId
  note : a.note = newDoc.note
  ended : a.endedAt = existing.endedAt.or newDoc.endedAt
  deleted : a.isDeleted = newDoc.deleted

/-- The pushed document of the row `existing` is stored, and no other
application lost or got a restraint link. -/
structure PushStored (db db' : Database) (existing : Application) (newDoc : ApplicationDoc) :
    Prop where
  columns : ∃ a, db'.applications.find? existing.id = some a ∧ ColumnsStored existing a newDoc
  restraints : ∀ rid, HasRestraint db' existing.id rid ↔ rid ∈ newDoc.restraintTypeIds
  others : ∀ r, r.applicationId ≠ existing.id → (r ∈ db'.restraints ↔ r ∈ db.restraints)

section
variable {db db' : Database} {s : Session} {clock : Time} {item : ApplicationPushItem}
  {existing : Application} {newDoc : ApplicationDoc}

theorem columnsStored_apply (existing : Application) (newDoc : ApplicationDoc) (clock u : Time) :
    ColumnsStored existing
      { applyApplicationUpdate existing newDoc clock with updatedAt := u } newDoc :=
  ⟨rfl, rfl, rfl, rfl, rfl, rfl, rfl, rfl⟩

theorem columnsStored_self (hc : ¬ ApplicationChanges existing newDoc) :
    ColumnsStored existing existing newDoc := by
  have hself := (applyApplicationUpdate_eq_self existing newDoc existing.updatedAt).mpr hc
  have hstored := columnsStored_apply existing newDoc existing.updatedAt existing.updatedAt
  rwa [hself] at hstored

/-- An accepted update is stored exactly when the session may write the row, or
asks for the restraint set the row already has. -/
theorem pushApplication_stored_iff
    (hget : db.getApplication s item.newDocumentState.id = some existing)
    (h : pushApplication s db (clock, item) = .ok (db', [])) :
    PushStored db db' existing item.newDocumentState ↔
      applicationWritable db s existing ∨
        ∀ rid, HasRestraint db existing.id rid ↔ rid ∈ item.newDocumentState.restraintTypeIds := by
  have hcases := pushApplication_cases s db clock item
  rw [h] at hcases
  cases hcases with
  | inserted t _ hi =>
    have hfree := hi.free
    rw [(Database.getApplication_eq_some.mp hget).1] at hfree
    cases hfree
  | untouched found hallow hc =>
    obtain rfl := Option.some.inj (hget.symm.trans hallow.found)
    have hids : ∀ rid ∈ item.newDocumentState.restraintTypeIds,
        (db.restraintTypes.find? rid).isSome := fun rid hrid =>
      restraintsAllowed_isSome hallow.restraints hrid
    have hcolumns : ∃ a, (syncApplicationRestraints db s existing.id
        item.newDocumentState.restraintTypeIds).applications.find? existing.id = some a ∧
        ColumnsStored existing a item.newDocumentState :=
      ⟨existing, by simpa using hallow.find, columnsStored_self hc⟩
    constructor
    · intro hstored
      by_cases hw : applicationWritable db s existing
      · exact .inl hw
      · have hsame := hstored.restraints
        rw [syncApplicationRestraints_readonly hallow.mem rfl hw] at hsame
        exact .inr hsame
    · rintro (hw | hsame)
      · exact ⟨hcolumns, fun _ => hasRestraint_syncApplicationRestraints hallow.mem rfl hw hids,
          fun _ hne => mem_syncApplicationRestraints_ne hne⟩
      · rw [syncApplicationRestraints_eq_self hallow.mem hsame]
        exact ⟨⟨existing, hallow.find, columnsStored_self hc⟩, hsame, fun _ _ => .rfl⟩
  | written found hallow hc hw =>
    obtain rfl := Option.some.inj (hget.symm.trans hallow.found)
    refine iff_of_true ?_ (.inl hw)
    have hids : ∀ rid ∈ item.newDocumentState.restraintTypeIds,
        (db.restraintTypes.find? rid).isSome := fun rid hrid =>
      restraintsAllowed_isSome hallow.restraints hrid
    let new := applyApplicationUpdate existing item.newDocumentState clock
    have hfind : (applicationWritten db clock new).applications.find? existing.id =
        some { new with updatedAt := clock } :=
      find?_applicationWritten_self db clock (Table.find?_isSome.mpr ⟨existing, hallow.mem, rfl⟩)
    refine ⟨⟨_, ?_, columnsStored_apply existing item.newDocumentState clock clock⟩, ?_, ?_⟩
    · rw [syncApplicationRestraints_applications]
      exact hfind
    · intro rid
      exact hasRestraint_syncApplicationRestraints (Table.mem_of_find? hfind) rfl hw hids
    · intro r hne
      exact (mem_syncApplicationRestraints_ne hne).trans .rfl

def guestRestraint : ApplicationPushItem where
  assumedMasterState := some (applicationToDoc sampleApplication [])
  newDocumentState := applicationToDoc sampleApplication [1]

def ownerUpdate : ApplicationPushItem where
  assumedMasterState := some (applicationToDoc sampleApplication [])
  newDocumentState := { applicationToDoc sampleApplication [1] with note := some sampleNote }

theorem pushApplication_stored_iff_sample :
    ∃ db', pushApplication sampleOwner sample (200, ownerUpdate) = .ok (db', []) ∧
      PushStored sample db' sampleApplication ownerUpdate.newDocumentState := by
  have hpush : ∃ db', pushApplication sampleOwner sample (200, ownerUpdate) = .ok (db', []) :=
    ⟨_, rfl⟩
  obtain ⟨db', hpush⟩ := hpush
  have hget : sample.getApplication sampleOwner ownerUpdate.newDocumentState.id =
      some sampleApplication := by decide +kernel
  have hiff := pushApplication_stored_iff hget hpush
  exact ⟨db', hpush, hiff.mpr (.inl (by decide +kernel))⟩

/-- The guest's push is accepted, and the set stays empty. -/
theorem push_accepted_not_stored :
    ¬ ∀ (db db' : Database) (s : Session) (clock : Time) (item : ApplicationPushItem)
      (existing : Application), db.getApplication s item.newDocumentState.id = some existing →
        pushApplication s db (clock, item) = .ok (db', []) →
          PushStored db db' existing item.newDocumentState := by
  intro h
  have hpush : pushApplication sampleGuest sample (200, guestRestraint) = .ok (sample, []) := by
    decide +kernel
  have hstored := h sample sample sampleGuest 200 guestRestraint sampleApplication
    (by decide +kernel) hpush
  exact absurd ((hstored.restraints 1).mpr (by decide)) (by decide)

end

end HcMap.Sync
