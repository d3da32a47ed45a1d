import HcMap.Services.Events

/-!
# Merging persons

`app/services/person_merge.py`: every foreign key to the source is re-pointed
to the target. Only an admin's session gets here, and no policy hides or
refuses it a row.
-/

namespace HcMap.Services

/-- Step 1, on one link: tombstone the source's link in an event the target is
also in. -/
def dropOverlap (db : Database) (clock : Time) (sourceId targetId : Uuid) (ep : EventParticipant) :
    EventParticipant :=
  if ep.personId = sourceId ∧ db.Linked ep.eventId targetId then
    { ep with isDeleted := true, deletedAt := some clock, updatedAt := clock }
  else ep

def moveParticipant (clock : Time) (sourceId targetId : Uuid) (ep : EventParticipant) :
    EventParticipant :=
  if ep.personId = sourceId ∧ ¬ ep.isDeleted then
    { ep with personId := targetId, updatedAt := clock }
  else ep

def movePerformer (clock : Time) (sourceId targetId : Uuid) (a : Application) : Application :=
  if a.performerId = sourceId then { a with performerId := targetId, updatedAt := clock } else a

def moveRecipient (clock : Time) (sourceId targetId : Uuid) (a : Application) : Application :=
  if a.recipientId = sourceId then { a with recipientId := targetId, updatedAt := clock } else a

/-- Step 4: soft-delete the source with an audit-friendly marker. -/
def retireSource (clock : Time) (targetId : Uuid) (source : Person) : Person :=
  { source with
    name := s!"[merged → {targetId}]"
    «alias» := none
    note := none
    isDeleted := true
    deletedAt := some clock }

section
variable {db : Database} {clock : Time} {sid tid : Uuid} {a : Application} {ep : EventParticipant}

@[simp] theorem dropOverlap_id : (dropOverlap db clock sid tid ep).id = ep.id := by
  unfold dropOverlap
  split <;> rfl

@[simp] theorem dropOverlap_eventId : (dropOverlap db clock sid tid ep).eventId = ep.eventId := by
  unfold dropOverlap
  split <;> rfl

theorem dropOverlap_isDeleted (h : ep.isDeleted = true) :
    (dropOverlap db clock sid tid ep).isDeleted = true := by
  unfold dropOverlap
  split
  · rfl
  · exact h

@[simp] theorem moveParticipant_id : (moveParticipant clock sid tid ep).id = ep.id := by
  unfold moveParticipant
  split <;> rfl

@[simp] theorem moveParticipant_eventId :
    (moveParticipant clock sid tid ep).eventId = ep.eventId := by
  unfold moveParticipant
  split <;> rfl

@[simp] theorem moveParticipant_isDeleted :
    (moveParticipant clock sid tid ep).isDeleted = ep.isDeleted := by
  unfold moveParticipant
  split <;> rfl

theorem movePerformer_eq (clock : Time) (sid tid : Uuid) (a : Application) :
    ∃ t, movePerformer clock sid tid a =
      { a with
        performerId := if a.performerId = sid then tid else a.performerId
        updatedAt := t } := by
  unfold movePerformer
  split
  · exact ⟨clock, rfl⟩
  · exact ⟨a.updatedAt, rfl⟩

theorem moveRecipient_eq (clock : Time) (sid tid : Uuid) (a : Application) :
    ∃ t, moveRecipient clock sid tid a =
      { a with
        recipientId := if a.recipientId = sid then tid else a.recipientId
        updatedAt := t } := by
  unfold moveRecipient
  split
  · exact ⟨clock, rfl⟩
  · exact ⟨a.updatedAt, rfl⟩

@[simp] theorem movePerformer_id : (movePerformer clock sid tid a).id = a.id := by
  obtain ⟨_, h⟩ := movePerformer_eq clock sid tid a
  rw [h]

@[simp] theorem moveRecipient_id : (moveRecipient clock sid tid a).id = a.id := by
  obtain ⟨_, h⟩ := moveRecipient_eq clock sid tid a
  rw [h]

end

def repoint (db : Database) (clock : Time) (source : Person) (sourceId targetId : Uuid) :
    Database :=
  { db with
    participants :=
      (db.participants.map (dropOverlap db clock sourceId targetId) fun _ => dropOverlap_id).map
        (moveParticipant clock sourceId targetId) fun _ => moveParticipant_id
    applications :=
      (db.applications.map (movePerformer clock sourceId targetId) fun _ => movePerformer_id).map
        (moveRecipient clock sourceId targetId) fun _ => moveRecipient_id
    persons := db.persons.set (retireSource clock targetId source) }

def mergePersons (db : Database) (clock : Time) (sourceId targetId : Uuid) :
    Except Failure Database := do
  rejectIf (sourceId = targetId) (.merge .sameSourceAndTarget)
  let some source := db.persons.find? sourceId | throw (.merge .sourceNotFound)
  let some target := db.persons.find? targetId | throw (.merge .targetNotFound)
  rejectIf source.isDeleted (.merge .sourceDeleted)
  rejectIf target.isDeleted (.merge .targetDeleted)
  rejectIf (∃ u ∈ db.users, u.personId = sourceId ∨ u.personId = targetId)
    (.merge .linkedToUser)
  pure (repoint db clock source sourceId targetId)

-- ---------------------------------------------------------------------------
-- What a merge leaves
-- ---------------------------------------------------------------------------

section
variable {db : Database} {clock : Time} {source : Person} {sid tid : Uuid} {a : Application}
  {ep : EventParticipant}

theorem mem_participants_repoint :
    ep ∈ (repoint db clock source sid tid).participants ↔
      ∃ r ∈ db.participants,
        moveParticipant clock sid tid (dropOverlap db clock sid tid r) = ep := by
  rw [repoint, Table.map_map, Table.mem_map]

theorem mem_applications_repoint_of_mem (h : a ∈ db.applications) :
    moveRecipient clock sid tid (movePerformer clock sid tid a) ∈
      (repoint db clock source sid tid).applications := by
  rw [repoint, Table.mem_map]
  exact ⟨_, Table.mem_map.mpr ⟨a, h, rfl⟩, rfl⟩

theorem participants_repoint_stamped (h : ep ∈ (repoint db clock source sid tid).participants) :
    ep ∈ db.participants ∨ ep.updatedAt = clock := by
  obtain ⟨r, hr, rfl⟩ := mem_participants_repoint.mp h
  unfold moveParticipant
  split
  · exact .inr rfl
  · unfold dropOverlap
    split
    · exact .inr rfl
    · exact .inl hr

theorem applications_repoint_stamped (h : a ∈ (repoint db clock source sid tid).applications) :
    a ∈ db.applications ∨ a.updatedAt = clock := by
  rw [repoint, Table.mem_map] at h
  obtain ⟨a', hm, rfl⟩ := h
  obtain ⟨r, hr, rfl⟩ := Table.mem_map.mp hm
  generalize ha : movePerformer clock sid tid r = a'
  unfold moveRecipient
  split
  · exact .inr rfl
  · rw [← ha]
    unfold movePerformer
    split
    · exact .inr rfl
    · exact .inl hr

theorem mem_applications_repoint (h : a ∈ (repoint db clock source sid tid).applications) :
    ∃ r ∈ db.applications, ∃ t, a =
      { r with
        performerId := if r.performerId = sid then tid else r.performerId
        recipientId := if r.recipientId = sid then tid else r.recipientId
        updatedAt := t } := by
  rw [repoint, Table.mem_map] at h
  obtain ⟨_, hm, rfl⟩ := h
  rw [Table.mem_map] at hm
  obtain ⟨r, hr, rfl⟩ := hm
  obtain ⟨t, ht⟩ := moveRecipient_eq clock sid tid (movePerformer clock sid tid r)
  obtain ⟨t', ht'⟩ := movePerformer_eq clock sid tid r
  exact ⟨r, hr, t, by rw [ht, ht']⟩

end

end HcMap.Services
