import HcMap.Services.Events

/-!
# What writing an event does

An event row is written by one `UPDATE`, which may set off the soft-delete
cascade of the schema and the auto-stop of the service. Both run under the
session's policies; `written_eq` shows that a session that may write the event
reaches all its children, so the outcome is `eventWritten`, in which no policy
is left.
-/

namespace HcMap.Services

-- ---------------------------------------------------------------------------
-- The outcome
-- ---------------------------------------------------------------------------

def Deletes (old new : Event) : Prop := new.isDeleted ∧ ¬ old.isDeleted

instance (old new : Event) : Decidable (Deletes old new) := by unfold Deletes; infer_instance

def cascadeAfter (clock : Time) (old new : Event) (a : Application) : Application :=
  if a.eventId = new.id ∧ ¬ a.isDeleted ∧ Deletes old new then
    { a with isDeleted := true, deletedAt := some (new.deletedAt.getD clock), updatedAt := clock }
  else a

def stopAfter (clock : Time) (old new : Event) (a : Application) : Application :=
  if a.eventId = new.id ∧ ¬ a.isDeleted ∧ old.endedAt = none ∧ new.endedAt ≠ none ∧
      a.endedAt = none then
    { a with endedAt := new.endedAt, updatedAt := clock }
  else a

/-- A child application after its event went from `old` to `new`. The cascade
comes first, so an event that is deleted and ended at once stops nothing. -/
def childAfter (clock : Time) (old new : Event) (a : Application) : Application :=
  stopAfter clock old new (cascadeAfter clock old new a)

def linkAfter (clock : Time) (old new : Event) (ep : EventParticipant) : EventParticipant :=
  if ep.eventId = new.id ∧ ¬ ep.isDeleted ∧ Deletes old new then
    { ep with isDeleted := true, deletedAt := some (new.deletedAt.getD clock), updatedAt := clock }
  else ep

section
variable {clock : Time} {old new : Event} {a : Application} {ep : EventParticipant}

theorem cascadeAfter_eq (clock : Time) (old new : Event) (a : Application) :
    ∃ del del' upd, cascadeAfter clock old new a =
      { a with isDeleted := del, deletedAt := del', updatedAt := upd } := by
  unfold cascadeAfter
  split
  · exact ⟨_, _, _, rfl⟩
  · exact ⟨_, _, _, rfl⟩

theorem stopAfter_eq (clock : Time) (old new : Event) (a : Application) :
    ∃ ended upd, stopAfter clock old new a =
      { a with endedAt := ended, updatedAt := upd } := by
  unfold stopAfter
  split
  · exact ⟨_, _, rfl⟩
  · exact ⟨_, _, rfl⟩

@[simp] theorem cascadeAfter_id : (cascadeAfter clock old new a).id = a.id := by
  obtain ⟨_, _, _, h⟩ := cascadeAfter_eq clock old new a
  rw [h]

@[simp] theorem stopAfter_id : (stopAfter clock old new a).id = a.id := by
  obtain ⟨_, _, h⟩ := stopAfter_eq clock old new a
  rw [h]

@[simp] theorem stopAfter_isDeleted : (stopAfter clock old new a).isDeleted = a.isDeleted := by
  obtain ⟨_, _, h⟩ := stopAfter_eq clock old new a
  rw [h]

theorem stopAfter_stops (hid : a.eventId = new.id) (hlive : a.isDeleted = false)
    (hold : old.endedAt = none) (hnew : new.endedAt ≠ none) :
    (stopAfter clock old new a).endedAt ≠ none := by
  unfold stopAfter
  split
  · exact hnew
  · rename_i h
    intro hrun
    exact h ⟨hid, by simp [hlive], hold, hnew, hrun⟩

theorem stopAfter_endedAt (h : a.endedAt ≠ none) : (stopAfter clock old new a).endedAt ≠ none := by
  unfold stopAfter
  split
  · rename_i hs
    exact hs.2.2.2.1
  · exact h

theorem cascadeAfter_of_live (h : ¬ Deletes old new) : cascadeAfter clock old new a = a := by
  simp [cascadeAfter, h]

theorem childAfter_eq (clock : Time) (old new : Event) (a : Application) :
    ∃ ended del del' upd, childAfter clock old new a =
      { a with endedAt := ended, isDeleted := del, deletedAt := del', updatedAt := upd } := by
  obtain ⟨del, del', upd, hc⟩ := cascadeAfter_eq clock old new a
  obtain ⟨ended, upd', hs⟩ := stopAfter_eq clock old new (cascadeAfter clock old new a)
  exact ⟨ended, del, del', upd', by rw [childAfter, hs, hc]⟩

@[simp] theorem childAfter_id : (childAfter clock old new a).id = a.id := by
  obtain ⟨_, _, _, _, h⟩ := childAfter_eq clock old new a
  rw [h]

@[simp] theorem childAfter_eventId : (childAfter clock old new a).eventId = a.eventId := by
  obtain ⟨_, _, _, _, h⟩ := childAfter_eq clock old new a
  rw [h]

@[simp] theorem childAfter_performerId :
    (childAfter clock old new a).performerId = a.performerId := by
  obtain ⟨_, _, _, _, h⟩ := childAfter_eq clock old new a
  rw [h]

@[simp] theorem childAfter_recipientId :
    (childAfter clock old new a).recipientId = a.recipientId := by
  obtain ⟨_, _, _, _, h⟩ := childAfter_eq clock old new a
  rw [h]

@[simp] theorem childAfter_createdBy : (childAfter clock old new a).createdBy = a.createdBy := by
  obtain ⟨_, _, _, _, h⟩ := childAfter_eq clock old new a
  rw [h]

theorem childAfter_of_ne (h : a.eventId ≠ new.id) : childAfter clock old new a = a := by
  simp [childAfter, stopAfter, cascadeAfter, h]

theorem childAfter_isDeleted (h : a.isDeleted = true) :
    (childAfter clock old new a).isDeleted = true := by
  rw [childAfter, stopAfter_isDeleted]
  unfold cascadeAfter
  split
  · rfl
  · exact h

theorem childAfter_deletes (hd : Deletes old new) (hid : a.eventId = new.id) :
    (childAfter clock old new a).isDeleted = true := by
  rw [childAfter, stopAfter_isDeleted]
  cases ha : a.isDeleted <;> simp [cascadeAfter, hd, hid, ha]

@[simp] theorem childAfter_self (h : new = old) : childAfter clock old new a = a := by
  subst h
  have hd : ¬ Deletes new new := fun h => h.2 h.1
  have he : ¬ (new.endedAt = none ∧ new.endedAt ≠ none ∧ a.endedAt = none) := fun h => h.2.1 h.1
  simp [childAfter, stopAfter, cascadeAfter, hd, he]

@[simp] theorem linkAfter_id : (linkAfter clock old new ep).id = ep.id := by
  unfold linkAfter
  split <;> rfl

@[simp] theorem linkAfter_eventId : (linkAfter clock old new ep).eventId = ep.eventId := by
  unfold linkAfter
  split <;> rfl

@[simp] theorem linkAfter_personId : (linkAfter clock old new ep).personId = ep.personId := by
  unfold linkAfter
  split <;> rfl

theorem linkAfter_of_ne (h : ep.eventId ≠ new.id) : linkAfter clock old new ep = ep := by
  simp [linkAfter, h]

theorem linkAfter_isDeleted (h : ep.isDeleted = true) :
    (linkAfter clock old new ep).isDeleted = true := by
  unfold linkAfter
  split
  · rfl
  · exact h

theorem linkAfter_deletes (hd : Deletes old new) (hid : ep.eventId = new.id) :
    (linkAfter clock old new ep).isDeleted = true := by
  cases he : ep.isDeleted <;> simp [linkAfter, hd, hid, he]

theorem linkAfter_of_live (h : ¬ Deletes old new) : linkAfter clock old new ep = ep := by
  simp [linkAfter, h]

theorem childAfter_stamped :
    childAfter clock old new a = a ∨ (childAfter clock old new a).updatedAt = clock := by
  unfold childAfter
  generalize hc : cascadeAfter clock old new a = a'
  unfold stopAfter
  split
  · exact .inr rfl
  · rw [← hc]
    unfold cascadeAfter
    split
    · exact .inr rfl
    · exact .inl rfl

theorem linkAfter_stamped :
    linkAfter clock old new ep = ep ∨ (linkAfter clock old new ep).updatedAt = clock := by
  unfold linkAfter
  split
  · exact .inr rfl
  · exact .inl rfl

end

def eventWritten (db : Database) (clock : Time) (old new : Event) : Database :=
  { db with
    events := db.events.set { new with updatedAt := clock }
    applications := db.applications.map (childAfter clock old new) fun _ => childAfter_id
    participants := db.participants.map (linkAfter clock old new) fun _ => linkAfter_id }

section
variable {db : Database} {clock : Time} {old new e : Event} {a : Application}
  {ep : EventParticipant} {id : Uuid}

theorem mem_events_eventWritten (h : e ∈ (eventWritten db clock old new).events) :
    e = { new with updatedAt := clock } ∨ e ∈ db.events ∧ e.id ≠ new.id := Table.mem_set h

theorem mem_participants_eventWritten :
    ep ∈ (eventWritten db clock old new).participants ↔
      ∃ r ∈ db.participants, linkAfter clock old new r = ep := by
  rw [eventWritten, Table.mem_map]

theorem mem_applications_eventWritten :
    a ∈ (eventWritten db clock old new).applications ↔
      ∃ r ∈ db.applications, childAfter clock old new r = a := by
  rw [eventWritten, Table.mem_map]

theorem find?_applications_eventWritten :
    (eventWritten db clock old new).applications.find? id =
      (db.applications.find? id).map (childAfter clock old new) := by
  rw [eventWritten, Table.find?_map]

theorem find?_events_eventWritten_ne (h : new.id ≠ id) :
    (eventWritten db clock old new).events.find? id = db.events.find? id :=
  Table.find?_set_ne h

theorem find?_events_eventWritten_self (clock : Time) (old : Event)
    (h : (db.events.find? new.id).isSome) :
    (eventWritten db clock old new).events.find? new.id = some { new with updatedAt := clock } := by
  have h' : (db.events.find? (key { new with updatedAt := clock })).isSome := h
  exact Table.find?_set_self h'

end

-- ---------------------------------------------------------------------------
-- The statements reach it
-- ---------------------------------------------------------------------------

section
variable {db : Database} {s : Session} {clock : Time} {old new : Event}

/-- With write access to the event, the trigger misses no live child. -/
theorem cascade_eq (h : childWritable db s new.id) :
    db.cascadeEventSoftDelete s clock old new =
      { db with
        applications := db.applications.map (cascadeAfter clock old new) fun _ => cascadeAfter_id
        participants := db.participants.map (linkAfter clock old new) fun _ => linkAfter_id } := by
  unfold Database.cascadeEventSoftDelete
  split
  · rename_i hd
    congr 1
    · refine Table.map_congr fun ep _ => ?_
      by_cases hid : ep.eventId = new.id
      · have : participantWritable db s ep := by simpa [participantWritable, hid] using h
        simp [linkAfter, Deletes, hd, this]
      · simp [linkAfter, hid]
    · refine Table.map_congr fun a _ => ?_
      by_cases hid : a.eventId = new.id
      · have : applicationWritable db s a := by simpa [applicationWritable, hid] using h
        simp [cascadeAfter, Deletes, hd, this]
      · simp [cascadeAfter, hid]
  · rename_i hd
    have hd' : ¬ Deletes old new := hd
    rw [Table.map_eq_self fun a _ => cascadeAfter_of_live hd',
      Table.map_eq_self fun ep _ => linkAfter_of_live hd']

theorem autoStop_eq (h : childWritable db s new.id) :
    autoStopOnEnd db s clock old new =
      { db with
        applications := db.applications.map (stopAfter clock old new) fun _ => stopAfter_id } := by
  unfold autoStopOnEnd
  split
  · rename_i endedAt ho hn
    unfold autoStopOpenApplications
    congr 1
    refine Table.map_congr fun a _ => ?_
    by_cases hid : a.eventId = new.id
    · have : applicationWritable db s a := by simpa [applicationWritable, hid] using h
      simp [stopAfter, ho, hn, this, and_comm]
    · simp [stopAfter, hid]
  · rename_i hne
    rw [Table.map_eq_self fun a _ => ?_]
    unfold stopAfter
    split
    · rename_i hs
      obtain ⟨t, ht⟩ := Option.ne_none_iff_exists'.mp hs.2.2.2.1
      exact absurd ht (hne t hs.2.2.1)
    · rfl

theorem childWritable_set (clock : Time) (hold : db.events.find? old.id = some old)
    (hid : new.id = old.id) (hc : new.createdBy = old.createdBy) (hw : eventWritable s old) :
    childWritable { db with events := db.events.set { new with updatedAt := clock } } s new.id := by
  rcases hw with hr | ⟨hr, ho⟩
  · exact .inl hr
  · refine .inr ⟨hr, { new with updatedAt := clock }, ?_, rfl, hc.trans ho⟩
    exact Table.mem_set_self (Table.mem_of_find? hold) hid.symm

theorem written_eq (hold : db.events.find? old.id = some old) (hid : new.id = old.id)
    (hc : new.createdBy = old.createdBy) (hw : eventWritable s old) :
    autoStopOnEnd
      (Database.cascadeEventSoftDelete
        { db with events := db.events.set { new with updatedAt := clock } } s clock old new)
      s clock old new = eventWritten db clock old new := by
  have h := childWritable_set clock hold hid hc hw
  rw [cascade_eq h, autoStop_eq (by simpa [childWritable, appUserOwnsEvent] using h)]
  simp only [eventWritten, Table.map_map]
  rfl

/-- One event update with all that follows from it: nothing, when no attribute
changed, or `eventWritten`. -/
theorem updateEvent_then_autoStop {db₁ : Database} (hold : db.events.find? old.id = some old)
    (hid : new.id = old.id) (hc : new.createdBy = old.createdBy)
    (h : db.updateEvent s clock old new = .ok db₁) :
    (new = old ∧ autoStopOnEnd db₁ s clock old new = db) ∨
      (new ≠ old ∧ eventWritable s old ∧
        autoStopOnEnd db₁ s clock old new = eventWritten db clock old new) := by
  rcases Database.updateEvent_ok.mp h with ⟨rfl, rfl⟩ | ⟨hne, hw, rfl⟩
  · refine .inl ⟨rfl, ?_⟩
    unfold autoStopOnEnd
    split
    · rename_i ho hn
      simp [ho] at hn
    · rfl
  · exact .inr ⟨hne, hw, written_eq hold hid hc hw⟩

end

end HcMap.Services
