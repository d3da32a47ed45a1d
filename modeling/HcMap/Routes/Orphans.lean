import HcMap.Routes.Homes
import HcMap.Sync.Frames

/-!
# Orphans

The policies of a link and of a restraint link let a row pass with its event.
Those of an application have one more, `application_editor_select_own`, that
looks at the application alone: an editor sees what the editor created, which
may lie in another user's event if the editor was an admin then.
-/

namespace HcMap.Routes

/-- Every reference of a child row to its parent finds it. -/
structure ForeignKeys (db : Database) : Prop where
  anchored : Anchored db
  restraints : ∀ r ∈ db.restraints, (db.applications.find? r.applicationId).isSome

theorem foreignKeys_sample : ForeignKeys sample := ⟨anchored_sample, by decide⟩

def InSight (db : Database) (s : Session) (eid : Uuid) : Prop :=
  ∃ e ∈ db.events, e.id = eid ∧ eventVisible db s e

/-- No row below an event is seen without the event, but for the editor's own
applications that are `exempt`. -/
structure NoOrphan (exempt : Application → Prop) (db : Database) (s : Session) : Prop where
  participants : ∀ ep ∈ db.participants, participantVisible db s ep → InSight db s ep.eventId
  applications : ∀ a ∈ db.applications, applicationVisible db s a →
    InSight db s a.eventId ∨ (s.role = .editor ∧ a.createdBy = some s.userId ∧ exempt a)
  restraints : ∀ r ∈ db.restraints, restraintVisible db s r →
    ∃ a ∈ db.applications, a.id = r.applicationId ∧ InSight db s a.eventId

-- ---------------------------------------------------------------------------
-- The policies
-- ---------------------------------------------------------------------------

section
variable {db db' : Database} {s : Session} {clock : Time} {eid : Uuid}

theorem inSight_of_canSee (hfind : (db.events.find? eid).isSome)
    (h : appUserCanSeeEvent db s eid) : InSight db s eid := by
  obtain ⟨e, he, hid⟩ := Table.find?_isSome.mp hfind
  subst hid
  exact ⟨e, he, rfl, eventVisible_of_canSee he h⟩

theorem ForeignKeys.noOrphan {exempt : Application → Prop} (h : ForeignKeys db) (s : Session)
    (hhome : ∀ a ∈ db.applications, AtHome db a ∨ exempt a) : NoOrphan exempt db s where
  participants ep hep hv :=
    inSight_of_canSee (h.anchored.participants ep hep) (participantVisible_iff.mp hv)
  applications a ha hv := by
    have hfind := h.anchored.applications a ha
    rcases applicationVisible_iff.mp hv with hsee | ⟨hrole, hown⟩
    · exact .inl (inSight_of_canSee hfind hsee)
    · refine (hhome a ha).imp (fun hhome => ?_) fun hexempt => ⟨hrole, hown, hexempt⟩
      exact inSight_of_canSee hfind (.inr (.inr ⟨hrole, hhome s.userId hown⟩))
  restraints r hr hv := by
    obtain ⟨a, ha, hid⟩ := Table.find?_isSome.mp (h.restraints r hr)
    exact ⟨a, ha, hid, inSight_of_canSee (h.anchored.applications a ha)
      ((restraintVisible_iff ha hid).mp hv)⟩

-- ---------------------------------------------------------------------------
-- Every run
-- ---------------------------------------------------------------------------

/-- No write takes an application away and leaves its restraint links. -/
theorem Write.restraints_anchored {may : Special → Prop} (hw : Write may s clock db db')
    (h : ∀ r ∈ db.restraints, (db.applications.find? r.applicationId).isSome) :
    ∀ r ∈ db'.restraints, (db'.applications.find? r.applicationId).isSome := by
  cases hw with
  | eventInserted => exact h
  | eventWritten =>
    intro r hr
    rw [Services.eventWritten, Table.find?_map, Option.isSome_map]
    exact h r hr
  | @eventDeleted e =>
    unfold Database.deleteEvent
    split
    · intro r hr
      obtain ⟨hr, hkeep⟩ := Table.mem_filter.mp hr
      obtain ⟨a, ha, hid⟩ := Table.find?_isSome.mp (h r hr)
      have hne : a.eventId ≠ e.id := (of_decide_eq_true hkeep) a ha hid
      exact Table.find?_isSome.mpr ⟨a, Table.mem_filter.mpr ⟨ha, decide_eq_true hne⟩, hid⟩
    · exact h
  | linkInserted => exact h
  | linkDeleted =>
    unfold Database.deleteParticipant
    split <;> exact h
  | applicationInserted ht =>
    intro r hr
    obtain ⟨a, ha, hid⟩ := Table.find?_isSome.mp (h r hr)
    exact Table.find?_isSome.mpr ⟨a, (Table.mem_insert? ht).mpr (.inl ha), hid⟩
  | applicationWritten | applicationPatched =>
    intro r hr
    rw [Sync.applicationWritten, Table.find?_set_isSome]
    exact h r hr
  | @applicationDeleted a _ =>
    unfold Database.deleteApplication
    split
    · intro r hr
      obtain ⟨hr, hne⟩ := Table.mem_filter.mp hr
      obtain ⟨a', ha', hid⟩ := Table.find?_isSome.mp (h r hr)
      have hne : r.applicationId ≠ a.id := of_decide_eq_true hne
      have hne' : a'.id ≠ a.id := fun he => hne (hid.symm.trans he)
      exact Table.find?_isSome.mpr
        ⟨a', Table.mem_filter.mpr ⟨ha', decide_eq_true hne'⟩, hid⟩
    · exact h
  | @restraintsSet a _ hset | @restraintsReplaced a _ hset =>
    intro r hr
    by_cases hid : r.applicationId = a.id
    · exact Table.find?_isSome.mpr ⟨a, hset.mem, hid.symm⟩
    · exact h r ((hset.others r hid).mp hr)
  | personsMerged =>
    intro r hr
    rw [Services.repoint, Table.find?_map, Table.find?_map, Option.isSome_map, Option.isSome_map]
    exact h r hr

theorem ForeignKeys.execute {operation : Operation} (h : ForeignKeys db)
    (hx : execute db s clock operation = .ok db') : ForeignKeys db' := by
  refine ⟨h.anchored.effect (execute_cases hx), ?_⟩
  rcases execute_writes hx with ⟨tables, -, rfl⟩ | hwrites
  · exact h.restraints
  · exact hwrites.preserves (fun _ _ _ hw => hw.restraints_anchored) h.restraints

end

theorem ForeignKeys.step {db : Database} (h : ForeignKeys db) (request : Request) :
    ForeignKeys (step db request) := by
  rcases step_cases db request with he | ⟨s, db', -, hx, he⟩
  · rwa [he]
  · rw [he]
    exact h.execute hx

/-- Whatever was requested, and whoever looks. -/
theorem run_noOrphan {db : Database} (h : ForeignKeys db)
    (hhome : ∀ a ∈ db.applications, AtHome db a) (requests : List Request) (s : Session) :
    NoOrphan (CreatedAsAdmin db requests) (Run.run step db requests) s :=
  have hkeys : ForeignKeys (Run.run step db requests) :=
    Run.preserves h fun _ request h => h.step request
  hkeys.noOrphan s (run_home hhome requests)

theorem atHome_sample : ∀ a ∈ sample.applications, AtHome sample a := by
  intro a ha u hu
  obtain rfl := List.mem_singleton.mp ha
  exact ⟨sampleEvent, by decide, rfl, hu⟩

-- ---------------------------------------------------------------------------
-- An editor's own application
-- ---------------------------------------------------------------------------

/-- The admin records an application in the owner's event and is made an editor
by `PATCH /api/admin/users/1`. -/
def demotedAdmin : List Request :=
  [⟨1, 100, 101, .createApplication 1
      { performerId := 2
        recipientId := 3
        armPositionId := none
        handPositionId := none
        handOrientationId := none
        startedAt := none
        endedAt := none
        note := none
        restraintTypeIds := [] } false⟩,
    ⟨1, 200, 201, .writeReference
      { users := ⟨[⟨1, .editor, true, 1⟩, ⟨2, .editor, true, 2⟩, ⟨3, .editor, true, 3⟩], by decide⟩
        persons := sample.persons
        armPositions := ∅
        handPositions := ∅
        handOrientations := ∅
        restraintTypes := sample.restraintTypes }⟩]

theorem demotedAdmin_sees_orphan :
    ∃ s, authenticate (Run.run step sample demotedAdmin) 1 300 = .ok s ∧
      ∃ a ∈ (Run.run step sample demotedAdmin).applications,
        applicationVisible (Run.run step sample demotedAdmin) s a ∧
          ¬ InSight (Run.run step sample demotedAdmin) s a.eventId := by
  refine ⟨⟨1, .editor, 1, 300⟩, by decide +kernel, ?_⟩
  have hlast : ∃ a ∈ (Run.run step sample demotedAdmin).applications, a.id = 2 ∧
      a.createdBy = some 1 ∧ a.eventId = 1 := by decide +kernel
  obtain ⟨a, ha, -, hby, he⟩ := hlast
  refine ⟨a, ha, .inr (.inr ⟨rfl, hby⟩), ?_⟩
  rw [he]
  unfold InSight
  decide +kernel

theorem run_noOrphan_sample :
    NoOrphan (CreatedAsAdmin sample demotedAdmin) (Run.run step sample demotedAdmin)
      ⟨1, .editor, 1, 300⟩ :=
  run_noOrphan foreignKeys_sample atHome_sample demotedAdmin _

end HcMap.Routes
