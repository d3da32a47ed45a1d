import HcMap.Routes.RequestLaws

/-!
# What a delete has done

The three `DELETE` routes look their row up under the `SELECT` policies and
delete it under the `DELETE` policies. A statement that the latter filter to no
row raises nothing, so the answer is 204 whether or not the row is gone.
-/

namespace HcMap.Routes

inductive Deletion
  | event (eventId : Uuid)
  | application (applicationId : Uuid)
  | participant (eventId personId : Uuid)

def Deletion.operation : Deletion → Operation
  | .event eventId => .deleteEvent eventId
  | .application applicationId => .deleteApplication applicationId
  | .participant eventId personId => .removeParticipant eventId personId

def Deletion.Gone (db : Database) : Deletion → Prop
  | .event eventId => ∀ e ∈ db.events, e.id = eventId → e.isDeleted
  | .application applicationId => ∀ a ∈ db.applications, a.id = applicationId → a.isDeleted
  | .participant eventId personId =>
    ∀ ep ∈ db.participants, ep.eventId = eventId → ep.personId = personId → ep.isDeleted

def Deletion.Permitted (db : Database) (s : Session) : Deletion → Prop
  | .event eventId => ∀ e ∈ db.events, e.id = eventId → eventWritable s e
  | .application applicationId =>
    ∀ a ∈ db.applications, a.id = applicationId → applicationWritable db s a
  | .participant eventId _ => childWritable db s eventId

instance (db : Database) (d : Deletion) : Decidable (d.Gone db) := by
  cases d <;> (unfold Deletion.Gone; infer_instance)

section
variable {db db' : Database} {s : Session} {clock : Time} {eid pid aid : Uuid} {d : Deletion}

theorem deleteEvent_gone_iff (h : deleteEvent db s eid = .ok db') :
    (Deletion.event eid).Gone db' ↔ (Deletion.event eid).Permitted db s ∨
      (Deletion.event eid).Gone db := by
  obtain ⟨e, hget, h⟩ := bind_ok.mp h
  obtain rfl := pure_ok.mp h
  have hfound := orNotFound_ok.mp hget
  obtain ⟨hfind, hlive⟩ := getEvent_live hfound
  have hid : e.id = eid :=
    Table.key_of_find? (Database.getEvent_eq_some.mp (Option.filter_eq_some_iff.mp hfound).1).1
  have he := Table.mem_of_find? hfind
  constructor
  · intro hgone
    refine .inl fun e' he' hid' => ?_
    obtain rfl := Table.eq_of_key he' he (hid'.trans hid.symm)
    by_contra hw
    have hstays : e' ∈ (db.deleteEvent s e').events := by
      rw [Database.deleteEvent, if_neg hw]
      exact he
    have := hgone e' hstays hid
    rw [hlive] at this
    cases this
  · rintro (hmay | hgone)
    · intro e' he' hid'
      rw [Database.deleteEvent, if_pos (hmay e he hid)] at he'
      exact absurd (hid'.trans hid.symm) (of_decide_eq_true (Table.mem_filter.mp he').2)
    · have := hgone e he hid
      rw [hlive] at this
      cases this

theorem deleteApplication_gone_iff (h : deleteApplication db s aid = .ok db') :
    (Deletion.application aid).Gone db' ↔ (Deletion.application aid).Permitted db s ∨
      (Deletion.application aid).Gone db := by
  obtain ⟨a, hget, h⟩ := bind_ok.mp h
  obtain rfl := pure_ok.mp h
  obtain ⟨hfind, hlive⟩ := getApplication_live (orNotFound_ok.mp hget)
  have hid : a.id = aid := Table.key_of_find? hfind
  have ha := Table.mem_of_find? hfind
  constructor
  · intro hgone
    refine .inl fun a' ha' hid' => ?_
    obtain rfl := Table.eq_of_key ha' ha (hid'.trans hid.symm)
    by_contra hw
    have hstays : a' ∈ (db.deleteApplication s a').applications := by
      rw [Database.deleteApplication, if_neg hw]
      exact ha
    have := hgone a' hstays hid
    rw [hlive] at this
    cases this
  · rintro (hmay | hgone)
    · intro a' ha' hid'
      rw [Database.deleteApplication, if_pos (hmay a ha hid)] at ha'
      exact absurd (hid'.trans hid.symm) (of_decide_eq_true (Table.mem_filter.mp ha').2)
    · have := hgone a ha hid
      rw [hlive] at this
      cases this

/-- The link that is found need not be live. -/
theorem removeParticipant_gone_iff (hunique : db.LinksUnique)
    (h : Services.removeParticipant db s eid pid = .ok db') :
    (Deletion.participant eid pid).Gone db' ↔ (Deletion.participant eid pid).Permitted db s ∨
      (Deletion.participant eid pid).Gone db := by
  obtain ⟨ep, hep, rfl, rfl, rfl⟩ := removeParticipant_ok h
  by_cases hw : participantWritable db s ep
  · refine ⟨fun _ => .inl hw, fun _ ep' hep' he hp => ?_⟩
    rw [Database.deleteParticipant, if_pos hw] at hep'
    obtain ⟨hmem, hne⟩ := Table.mem_filter.mp hep'
    obtain rfl := hunique ep' hmem ep hep he hp
    exact absurd rfl (of_decide_eq_true hne)
  · rw [Database.deleteParticipant, if_neg hw]
    exact ⟨.inr, fun h => h.resolve_left hw⟩

/-- An answered `DELETE` has happened exactly when the session may delete the
row, or when there was nothing but a tombstone. -/
theorem answered_gone_iff (hunique : db.LinksUnique)
    (h : execute db s clock d.operation = .ok db') :
    d.Gone db' ↔ d.Permitted db s ∨ d.Gone db := by
  cases d with
  | event eventId => exact deleteEvent_gone_iff h
  | application applicationId => exact deleteApplication_gone_iff h
  | participant eventId personId => exact removeParticipant_gone_iff hunique h

theorem answered_gone_iff_sample :
    (Deletion.event 1).Gone (step sample ⟨2, 100, 101, .deleteEvent 1⟩) :=
  (answered_gone_iff (s := sampleOwner) (by decide)
    (show execute sample sampleOwner 101 (.deleteEvent 1) = .ok _ from by rfl)).mpr
      (.inl fun _ he _ => List.mem_singleton.mp he ▸ .inr (by decide))

/-- A participant who does not own the event is told that it was deleted. -/
theorem deleteEvent_answered_not_gone :
    ∃ db', respond sample ⟨3, 100, 101, (Deletion.event 1).operation⟩ = .ok db' ∧
      eventVisible sample sampleGuest sampleEvent ∧ ¬ (Deletion.event 1).Gone db' :=
  ⟨sample, by rfl, by decide, by decide⟩

end

end HcMap.Routes
