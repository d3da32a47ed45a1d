import HcMap.Routes.Orphans
import HcMap.Services.Exports

/-!
# Closed exports

A reference of an exported row finds its row in the export where the policies
and the soft-delete filters of both tables agree. What they agree on is said in
terms of the tables.
-/

namespace HcMap.Routes

open Catalog (RestraintTypeColumns)
open Services (JsonExport buildJsonExport)

/-- Every reference finds its object in the export, and no object belongs to a
tombstone. -/
structure Closed (db : Database) (x : JsonExport) : Prop where
  applications : ∀ a ∈ x.applications, ∃ e ∈ x.events, e.id = a.eventId
  participants : ∀ ep ∈ x.eventParticipants, ∃ e ∈ x.events, e.id = ep.eventId
  restraints : ∀ r ∈ x.applicationRestraints, ∃ a ∈ x.applications, a.id = r.applicationId
  types : ∀ r ∈ x.applicationRestraints, ∃ t ∈ x.restraintTypes, t.id = r.restraintTypeId
  liveEvents : ∀ e ∈ db.events, e.isDeleted →
    (∀ x' ∈ x.events, x'.id ≠ e.id) ∧ (∀ a ∈ x.applications, a.eventId ≠ e.id) ∧
      (∀ ep ∈ x.eventParticipants, ep.eventId ≠ e.id) ∧
        ∀ r ∈ x.applicationRestraints, ∀ a ∈ db.applications,
          a.id = r.applicationId → a.eventId ≠ e.id
  liveApplications : ∀ a ∈ db.applications, a.isDeleted →
    (∀ x' ∈ x.applications, x'.id ≠ a.id) ∧ ∀ r ∈ x.applicationRestraints, r.applicationId ≠ a.id

/-- What a session sees of the tables goes together. -/
structure Exportable (db : Database) (s : Session) : Prop where
  /-- A tombstoned event in sight has no live child. -/
  tombstones : ∀ e ∈ db.events, e.isDeleted → appUserCanSeeEvent db s e.id →
    (∀ a ∈ db.applications, a.eventId = e.id → a.isDeleted) ∧
      ∀ ep ∈ db.participants, ep.eventId = e.id → ep.isDeleted
  /-- An editor sees the events of its own live applications. -/
  own : s.role = .editor → ∀ a ∈ db.applications, a.isDeleted = false →
    a.createdBy = some s.userId → appUserCanSeeEvent db s a.eventId
  /-- A restraint link in sight is one of a live application, to a type in
  sight. -/
  links : ∀ r ∈ db.restraints, ∀ a ∈ db.applications, a.id = r.applicationId →
    appUserCanSeeEvent db s a.eventId → a.isDeleted = false ∧
      ∃ c ∈ db.restraintTypes, c.id = r.restraintTypeId ∧ catalogVisible s c

section
variable {columns : Uuid → RestraintTypeColumns} {db : Database} {s : Session} {eid : Uuid}
  {a : Application} {ep : EventParticipant} {r : ApplicationRestraint}

-- ---------------------------------------------------------------------------
-- Which objects are there
-- ---------------------------------------------------------------------------

theorem event_exported_iff {e : Event} (he : e ∈ db.events) :
    (∃ x ∈ (buildJsonExport columns db s).events, x.id = e.id) ↔
      appUserCanSeeEvent db s e.id ∧ e.isDeleted = false := by
  constructor
  · rintro ⟨x, hx, hid⟩
    obtain ⟨e', he', hv, hlive, rfl⟩ := Services.mem_export_events.mp hx
    obtain rfl := Table.eq_of_key he' he hid
    exact ⟨canSee_of_eventVisible he hv, hlive⟩
  · rintro ⟨hsee, hlive⟩
    have hv := eventVisible_of_canSee he hsee
    exact ⟨_, Services.mem_export_events.mpr ⟨e, he, hv, hlive, rfl⟩, rfl⟩

theorem application_exported_iff (ha : a ∈ db.applications) :
    (∃ x ∈ (buildJsonExport columns db s).applications, x.id = a.id) ↔
      applicationVisible db s a ∧ a.isDeleted = false := by
  constructor
  · rintro ⟨x, hx, hid⟩
    obtain ⟨a', ha', hv, hlive, rfl⟩ := Services.mem_export_applications.mp hx
    obtain rfl := Table.eq_of_key ha' ha hid
    exact ⟨hv, hlive⟩
  · rintro ⟨hv, hlive⟩
    exact ⟨_, Services.mem_export_applications.mpr ⟨a, ha, hv, hlive, rfl⟩, rfl⟩

theorem type_exported_iff (hr : r ∈ db.restraints) (hv : restraintVisible db s r) :
    (∃ x ∈ (buildJsonExport columns db s).restraintTypes, x.id = r.restraintTypeId) ↔
      ∃ c ∈ db.restraintTypes, c.id = r.restraintTypeId ∧ catalogVisible s c := by
  constructor
  · rintro ⟨x, hx, hid⟩
    obtain ⟨c, hc, hcv, -, rfl⟩ := Services.mem_export_restraintTypes.mp hx
    exact ⟨c, hc, hid, hcv⟩
  · rintro ⟨c, hc, hid, hcv⟩
    exact ⟨_, Services.mem_export_restraintTypes.mpr ⟨c, hc, hcv, ⟨r, hr, hv, hid.symm⟩, rfl⟩,
      hid⟩

-- ---------------------------------------------------------------------------
-- Both directions
-- ---------------------------------------------------------------------------

theorem Closed.exportable (hkeys : ForeignKeys db)
    (h : Closed db (buildJsonExport columns db s)) : Exportable db s where
  tombstones e he hdeleted hsee := by
    obtain ⟨-, hnoApp, hnoLink, -⟩ := h.liveEvents e he hdeleted
    refine ⟨fun a ha hevent => ?_, fun ep hep hevent => ?_⟩
    · by_contra hlive
      have hv : applicationVisible db s a := .inr (.inl (hevent ▸ hsee))
      exact hnoApp _ (Services.mem_export_applications.mpr
        ⟨a, ha, hv, by simpa using hlive, rfl⟩) hevent
    · by_contra hlive
      have hv : participantVisible db s ep := .inr (hevent ▸ hsee)
      exact hnoLink _ (Services.mem_export_participants.mpr
        ⟨ep, hep, hv, by simpa using hlive, rfl⟩) hevent
  own heditor a ha hlive hby := by
    obtain ⟨e, he, hid⟩ := Table.find?_isSome.mp (hkeys.anchored.applications a ha)
    have hv : applicationVisible db s a := .inr (.inr ⟨heditor, hby⟩)
    obtain ⟨x, hx, hxid⟩ := h.applications _
      (Services.mem_export_applications.mpr ⟨a, ha, hv, hlive, rfl⟩)
    have hxid' : x.id = e.id := hxid.trans hid.symm
    have hid' : e.id = a.eventId := hid
    rw [← hid']
    exact ((event_exported_iff he).mp ⟨x, hx, hxid'⟩).1
  links r hr a ha hid hsee := by
    have hv := (restraintVisible_iff (s := s) ha hid).mpr hsee
    have hmem : Services.arToDict r ∈ (buildJsonExport columns db s).applicationRestraints :=
      Services.mem_export_restraints.mpr ⟨r, hr, hv, rfl⟩
    obtain ⟨x, hx, hxid⟩ := h.restraints _ hmem
    refine ⟨((application_exported_iff ha).mp ⟨x, hx, hxid.trans hid.symm⟩).2, ?_⟩
    exact (type_exported_iff hr hv).mp (h.types _ hmem)

theorem Exportable.event_exported (h : Exportable db s) (hfind : (db.events.find? eid).isSome)
    (hsee : appUserCanSeeEvent db s eid)
    (hchild : (∃ a ∈ db.applications, a.eventId = eid ∧ a.isDeleted = false) ∨
      ∃ ep ∈ db.participants, ep.eventId = eid ∧ ep.isDeleted = false) :
    ∃ x ∈ (buildJsonExport columns db s).events, x.id = eid := by
  obtain ⟨e, he, hid⟩ := Table.find?_isSome.mp hfind
  subst hid
  refine (event_exported_iff he).mpr ⟨hsee, ?_⟩
  by_contra hdeleted
  obtain ⟨happs, hlinks⟩ := h.tombstones e he (by simpa using hdeleted) hsee
  rcases hchild with ⟨a, ha, hevent, hlive⟩ | ⟨ep, hep, hevent, hlive⟩
  · rw [happs a ha hevent] at hlive
    cases hlive
  · rw [hlinks ep hep hevent] at hlive
    cases hlive

theorem Exportable.canSee_of_visible (h : Exportable db s) (ha : a ∈ db.applications)
    (hlive : a.isDeleted = false) (hv : applicationVisible db s a) :
    appUserCanSeeEvent db s a.eventId := by
  rcases applicationVisible_iff.mp hv with hsee | ⟨heditor, hby⟩
  · exact hsee
  · exact h.own heditor a ha hlive hby

theorem Exportable.application_event (hkeys : ForeignKeys db) (h : Exportable db s) :
    ∀ x ∈ (buildJsonExport columns db s).applications,
      ∃ e ∈ (buildJsonExport columns db s).events, e.id = x.eventId := by
  intro x hx
  obtain ⟨a, ha, hv, hlive, rfl⟩ := Services.mem_export_applications.mp hx
  exact h.event_exported (hkeys.anchored.applications a ha) (h.canSee_of_visible ha hlive hv)
    (.inl ⟨a, ha, rfl, hlive⟩)

theorem Exportable.participant_event (hkeys : ForeignKeys db) (h : Exportable db s) :
    ∀ x ∈ (buildJsonExport columns db s).eventParticipants,
      ∃ e ∈ (buildJsonExport columns db s).events, e.id = x.eventId := by
  intro x hx
  obtain ⟨ep, hep, hv, hlive, rfl⟩ := Services.mem_export_participants.mp hx
  exact h.event_exported (hkeys.anchored.participants ep hep) (participantVisible_iff.mp hv)
    (.inr ⟨ep, hep, rfl, hlive⟩)

theorem Exportable.link_application (hkeys : ForeignKeys db) (h : Exportable db s) :
    ∀ x ∈ (buildJsonExport columns db s).applicationRestraints,
      ∃ a ∈ db.applications, a.id = x.applicationId ∧ a.isDeleted = false ∧
        applicationVisible db s a := by
  intro x hx
  obtain ⟨r, hr, hv, rfl⟩ := Services.mem_export_restraints.mp hx
  obtain ⟨a, ha, hid⟩ := Table.find?_isSome.mp (hkeys.restraints r hr)
  have hsee := (restraintVisible_iff ha hid).mp hv
  exact ⟨a, ha, hid, (h.links r hr a ha hid hsee).1, .inr (.inl hsee)⟩

theorem event_gone {e : Event} (he : e ∈ db.events) (hdeleted : e.isDeleted) :
    ∀ x ∈ (buildJsonExport columns db s).events, x.id ≠ e.id := by
  intro x hx hid
  have hlive := ((event_exported_iff he).mp ⟨x, hx, hid⟩).2
  rw [hdeleted] at hlive
  cases hlive

theorem Exportable.closed (hkeys : ForeignKeys db) (h : Exportable db s) :
    Closed db (buildJsonExport columns db s) where
  applications := h.application_event hkeys
  participants := h.participant_event hkeys
  restraints x hx := by
    obtain ⟨a, ha, hid, hlive, hv⟩ := h.link_application hkeys x hx
    rw [← hid]
    exact (application_exported_iff ha).mpr ⟨hv, hlive⟩
  types x hx := by
    obtain ⟨r, hr, hv, rfl⟩ := Services.mem_export_restraints.mp hx
    obtain ⟨a, ha, hid⟩ := Table.find?_isSome.mp (hkeys.restraints r hr)
    exact (type_exported_iff hr hv).mpr
      (h.links r hr a ha hid ((restraintVisible_iff ha hid).mp hv)).2
  liveEvents e he hdeleted := by
    refine ⟨event_gone he hdeleted, fun x hx hevent => ?_, fun x hx hevent => ?_, ?_⟩
    · obtain ⟨y, hy, hid⟩ := h.application_event hkeys x hx
      exact event_gone he hdeleted y hy (hid.trans hevent)
    · obtain ⟨y, hy, hid⟩ := h.participant_event hkeys x hx
      exact event_gone he hdeleted y hy (hid.trans hevent)
    · intro x hx a ha hid hevent
      obtain ⟨a', ha', hid', hlive, hv⟩ := h.link_application hkeys x hx
      obtain rfl := Table.eq_of_key ha' ha (hid'.trans hid.symm)
      have hmem : Services.appToDict a' ∈ (buildJsonExport columns db s).applications :=
        Services.mem_export_applications.mpr ⟨a', ha', hv, hlive, rfl⟩
      obtain ⟨y, hy, hyid⟩ := h.application_event hkeys _ hmem
      exact event_gone he hdeleted y hy (hyid.trans hevent)
  liveApplications a ha hdeleted := by
    have hdead : a.isDeleted ≠ false := by simp [hdeleted]
    refine ⟨fun x hx hid => hdead ((application_exported_iff ha).mp ⟨x, hx, hid⟩).2, ?_⟩
    intro x hx hid
    obtain ⟨a', ha', hid', hlive, -⟩ := h.link_application hkeys x hx
    obtain rfl := Table.eq_of_key ha' ha (hid'.trans hid)
    exact hdead hlive

/-- After every run of requests, the export of a session is closed exactly when
what the session sees goes together. -/
theorem run_export_closed_iff (hkeys : ForeignKeys db) (requests : List Request) (s : Session) :
    Closed (Run.run step db requests) (buildJsonExport columns (Run.run step db requests) s) ↔
      Exportable (Run.run step db requests) s := by
  have hrun : ForeignKeys (Run.run step db requests) :=
    Run.preserves hkeys fun _ request h => h.step request
  exact ⟨Closed.exportable hrun, Exportable.closed hrun⟩

end

-- ---------------------------------------------------------------------------
-- A deleted application
-- ---------------------------------------------------------------------------

def recorded : List Request :=
  [⟨2, 100, 100, .startEvent ⟨.zero, .zero, none, false, none, none, .minute⟩⟩,
    ⟨2, 120, 120, .startApplication 1 ⟨none, none, none, none, none, none, [1]⟩⟩]

def recordedDoc : Sync.ApplicationDoc where
  id := 1
  eventId := 1
  performerId := 2
  recipientId := 2
  sequenceNo := 1
  startedAt := some 120
  createdBy := some 2
  createdAt := 120
  updatedAt := 120
  restraintTypeIds := [1]

def deletedApplication : Request :=
  ⟨2, 130, 130, .pushApplications [(130,
    { assumedMasterState := some recordedDoc
      newDocumentState := { recordedDoc with deleted := true, deletedAt := some 130 } })]⟩

def sampleTypeColumns (_ : Uuid) : RestraintTypeColumns :=
  ⟨.other, none, none, none, sampleTitle, none⟩

theorem foreignKeys_sampleUsers : ForeignKeys sampleUsers :=
  ⟨⟨by decide, by decide⟩, by decide⟩

theorem run_export_closed_iff_sample :
    Closed (Run.run step sampleUsers recorded)
      (buildJsonExport sampleTypeColumns (Run.run step sampleUsers recorded) sampleOwner) :=
  (run_export_closed_iff foreignKeys_sampleUsers recorded sampleOwner).mpr
    ⟨by decide +kernel, by decide +kernel, by decide +kernel⟩

/-- The restraint link of a deleted application is exported without it. -/
theorem deleted_export_not_closed :
    ¬ Closed (Run.run step sampleUsers (recorded ++ [deletedApplication]))
      (buildJsonExport sampleTypeColumns
        (Run.run step sampleUsers (recorded ++ [deletedApplication])) sampleOwner) := fun h =>
  absurd h.restraints (by decide +kernel)

end HcMap.Routes
