import HcMap.Sync.Replication

/-!
# The app's forms

What the forms of the app write into the local store: `event-create-form.tsx`,
`application-start-sheet.tsx`, `event-detail-view.tsx` and `event-edit-form.tsx`
without its two delete buttons. A text argument is the trimmed input, `none`
when it is empty; an id is `crypto.randomUUID()`.
-/

namespace HcMap.Sync

structure EventPatch where
  title : Option (Option Text) := none
  note : Option (Option Text) := none
  legacyExternalRef : Option (Option Text) := none
  revealParticipants : Option Bool := none
  endedAt : Option Time := none
  deriving DecidableEq

structure ApplicationPatch where
  note : Option (Option Text) := none
  recipientId : Option Uuid := none
  endedAt : Option Time := none
  restraintTypeIds : Option (List Uuid) := none
  armPositionId : Option (Option Uuid) := none
  handPositionId : Option (Option Uuid) := none
  handOrientationId : Option (Option Uuid) := none
  deriving DecidableEq

/-- The end is only among the keys while the document has none. -/
def EventPatch.unlocked (patch : EventPatch) (doc : EventDoc) : EventPatch :=
  if doc.endedAt = none then patch else { patch with endedAt := none }

def ApplicationPatch.unlocked (patch : ApplicationPatch) (doc : ApplicationDoc) :
    ApplicationPatch :=
  if doc.endedAt = none then patch else { patch with endedAt := none }

def EventPatch.apply (patch : EventPatch) (doc : EventDoc) (now : Time) : EventDoc :=
  { doc with
    title := patch.title.getD doc.title
    note := patch.note.getD doc.note
    legacyExternalRef := patch.legacyExternalRef.getD doc.legacyExternalRef
    revealParticipants := patch.revealParticipants.getD doc.revealParticipants
    endedAt := patch.endedAt.or doc.endedAt
    updatedAt := now }

def ApplicationPatch.apply (patch : ApplicationPatch) (doc : ApplicationDoc) (now : Time) :
    ApplicationDoc :=
  { doc with
    note := patch.note.getD doc.note
    recipientId := patch.recipientId.getD doc.recipientId
    endedAt := patch.endedAt.or doc.endedAt
    restraintTypeIds := patch.restraintTypeIds.getD doc.restraintTypeIds
    armPositionId := patch.armPositionId.getD doc.armPositionId
    handPositionId := patch.handPositionId.getD doc.handPositionId
    handOrientationId := patch.handOrientationId.getD doc.handOrientationId
    updatedAt := now }

/-- One use of a form. `sequenceNo` is what `nextLocalSequence` finds. -/
inductive Form
  | createEvent (id : Uuid) (now : Time) (lat : Degrees 90) (lon : Degrees 180)
      (title note : Option Text)
  | startApplication (id eventId : Uuid) (now : Time) (sequenceNo : Nat) (recipient : Option Uuid)
      (note : Option Text) (armPositionId handPositionId handOrientationId : Option Uuid)
      (restraintTypeIds : List Uuid)
  | endApplication (id : Uuid) (now : Time)
  | toggleReveal (id : Uuid) (now : Time) (next : Bool)
  | endEvent (id : Uuid) (now : Time)
  | editEvent (id : Uuid) (now : Time) (patch : EventPatch)
  | editApplication (id : Uuid) (now : Time) (patch : ApplicationPatch)

def createdEvent (editor : Session) (id : Uuid) (now : Time) (lat : Degrees 90) (lon : Degrees 180)
    (title note : Option Text) : EventDoc where
  id := id
  startedAt := now
  lat := lat
  lon := lon
  title := title
  note := note
  createdBy := some editor.userId
  createdAt := now
  updatedAt := now

def startedApplication (editor : Session) (id eventId : Uuid) (now : Time) (sequenceNo : Nat)
    (recipient : Option Uuid) (note : Option Text)
    (armPositionId handPositionId handOrientationId : Option Uuid) (restraintTypeIds : List Uuid) :
    ApplicationDoc where
  id := id
  eventId := eventId
  performerId := editor.personId
  recipientId := recipient.getD editor.personId
  armPositionId := armPositionId
  handPositionId := handPositionId
  handOrientationId := handOrientationId
  sequenceNo := sequenceNo
  startedAt := some now
  note := note
  -- The sheet leaves the creator to the server.
  createdBy := none
  createdAt := now
  updatedAt := now
  restraintTypeIds := restraintTypeIds

namespace Device

variable (editor : Session) (d : Device)

/-- `doc.patch`; a document that is not in the local store is reported. -/
def patchEvent (id : Uuid) (change : EventDoc → Option EventDoc) : Device :=
  match (d.events.docs id).bind change with
  | some doc => { d with events := d.events.write doc }
  | none => d

def patchApplication (id : Uuid) (change : ApplicationDoc → Option ApplicationDoc) : Device :=
  match (d.applications.docs id).bind change with
  | some doc => { d with applications := d.applications.write doc }
  | none => d

def submit : Form → Device
  | .createEvent id now lat lon title note =>
    -- An insert of a key that is taken throws.
    if (d.events.docs id).isSome then d
    else
      { d with events := d.events.write (createdEvent editor id now lat lon title note) }
  | .startApplication id eventId now sequenceNo recipient note arm hand orientation restraints =>
    match d.events.docs eventId with
    -- The sheet opens from a live event.
    | some event =>
      if event.endedAt ≠ none ∨ (d.applications.docs id).isSome then d
      else
        { d with
          applications := d.applications.write (startedApplication editor id eventId now sequenceNo
            recipient note arm hand orientation restraints) }
    | none => d
  | .endApplication id now =>
    -- The button is there while the application runs.
    d.patchApplication id fun doc =>
      if doc.endedAt ≠ none then none else some { doc with endedAt := some now, updatedAt := now }
  | .toggleReveal id now next =>
    d.patchEvent id fun doc => some { doc with revealParticipants := next, updatedAt := now }
  | .endEvent id now =>
    -- And this one while the event does.
    d.patchEvent id fun doc =>
      if doc.endedAt ≠ none then none else some { doc with endedAt := some now, updatedAt := now }
  | .editEvent id now patch =>
    d.patchEvent id fun doc =>
      if patch.unlocked doc = {} then none else some ((patch.unlocked doc).apply doc now)
  | .editApplication id now patch =>
    d.patchApplication id fun doc =>
      if patch.unlocked doc = {} then none else some ((patch.unlocked doc).apply doc now)

end Device

-- ---------------------------------------------------------------------------
-- What a form writes
-- ---------------------------------------------------------------------------

structure EventEdit (doc doc' : EventDoc) : Prop where
  id : doc'.id = doc.id
  startedAt : doc'.startedAt = doc.startedAt
  lat : doc'.lat = doc.lat
  lon : doc'.lon = doc.lon
  createdBy : doc'.createdBy = doc.createdBy
  deleted : doc'.deleted = doc.deleted
  endedAt : doc.endedAt ≠ none → doc'.endedAt = doc.endedAt

structure ApplicationEdit (doc doc' : ApplicationDoc) : Prop where
  id : doc'.id = doc.id
  eventId : doc'.eventId = doc.eventId
  deleted : doc'.deleted = doc.deleted

inductive Submitted (editor : Session) (d : Device) : Form → Device → Prop
  | idle {f} : Submitted editor d f d
  | created {id now lat lon title note} (hfree : d.events.docs id = none) :
      Submitted editor d (.createEvent id now lat lon title note)
        { d with events := d.events.write (createdEvent editor id now lat lon title note) }
  | started {id eventId now sequenceNo recipient note arm hand orientation restraints}
      (hfree : d.applications.docs id = none) (hevent : (d.events.docs eventId).isSome) :
      Submitted editor d (.startApplication id eventId now sequenceNo recipient note arm hand
          orientation restraints)
        { d with
          applications := d.applications.write (startedApplication editor id eventId now sequenceNo
            recipient note arm hand orientation restraints) }
  | eventEdited {f id doc doc'} (hdoc : d.events.docs id = some doc) (hedit : EventEdit doc doc') :
      Submitted editor d f { d with events := d.events.write doc' }
  | applicationEdited {f id doc doc'} (hdoc : d.applications.docs id = some doc)
      (hedit : ApplicationEdit doc doc') :
      Submitted editor d f { d with applications := d.applications.write doc' }

section
variable {editor : Session} {d : Device} {f : Form} {id : Uuid}

theorem patchEvent_cases {change : EventDoc → Option EventDoc}
    (h : ∀ doc doc', change doc = some doc' → EventEdit doc doc') :
    Submitted editor d f (d.patchEvent id change) := by
  unfold Device.patchEvent
  cases hdoc : d.events.docs id with
  | none => exact .idle
  | some doc =>
    cases hchange : change doc with
    | none => simpa [hchange] using Submitted.idle
    | some doc' => simpa [hchange] using Submitted.eventEdited hdoc (h doc doc' hchange)

theorem patchApplication_cases {change : ApplicationDoc → Option ApplicationDoc}
    (h : ∀ doc doc', change doc = some doc' → ApplicationEdit doc doc') :
    Submitted editor d f (d.patchApplication id change) := by
  unfold Device.patchApplication
  cases hdoc : d.applications.docs id with
  | none => exact .idle
  | some doc =>
    cases hchange : change doc with
    | none => simpa [hchange] using Submitted.idle
    | some doc' => simpa [hchange] using Submitted.applicationEdited hdoc (h doc doc' hchange)

theorem submit_cases (editor : Session) (d : Device) (f : Form) :
    Submitted editor d f (d.submit editor f) := by
  cases f with
  | createEvent id now lat lon title note =>
    simp only [Device.submit]
    split
    · exact .idle
    · rename_i hfree
      exact .created (Option.not_isSome_iff_eq_none.mp hfree)
  | startApplication id eventId now sequenceNo recipient note arm hand orientation restraints =>
    simp only [Device.submit]
    split
    · rename_i event hevent
      split
      · exact .idle
      · rename_i hfree
        obtain ⟨-, hfree⟩ := not_or.mp hfree
        exact .started (Option.not_isSome_iff_eq_none.mp hfree) (by simp [hevent])
    · exact .idle
  | endApplication id now =>
    refine patchApplication_cases fun doc doc' hchange => ?_
    split at hchange
    · cases hchange
    · cases hchange
      exact ⟨rfl, rfl, rfl⟩
  | toggleReveal id now next =>
    refine patchEvent_cases fun doc doc' hchange => ?_
    cases hchange
    exact ⟨rfl, rfl, rfl, rfl, rfl, rfl, fun _ => rfl⟩
  | endEvent id now =>
    refine patchEvent_cases fun doc doc' hchange => ?_
    split at hchange
    · cases hchange
    · rename_i hrun
      cases hchange
      exact ⟨rfl, rfl, rfl, rfl, rfl, rfl, fun h => absurd h hrun⟩
  | editEvent id now patch =>
    refine patchEvent_cases fun doc doc' hchange => ?_
    split at hchange
    · cases hchange
    · cases hchange
      refine ⟨rfl, rfl, rfl, rfl, rfl, rfl, fun h => ?_⟩
      simp [EventPatch.apply, EventPatch.unlocked, h]
  | editApplication id now patch =>
    refine patchApplication_cases fun doc doc' hchange => ?_
    split at hchange
    · cases hchange
    · cases hchange
      exact ⟨rfl, rfl, rfl⟩

end

end HcMap.Sync
