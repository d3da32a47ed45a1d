import HcMap.Services.Masking
import HcMap.Sync.Docs

/-!
# What the event page is made of

The page of an event puts together what the server answered and what the local
collections hold: `events/[id]/page.tsx` chooses and completes the payload,
`event-detail-view.tsx` lays the local document over it, and `masking.ts` hides
names once more. Coordinates are numbers, as `coerceNumber` reads them.
-/

namespace HcMap.Pages

open Services (PersonRead placeholder)
open Sync (EventDoc EventParticipantDoc)

structure EventDetail where
  id : Uuid
  startedAt : Time
  endedAt : Option Time
  lat : Degrees 90
  lon : Degrees 180
  revealParticipants : Bool
  title : Option Text
  note : Option Text
  timePrecision : TimePrecision
  legacyExternalRef : Option Text
  createdBy : Option Uuid
  createdAt : Time
  updatedAt : Time
  plusCode : String
  participants : List PersonRead

def EventDetail.ofServer (d : Services.EventDetail) : EventDetail where
  id := d.id
  startedAt := d.startedAt
  endedAt := d.endedAt
  lat := d.lat.toFloat
  lon := d.lon.toFloat
  revealParticipants := d.revealParticipants
  title := d.title
  note := d.note
  timePrecision := d.timePrecision
  legacyExternalRef := d.legacyExternalRef
  createdBy := d.createdBy
  createdAt := d.createdAt
  updatedAt := d.updatedAt
  plusCode := d.plusCode
  participants := d.participants

inductive ServerState
  | loading
  | ok (detail : EventDetail)
  | notFound
  | error

-- ---------------------------------------------------------------------------
-- The payload
-- ---------------------------------------------------------------------------

/-- Someone whose name the server has not delivered. -/
def anonymousPerson (personId : Uuid) : PersonRead where
  id := personId
  name := "…"
  «alias» := none
  note := none
  origin := .managed
  linkable := false
  isDeleted := false
  deletedAt := none
  createdAt := 0

/-- What a `Map` from the ids keeps: the last of its entries. -/
def byId (participants : List PersonRead) (id : Uuid) : Option PersonRead :=
  participants.reverse.find? (·.id = id)

def mergeParticipants (detail : EventDetail) (rxdbIds : List Uuid) : EventDetail :=
  if rxdbIds.length = 0 then detail
  else
    { detail with
      participants := rxdbIds.map fun id =>
        (byId detail.participants id).getD (anonymousPerson id) }

def synthesizeFromRxdb (doc : EventDoc) (participantIds : List Uuid) : EventDetail where
  id := doc.id
  startedAt := doc.startedAt
  endedAt := doc.endedAt
  lat := doc.lat
  lon := doc.lon
  revealParticipants := doc.revealParticipants
  title := doc.title
  note := doc.note
  timePrecision := doc.timePrecision
  legacyExternalRef := doc.legacyExternalRef
  createdBy := doc.createdBy
  createdAt := doc.createdAt
  updatedAt := doc.updatedAt
  plusCode := ""
  participants := participantIds.map anonymousPerson

/-- `rxdb` is `none` until the local collection has said whether it has the
event. -/
def pickInitialEvent (server : ServerState) (rxdb : Option (Option EventDoc))
    (participantIds : List Uuid) : Option EventDetail :=
  match server with
  | .ok detail => some (mergeParticipants detail participantIds)
  | _ =>
    match rxdb with
    | some (some doc) => some (synthesizeFromRxdb doc participantIds)
    | _ => none

-- ---------------------------------------------------------------------------
-- The view
-- ---------------------------------------------------------------------------

structure MergedEvent where
  id : Uuid
  startedAt : Time
  endedAt : Option Time
  lat : Degrees 90
  lon : Degrees 180
  title : Option Text
  note : Option Text
  legacyExternalRef : Option Text
  timePrecision : TimePrecision
  plusCode : String
  participants : List PersonRead
  revealParticipants : Bool

def mergeEvent (server : EventDetail) : Option EventDoc → MergedEvent
  | none =>
    { id := server.id, startedAt := server.startedAt, endedAt := server.endedAt
      lat := server.lat, lon := server.lon, title := server.title, note := server.note
      legacyExternalRef := server.legacyExternalRef, timePrecision := server.timePrecision
      plusCode := server.plusCode, participants := server.participants
      revealParticipants := server.revealParticipants }
  | some doc =>
    { id := doc.id, startedAt := doc.startedAt, endedAt := doc.endedAt
      lat := doc.lat, lon := doc.lon, title := doc.title, note := doc.note
      legacyExternalRef := doc.legacyExternalRef, timePrecision := doc.timePrecision
      plusCode := server.plusCode, participants := server.participants
      revealParticipants := doc.revealParticipants }

/-- `masking.ts`: the rule of the server once more. -/
def maskParticipants (participants : List PersonRead) (revealParticipants : Bool)
    (currentPersonId : Uuid) : List PersonRead :=
  if revealParticipants then participants
  else
    participants.map fun person =>
      if person.id = currentPersonId then person
      else { person with name := placeholder, «alias» := none, note := none }

def isMasked (person : PersonRead) : Bool := person.name = placeholder

def listedParticipants (initialEvent : EventDetail) (eventDoc : Option EventDoc)
    (currentPersonId : Uuid) : List PersonRead :=
  let event := mergeEvent initialEvent eventDoc
  maskParticipants event.participants event.revealParticipants currentPersonId

-- ---------------------------------------------------------------------------
-- Names
-- ---------------------------------------------------------------------------

structure Nameless (person : PersonRead) : Prop where
  name : person.name = placeholder ∨ person.name = "…"
  «alias» : person.alias = none
  note : person.note = none

section
variable {person : PersonRead} {participants : List PersonRead} {detail : EventDetail}
  {ids : List Uuid} {me : Uuid} {doc : Option EventDoc}

theorem nameless_anonymousPerson (id : Uuid) : Nameless (anonymousPerson id) :=
  ⟨.inr rfl, rfl, rfl⟩

theorem mem_of_byId {id : Uuid} (h : byId participants id = some person) :
    person ∈ participants ∧ person.id = id :=
  ⟨List.mem_reverse.mp (List.mem_of_find?_eq_some h), by simpa using List.find?_some h⟩

theorem byId_isSome {id : Uuid} : (byId participants id).isSome ↔
    id ∈ participants.map PersonRead.id := by
  simp [byId, List.find?_isSome]

theorem mem_mergeParticipants (h : person ∈ (mergeParticipants detail ids).participants) :
    person ∈ detail.participants ∨ Nameless person := by
  unfold mergeParticipants at h
  split at h
  · exact .inl h
  · obtain ⟨id, -, rfl⟩ := List.mem_map.mp h
    cases hid : byId detail.participants id with
    | none => exact .inr (nameless_anonymousPerson id)
    | some person => exact .inl (mem_of_byId hid).1

theorem mergeParticipants_known (h : ∀ id ∈ ids, id ∈ detail.participants.map PersonRead.id)
    (hne : ids ≠ []) :
    (mergeParticipants detail ids).participants.map PersonRead.id = ids ∧
      ∀ person ∈ (mergeParticipants detail ids).participants, person ∈ detail.participants := by
  have hlength : ids.length ≠ 0 := fun hzero => hne (List.length_eq_zero_iff.mp hzero)
  have hfound : ∀ id ∈ ids, ∃ person, byId detail.participants id = some person := fun id hid =>
    Option.isSome_iff_exists.mp (byId_isSome.mpr (h id hid))
  unfold mergeParticipants
  rw [if_neg hlength]
  constructor
  · rw [List.map_map]
    conv_rhs => rw [← List.map_id ids]
    refine List.map_congr_left fun id hid => ?_
    obtain ⟨person, hperson⟩ := hfound id hid
    simp only [Function.comp_apply, hperson, Option.getD_some, id_eq]
    exact (mem_of_byId hperson).2
  · intro person hmem
    obtain ⟨id, hid, rfl⟩ := List.mem_map.mp hmem
    obtain ⟨person, hperson⟩ := hfound id hid
    simp only [hperson, Option.getD_some]
    exact (mem_of_byId hperson).1

theorem mem_maskParticipants {reveal : Bool}
    (h : person ∈ maskParticipants participants reveal me) (hother : person.id ≠ me) :
    Nameless person ∨ person ∈ participants ∧ reveal = true := by
  unfold maskParticipants at h
  split at h
  · rename_i hreveal
    exact .inr ⟨h, hreveal⟩
  · obtain ⟨person, hmem, rfl⟩ := List.mem_map.mp h
    by_cases hid : person.id = me
    · rw [if_pos hid] at hother
      exact absurd hid hother
    · rw [if_neg hid]
      exact .inl ⟨.inl rfl, rfl, rfl⟩

end

end HcMap.Pages
