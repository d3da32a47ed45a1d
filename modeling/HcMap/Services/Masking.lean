import HcMap.Lib.Sort
import HcMap.Services.Events

/-!
# Participants of an event, masked

`list_participants`, the projection of `app/services/masking.py`, and the
helpers of `app/routes/events.py` that answer with them. What a requester may
not see of a person is hidden in a copy of the database; two databases look
alike to a session when their copies are equal.
-/

namespace HcMap.Services

inductive PersonOrigin
  | managed
  | onTheFly
  deriving DecidableEq, Repr

structure PersonColumns where
  origin : PersonOrigin
  linkable : Bool
  createdAt : Time
  deriving DecidableEq

structure PersonRead where
  id : Uuid
  name : String
  «alias» : Option String
  note : Option String
  origin : PersonOrigin
  linkable : Bool
  isDeleted : Bool
  deletedAt : Option Time
  createdAt : Time
  deriving DecidableEq

structure EventDetail where
  id : Uuid
  startedAt : Time
  endedAt : Option Time
  lat : Numeric 90
  lon : Numeric 180
  revealParticipants : Bool
  title : Option Text
  note : Option Text
  timePrecision : TimePrecision
  legacyExternalRef : Option Text
  createdBy : Option Uuid
  createdAt : Time
  updatedAt : Time
  plusCode : String
  participants : List PersonRead
  deriving DecidableEq

def placeholder : String := "[verborgen]"

section
variable (columns : Uuid → PersonColumns) (event : Event) (s : Session)

def readPerson (person : Person) : PersonRead where
  id := person.id
  name := person.name
  «alias» := person.alias
  note := person.note
  origin := (columns person.id).origin
  linkable := (columns person.id).linkable
  isDeleted := person.isDeleted
  deletedAt := person.deletedAt
  createdAt := (columns person.id).createdAt

/-- The real person or a masked one. -/
def projectParticipant (person : Person) : PersonRead :=
  if event.revealParticipants then readPerson columns person
  else if person.id = s.personId then readPerson columns person
  else { readPerson columns person with name := placeholder, «alias» := none, note := none }

end

section
variable (le : String → String → Prop) [DecidableRel le] (columns : Uuid → PersonColumns)
  (encodePlusCode : Numeric 90 → Numeric 180 → String) (db : Database) (s : Session)
  (eventId : Uuid)

/-- The join on `event_participant`, a tombstoned link included. -/
def joinParticipants : List Person :=
  (db.participants.rows.filter fun ep =>
    participantVisible db s ep ∧ ep.eventId = eventId).filterMap
      fun ep => db.persons.find? ep.personId

/-- `le` is the collation of the names; persons of one name stay in the order
of their links. -/
def listParticipants : List Person :=
  (joinParticipants db s eventId).insertionSort fun p q => le p.name q.name

def participantsOf : List PersonRead :=
  match getEvent db s eventId with
  | none => []
  | some event => (listParticipants le db s eventId).map (projectParticipant columns event s)

def buildDetail : Except Failure EventDetail :=
  match getEvent db s eventId with
  | none => .error .notFound
  | some event =>
    .ok
      { id := event.id
        startedAt := event.startedAt
        endedAt := event.endedAt
        lat := event.lat
        lon := event.lon
        revealParticipants := event.revealParticipants
        title := event.title
        note := event.note
        timePrecision := event.timePrecision
        legacyExternalRef := event.legacyExternalRef
        createdBy := event.createdBy
        createdAt := event.createdAt
        updatedAt := event.updatedAt
        plusCode := encodePlusCode event.lat event.lon
        participants := participantsOf le columns db s eventId }

end

-- ---------------------------------------------------------------------------
-- What is hidden
-- ---------------------------------------------------------------------------

/-- The person without the columns that masking hides from the session. -/
def hidePerson (s : Session) (person : Person) : Person :=
  if person.id = s.personId then person
  else { person with name := "", «alias» := none, note := none }

@[simp] theorem hidePerson_id (s : Session) (person : Person) :
    (hidePerson s person).id = person.id := by
  unfold hidePerson
  split <;> rfl

/-- Two databases with the same hidden copy differ only in the name, alias and
note of persons other than the session's own. -/
def hiddenCopy (db : Database) (s : Session) : Database :=
  { db with persons := db.persons.map (hidePerson s) (hidePerson_id s) }

section
variable {columns : Uuid → PersonColumns} {db db' : Database} {s : Session} {event : Event}
  {eid : Uuid} {p : Person}

theorem projectParticipant_hidePerson (hmasked : event.revealParticipants = false) :
    projectParticipant columns event s (hidePerson s p) =
      projectParticipant columns event s p := by
  by_cases hp : p.id = s.personId
  · rw [hidePerson, if_pos hp]
  · simp [projectParticipant, hidePerson, hmasked, hp, readPerson]

@[simp] theorem projectParticipant_id :
    (projectParticipant columns event s p).id = p.id := by
  unfold projectParticipant
  split
  · rfl
  · split <;> rfl

theorem find?_hidden (id : Uuid) :
    (hiddenCopy db s).persons.find? id = (db.persons.find? id).map (hidePerson s) := by
  rw [hiddenCopy, Table.find?_map]

theorem mem_joinParticipants (h : p ∈ joinParticipants db s eid) :
    db.persons.find? p.id = some p := by
  obtain ⟨ep, -, hfind⟩ := List.mem_filterMap.mp h
  have hid : p.id = ep.personId := Table.key_of_find? hfind
  rw [hid]
  exact hfind

-- ---------------------------------------------------------------------------
-- The order of the list
-- ---------------------------------------------------------------------------

def listed (db : Database) (s : Session) (eid : Uuid) : List Uuid :=
  (joinParticipants db s eid).map Person.id

theorem listed_hidden : listed (hiddenCopy db s) s eid = listed db s eid := by
  unfold listed joinParticipants
  rw [List.map_filterMap, List.map_filterMap]
  refine congrArg (List.filterMap · _) (funext fun ep => ?_)
  rw [find?_hidden, Option.map_map]
  congr 1
  exact funext (hidePerson_id s)

theorem mem_listed {id : Uuid} :
    id ∈ listed db s eid ↔ (db.persons.find? id).isSome ∧
      ∃ ep ∈ db.participants, participantVisible db s ep ∧ ep.eventId = eid ∧ ep.personId = id := by
  constructor
  · intro h
    obtain ⟨p, hp, rfl⟩ := List.mem_map.mp h
    refine ⟨by rw [mem_joinParticipants hp]; rfl, ?_⟩
    obtain ⟨ep, hep, hfind⟩ := List.mem_filterMap.mp hp
    obtain ⟨hmem, hlink⟩ := List.mem_filter.mp hep
    obtain ⟨hvisible, hevent⟩ := of_decide_eq_true hlink
    exact ⟨ep, hmem, hvisible, hevent, (Table.key_of_find? hfind).symm⟩
  · rintro ⟨hfound, ep, hmem, hvisible, hevent, rfl⟩
    obtain ⟨p, hfind⟩ := Option.isSome_iff_exists.mp hfound
    have hlink : ep ∈ db.participants.rows.filter fun ep =>
        participantVisible db s ep ∧ ep.eventId = eid :=
      List.mem_filter.mpr ⟨hmem, decide_eq_true ⟨hvisible, hevent⟩⟩
    exact List.mem_map.mpr
      ⟨p, List.mem_filterMap.mpr ⟨ep, hlink, hfind⟩, Table.key_of_find? hfind⟩

theorem nodup_listed (hunique : db.LinksUnique) : (listed db s eid).Nodup := by
  unfold listed joinParticipants
  rw [List.Nodup, List.pairwise_map, List.pairwise_filterMap, List.pairwise_filter]
  have hrows : db.participants.rows.Pairwise fun ep ep' => ep.id ≠ ep'.id :=
    List.pairwise_map.mp db.participants.nodup
  refine hrows.imp_of_mem fun {ep ep'} hep hep' hne hlink hlink' p hp p' hp' hid => hne ?_
  have hperson : ep.personId = ep'.personId :=
    (Table.key_of_find? hp).symm.trans (hid.trans (Table.key_of_find? hp'))
  have hevent := (of_decide_eq_true hlink).2.trans (of_decide_eq_true hlink').2.symm
  rw [hunique ep hep ep' hep' hevent hperson]

def nameOf (db : Database) (id : Uuid) : String := ((db.persons.find? id).map Person.name).getD ""

theorem nameOf_eq (h : db.persons.find? p.id = some p) : nameOf db p.id = p.name := by
  rw [nameOf, h]
  rfl

/-- `order_by` compares two persons of the list alike in both databases. Of
two persons, the one whose link stands first comes first among equals. -/
def SameOrder (le : String → String → Prop) (db db' : Database) (ids : List Uuid) : Prop :=
  ids.Pairwise fun i j => le (nameOf db i) (nameOf db j) ↔ le (nameOf db' i) (nameOf db' j)

section
variable (le : String → String → Prop) [DecidableRel le] (db db' : Database) (s : Session)
  (eid : Uuid)

instance (ids : List Uuid) : Decidable (SameOrder le db db' ids) := by
  unfold SameOrder
  infer_instance

theorem listParticipants_ids :
    (listParticipants le db s eid).map Person.id =
      (listed db s eid).insertionSort fun i j => le (nameOf db i) (nameOf db j) := by
  refine List.map_insertionSort _ _ _ _ fun p hp q hq => ?_
  rw [nameOf_eq (mem_joinParticipants hp), nameOf_eq (mem_joinParticipants hq)]

theorem listParticipants_perm :
    ((listParticipants le db s eid).map Person.id).Perm (listed db s eid) := by
  rw [listParticipants_ids]
  exact List.perm_insertionSort _ _

theorem listParticipants_hidden :
    (listParticipants le db s eid).map (some ∘ hidePerson s) =
      ((listed db s eid).insertionSort fun i j => le (nameOf db i) (nameOf db j)).map
        (hiddenCopy db s).persons.find? := by
  rw [← listParticipants_ids, List.map_map]
  refine List.map_congr_left fun p hp => ?_
  have hfind := mem_joinParticipants ((List.mem_insertionSort _).mp hp)
  simp only [Function.comp_apply, find?_hidden, hfind, Option.map_some]

end

variable {le : String → String → Prop} [DecidableRel le]

theorem map_projectParticipant (hmasked : event.revealParticipants = false) :
    ((listParticipants le db s eid).map (projectParticipant columns event s)).map some =
      ((listed db s eid).insertionSort fun i j => le (nameOf db i) (nameOf db j)).map
        fun id =>
          ((hiddenCopy db s).persons.find? id).map (projectParticipant columns event s) := by
  have h := congrArg (List.map (Option.map (projectParticipant columns event s)))
    (listParticipants_hidden le db s eid)
  rw [List.map_map, List.map_map] at h
  rw [List.map_map]
  refine Eq.trans (List.map_congr_left fun p _ => ?_) h
  simp only [Function.comp_apply, Option.map_some, projectParticipant_hidePerson hmasked]

variable [Std.Total le] [IsTrans String le]

/-- Two databases that look alike answer with the same list for a masked event
exactly when the hidden names stand in the same order. -/
theorem map_projectParticipant_eq_iff (h : hiddenCopy db s = hiddenCopy db' s)
    (hmasked : event.revealParticipants = false) :
    (listParticipants le db s eid).map (projectParticipant columns event s) =
        (listParticipants le db' s eid).map (projectParticipant columns event s) ↔
      SameOrder le db db' (listed db s eid) := by
  have hlisted : listed db s eid = listed db' s eid := by
    rw [← listed_hidden, h, listed_hidden]
  have htotal : ∀ d, Std.Total fun i j => le (nameOf d i) (nameOf d j) :=
    fun d => ⟨fun i j => Std.Total.total (nameOf d i) (nameOf d j)⟩
  have htrans : ∀ d, IsTrans Uuid fun i j => le (nameOf d i) (nameOf d j) :=
    fun d => ⟨fun i j k => IsTrans.trans (nameOf d i) (nameOf d j) (nameOf d k)⟩
  have := htotal db
  have := htotal db'
  have := htrans db
  have := htrans db'
  refine Iff.trans ?_ StableSort.insertionSort_eq_iff
  constructor
  · intro hanswer
    have hids := congrArg (List.map PersonRead.id) hanswer
    simp only [List.map_map, Function.comp_def, projectParticipant_id] at hids
    rw [listParticipants_ids, listParticipants_ids, ← hlisted] at hids
    exact hids
  · intro hids
    refine List.map_injective_iff.mpr (Option.some_injective _) ?_
    rw [map_projectParticipant hmasked, map_projectParticipant hmasked, ← h, ← hlisted, hids]

end

end HcMap.Services
