import HcMap.Lib.ReadCommitted
import HcMap.Routes.Administrators
import HcMap.Routes.Merges

/-!
# Identities

`create_user` for a person that exists and `merge_person`, side by side under
READ COMMITTED. Each request runs in one transaction, a statement at a time. A
bulk `UPDATE` takes its snapshot in one step and writes in another, when no
other open transaction has written a row it found. The foreign key of a new
user does not wait for an `UPDATE` of the person, nor the `UPDATE` for it.
Nothing here writes `person.linkable`, or `user.email` of a user that exists:
both are given by the row's id.
-/

namespace HcMap.Identity

open Services (Failure PersonMergeError retireSource repoint mergePersons)
open Admin (HTTPException personNotFound personDeleted personNotLinkable alreadyInUse)

-- ---------------------------------------------------------------------------
-- Requests
-- ---------------------------------------------------------------------------

structure Merge where
  sourceId : Uuid
  targetId : Uuid
  clock : Time

/-- `userId` is the key drawn for the new row. -/
inductive Request
  | createUser (userId existingPersonId : Uuid) (role : UserRole)
  | mergePerson (merge : Merge)

inductive Statement
  | dropOverlap
  | moveParticipants
  | movePerformer
  | moveRecipient
  deriving DecidableEq

def statements : List Statement :=
  [.dropOverlap, .moveParticipants, .movePerformer, .moveRecipient]

/-- The rows that each bulk update has written. -/
structure Writes where
  dropped : List Uuid
  moved : List Uuid
  performer : List Uuid
  recipient : List Uuid
  deriving DecidableEq

def Writes.none : Writes := ⟨[], [], [], []⟩

def Writes.locked (w : Writes) : Statement → List Uuid
  | .dropOverlap | .moveParticipants => w.dropped ++ w.moved
  | .movePerformer | .moveRecipient => w.performer ++ w.recipient

def Merge.dropLink (m : Merge) (ep : EventParticipant) : EventParticipant :=
  { ep with isDeleted := true, deletedAt := some m.clock, updatedAt := m.clock }

def Merge.moveLink (m : Merge) (ep : EventParticipant) : EventParticipant :=
  { ep with personId := m.targetId, updatedAt := m.clock }

def Merge.setPerformer (m : Merge) (a : Application) : Application :=
  { a with performerId := m.targetId, updatedAt := m.clock }

def Merge.setRecipient (m : Merge) (a : Application) : Application :=
  { a with recipientId := m.targetId, updatedAt := m.clock }

theorem Merge.key_dropLink (m : Merge) (ep : EventParticipant) : key (m.dropLink ep) = key ep := rfl
theorem Merge.key_moveLink (m : Merge) (ep : EventParticipant) : key (m.moveLink ep) = key ep := rfl
theorem Merge.key_setPerformer (m : Merge) (a : Application) : key (m.setPerformer a) = key a := rfl
theorem Merge.key_setRecipient (m : Merge) (a : Application) : key (m.setRecipient a) = key a := rfl

/-- The database as the transaction sees it. Its locks keep everyone else from
the rows it has written, so each is what the update made of the committed row. -/
def Writes.apply (w : Writes) (m : Merge) (db : Database) : Database :=
  { db with
    participants := (db.participants.updateAt w.dropped m.dropLink m.key_dropLink).updateAt w.moved
      m.moveLink m.key_moveLink
    applications := (db.applications.updateAt w.performer m.setPerformer
      m.key_setPerformer).updateAt w.recipient m.setRecipient m.key_setRecipient }

def Merge.finds (m : Merge) (seen now : Database) : Statement → List Uuid
  | .dropOverlap => Table.hits seen.participants now.participants fun ep =>
    ep.personId = m.sourceId ∧ seen.Linked ep.eventId m.targetId
  | .moveParticipants => Table.hits seen.participants now.participants fun ep =>
    ep.personId = m.sourceId ∧ ¬ ep.isDeleted
  | .movePerformer => Table.hits seen.applications now.applications fun a =>
    a.performerId = m.sourceId
  | .moveRecipient => Table.hits seen.applications now.applications fun a =>
    a.recipientId = m.sourceId

def Writes.record (w : Writes) (ids : List Uuid) : Statement → Writes
  | .dropOverlap => { w with dropped := ids }
  | .moveParticipants => { w with moved := ids }
  | .movePerformer => { w with performer := ids }
  | .moveRecipient => { w with recipient := ids }

def Merge.tombstone (m : Merge) (p : Person) : Person :=
  if p.id = m.sourceId then retireSource m.clock m.targetId p else p

theorem Merge.key_tombstone (m : Merge) (p : Person) : key (m.tombstone p) = key p := by
  unfold tombstone
  split <;> rfl

def Merge.retire (m : Merge) (db : Database) : Database :=
  { db with persons := db.persons.map m.tombstone m.key_tombstone }

-- ---------------------------------------------------------------------------
-- One request
-- ---------------------------------------------------------------------------

inductive Place
  | ready
  -- `create_user`: the person is checked, the row is flushed.
  | resolved
  | inserted (user : User)
  -- `merge_person`: the source's row is read, both rows and the users are
  -- checked, some updates are done, one has taken its snapshot, all is flushed.
  | sourceRead (source : Option Person)
  | loaded
  | between (todo : List Statement) (writes : Writes)
  | updating (statement : Statement) (todo : List Statement) (snapshot : Database)
    (writes : Writes)
  | flushed (writes : Writes)
  | succeeded
  | failed (e : HTTPException ⊕ Failure)
  -- Rolled back without an answer.
  | lost

section
variable (linkable : Uuid → Bool) (email : Uuid → String)

def Taken (db : Database) (userId personId : Uuid) : Prop :=
  ∃ u ∈ db.users, u.id = userId ∨ u.personId = personId ∨ email u.id = email userId

instance (db : Database) (userId personId : Uuid) : Decidable (Taken email db userId personId) :=
  inferInstanceAs (Decidable
    (∃ u ∈ db.users, u.id = userId ∨ u.personId = personId ∨ email u.id = email userId))

def createUser (db : Database) (userId personId : Uuid) (role : UserRole) : Place → Place
  | .ready =>
    match db.persons.find? personId with
    | none => .failed (.inl personNotFound)
    | some person =>
      if person.isDeleted then .failed (.inl personDeleted)
      else if ¬ linkable personId then .failed (.inl personNotLinkable)
      else .resolved
  | .resolved =>
    if Taken email db userId personId then .failed (.inl alreadyInUse)
    else .inserted ⟨userId, role, true, personId⟩
  | p => p

def checkPersons : Option Person → Option Person → Except PersonMergeError Unit
  | none, _ => .error .sourceNotFound
  | some _, none => .error .targetNotFound
  | some source, some target =>
    if source.isDeleted then .error .sourceDeleted
    else if target.isDeleted then .error .targetDeleted
    else .ok ()

def mergePerson (db : Database) (m : Merge) : Place → Place
  | .ready =>
    if m.sourceId = m.targetId then .failed (.inr (.merge .sameSourceAndTarget))
    else .sourceRead (db.persons.find? m.sourceId)
  | .sourceRead source =>
    match checkPersons source (db.persons.find? m.targetId) with
    | .error e => .failed (.inr (.merge e))
    | .ok _ => .loaded
  | .loaded =>
    if ∃ u ∈ db.users, u.personId = m.sourceId ∨ u.personId = m.targetId then
      .failed (.inr (.merge .linkedToUser))
    else .between statements .none
  | .between (statement :: todo) w => .updating statement todo db w
  | .between [] w => .flushed w
  | .updating statement todo snapshot w =>
    let w' := w.record (m.finds (w.apply m snapshot) (w.apply m db) statement) statement
    -- `UNIQUE(event_id, person_id)`
    if statement = .moveParticipants ∧ ¬ (w'.apply m db).LinksUnique then
      .failed (.inr (.raised .integrity))
    else .between todo w'
  | p => p

def Request.next (db : Database) : Request → Place → Place
  | .createUser userId personId role => Identity.createUser linkable email db userId personId role
  | .mergePerson m => Identity.mergePerson db m

-- ---------------------------------------------------------------------------
-- Waiting
-- ---------------------------------------------------------------------------

def Place.writes : Place → Writes
  | .between _ w | .updating _ _ _ w | .flushed w => w
  | _ => .none

/-- Moving one of the links waits for what `q` does with the target's links of
the same event. -/
def AwaitsKey (m m' : Merge) (db : Database) (w w' : Writes) (ids : List Uuid) : Prop :=
  ∃ ep ∈ (w.apply m db).participants, ep.id ∈ ids ∧
    ∃ x ∈ db.participants.rows ++ (w'.apply m' db).participants.rows,
      x.id ∈ w'.locked .moveParticipants ∧ x.eventId = ep.eventId ∧ x.personId = m.targetId

instance (m m' : Merge) (db : Database) (w w' : Writes) (ids : List Uuid) :
    Decidable (AwaitsKey m m' db w w' ids) :=
  inferInstanceAs (Decidable (∃ ep ∈ (w.apply m db).participants, ep.id ∈ ids ∧
    ∃ x ∈ db.participants.rows ++ (w'.apply m' db).participants.rows,
      x.id ∈ w'.locked .moveParticipants ∧ x.eventId = ep.eventId ∧ x.personId = m.targetId))

def Waits (db : Database) : Request → Place → Request → Place → Prop
  | .createUser userId personId _, .resolved, .createUser .., .inserted user =>
    user.id = userId ∨ user.personId = personId ∨ email user.id = email userId
  | .mergePerson m, .updating statement _ snapshot w, .mergePerson m', q =>
    let ids := m.finds (w.apply m snapshot) (w.apply m snapshot) statement
    (∃ id ∈ ids, id ∈ q.writes.locked statement) ∨
      (statement = .moveParticipants ∧ AwaitsKey m m' db w q.writes ids)
  | .mergePerson m, .between [] _, .mergePerson m', .flushed _ => m.sourceId = m'.sourceId
  | _, _, _, _ => False

instance (db : Database) (r : Request) (p : Place) (r' : Request) (q : Place) :
    Decidable (Waits email db r p r' q) := by
  unfold Waits
  split <;> infer_instance

end

-- ---------------------------------------------------------------------------
-- All requests
-- ---------------------------------------------------------------------------

structure Server (ι : Type) where
  db : Database
  begun : List ι
  place : ι → Place

inductive Act (ι : Type)
  | advance (i : ι)
  | commit (i : ι)
  | abort (i : ι)

namespace Server

variable {ι : Type} [DecidableEq ι] (linkable : Uuid → Bool) (email : Uuid → String)
  (requests : ι → Request)

def start (db : Database) : Server ι := ⟨db, [], fun _ => .ready⟩

def goto (s : Server ι) (i : ι) (p : Place) : Server ι :=
  { s with place := Function.update s.place i p }

def Blocked (s : Server ι) (i : ι) : Prop :=
  ∃ j ∈ s.begun, j ≠ i ∧ Waits email s.db (requests i) (s.place i) (requests j) (s.place j)

instance (s : Server ι) (i : ι) : Decidable (s.Blocked email requests i) :=
  inferInstanceAs (Decidable (∃ j ∈ s.begun, j ≠ i ∧
    Waits email s.db (requests i) (s.place i) (requests j) (s.place j)))

def advance (s : Server ι) (i : ι) : Server ι :=
  if s.Blocked email requests i then s
  else
    { s.goto i ((requests i).next linkable email s.db (s.place i)) with begun := i :: s.begun }

/-- No user has the new row's id by now. -/
def commit (s : Server ι) (i : ι) : Server ι :=
  match requests i, s.place i with
  | .createUser .., .inserted user =>
    { s.goto i .succeeded with db := { s.db with users := s.db.users.put user } }
  | .mergePerson m, .flushed w => { s.goto i .succeeded with db := m.retire (w.apply m s.db) }
  | _, _ => s

def abort (s : Server ι) (i : ι) : Server ι :=
  match s.place i with
  | .succeeded | .failed _ => s
  | _ => s.goto i .lost

def step (s : Server ι) : Act ι → Server ι
  | .advance i => s.advance linkable email requests i
  | .commit i => s.commit requests i
  | .abort i => s.abort i

end Server

-- ---------------------------------------------------------------------------
-- Persons that are merged away
-- ---------------------------------------------------------------------------

structure Unreferenced (db : Database) (pid : Uuid) : Prop where
  users : ∀ u ∈ db.users, u.personId ≠ pid
  participants : ∀ ep ∈ db.participants, ep.personId = pid → ep.isDeleted
  applications : ∀ a ∈ db.applications, a.performerId ≠ pid ∧ a.recipientId ≠ pid

def NobodysIdentity (db : Database) : Prop :=
  ∀ p ∈ db.persons, p.isDeleted → Unreferenced db p.id

instance (db : Database) (pid : Uuid) : Decidable (Unreferenced db pid) :=
  decidable_of_iff ((∀ u ∈ db.users, u.personId ≠ pid) ∧
      (∀ ep ∈ db.participants, ep.personId = pid → ep.isDeleted) ∧
      ∀ a ∈ db.applications, a.performerId ≠ pid ∧ a.recipientId ≠ pid)
    ⟨fun ⟨hu, hp, ha⟩ => ⟨hu, hp, ha⟩, fun h => ⟨h.users, h.participants, h.applications⟩⟩

instance (db : Database) : Decidable (NobodysIdentity db) :=
  inferInstanceAs (Decidable (∀ p ∈ db.persons, p.isDeleted → Unreferenced db p.id))

/-- What the commit needs: the person of a new user is live; nothing refers to the
source of a merge, nor to its target if that is tombstoned by now. -/
def Holds (db : Database) : Request → Place → Prop
  | .createUser .., .inserted user => ∀ p ∈ db.persons, p.id = user.personId → ¬ p.isDeleted
  | .mergePerson m, .flushed w => ∀ p ∈ db.persons,
    p.id = m.sourceId ∨ (p.id = m.targetId ∧ p.isDeleted) → Unreferenced (w.apply m db) p.id
  | _, _ => True

section
variable {db : Database} {m : Merge} {w : Writes} {pid : Uuid} {user : User}

theorem mem_links_apply {ep : EventParticipant} (h : ep ∈ (w.apply m db).participants) :
    ep.personId = m.targetId ∨ ∃ r ∈ db.participants, ep.personId = r.personId ∧
      (r.isDeleted → ep.isDeleted) := by
  obtain ⟨x, hx, rfl⟩ := (Table.mem_updateAt m.key_moveLink).mp h
  have hdropped : ∃ r ∈ db.participants, x.personId = r.personId ∧
      (r.isDeleted → x.isDeleted) := by
    obtain ⟨r, hr, rfl⟩ := (Table.mem_updateAt m.key_dropLink).mp hx
    refine ⟨r, hr, ?_⟩
    split
    · exact ⟨rfl, fun _ => rfl⟩
    · exact ⟨rfl, id⟩
  split
  · exact .inl rfl
  · exact .inr hdropped

theorem mem_applications_apply {a : Application} (h : a ∈ (w.apply m db).applications) :
    ∃ r ∈ db.applications,
      a.performerId = (if r.id ∈ w.performer then m.targetId else r.performerId) ∧
      a.recipientId = (if r.id ∈ w.recipient then m.targetId else r.recipientId) := by
  obtain ⟨x, hx, rfl⟩ := (Table.mem_updateAt m.key_setRecipient).mp h
  obtain ⟨r, hr, rfl⟩ := (Table.mem_updateAt m.key_setPerformer).mp hx
  have hkey : key (if key r ∈ w.performer then m.setPerformer r else r) = r.id := by
    split <;> rfl
  have hid : key r = r.id := rfl
  refine ⟨r, hr, ?_⟩
  rw [hkey, hid]
  split <;> split <;> exact ⟨rfl, rfl⟩

theorem Unreferenced.apply (h : Unreferenced db pid) (hne : m.targetId ≠ pid) :
    Unreferenced (w.apply m db) pid where
  users := h.users
  participants ep hep hperson := by
    rcases mem_links_apply hep with htarget | ⟨r, hr, hsame, hdeleted⟩
    · exact absurd (htarget.symm.trans hperson) hne
    · exact hdeleted (h.participants r hr (hsame.symm.trans hperson))
  applications a ha := by
    obtain ⟨r, hr, hperformer, hrecipient⟩ := mem_applications_apply ha
    obtain ⟨hp, hq⟩ := h.applications r hr
    rw [hperformer, hrecipient]
    constructor
    · split
      · exact hne
      · exact hp
    · split
      · exact hne
      · exact hq

theorem unreferenced_retire : Unreferenced (m.retire db) pid ↔ Unreferenced db pid :=
  ⟨fun h => ⟨h.users, h.participants, h.applications⟩,
    fun h => ⟨h.users, h.participants, h.applications⟩⟩

/-- A commit of a merge leaves no tombstoned person referenced exactly if it has
what it needs. -/
theorem nobodysIdentity_merge (h : NobodysIdentity db) :
    NobodysIdentity (m.retire (w.apply m db)) ↔ Holds db (.mergePerson m) (.flushed w) := by
  constructor
  · intro hafter p hp hor
    have hmem : m.tombstone p ∈ db.persons.map m.tombstone m.key_tombstone :=
      Table.mem_map_of_mem hp
    have hdeleted : (m.tombstone p).isDeleted := by
      unfold Merge.tombstone
      by_cases hsource : p.id = m.sourceId
      · rw [if_pos hsource]
        rfl
      · rw [if_neg hsource]
        exact (hor.resolve_left hsource).2
    have hid : (m.tombstone p).id = p.id := m.key_tombstone p
    rw [← hid]
    exact unreferenced_retire.mp (hafter _ hmem hdeleted)
  · intro hholds p hp hdeleted
    have hmem : p ∈ db.persons.map m.tombstone m.key_tombstone := hp
    obtain ⟨r, hr, rfl⟩ := Table.mem_map.mp hmem
    rw [unreferenced_retire]
    have hid : (m.tombstone r).id = r.id := m.key_tombstone r
    rw [hid]
    by_cases hsource : r.id = m.sourceId
    · exact hholds r hr (.inl hsource)
    · rw [Merge.tombstone, if_neg hsource] at hdeleted
      by_cases htarget : r.id = m.targetId
      · exact hholds r hr (.inr ⟨htarget, hdeleted⟩)
      · exact (h r hr hdeleted).apply (Ne.symm htarget)

theorem nobodysIdentity_createUser {userId personId : Uuid} {role : UserRole}
    (h : NobodysIdentity db) :
    NobodysIdentity { db with users := db.users.put user } ↔
      Holds db (.createUser userId personId role) (.inserted user) := by
  constructor
  · intro hafter p hp hperson hdeleted
    exact (hafter p hp hdeleted).users user Table.mem_put_self hperson.symm
  · intro hholds p hp hdeleted
    obtain ⟨husers, hlinks, happs⟩ := h p hp hdeleted
    refine ⟨fun u hu => ?_, hlinks, happs⟩
    rcases Table.mem_put hu with hu | rfl
    · exact husers u hu
    · exact fun hperson => hholds p hp hperson.symm hdeleted

end

def Place.Finished : Place → Prop
  | .succeeded | .failed _ | .lost => True
  | _ => False

instance : ∀ p : Place, Decidable p.Finished
  | .succeeded | .failed _ | .lost => .isTrue trivial
  | .ready | .resolved | .inserted _ | .sourceRead _ | .loaded | .between .. | .updating ..
  | .flushed _ => .isFalse id

def alone {ι : Type} (i : ι) : List (Act ι) := List.replicate 12 (.advance i) ++ [.commit i]

def sampleGuests : Database :=
  { sample with
    persons := ⟨sample.persons.rows ++ [⟨5, "E", none, none, false, none⟩,
      ⟨6, "F", none, none, false, none⟩], by decide⟩
    participants := ⟨sample.participants.rows ++ [⟨3, 1, 4, 10, 10, false, none⟩], by decide⟩ }

def linkAndMerge : Bool → Request
  | true => .createUser 9 4 .viewer
  | false => .mergePerson ⟨4, 5, 200⟩

def mergeChain : Bool → Request
  | true => .mergePerson ⟨4, 5, 200⟩
  | false => .mergePerson ⟨5, 6, 201⟩

abbrev sampleStep (requests : Bool → Request) : Server Bool → Act Bool → Server Bool :=
  Server.step (fun _ => true) (fun id => toString id) requests

/-- A whole merge between the statements of `create_user`, and a whole merge of
the target between the checks of a merge and its updates. -/
theorem merged_person_referenced :
    NobodysIdentity sampleGuests ∧
      (let s := Run.run (sampleStep linkAndMerge) (Server.start sampleGuests)
        ([.advance true] ++ alone false ++ [.advance true, .commit true])
      (∀ i, (s.place i).Finished) ∧ ¬ NobodysIdentity s.db) ∧
      (let s := Run.run (sampleStep mergeChain) (Server.start sampleGuests)
        (List.replicate 3 (.advance true) ++ alone false ++ List.replicate 9 (.advance true) ++
          [.commit true])
      (∀ i, (s.place i).Finished) ∧ ¬ NobodysIdentity s.db) := by
  decide

end HcMap.Identity
