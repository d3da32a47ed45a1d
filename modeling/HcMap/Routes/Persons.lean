import HcMap.Lib.Run
import HcMap.Routes.Administrators
import HcMap.Services.PersonMerge

/-!
# Persons

`app/routes/persons.py`, `app/services/persons.py`, and the merge and the user
creation of `app/routes/admin.py` as far as they read or write persons, side by
side under READ COMMITTED. A request loads the row it changes, and its `UPDATE`
writes the columns that it changed onto the row it then finds. What a merge does
to links and applications is in `Services.PersonMerge`; the columns that no
endpoint here reads are left out.
-/

namespace HcMap.Persons

open Admin Run
open Catalog (setColumn)
open Services (PersonMergeError retireSource)

-- ---------------------------------------------------------------------------
-- Rows and requests
-- ---------------------------------------------------------------------------

inductive PersonOrigin
  | managed
  | onTheFly
  deriving DecidableEq

structure PersonRow extends LinkablePerson where
  origin : PersonOrigin
  deriving DecidableEq

instance : Keyed PersonRow Uuid := ⟨fun p => p.id⟩

@[simp] theorem key_personRow (p : PersonRow) : key p = p.id := rfl

structure PersonQuickCreate where
  name : String
  «alias» : Option String

/-- A field that is not set is `none`; one that is set may still be null. -/
structure PersonUpdate where
  name : Option (Option String)
  «alias» : Option (Option String)
  note : Option (Option String)
  linkable : Option (Option Bool)

/-- `personId` and `userId` of a creation are the keys drawn for the new rows. -/
inductive Operation
  | createPerson (personId : Uuid) (payload : PersonCreate)
  | quickCreatePerson (personId : Uuid) (payload : PersonQuickCreate)
  | patchPerson (personId : Uuid) (payload : PersonUpdate)
  | anonymizePerson (personId : Uuid)
  | mergePerson (sourceId targetId : Uuid)
  | createUser (userId personId : Uuid) (payload : AdminUserCreate)

structure Request where
  role : UserRole
  operation : Operation

def Operation.roles : Operation → List UserRole
  | .quickCreatePerson _ _ => [.admin, .editor]
  | _ => [.admin]

inductive Failure
  | http (e : HTTPException)
  | merge (e : PersonMergeError)
  deriving DecidableEq

-- ---------------------------------------------------------------------------
-- The endpoints
-- ---------------------------------------------------------------------------

inductive Write
  | insertPerson (person : PersonRow)
  | updatePerson (loaded new : PersonRow)
  | insertUser (user : Account) (person : Option PersonRow)
  deriving DecidableEq

def createPerson (personId : Uuid) (payload : PersonCreate) : PersonRow where
  id := personId
  name := payload.name
  «alias» := payload.alias
  note := payload.note
  linkable := payload.linkable
  isDeleted := false
  deletedAt := none
  origin := .managed

/-- Spontaneous persons are never linkable (Regel-004). -/
def quickCreatePerson (personId : Uuid) (payload : PersonQuickCreate) : PersonRow where
  id := personId
  name := payload.name
  «alias» := payload.alias
  note := none
  linkable := false
  isDeleted := false
  deletedAt := none
  origin := .onTheFly

/-- The `setattr` loop. No null fits `name` or `linkable`, which the flush finds. -/
def updatePerson (person : PersonRow) (payload : PersonUpdate) : Except Failure PersonRow :=
  if payload.name = some none ∨ payload.linkable = some none then .error (.http serverError)
  else .ok { person with
    name := (payload.name.getD (some person.name)).getD person.name
    «alias» := payload.alias.getD person.alias
    note := payload.note.getD person.note
    linkable := (payload.linkable.getD (some person.linkable)).getD person.linkable }

def anonymizePerson (now : Time) (person : PersonRow) : PersonRow :=
  { person with
    name := "[gelöscht]"
    «alias» := none
    note := none
    isDeleted := true
    deletedAt := some now }

def retire (now : Time) (targetId : Uuid) (source : PersonRow) : PersonRow :=
  { source with toPerson := retireSource now targetId source.toPerson }

def resolvePersonForUser (persons : Table PersonRow) (personId : Uuid)
    (payload : AdminUserCreate) : Except Failure (Uuid × Option PersonRow) :=
  match payload.existingPersonId, payload.newPerson with
  | some existingPersonId, _ =>
    match persons.find? existingPersonId with
    | none => .error (.http personNotFound)
    | some person =>
      if person.isDeleted then .error (.http personDeleted)
      else if ¬ person.linkable then .error (.http personNotLinkable)
      else .ok (person.id, none)
  | none, some new => .ok (personId, some (createPerson personId new))
  | none, none => .error (.http serverError)

def createUser (persons : Table PersonRow) (userId personId : Uuid) (payload : AdminUserCreate) :
    Except Failure Write := do
  let (personId, person) ← resolvePersonForUser persons personId payload
  pure (.insertUser
    { id := userId
      email := payload.email
      isActive := true
      isVerified := payload.isVerified
      role := payload.role
      personId := personId
      displayName := payload.displayName } person)

/-- The `UPDATE` by primary key: the changed columns, onto the row it finds. -/
def flushUpdate (loaded new current : PersonRow) : PersonRow :=
  { current with
    name := setColumn loaded.name new.name current.name
    «alias» := setColumn loaded.alias new.alias current.alias
    note := setColumn loaded.note new.note current.note
    linkable := setColumn loaded.linkable new.linkable current.linkable
    isDeleted := setColumn loaded.isDeleted new.isDeleted current.isDeleted
    deletedAt := setColumn loaded.deletedAt new.deletedAt current.deletedAt }

-- ---------------------------------------------------------------------------
-- Transactions
-- ---------------------------------------------------------------------------

inductive Place
  | ready
  -- `merge_persons` has read the source, and not yet the target and the users.
  | sourceRead (source : PersonRow)
  | running (write : Write)
  | succeeded
  | failed (e : Failure)
  deriving DecidableEq

structure Server (ι : Type) where
  persons : Table PersonRow
  accounts : Table Account
  place : ι → Place

/-- A flush and its commit are one step: whoever wants the row waits for it. -/
inductive Act (ι : Type)
  | load (i : ι) (now : Time)
  | check (i : ι) (now : Time)
  | commit (i : ι)

namespace Server

variable {ι : Type} [DecidableEq ι] (requests : ι → Request)

def start (persons : Table PersonRow) (accounts : Table Account) : Server ι :=
  ⟨persons, accounts, fun _ => .ready⟩

def goto (s : Server ι) (i : ι) (p : Place) : Server ι :=
  { s with place := Function.update s.place i p }

def prepare (s : Server ι) (now : Time) : Operation → Place
  | .createPerson personId payload => .running (.insertPerson (createPerson personId payload))
  | .quickCreatePerson personId payload =>
    .running (.insertPerson (quickCreatePerson personId payload))
  | .patchPerson personId payload =>
    match s.persons.find? personId with
    | none => .failed (.http notFound)
    | some person =>
      match updatePerson person payload with
      | .error e => .failed e
      | .ok new => .running (.updatePerson person new)
  | .anonymizePerson personId =>
    match s.persons.find? personId with
    | none => .failed (.http notFound)
    | some person => .running (.updatePerson person (Persons.anonymizePerson now person))
  | .mergePerson sourceId targetId =>
    if sourceId = targetId then .failed (.merge .sameSourceAndTarget)
    else match s.persons.find? sourceId with
      | none => .failed (.merge .sourceNotFound)
      | some source => .sourceRead source
  | .createUser userId personId payload =>
    match Persons.createUser s.persons userId personId payload with
    | .error e => .failed e
    | .ok write => .running write

def load (s : Server ι) (i : ι) (now : Time) : Server ι :=
  match s.place i with
  | .ready =>
    if (requests i).role ∈ (requests i).operation.roles then
      s.goto i (s.prepare now (requests i).operation)
    else s.goto i (.failed (.http insufficientRole))
  | _ => s

def checkMerge (s : Server ι) (now : Time) (source : PersonRow) (targetId : Uuid) : Place :=
  match s.persons.find? targetId with
  | none => .failed (.merge .targetNotFound)
  | some target =>
    if source.isDeleted then .failed (.merge .sourceDeleted)
    else if target.isDeleted then .failed (.merge .targetDeleted)
    else if ∃ u ∈ s.accounts, u.personId = source.id ∨ u.personId = targetId then
      .failed (.merge .linkedToUser)
    else .running (.updatePerson source (retire now targetId source))

def check (s : Server ι) (i : ι) (now : Time) : Server ι :=
  match s.place i, (requests i).operation with
  | .sourceRead source, .mergePerson _ targetId => s.goto i (s.checkMerge now source targetId)
  | _, _ => s

def Taken (s : Server ι) (user : Account) : Prop :=
  ∃ a ∈ s.accounts, a.id = user.id ∨ a.email = user.email ∨ a.personId = user.personId

instance (s : Server ι) (user : Account) : Decidable (s.Taken user) :=
  inferInstanceAs (Decidable
    (∃ a ∈ s.accounts, a.id = user.id ∨ a.email = user.email ∨ a.personId = user.personId))

def apply (s : Server ι) : Write → Except Failure (Server ι)
  | .insertPerson person =>
    match s.persons.insert? person with
    | none => .error (.http serverError)
    | some persons => .ok { s with persons := persons }
  | .updatePerson loaded new =>
    match s.persons.find? loaded.id with
    | none => .error (.http serverError)
    | some current => .ok { s with persons := s.persons.set (flushUpdate loaded new current) }
  | .insertUser user person =>
    match person.elim (some s.persons) s.persons.insert? with
    | none => .error (.http serverError)
    | some persons =>
      if s.Taken user then .error (.http alreadyInUse)
      else match s.accounts.insert? user with
        | none => .error (.http alreadyInUse)
        | some accounts => .ok { s with persons := persons, accounts := accounts }

def commit (s : Server ι) (i : ι) : Server ι :=
  match s.place i with
  | .running write =>
    match s.apply write with
    | .error e => s.goto i (.failed e)
    | .ok s' => s'.goto i .succeeded
  | _ => s

def step (s : Server ι) : Act ι → Server ι
  | .load i now => s.load requests i now
  | .check i now => s.check requests i now
  | .commit i => s.commit i

end Server

-- ---------------------------------------------------------------------------
-- What a step can do
-- ---------------------------------------------------------------------------

section
variable {ι : Type} [DecidableEq ι]

inductive Prepared (s : Server ι) : Operation → Place → Prop
  | create {personId payload} :
    Prepared s (.createPerson personId payload)
      (.running (.insertPerson (createPerson personId payload)))
  | quickCreate {personId payload} :
    Prepared s (.quickCreatePerson personId payload)
      (.running (.insertPerson (quickCreatePerson personId payload)))
  | patch {personId payload person new} (hfind : s.persons.find? personId = some person)
      (hnew : updatePerson person payload = .ok new) :
    Prepared s (.patchPerson personId payload) (.running (.updatePerson person new))
  | anonymize {personId now person} (hfind : s.persons.find? personId = some person) :
    Prepared s (.anonymizePerson personId)
      (.running (.updatePerson person (anonymizePerson now person)))
  | merge {sourceId targetId source} (hfind : s.persons.find? sourceId = some source) :
    Prepared s (.mergePerson sourceId targetId) (.sourceRead source)
  | link {userId personId payload user person}
      (hfind : s.persons.find? user.personId = some person) (hlinkable : person.linkable) :
    Prepared s (.createUser userId personId payload) (.running (.insertUser user none))
  | linkNew {userId personId payload user new} (hid : user.personId = personId) :
    Prepared s (.createUser userId personId payload)
      (.running (.insertUser user (some (createPerson personId new))))

inductive Effect (requests : ι → Request) (s : Server ι) : Act ι → Server ι → Prop
  | idle {act} : Effect requests s act s
  | failed {act} (i : ι) (e : Failure) (hplace : s.place i ≠ .succeeded) :
    Effect requests s act (s.goto i (.failed e))
  | prepared {i now p} (hready : s.place i = .ready)
      (hrole : (requests i).role ∈ (requests i).operation.roles)
      (hp : Prepared s (requests i).operation p) :
    Effect requests s (.load i now) (s.goto i p)
  | checked {i now source sourceId targetId} (hplace : s.place i = .sourceRead source)
      (hop : (requests i).operation = .mergePerson sourceId targetId) :
    Effect requests s (.check i now)
      (s.goto i (.running (.updatePerson source (retire now targetId source))))
  | inserted {i person persons} (hplace : s.place i = .running (.insertPerson person))
      (hinsert : s.persons.insert? person = some persons) :
    Effect requests s (.commit i) (Server.goto { s with persons := persons } i .succeeded)
  | updated {i loaded new current} (hplace : s.place i = .running (.updatePerson loaded new))
      (hfind : s.persons.find? loaded.id = some current) :
    Effect requests s (.commit i)
      (Server.goto { s with persons := s.persons.set (flushUpdate loaded new current) } i
        .succeeded)
  | linked {i user person persons accounts}
      (hplace : s.place i = .running (.insertUser user person))
      (hpersons : person.elim (some s.persons) s.persons.insert? = some persons)
      (haccounts : s.accounts.insert? user = some accounts) :
    Effect requests s (.commit i)
      (Server.goto { s with persons := persons, accounts := accounts } i .succeeded)

variable {requests : ι → Request} {s : Server ι} {i : ι} {now : Time}

theorem resolvePersonForUser_ok {persons : Table PersonRow} {personId : Uuid}
    {payload : AdminUserCreate} {resolved : Uuid × Option PersonRow}
    (h : resolvePersonForUser persons personId payload = .ok resolved) :
    (∃ person, persons.find? person.id = some person ∧ person.linkable ∧
      resolved = (person.id, none)) ∨
    ∃ new, resolved = (personId, some (createPerson personId new)) := by
  unfold resolvePersonForUser at h
  cases hexisting : payload.existingPersonId with
  | some existingPersonId =>
    cases hfind : persons.find? existingPersonId with
    | none => simp [hexisting, hfind] at h
    | some person =>
      obtain rfl : person.id = existingPersonId := Table.key_of_find? hfind
      simp only [hexisting, hfind] at h
      split_ifs at h with hdeleted hlinkable
      exact .inl ⟨person, hfind, by simpa using hlinkable, (Except.ok.inj h).symm⟩
  | none =>
    cases hnew : payload.newPerson with
    | none => simp [hexisting, hnew] at h
    | some new =>
      simp only [hexisting, hnew] at h
      exact .inr ⟨new, (Except.ok.inj h).symm⟩

theorem createUser_ok {persons : Table PersonRow} {userId personId : Uuid}
    {payload : AdminUserCreate} {write : Write}
    (h : createUser persons userId personId payload = .ok write) :
    ∃ user resolved, resolvePersonForUser persons personId payload = .ok resolved ∧
      user.personId = resolved.1 ∧ write = .insertUser user resolved.2 := by
  unfold createUser at h
  cases hresolved : resolvePersonForUser persons personId payload with
  | error e =>
    rw [hresolved] at h
    cases h
  | ok resolved =>
    rw [hresolved] at h
    exact ⟨_, resolved, rfl, rfl, (Except.ok.inj h).symm⟩

omit [DecidableEq ι] in
theorem prepare_cases (s : Server ι) (now : Time) (op : Operation) :
    (∃ e, s.prepare now op = .failed e) ∨ Prepared s op (s.prepare now op) := by
  cases op with
  | createPerson personId payload => exact .inr .create
  | quickCreatePerson personId payload => exact .inr .quickCreate
  | patchPerson personId payload =>
    simp only [Server.prepare]
    split
    · exact .inl ⟨_, rfl⟩
    · rename_i person hfind
      split
      · exact .inl ⟨_, rfl⟩
      · rename_i new hnew
        exact .inr (.patch hfind hnew)
  | anonymizePerson personId =>
    simp only [Server.prepare]
    split
    · exact .inl ⟨_, rfl⟩
    · rename_i person hfind
      exact .inr (.anonymize hfind)
  | mergePerson sourceId targetId =>
    simp only [Server.prepare]
    split_ifs with hsame
    · exact .inl ⟨_, rfl⟩
    · split
      · exact .inl ⟨_, rfl⟩
      · rename_i source hfind
        exact .inr (.merge hfind)
  | createUser userId personId payload =>
    simp only [Server.prepare]
    split
    · exact .inl ⟨_, rfl⟩
    · rename_i write hwrite
      obtain ⟨user, resolved, hresolved, hid, rfl⟩ := createUser_ok hwrite
      rcases resolvePersonForUser_ok hresolved with ⟨person, hfind, hlinkable, rfl⟩ | ⟨new, rfl⟩
      · exact .inr (.link (by rwa [hid]) hlinkable)
      · exact .inr (.linkNew hid)

theorem load_effect : Effect requests s (.load i now) (s.load requests i now) := by
  unfold Server.load
  split
  · rename_i hready
    split_ifs with hrole
    · rcases prepare_cases s now (requests i).operation with ⟨e, he⟩ | hp
      · rw [he]
        exact .failed i e (by simp [hready])
      · exact .prepared hready hrole hp
    · exact .failed i _ (by simp [hready])
  · exact .idle

omit [DecidableEq ι] in
theorem checkMerge_cases (s : Server ι) (now : Time) (source : PersonRow) (targetId : Uuid) :
    (∃ e, s.checkMerge now source targetId = .failed e) ∨
      s.checkMerge now source targetId =
        .running (.updatePerson source (retire now targetId source)) := by
  unfold Server.checkMerge
  split
  · exact .inl ⟨_, rfl⟩
  · split_ifs
    · exact .inl ⟨_, rfl⟩
    · exact .inl ⟨_, rfl⟩
    · exact .inl ⟨_, rfl⟩
    · exact .inr rfl

theorem check_effect : Effect requests s (.check i now) (s.check requests i now) := by
  unfold Server.check
  split
  · rename_i source sourceId targetId hplace hop
    rcases checkMerge_cases s now source targetId with ⟨e, he⟩ | hrunning
    · rw [he]
      exact .failed i e (by simp [hplace])
    · rw [hrunning]
      exact .checked hplace hop
  · exact .idle

theorem commit_effect : Effect requests s (.commit i) (s.commit i) := by
  unfold Server.commit
  split
  · rename_i write hplace
    have hfailed : ∀ e, Effect requests s (.commit i) (s.goto i (.failed e)) := fun e =>
      .failed i e (by simp [hplace])
    cases write with
    | insertPerson person =>
      cases hinsert : s.persons.insert? person with
      | none => simpa [Server.apply, hinsert] using hfailed _
      | some persons => simpa [Server.apply, hinsert] using .inserted hplace hinsert
    | updatePerson loaded new =>
      cases hfind : s.persons.find? loaded.id with
      | none => simpa [Server.apply, hfind] using hfailed _
      | some current => simpa [Server.apply, hfind] using .updated hplace hfind
    | insertUser user person =>
      cases hpersons : person.elim (some s.persons) s.persons.insert? with
      | none => simpa [Server.apply, hpersons] using hfailed _
      | some persons =>
        by_cases htaken : s.Taken user
        · simpa [Server.apply, hpersons, htaken] using hfailed _
        · cases haccounts : s.accounts.insert? user with
          | none => simpa [Server.apply, hpersons, htaken, haccounts] using hfailed _
          | some accounts =>
            simpa [Server.apply, hpersons, htaken, haccounts] using
              .linked hplace hpersons haccounts
  · exact .idle

theorem step_effect (act : Act ι) : Effect requests s act (s.step requests act) := by
  cases act with
  | load i now => exact load_effect
  | check i now => exact check_effect
  | commit i => exact commit_effect

end

-- ---------------------------------------------------------------------------
-- Who may be linked
-- ---------------------------------------------------------------------------

/-- A request that flags the person linkable. -/
def Operation.Releases (personId : Uuid) : Operation → Prop
  | .patchPerson id payload => id = personId ∧ payload.linkable = some (some true)
  | _ => False

section
variable {ι : Type} (requests : ι → Request) (s : Server ι)

def Released (personId : Uuid) : Prop :=
  ∃ i, s.place i = .succeeded ∧ (requests i).operation.Releases personId

/-- The person is there; met in passing, it has been released. -/
def Linkable (personId : Uuid) : Prop :=
  ∃ person, s.persons.find? personId = some person ∧
    (person.origin = .onTheFly → Released requests s personId)

def Holds (op : Operation) : Place → Prop
  | .running (.insertPerson person) => person.origin = .onTheFly → person.linkable = false
  | .running (.updatePerson loaded new) =>
    new.id = loaded.id ∧ (new.linkable = loaded.linkable ∨ new.linkable = false ∨
      op.Releases loaded.id)
  | .running (.insertUser user none) => Linkable requests s user.personId
  | .running (.insertUser user (some person)) =>
    person.origin = .managed ∧ person.id = user.personId
  | _ => True

structure Sound : Prop where
  linkable : ∀ person ∈ s.persons, person.linkable → person.origin = .onTheFly →
    Released requests s person.id
  linked : ∀ account ∈ s.accounts, Linkable requests s account.personId
  holds : ∀ i, Holds requests s (requests i).operation (s.place i)

end

section
variable {ι : Type} {requests : ι → Request} {s s' : Server ι} {personId : Uuid} {op : Operation}
  {p : Place}

/-- Persons stay, each with its origin, and so do the requests that succeeded. -/
structure Extends (s s' : Server ι) : Prop where
  persons : ∀ id person, s.persons.find? id = some person →
    ∃ person', s'.persons.find? id = some person' ∧ person'.origin = person.origin
  succeeded : ∀ i, s.place i = .succeeded → s'.place i = .succeeded

theorem Released.extends (h : Released requests s personId) (hs : Extends s s') :
    Released requests s' personId := by
  obtain ⟨i, hi, hreleases⟩ := h
  exact ⟨i, hs.succeeded i hi, hreleases⟩

theorem Linkable.extends (h : Linkable requests s personId) (hs : Extends s s') :
    Linkable requests s' personId := by
  obtain ⟨person, hfind, horigin⟩ := h
  obtain ⟨person', hfind', hsame⟩ := hs.persons _ _ hfind
  exact ⟨person', hfind', fun h => (horigin (hsame ▸ h)).extends hs⟩

theorem Holds.extends (h : Holds requests s op p) (hs : Extends s s') : Holds requests s' op p := by
  cases p with
  | running write =>
    cases write with
    | insertUser user person =>
      cases person with
      | none => exact Linkable.extends h hs
      | some person => exact h
    | insertPerson person => exact h
    | updatePerson loaded new => exact h
  | ready | sourceRead source | succeeded | failed e => trivial

theorem updatePerson_ok {person new : PersonRow} {payload : PersonUpdate}
    (h : updatePerson person payload = .ok new) :
    new.id = person.id ∧ new.origin = person.origin ∧
      (new.linkable = person.linkable ∨ payload.linkable = some (some new.linkable)) := by
  unfold updatePerson at h
  split_ifs at h with hnull
  obtain rfl := Except.ok.inj h
  refine ⟨rfl, rfl, ?_⟩
  rcases hset : payload.linkable with _ | _ | linkable
  · exact .inl (by simp)
  · exact absurd (.inr hset) hnull
  · exact .inr (by simp)

theorem Prepared.holds (h : Sound requests s) (hp : Prepared s op p) : Holds requests s op p := by
  cases hp with
  | create => exact fun horigin => nomatch horigin
  | quickCreate => exact fun _ => rfl
  | @patch id payload person new hfind hnew =>
    obtain ⟨hid, -, hlinkable⟩ := updatePerson_ok hnew
    obtain rfl : person.id = id := Table.key_of_find? hfind
    refine ⟨hid, hlinkable.imp_right fun hset => ?_⟩
    cases hnewLinkable : new.linkable with
    | false => exact .inl rfl
    | true => exact .inr ⟨rfl, hnewLinkable ▸ hset⟩
  | anonymize hfind => exact ⟨rfl, .inl rfl⟩
  | merge hfind => trivial
  | link hfind hlinkable =>
    refine ⟨_, hfind, fun horigin => ?_⟩
    have hreleased := h.linkable _ (Table.mem_of_find? hfind) hlinkable horigin
    rwa [← key_personRow, Table.key_of_find? hfind] at hreleased
  | linkNew hid => exact ⟨rfl, hid.symm⟩

theorem find?_of_insert {persons persons' : Table PersonRow} {person found : PersonRow} {id : Uuid}
    (h : persons.insert? person = some persons') (hfind : persons.find? id = some found) :
    persons'.find? id = some found := by
  rw [← hfind]
  refine Table.find?_insert?_ne h ?_
  rintro rfl
  rw [(Table.insert?_eq_some.mp h).1] at hfind
  cases hfind

theorem extends_insert {person : PersonRow} {persons : Table PersonRow} {accounts : Table Account}
    (h : s.persons.insert? person = some persons) :
    Extends s { s with persons := persons, accounts := accounts } where
  persons _ found hfind := ⟨found, find?_of_insert h hfind, rfl⟩
  succeeded _ hi := hi

theorem extends_set {loaded new current : PersonRow}
    (h : s.persons.find? current.id = some current) :
    Extends s { s with persons := s.persons.set (flushUpdate loaded new current) } where
  persons id found hfind := by
    by_cases hid : current.id = id
    · subst hid
      refine ⟨flushUpdate loaded new current, Table.find?_set_self ?_, ?_⟩
      · exact Option.isSome_of_eq_some h
      · rw [h] at hfind
        rw [← Option.some.inj hfind]
        rfl
    · exact ⟨found, (Table.find?_set_ne hid).trans hfind, rfl⟩
  succeeded _ hi := hi

end

section
variable {ι : Type} [DecidableEq ι] {requests : ι → Request} {s s' : Server ι} {i : ι} {p : Place}
  {act : Act ι}

@[simp] theorem Server.place_goto : (s.goto i p).place i = p := by
  simp [Server.goto]

theorem extends_goto (hplace : s.place i ≠ .succeeded) : Extends s (s.goto i p) where
  persons _ person hfind := ⟨person, hfind, rfl⟩
  succeeded j hj := by
    have hne : j ≠ i := by
      rintro rfl
      exact hplace hj
    simpa [Server.goto, hne] using hj

theorem Sound.advance (h : Sound requests s) (hs : Extends s s') (hs' : Extends s' (s'.goto i p))
    (hplace : s'.place = s.place)
    (hlinkable : ∀ person ∈ s'.persons, person.linkable → person.origin = .onTheFly →
      Released requests (s'.goto i p) person.id)
    (hlinked : ∀ account ∈ s'.accounts, Linkable requests s' account.personId)
    (hp : Holds requests s' (requests i).operation p) : Sound requests (s'.goto i p) where
  linkable := hlinkable
  linked account haccount := (hlinked account haccount).extends hs'
  holds j := by
    by_cases hj : j = i
    · subst hj
      simpa [Server.goto] using hp.extends hs'
    · simpa [Server.goto, hj, hplace] using ((h.holds j).extends hs).extends hs'

theorem Sound.goto (h : Sound requests s) (hplace : s.place i ≠ .succeeded)
    (hp : Holds requests s (requests i).operation p) : Sound requests (s.goto i p) :=
  h.advance ⟨fun _ person hfind => ⟨person, hfind, rfl⟩, fun _ hi => hi⟩ (extends_goto hplace) rfl
    (fun person hperson hlinkable horigin =>
      (h.linkable person hperson hlinkable horigin).extends (extends_goto hplace))
    h.linked hp

theorem Effect.sound (h : Sound requests s) (he : Effect requests s act s') :
    Sound requests s' := by
  cases he with
  | idle => exact h
  | failed i e hplace => exact h.goto hplace trivial
  | @prepared i now p hready hrole hp => exact h.goto (by simp [hready]) (hp.holds h)
  | @checked i now source sourceId targetId hplace hop =>
    exact h.goto (by simp [hplace]) ⟨rfl, .inl rfl⟩
  | @inserted i person persons hplace hinsert =>
    have hs : Extends s { s with persons := persons } := extends_insert hinsert
    have hs' := extends_goto (s := { s with persons := persons }) (i := i) (p := .succeeded)
      (by simp [hplace])
    have hperson : Holds requests s (requests i).operation (.running (.insertPerson person)) :=
      hplace ▸ h.holds i
    refine h.advance hs hs' rfl (fun row hrow hlinkable horigin => ?_)
      (fun account haccount => (h.linked account haccount).extends hs) trivial
    rcases (Table.mem_insert? hinsert).mp hrow with hold | rfl
    · exact ((h.linkable row hold hlinkable horigin).extends hs).extends hs'
    · exact absurd hlinkable (by simp [hperson horigin])
  | @updated i loaded new current hplace hfind =>
    have hid : current.id = loaded.id := Table.key_of_find? hfind
    have hs : Extends s { s with persons := s.persons.set (flushUpdate loaded new current) } :=
      extends_set (hid ▸ hfind)
    have hs' := extends_goto (i := i) (p := .succeeded)
      (s := { s with persons := s.persons.set (flushUpdate loaded new current) }) (by simp [hplace])
    have hwrite : Holds requests s (requests i).operation (.running (.updatePerson loaded new)) :=
      hplace ▸ h.holds i
    refine h.advance hs hs' rfl (fun row hrow hlinkable horigin => ?_)
      (fun account haccount => (h.linked account haccount).extends hs) trivial
    rcases Table.mem_set hrow with rfl | ⟨hold, -⟩
    · by_cases hcolumn : new.linkable = loaded.linkable
      · -- The column is left as it is found.
        have hcurrent : current.linkable := by
          simpa [flushUpdate, setColumn, hcolumn] using hlinkable
        exact ((h.linkable current (Table.mem_of_find? hfind) hcurrent horigin).extends hs).extends
          hs'
      · have hnew : new.linkable := by
          simpa [flushUpdate, setColumn, hcolumn] using hlinkable
        rcases hwrite.2 with hsame | hfalse | hreleases
        · exact absurd hsame hcolumn
        · exact absurd hnew (by simp [hfalse])
        · refine ⟨i, by simp [Server.goto], ?_⟩
          rwa [show (flushUpdate loaded new current).id = loaded.id from hid]
    · exact ((h.linkable row hold hlinkable horigin).extends hs).extends hs'
  | @linked i user person persons accounts hplace hpersons haccounts =>
    have hwrite : Holds requests s (requests i).operation (.running (.insertUser user person)) :=
      hplace ▸ h.holds i
    have hs' := extends_goto (i := i) (p := .succeeded)
      (s := { s with persons := persons, accounts := accounts }) (by simp [hplace])
    cases person with
    | none =>
      obtain rfl := Option.some.inj hpersons
      have hs : Extends s { s with accounts := accounts } :=
        ⟨fun _ person hfind => ⟨person, hfind, rfl⟩, fun _ hi => hi⟩
      refine h.advance hs hs' rfl (fun row hrow hlinkable horigin => ?_)
        (fun account haccount => ?_) trivial
      · exact ((h.linkable row hrow hlinkable horigin).extends hs).extends hs'
      · rcases (Table.mem_insert? haccounts).mp haccount with hold | rfl
        · exact (h.linked account hold).extends hs
        · exact Linkable.extends hwrite hs
    | some person =>
      have hinsert : s.persons.insert? person = some persons := hpersons
      have hs : Extends s { s with persons := persons, accounts := accounts } :=
        extends_insert hinsert
      refine h.advance hs hs' rfl (fun row hrow hlinkable horigin => ?_)
        (fun account haccount => ?_) trivial
      · rcases (Table.mem_insert? hinsert).mp hrow with hold | rfl
        · exact ((h.linkable row hold hlinkable horigin).extends hs).extends hs'
        · exact absurd horigin (by simp [hwrite.1])
      · rcases (Table.mem_insert? haccounts).mp haccount with hold | rfl
        · exact (h.linked account hold).extends hs
        · refine ⟨person, ?_, fun horigin => absurd horigin (by simp [hwrite.1])⟩
          rw [← hwrite.2]
          exact Table.find?_insert?_self hinsert

def Authorized (requests : ι → Request) (s : Server ι) : Prop :=
  ∀ i, s.place i = .ready ∨ (∃ e, s.place i = .failed e) ∨
    (requests i).role ∈ (requests i).operation.roles

theorem Authorized.goto (h : Authorized requests s) {s' : Server ι} (hplace : s'.place = s.place)
    (hp : (∃ e, p = .failed e) ∨ (requests i).role ∈ (requests i).operation.roles) :
    Authorized requests (s'.goto i p) := by
  intro j
  by_cases hj : j = i
  · subst hj
    rw [Server.place_goto]
    exact .inr hp
  · simpa [Server.goto, hj, hplace] using h j

theorem Effect.authorized (h : Authorized requests s) (he : Effect requests s act s') :
    Authorized requests s' := by
  have hrunning : ∀ i, s.place i ≠ .ready → (∀ e, s.place i ≠ .failed e) →
      (requests i).role ∈ (requests i).operation.roles := by
    intro i hready hfailed
    rcases h i with h | ⟨e, h⟩ | h
    · exact absurd h hready
    · exact absurd h (hfailed e)
    · exact h
  cases he with
  | idle => exact h
  | failed i e hplace => exact h.goto rfl (.inl ⟨e, rfl⟩)
  | prepared hready hrole hp => exact h.goto rfl (.inr hrole)
  | checked hplace hop => exact h.goto rfl (.inr (hrunning _ (by simp [hplace]) (by simp [hplace])))
  | inserted hplace hinsert =>
    exact h.goto rfl (.inr (hrunning _ (by simp [hplace]) (by simp [hplace])))
  | updated hplace hfind =>
    exact h.goto rfl (.inr (hrunning _ (by simp [hplace]) (by simp [hplace])))
  | linked hplace hpersons haccounts =>
    exact h.goto rfl (.inr (hrunning _ (by simp [hplace]) (by simp [hplace])))

structure Fresh (persons : Table PersonRow) (accounts : Table Account) : Prop where
  linkable : ∀ person ∈ persons, person.origin = .onTheFly → person.linkable = false
  linked : ∀ account ∈ accounts, ∃ person, persons.find? account.personId = some person ∧
    person.origin = .managed

omit [DecidableEq ι] in
theorem Fresh.sound {persons : Table PersonRow} {accounts : Table Account}
    (h : Fresh persons accounts) : Sound requests (Server.start persons accounts) where
  linkable person hperson hlinkable horigin :=
    absurd hlinkable (by simp [h.linkable person hperson horigin])
  linked account haccount := by
    obtain ⟨person, hfind, horigin⟩ := h.linked account haccount
    exact ⟨person, hfind, fun hfly => absurd (horigin.symm.trans hfly) (by decide)⟩
  holds _ := trivial

/-- A person met in passing gets a user only after an administrator has flagged
the person linkable (Regel-004), whatever requests run side by side. -/
theorem linked_released (requests : ι → Request) (persons : Table PersonRow)
    (accounts : Table Account) (h : Fresh persons accounts) (acts : List (Act ι)) :
    let s := run (Server.step requests) (Server.start persons accounts) acts
    ∀ account ∈ s.accounts, ∃ person, s.persons.find? account.personId = some person ∧
      (person.origin = .onTheFly → ∃ i payload, s.place i = .succeeded ∧
        (requests i).role = .admin ∧
        (requests i).operation = .patchPerson person.id payload ∧
        payload.linkable = some (some true)) := by
  intro s account haccount
  have hsound : Sound requests s :=
    preserves h.sound fun s act hs => (step_effect act).sound hs
  have hauthorized : Authorized requests s :=
    preserves (fun _ => .inl rfl) fun s act hs => (step_effect act).authorized hs
  obtain ⟨person, hfind, hreleased⟩ := hsound.linked account haccount
  refine ⟨person, hfind, fun horigin => ?_⟩
  obtain ⟨i, hplace, hreleases⟩ := hreleased horigin
  have hid : person.id = account.personId := Table.key_of_find? hfind
  cases hop : (requests i).operation with
  | patchPerson id payload =>
    rw [hop] at hreleases
    refine ⟨i, payload, hplace, ?_, by rw [hop, hid, hreleases.1], hreleases.2⟩
    rcases hauthorized i with hready | ⟨e, hfailed⟩ | hrole
    · exact absurd hready (by simp [hplace])
    · exact absurd hfailed (by simp [hplace])
    · rw [hop] at hrole
      exact List.mem_singleton.mp hrole
  | createPerson | quickCreatePerson | anonymizePerson | mergePerson | createUser =>
    rw [hop] at hreleases
    exact hreleases.elim

end

-- ---------------------------------------------------------------------------
-- Who is anonymised
-- ---------------------------------------------------------------------------

def Placeholder (name : String) : Prop :=
  name = "[gelöscht]" ∨ ∃ targetId : Uuid, name = s!"[merged → {targetId}]"

/-- Nothing tells who it was (ADR-002). -/
structure Erased (person : PersonRow) : Prop where
  name : Placeholder person.name
  «alias» : person.alias = none
  note : person.note = none
  isDeleted : person.isDeleted = true

/-- Each column is left or erased. -/
structure Fades (person person' : PersonRow) : Prop where
  name : person'.name = person.name ∨ Placeholder person'.name
  «alias» : person'.alias = person.alias ∨ person'.alias = none
  note : person'.note = person.note ∨ person'.note = none
  isDeleted : person'.isDeleted = person.isDeleted ∨ person'.isDeleted = true

section
variable {loaded new current person person' : PersonRow} {now : Time} {targetId : Uuid}

theorem erased_anonymizePerson : Erased (anonymizePerson now person) := ⟨.inl rfl, rfl, rfl, rfl⟩

theorem erased_retire : Erased (retire now targetId person) := ⟨.inr ⟨targetId, rfl⟩, rfl, rfl, rfl⟩

theorem Fades.refl : Fades person person := ⟨.inl rfl, .inl rfl, .inl rfl, .inl rfl⟩

theorem Erased.fades (h : Erased person) (hf : Fades person person') : Erased person' where
  name := hf.name.elim (fun hsame => hsame ▸ h.name) id
  «alias» := hf.alias.elim (fun hsame => hsame.trans h.alias) id
  note := hf.note.elim (fun hsame => hsame.trans h.note) id
  isDeleted := hf.isDeleted.elim (fun hsame => hsame.trans h.isDeleted) id

theorem Fades.trans {person'' : PersonRow} (h : Fades person person')
    (h' : Fades person' person'') : Fades person person'' where
  name := h'.name.elim (fun hsame => hsame ▸ h.name) .inr
  «alias» := h'.alias.elim (fun hsame => hsame ▸ h.alias) .inr
  note := h'.note.elim (fun hsame => hsame ▸ h.note) .inr
  isDeleted := h'.isDeleted.elim (fun hsame => hsame ▸ h.isDeleted) .inr

section
variable {α : Type} [DecidableEq α] {a b c : α}

theorem column_fades (blank : α → Prop) (h : blank b) :
    setColumn a b c = c ∨ blank (setColumn a b c) := by
  unfold setColumn
  split
  · exact .inl rfl
  · exact .inr h

/-- One that is not sent was loaded blank, and can only have been blanked since. -/
theorem column_erased (blank : α → Prop) (h : blank b) (hc : c = a ∨ blank c) :
    blank (setColumn a b c) := by
  unfold setColumn
  split
  · rename_i hsame
    rcases hc with rfl | hc
    · exact hsame ▸ h
    · exact hc
  · exact h

end

theorem flushUpdate_fades (h : Erased new) : Fades current (flushUpdate loaded new current) where
  name := column_fades Placeholder h.name
  «alias» := column_fades (· = none) h.alias
  note := column_fades (· = none) h.note
  isDeleted := column_fades (· = true) h.isDeleted

theorem flushUpdate_erased (h : Erased new) (hf : Fades loaded current) :
    Erased (flushUpdate loaded new current) where
  name := column_erased Placeholder h.name hf.name
  «alias» := column_erased (· = none) h.alias hf.alias
  note := column_erased (· = none) h.note hf.note
  isDeleted := column_erased (· = true) h.isDeleted hf.isDeleted

end

section
variable {ι : Type} (requests : ι → Request) (i : ι) (personId : Uuid) (s : Server ι)

def Quiet : Prop :=
  ∀ j payload, (requests j).operation = .patchPerson personId payload →
    ∀ write, s.place j ≠ .running write

/-- No update of the person overlaps the request `i` or begins after it. -/
def Undisturbed : Act ι → Prop
  | .load j _ =>
    (∀ payload, (requests j).operation = .patchPerson personId payload → s.place i = .ready) ∧
      (j = i → Quiet requests personId s)
  | _ => True

def Stage : Place → Prop
  | .running write => ∃ loaded new current, write = .updatePerson loaded new ∧
      loaded.id = personId ∧ Erased new ∧ s.persons.find? personId = some current ∧
      Fades loaded current ∧ Quiet requests personId s
  | .succeeded => (∃ current, s.persons.find? personId = some current ∧ Erased current) ∧
      Quiet requests personId s
  | .sourceRead _ => False
  | _ => True

def Writes : Prop :=
  ∀ j loaded new, s.place j = .running (.updatePerson loaded new) →
    (∃ payload, (requests j).operation = .patchPerson loaded.id payload) ∨ Erased new

structure Anonymising : Prop where
  writes : Writes requests s
  stage : Stage requests personId s (s.place i)

end

section
variable {ι : Type} [DecidableEq ι] {requests : ι → Request} {i j : ι} {personId : Uuid}
  {s s' : Server ι} {act : Act ι} {op : Operation} {p : Place}

def Kept (personId : Uuid) (s s' : Server ι) : Prop :=
  ∀ current, s.persons.find? personId = some current →
    ∃ current', s'.persons.find? personId = some current' ∧ Fades current current'

theorem Quiet.goto (h : Quiet requests personId s) {s' : Server ι} (hplace : s'.place = s.place)
    (hp : (∀ write, p ≠ .running write) ∨
      ∀ payload, (requests j).operation ≠ .patchPerson personId payload) :
    Quiet requests personId (s'.goto j p) := by
  intro k payload hk write
  by_cases hkj : k = j
  · subst hkj
    rw [Server.place_goto]
    exact hp.elim (fun hp => hp write) fun hp => absurd hk (hp payload)
  · simpa [Server.goto, hkj, hplace] using h k payload hk write

theorem Stage.other (h : Stage requests personId s (s.place i)) {s' : Server ι}
    (hplace : s'.place = s.place) (hij : i ≠ j)
    (hkept : Quiet requests personId s → Kept personId s s')
    (hp : s.place i = .ready ∨ (∀ write, p ≠ .running write) ∨
      ∀ payload, (requests j).operation ≠ .patchPerson personId payload) :
    Stage requests personId (s'.goto j p) ((s'.goto j p).place i) := by
  have hi : (s'.goto j p).place i = s.place i := by simp [Server.goto, hij, hplace]
  rw [hi]
  rcases hp with hready | hp
  · rw [hready]
    trivial
  · cases hs : s.place i with
    | running write =>
      rw [hs] at h
      obtain ⟨loaded, new, current, hwrite, hid, hnew, hfind, hfades, hquiet⟩ := h
      obtain ⟨current', hfind', hfades'⟩ := hkept hquiet current hfind
      exact ⟨loaded, new, current', hwrite, hid, hnew, hfind', hfades.trans hfades',
        hquiet.goto hplace hp⟩
    | succeeded =>
      rw [hs] at h
      obtain ⟨⟨current, hfind, herased⟩, hquiet⟩ := h
      obtain ⟨current', hfind', hfades'⟩ := hkept hquiet current hfind
      exact ⟨⟨current', hfind', herased.fades hfades'⟩, hquiet.goto hplace hp⟩
    | sourceRead source =>
      rw [hs] at h
      exact h.elim
    | ready | failed e => trivial

omit [DecidableEq ι] in
theorem Prepared.writes {loaded new : PersonRow}
    (hp : Prepared s op (.running (.updatePerson loaded new))) :
    (∃ payload, op = .patchPerson loaded.id payload) ∨ Erased new := by
  cases hp with
  | @patch id payload _ _ hfind hnew =>
    obtain rfl : loaded.id = id := Table.key_of_find? hfind
    exact .inl ⟨payload, rfl⟩
  | anonymize hfind => exact .inr erased_anonymizePerson

theorem Effect.writes (h : Writes requests s) (he : Effect requests s act s') :
    Writes requests s' := by
  have hgoto : ∀ {s' : Server ι} {j : ι} {p : Place}, s'.place = s.place →
      (∀ loaded new, p = .running (.updatePerson loaded new) →
        (∃ payload, (requests j).operation = .patchPerson loaded.id payload) ∨ Erased new) →
      Writes requests (s'.goto j p) := by
    intro s' j p hplace hp k loaded new hk
    by_cases hkj : k = j
    · subst hkj
      exact hp loaded new (by simpa [Server.goto] using hk)
    · exact h k loaded new (by simpa [Server.goto, hkj, hplace] using hk)
  cases he with
  | idle => exact h
  | failed j e hplace => exact hgoto rfl fun _ _ hp => nomatch hp
  | prepared hready hrole hp => exact hgoto rfl fun _ _ hrunning => Prepared.writes (hrunning ▸ hp)
  | checked hplace hop =>
    refine hgoto rfl fun loaded new hrunning => ?_
    cases hrunning
    exact .inr erased_retire
  | inserted hplace hinsert => exact hgoto rfl fun _ _ hp => nomatch hp
  | updated hplace hfind => exact hgoto rfl fun _ _ hp => nomatch hp
  | linked hplace hpersons haccounts => exact hgoto rfl fun _ _ hp => nomatch hp

omit [DecidableEq ι] in
theorem kept_insert {person : PersonRow} {persons : Table PersonRow} {accounts : Table Account}
    (h : s.persons.insert? person = some persons) :
    Kept personId s { s with persons := persons, accounts := accounts } :=
  fun current hfind => ⟨current, find?_of_insert h hfind, .refl⟩

theorem Effect.anonymising (hop : (requests i).operation = .anonymizePerson personId)
    (h : Anonymising requests i personId s) (hok : Undisturbed requests i personId s act)
    (he : Effect requests s act s') : Anonymising requests i personId s' := by
  refine ⟨he.writes h.writes, ?_⟩
  have hstage := h.stage
  have hkept : Quiet requests personId s → Kept personId s s := fun _ current hfind =>
    ⟨current, hfind, .refl⟩
  have hself : ∀ payload, (requests i).operation ≠ .patchPerson personId payload := by
    rw [hop]
    exact fun _ h => nomatch h
  cases he with
  | idle => exact hstage
  | failed j e hplace =>
    by_cases hij : i = j
    · subst hij
      rw [Server.place_goto]
      trivial
    · exact hstage.other rfl hij hkept (.inr (.inl fun _ hp => nomatch hp))
  | @prepared j now p hready hrole hp =>
    by_cases hij : i = j
    · subst hij
      rw [hop] at hp
      cases hp with
      | @anonymize _ _ person hfind =>
        rw [Server.place_goto]
        exact ⟨person, _, person, rfl, Table.key_of_find? hfind, erased_anonymizePerson, hfind,
          .refl, (hok.2 rfl).goto rfl (.inr hself)⟩
    · refine hstage.other rfl hij hkept ?_
      by_cases hpatch : ∃ payload, (requests j).operation = .patchPerson personId payload
      · exact .inl (hok.1 _ hpatch.choose_spec)
      · exact .inr (.inr (not_exists.mp hpatch))
  | @checked j now source sourceId targetId hplace hmerge =>
    by_cases hij : i = j
    · subst hij
      rw [hplace] at hstage
      exact hstage.elim
    · refine hstage.other rfl hij hkept (.inr (.inr fun payload hpatch => ?_))
      rw [hmerge] at hpatch
      cases hpatch
  | @inserted j person persons hplace hinsert =>
    by_cases hij : i = j
    · subst hij
      rw [hplace] at hstage
      obtain ⟨_, _, _, hwrite, -⟩ := hstage
      cases hwrite
    · exact hstage.other rfl hij (fun _ => kept_insert hinsert) (.inr (.inl fun _ hp => nomatch hp))
  | @updated j loaded new current hplace hfind =>
    have hid : current.id = loaded.id := Table.key_of_find? hfind
    by_cases hij : i = j
    · subst hij
      rw [hplace] at hstage
      obtain ⟨_, _, found, hwrite, hperson, hnew, hfound, hfades, hquiet⟩ := hstage
      cases hwrite
      subst hperson
      obtain rfl := Option.some.inj (hfind.symm.trans hfound)
      rw [Server.place_goto]
      refine ⟨⟨flushUpdate loaded new current, ?_, flushUpdate_erased hnew hfades⟩,
        hquiet.goto rfl (.inr hself)⟩
      rw [← hid] at hfind ⊢
      exact Table.find?_set_self (Option.isSome_of_eq_some hfind)
    · refine hstage.other rfl hij (fun hquiet row hrow => ?_) (.inr (.inl fun _ hp => nomatch hp))
      by_cases hperson : loaded.id = personId
      · subst hperson
        obtain rfl := Option.some.inj (hfind.symm.trans hrow)
        rcases h.writes j loaded new hplace with ⟨payload, hpatch⟩ | hnew
        · exact absurd hplace (hquiet j payload hpatch _)
        · refine ⟨flushUpdate loaded new current, ?_, flushUpdate_fades hnew⟩
          rw [← hid] at hfind ⊢
          exact Table.find?_set_self (Option.isSome_of_eq_some hfind)
      · have hother : current.id ≠ personId := hid ▸ hperson
        exact ⟨row, (Table.find?_set_ne hother).trans hrow, .refl⟩
  | @linked j user person persons accounts hplace hpersons haccounts =>
    by_cases hij : i = j
    · subst hij
      rw [hplace] at hstage
      obtain ⟨_, _, _, hwrite, -⟩ := hstage
      cases hwrite
    · refine hstage.other rfl hij ?_ (.inr (.inl fun _ hp => nomatch hp))
      cases person with
      | none =>
        obtain rfl := Option.some.inj hpersons
        exact hkept
      | some person => exact fun _ => kept_insert hpersons

/-- A person is anonymised for good, whatever else happens, if no update of the
person overlaps the request or begins after it. -/
theorem anonymized_stays (requests : ι → Request) (persons : Table PersonRow)
    (accounts : Table Account) (i : ι) (personId : Uuid)
    (hop : (requests i).operation = .anonymizePerson personId) (acts : List (Act ι))
    (h : Along (Server.step requests) (Undisturbed requests i personId)
      (Server.start persons accounts) acts) :
    Always (Server.step requests)
      (fun s => s.place i = .succeeded →
        ∃ person, s.persons.find? personId = some person ∧ Erased person)
      (Server.start persons accounts) acts := by
  have hstep : ∀ s act, Anonymising requests i personId s →
      Undisturbed requests i personId s act →
      Anonymising requests i personId (s.step requests act) := fun s act hs hok =>
    (step_effect act).anonymising hop hs hok
  refine h.always ⟨fun _ _ _ hplace => (nomatch hplace), trivial⟩ hstep fun s hs hdone => ?_
  have hstage := hs.stage
  rw [hdone] at hstage
  exact hstage.1

end

def passerBy (personId : Uuid) : Request :=
  ⟨.editor, .quickCreatePerson personId ⟨"Mara", none⟩⟩

def patch (personId : Uuid) (payload : PersonUpdate) : Request :=
  ⟨.admin, .patchPerson personId payload⟩

def anonymize (personId : Uuid) : Request := ⟨.admin, .anonymizePerson personId⟩

def link (userId personId : Uuid) (email : String) : Request :=
  ⟨.admin, .createUser userId 0 ⟨email, .viewer, none, some personId, none, true, rfl⟩⟩

def inTurn {ι : Type} (order : List ι) : List (Act ι) :=
  order.flatMap fun i => [.load i 1, .commit i]

def linking : Fin 3 → Request
  | 0 => passerBy 5
  | 1 => patch 5 ⟨none, none, none, some (some true)⟩
  | 2 => link 7 5 "mara@example.org"

theorem linked_released_sample :
    let s := run (Server.step linking) (Server.start ∅ ∅) (inTurn [0, 1, 2])
    (s.accounts.rows.map fun account => account.personId) = [5] ∧
      ∀ account ∈ s.accounts, ∃ person, s.persons.find? account.personId = some person ∧
        (person.origin = .onTheFly → ∃ i payload, s.place i = .succeeded ∧
          (linking i).role = .admin ∧
          (linking i).operation = .patchPerson person.id payload ∧
          payload.linkable = some (some true)) :=
  ⟨by decide +kernel, linked_released linking ∅ ∅ ⟨by decide, by decide⟩ (inTurn [0, 1, 2])⟩

/-- Somebody met in passing is renamed, then anonymised while a merge into
somebody else is under way. -/
def forgetting : Fin 5 → Request
  | 0 => passerBy 5
  | 1 => passerBy 6
  | 2 => patch 5 ⟨none, some (some "M."), none, none⟩
  | 3 => anonymize 5
  | 4 => ⟨.admin, .mergePerson 5 6⟩

theorem anonymized_stays_sample :
    let s := run (Server.step forgetting) (Server.start ∅ ∅)
      (inTurn [0, 1, 2] ++ [.load 3 1, .load 4 1, .commit 3, .check 4 1, .commit 4])
    s.place 4 = .succeeded ∧ ∃ person, s.persons.find? 5 = some person ∧ Erased person := by
  have hpatch : ∀ i payload, (forgetting i).operation = .patchPerson 5 payload → i = 2 := by
    intro i payload h
    match i with
    | 2 => rfl
    | 0 | 1 | 3 | 4 => cases h
  have hload : ∀ s i, i ≠ 2 → i ≠ 3 → Undisturbed forgetting 3 5 s (.load i 1) := fun s i h h' =>
    ⟨fun payload hi => absurd (hpatch i payload hi) h, fun hi => absurd hi h'⟩
  refine ⟨by decide +kernel, (anonymized_stays forgetting ∅ ∅ 3 5 rfl _ ?_).last
    (by decide +kernel)⟩
  refine ⟨hload _ 0 (by decide) (by decide), trivial, hload _ 1 (by decide) (by decide), trivial,
    ⟨fun _ _ => by decide +kernel, nofun⟩, trivial, ⟨fun payload h => ?_, fun _ j payload h => ?_⟩,
    hload _ 4 (by decide) (by decide), trivial, trivial, trivial, trivial⟩
  · cases h
  · obtain rfl := hpatch j payload h
    intro write hplace
    have hdone : ∀ s : Server (Fin 5), s.place 2 = .succeeded → s.place 2 ≠ .running write :=
      fun s hs => hs ▸ nofun
    exact hdone _ (by decide +kernel) hplace

/-- An update that was read before and is written after leaves its columns. -/
example :
    let requests : Fin 3 → Request
      | 0 => passerBy 5
      | 1 => patch 5 ⟨none, some (some "M."), none, none⟩
      | 2 => anonymize 5
    let s := run (Server.step requests) (Server.start ∅ ∅)
      [.load 0 1, .commit 0, .load 1 1, .load 2 1, .commit 1, .commit 2]
    s.place 2 = .succeeded ∧ (s.persons.find? 5).bind (fun person => person.alias) = some "M." := by
  decide +kernel

end HcMap.Persons
