import HcMap.Lib.Run
import HcMap.Services.Catalog

/-!
# Administrators

`create_user`, `update_user` and `deactivate_user` of `app/routes/admin.py`,
side by side under READ COMMITTED. A request looks its caller up in a session
of its own; its transaction then reads, flushes and commits. A flush waits
while another open transaction has written the row, or has inserted one with
the same unique value. Columns that no endpoint here reads, the password among
them, are left out.
-/

namespace HcMap.Admin

open Catalog (setColumn)

-- ---------------------------------------------------------------------------
-- Rows and requests
-- ---------------------------------------------------------------------------

structure Account extends User where
  email : String
  isVerified : Bool
  displayName : Option Text
  deriving DecidableEq

structure LinkablePerson extends Person where
  linkable : Bool
  deriving DecidableEq

instance : Keyed Account Uuid := ⟨fun a => a.id⟩
instance : Keyed LinkablePerson Uuid := ⟨fun p => p.id⟩

@[simp] theorem key_account (a : Account) : key a = a.id := rfl

def Account.IsAdmin (a : Account) : Prop := a.role = .admin ∧ a.isActive = true

instance : DecidablePred Account.IsAdmin := fun a =>
  inferInstanceAs (Decidable (a.role = .admin ∧ a.isActive = true))

structure PersonCreate where
  name : String
  «alias» : Option String
  note : Option String
  linkable : Bool
  deriving DecidableEq

structure AdminUserCreate where
  email : String
  role : UserRole
  displayName : Option Text
  existingPersonId : Option Uuid
  newPerson : Option PersonCreate
  isVerified : Bool
  onePersonSource : existingPersonId.isSome = !newPerson.isSome

/-- A field that is not set is `none`; one that is set may still be null. -/
structure AdminUserUpdate where
  role : Option (Option UserRole)
  isActive : Option (Option Bool)
  displayName : Option (Option Text)

/-- `userId` and `personId` are the keys drawn for the new rows. -/
inductive Operation
  | createUser (userId personId : Uuid) (payload : AdminUserCreate)
  | updateUser (userId : Uuid) (payload : AdminUserUpdate)
  | deactivateUser (userId : Uuid)

structure Request where
  callerId : Uuid
  operation : Operation

structure HTTPException where
  statusCode : Nat
  detail : String
  deriving DecidableEq

def unauthorized : HTTPException := ⟨401, "Unauthorized"⟩
def insufficientRole : HTTPException := ⟨403, "Insufficient role."⟩
def notFound : HTTPException := ⟨404, "Not Found"⟩
def personNotFound : HTTPException := ⟨404, "existing_person_id not found."⟩
def personDeleted : HTTPException := ⟨409, "Person is deleted; cannot link a user."⟩
def personNotLinkable : HTTPException :=
  ⟨409, "Person is not flagged linkable=true (ADR-014)."⟩
def alreadyInUse : HTTPException :=
  ⟨409, "Email already in use or person already linked to a user."⟩
def refusesSelf : HTTPException := ⟨409, "Refusing to deactivate the calling admin."⟩
def serverError : HTTPException := ⟨500, "Internal Server Error"⟩

-- ---------------------------------------------------------------------------
-- The endpoints
-- ---------------------------------------------------------------------------

/-- What an endpoint leaves to flush: new rows, or an entity as it was loaded
and as it is now. -/
inductive Write
  | insert (user : Account) (person : Option LinkablePerson)
  | update (loaded new : Account)
  deriving DecidableEq

section
variable (accounts : Table Account) (persons : Table LinkablePerson)

def requireAdmin (callerId : Uuid) : Except HTTPException Account :=
  match accounts.find? callerId with
  | none => .error unauthorized
  | some user =>
    if user.isActive = false then .error unauthorized
    else if user.role ≠ .admin then .error insufficientRole
    else .ok user

def resolvePersonForUser (personId : Uuid) (payload : AdminUserCreate) :
    Except HTTPException (Uuid × Option LinkablePerson) :=
  match payload.existingPersonId, payload.newPerson with
  | some existingPersonId, _ =>
    match persons.find? existingPersonId with
    | none => .error personNotFound
    | some person =>
      if person.isDeleted then .error personDeleted
      else if ¬ person.linkable then .error personNotLinkable
      else .ok (person.id, none)
  | none, some new =>
    .ok (personId, some
      { id := personId
        name := new.name
        «alias» := new.alias
        note := new.note
        isDeleted := false
        deletedAt := none
        linkable := new.linkable })
  | none, none => .error serverError

def createUser (userId personId : Uuid) (payload : AdminUserCreate) :
    Except HTTPException Write := do
  let (personId, person) ← resolvePersonForUser persons personId payload
  pure (.insert
    { id := userId
      email := payload.email
      isActive := true
      isVerified := payload.isVerified
      role := payload.role
      personId := personId
      displayName := payload.displayName } person)

/-- The `setattr` loop. No null fits `role` or `is_active`, which the flush
finds. -/
def updateUser (userId : Uuid) (payload : AdminUserUpdate) : Except HTTPException Write :=
  match accounts.find? userId with
  | none => .error notFound
  | some user =>
    if payload.role = some none ∨ payload.isActive = some none then .error serverError
    else .ok (.update user
      { user with
        role := (payload.role.getD (some user.role)).getD user.role
        isActive := (payload.isActive.getD (some user.isActive)).getD user.isActive
        displayName := payload.displayName.getD user.displayName })

def deactivateUser (actor : Account) (userId : Uuid) : Except HTTPException Write :=
  if userId = actor.id then .error refusesSelf
  else match accounts.find? userId with
    | none => .error notFound
    | some user => .ok (.update user { user with isActive := false })

def execute (actor : Account) : Operation → Except HTTPException Write
  | .createUser userId personId payload => createUser persons userId personId payload
  | .updateUser userId payload => updateUser accounts userId payload
  | .deactivateUser userId => deactivateUser accounts actor userId

end

/-- The `UPDATE` by primary key: the changed columns, onto the row it finds. -/
def flushUpdate (loaded new current : Account) : Account :=
  { current with
    role := setColumn loaded.role new.role current.role
    isActive := setColumn loaded.isActive new.isActive current.isActive
    displayName := setColumn loaded.displayName new.displayName current.displayName }

/-- Two writes that wait for each other: an `UPDATE` of one row, or an `INSERT`
of rows that share a unique value. An entity without changes sends nothing. -/
def Write.Collides : Write → Write → Prop
  | .insert user _, .insert other _ =>
    user.id = other.id ∨ user.email = other.email ∨ user.personId = other.personId
  | .update loaded new, .update loaded' new' =>
    loaded.id = loaded'.id ∧ loaded ≠ new ∧ loaded' ≠ new'
  | _, _ => False

instance : ∀ w w', Decidable (Write.Collides w w')
  | .insert .., .insert .. => inferInstanceAs (Decidable (_ ∨ _))
  | .update .., .update .. => inferInstanceAs (Decidable (_ ∧ _))
  | .insert .., .update .. => .isFalse id
  | .update .., .insert .. => .isFalse id

-- ---------------------------------------------------------------------------
-- Transactions
-- ---------------------------------------------------------------------------

inductive Place
  | ready
  | authorized (actor : Account)
  | running (write : Write)
  | flushed (write : Write)
  | succeeded
  | failed (e : HTTPException)
  -- Rolled back without an answer.
  | lost
  deriving DecidableEq

structure Server (ι : Type) where
  accounts : Table Account
  persons : Table LinkablePerson
  flushed : List (ι × Write)
  place : ι → Place

inductive Act (ι : Type)
  | authorize (i : ι)
  | read (i : ι)
  | flush (i : ι)
  | commit (i : ι)
  | abort (i : ι)

namespace Server

variable {ι : Type} [DecidableEq ι] (requests : ι → Request)

def start (accounts : Table Account) (persons : Table LinkablePerson) : Server ι :=
  ⟨accounts, persons, [], fun _ => .ready⟩

def goto (s : Server ι) (i : ι) (p : Place) : Server ι :=
  { s with place := Function.update s.place i p }

def close (s : Server ι) (i : ι) (p : Place) : Server ι :=
  { s.goto i p with flushed := s.flushed.filter fun q => q.1 ≠ i }

def Blocked (s : Server ι) (i : ι) (write : Write) : Prop :=
  ∃ q ∈ s.flushed, q.1 ≠ i ∧ q.2.Collides write

instance (s : Server ι) (i : ι) (write : Write) : Decidable (s.Blocked i write) :=
  inferInstanceAs (Decidable (∃ q ∈ s.flushed, q.1 ≠ i ∧ q.2.Collides write))

def Taken (s : Server ι) (user : Account) : Prop :=
  ∃ a ∈ s.accounts, a.id = user.id ∨ a.email = user.email ∨ a.personId = user.personId

instance (s : Server ι) (user : Account) : Decidable (s.Taken user) :=
  inferInstanceAs (Decidable
    (∃ a ∈ s.accounts, a.id = user.id ∨ a.email = user.email ∨ a.personId = user.personId))

def authorize (s : Server ι) (i : ι) : Server ι :=
  match s.place i with
  | .ready =>
    match requireAdmin s.accounts (requests i).callerId with
    | .error e => s.goto i (.failed e)
    | .ok actor => s.goto i (.authorized actor)
  | _ => s

def read (s : Server ι) (i : ι) : Server ι :=
  match s.place i with
  | .authorized actor =>
    match execute s.accounts s.persons actor (requests i).operation with
    | .error e => s.goto i (.failed e)
    | .ok write => s.goto i (.running write)
  | _ => s

def flush (s : Server ι) (i : ι) : Server ι :=
  match s.place i with
  | .running write =>
    if s.Blocked i write then s
    else match write with
      | .insert user _ =>
        if s.Taken user then s.goto i (.failed alreadyInUse)
        else { s.goto i (.flushed write) with flushed := (i, write) :: s.flushed }
      | .update loaded new =>
        if loaded ≠ new ∧ (s.accounts.find? loaded.id).isNone then s.goto i (.failed serverError)
        else { s.goto i (.flushed write) with flushed := (i, write) :: s.flushed }
  | _ => s

/-- The rows of the transaction become visible. Its locks have kept everyone
else from the row of an `UPDATE`, and from the keys of an `INSERT`, since the
flush. -/
def apply (s : Server ι) : Write → Server ι
  | .insert user person =>
    { s with
      accounts := (s.accounts.insert? user).getD s.accounts
      persons := match person with
        | some p => (s.persons.insert? p).getD s.persons
        | none => s.persons }
  | .update loaded new =>
    match s.accounts.find? loaded.id with
    | some current => { s with accounts := s.accounts.set (flushUpdate loaded new current) }
    | none => s

def commit (s : Server ι) (i : ι) : Server ι :=
  match s.place i with
  | .flushed write => (s.apply write).close i .succeeded
  | _ => s

def abort (s : Server ι) (i : ι) : Server ι :=
  match s.place i with
  | .succeeded | .failed _ => s
  | _ => s.close i .lost

def step (s : Server ι) : Act ι → Server ι
  | .authorize i => s.authorize requests i
  | .read i => s.read requests i
  | .flush i => s.flush i
  | .commit i => s.commit i
  | .abort i => s.abort i

end Server

-- ---------------------------------------------------------------------------
-- The last administrator
-- ---------------------------------------------------------------------------

def HasAdmin (accounts : Table Account) : Prop := ∃ a ∈ accounts, a.IsAdmin

instance (accounts : Table Account) : Decidable (HasAdmin accounts) :=
  inferInstanceAs (Decidable (∃ a ∈ accounts, a.IsAdmin))

def Write.Demotes : Write → Prop
  | .insert _ _ => False
  | .update loaded new =>
    (new.role ≠ loaded.role ∧ new.role ≠ .admin) ∨
      (new.isActive ≠ loaded.isActive ∧ new.isActive = false)

def Write.target : Write → Option Uuid
  | .insert _ _ => none
  | .update loaded _ => some loaded.id

instance (write : Write) : Decidable write.Demotes :=
  match write with
  | .insert _ _ => .isFalse id
  | .update _ _ => inferInstanceAs (Decidable (_ ∨ _))

/-- Whom the write demotes, someone else is an admin. -/
def Write.Spares (accounts : Table Account) (write : Write) : Prop :=
  write.Demotes → ∀ a ∈ accounts, write.target = some a.id → a.IsAdmin →
    ∃ b ∈ accounts, b.id ≠ a.id ∧ b.IsAdmin

instance (accounts : Table Account) (write : Write) : Decidable (write.Spares accounts) :=
  inferInstanceAs (Decidable (write.Demotes → ∀ a ∈ accounts, write.target = some a.id →
    a.IsAdmin → ∃ b ∈ accounts, b.id ≠ a.id ∧ b.IsAdmin))

def Place.Spares (accounts : Table Account) : Place → Prop
  | .flushed write => write.Spares accounts
  | _ => True

instance (accounts : Table Account) : ∀ p : Place, Decidable (p.Spares accounts)
  | .flushed write => inferInstanceAs (Decidable (write.Spares accounts))
  | .ready | .authorized _ | .running _ | .succeeded | .failed _ | .lost => .isTrue trivial

section
variable {ι : Type} [DecidableEq ι]

/-- A write that demotes an admin commits only while another user is one. -/
def AnotherAdmin (s : Server ι) : Act ι → Prop
  | .commit i => (s.place i).Spares s.accounts
  | _ => True

instance (s : Server ι) : ∀ act, Decidable (AnotherAdmin s act)
  | .commit i => inferInstanceAs (Decidable ((s.place i).Spares s.accounts))
  | .authorize _ | .read _ | .flush _ | .abort _ => .isTrue trivial

variable {requests : ι → Request} {s : Server ι} {i : ι} {loaded new current : Account}

@[simp] theorem flushUpdate_id : (flushUpdate loaded new current).id = current.id := rfl

theorem flushUpdate_isAdmin (h : current.IsAdmin) :
    (flushUpdate loaded new current).IsAdmin ↔ ¬ (Write.update loaded new).Demotes := by
  obtain ⟨hrole, hactive⟩ := h
  simp only [Account.IsAdmin, flushUpdate, setColumn, hrole, hactive, Write.Demotes, not_or,
    not_and, not_not, Bool.not_eq_false]
  constructor
  · rintro ⟨hr, ha⟩
    refine ⟨fun hne => ?_, fun hne => ?_⟩
    · rwa [if_neg hne] at hr
    · rwa [if_neg hne] at ha
  · rintro ⟨hr, ha⟩
    constructor
    · split
      · rfl
      · rename_i hne
        exact hr hne
    · split
      · rfl
      · rename_i hne
        exact ha hne

theorem hasAdmin_insert {accounts : Table Account} {user : Account} (h : HasAdmin accounts) :
    HasAdmin ((accounts.insert? user).getD accounts) := by
  cases hi : accounts.insert? user with
  | none => exact h
  | some t =>
    obtain ⟨a, ha, hadmin⟩ := h
    exact ⟨a, (Table.mem_insert? hi).mpr (.inl ha), hadmin⟩

theorem hasAdmin_update {accounts : Table Account} (h : HasAdmin accounts)
    (hcurrent : current ∈ accounts) :
    HasAdmin (accounts.set (flushUpdate loaded new current)) ↔
      ((Write.update loaded new).Demotes → current.IsAdmin →
        ∃ b ∈ accounts, b.id ≠ current.id ∧ b.IsAdmin) := by
  have hkey : key current = key (flushUpdate loaded new current) := by simp
  constructor
  · rintro ⟨a, ha, hadmin⟩ hdemotes hcur
    rcases Table.mem_set ha with rfl | ⟨ha, hne⟩
    · exact absurd hdemotes ((flushUpdate_isAdmin hcur).mp hadmin)
    · exact ⟨a, ha, by simpa using hne, hadmin⟩
  · intro hother
    by_cases hcur : current.IsAdmin
    · by_cases hdemotes : (Write.update loaded new).Demotes
      · obtain ⟨b, hb, hne, hadmin⟩ := hother hdemotes hcur
        exact ⟨b, Table.mem_set_of_ne hb (by simpa using hne), hadmin⟩
      · exact ⟨_, Table.mem_set_self hcurrent hkey, (flushUpdate_isAdmin hcur).mpr hdemotes⟩
    · obtain ⟨a, ha, hadmin⟩ := h
      have hne : a.id ≠ current.id := by
        intro hid
        obtain rfl := Table.eq_of_key ha hcurrent hid
        exact hcur hadmin
      exact ⟨a, Table.mem_set_of_ne ha (by simpa using hne), hadmin⟩

omit [DecidableEq ι] in
theorem hasAdmin_apply {write : Write} (h : HasAdmin s.accounts) :
    HasAdmin (s.apply write).accounts ↔ write.Spares s.accounts := by
  cases write with
  | insert user person => exact ⟨fun _ hdemotes => hdemotes.elim, fun _ => hasAdmin_insert h⟩
  | update loaded new =>
    simp only [Server.apply]
    split
    · rename_i current hfind
      obtain ⟨hcurrent, hid⟩ := Table.find?_eq_some.mp hfind
      rw [hasAdmin_update h hcurrent]
      constructor
      · intro hother hdemotes a ha htarget hadmin
        obtain rfl : a = current := by
          refine Table.eq_of_key ha hcurrent ?_
          exact (Option.some.inj htarget).symm.trans hid.symm
        exact hother hdemotes hadmin
      · intro hother hdemotes hadmin
        exact hother hdemotes current hcurrent (congrArg some hid.symm) hadmin
    · rename_i hnone
      refine ⟨fun _ _ a ha htarget => ?_, fun _ => h⟩
      exact absurd (Option.some.inj htarget).symm (Table.find?_eq_none.mp hnone a ha)

-- ---------------------------------------------------------------------------
-- Every run
-- ---------------------------------------------------------------------------

theorem step_accounts {act : Act ι} (h : ∀ i, act ≠ .commit i) :
    (s.step requests act).accounts = s.accounts := by
  cases act with
  | authorize i =>
    simp only [Server.step, Server.authorize]
    split
    · split <;> rfl
    · rfl
  | read i =>
    simp only [Server.step, Server.read]
    split
    · split <;> rfl
    · rfl
  | flush i =>
    simp only [Server.step, Server.flush]
    split
    · split
      · rfl
      · split <;> split <;> rfl
    · rfl
  | commit i => exact absurd rfl (h i)
  | abort i =>
    simp only [Server.step, Server.abort]
    split <;> rfl

theorem hasAdmin_commit (h : HasAdmin s.accounts) (i : ι) :
    HasAdmin (s.commit i).accounts ↔ AnotherAdmin s (.commit i) := by
  unfold Server.commit
  split
  · rename_i write hplace
    simp only [AnotherAdmin, hplace]
    exact hasAdmin_apply h
  · rename_i hplace
    refine ⟨fun _ => ?_, fun _ => h⟩
    cases hp : s.place i with
    | flushed write => exact absurd hp (hplace write)
    | _ => simp [AnotherAdmin, hp, Place.Spares]

theorem hasAdmin_step (requests : ι → Request) (s : Server ι) (act : Act ι)
    (h : HasAdmin s.accounts) :
    HasAdmin (s.step requests act).accounts ↔ AnotherAdmin s act := by
  cases act with
  | commit i => exact hasAdmin_commit h i
  | _ =>
    rw [step_accounts (by simp)]
    exact ⟨fun _ => trivial, fun _ => h⟩

/-- There always is an administrator exactly if no one demotes the last one. -/
theorem always_hasAdmin_iff (requests : ι → Request) (s : Server ι) (acts : List (Act ι))
    (h : HasAdmin s.accounts) :
    Run.Always (Server.step requests) (fun s => HasAdmin s.accounts) s acts ↔
      Run.Along (Server.step requests) AnotherAdmin s acts :=
  Run.always_iff_along (hasAdmin_step requests) h

end

def sampleAdmin : Account := ⟨⟨1, .admin, true, 1⟩, "a@example.com", true, none⟩
def sampleDeputy : Account := ⟨⟨2, .admin, true, 2⟩, "b@example.com", true, none⟩

def oneAdmin : Table Account := ⟨[sampleAdmin], by decide⟩
def twoAdmins : Table Account := ⟨[sampleAdmin, sampleDeputy], by decide⟩

def alone {ι : Type} (i : ι) : List (Act ι) := [.authorize i, .read i, .flush i, .commit i]

def eachOther : Bool → Request
  | true => ⟨1, .deactivateUser 2⟩
  | false => ⟨2, .deactivateUser 1⟩

theorem always_hasAdmin_iff_sample :
    Run.Always (Server.step eachOther) (fun s => HasAdmin s.accounts)
      (Server.start twoAdmins ∅) (alone true ++ alone false) :=
  (always_hasAdmin_iff eachOther (Server.start twoAdmins ∅) (alone true ++ alone false)
    (by decide)).mpr (by decide)

/-- The only admin takes the role from himself; two deactivate each other. -/
theorem last_admin_demoted :
    (HasAdmin oneAdmin ∧
      ¬ HasAdmin (Run.run (Server.step fun _ : Unit =>
        ⟨1, .updateUser 1 ⟨some (some .editor), none, none⟩⟩)
          (Server.start oneAdmin ∅) (alone ())).accounts) ∧
    HasAdmin twoAdmins ∧
      ¬ HasAdmin (Run.run (Server.step eachOther) (Server.start twoAdmins ∅)
        [.authorize true, .authorize false, .read true, .read false, .flush true, .flush false,
          .commit true, .commit false]).accounts := by
  decide

-- ---------------------------------------------------------------------------
-- What the guard of `deactivate_user` is worth
-- ---------------------------------------------------------------------------

def Write.Answers (request : Request) (write : Write) : Prop :=
  ∀ userId, request.operation = .deactivateUser userId →
    write.target = some userId ∧ userId ≠ request.callerId

def Placed (request : Request) : Place → Prop
  | .authorized actor => actor.id = request.callerId
  | .running write | .flushed write => write.Answers request
  | _ => True

section
variable {ι : Type} [DecidableEq ι] {requests : ι → Request} {s : Server ι} {i : ι}

theorem requireAdmin_ok {accounts : Table Account} {callerId : Uuid} {actor : Account}
    (h : requireAdmin accounts callerId = .ok actor) : actor.id = callerId := by
  unfold requireAdmin at h
  split at h
  · cases h
  · rename_i user hfind
    split at h
    · cases h
    · split at h
      · cases h
      · cases h
        exact Table.key_of_find? hfind

theorem execute_answers {accounts : Table Account} {persons : Table LinkablePerson}
    {actor : Account} {request : Request} {write : Write} (hactor : actor.id = request.callerId)
    (h : execute accounts persons actor request.operation = .ok write) :
    write.Answers request := by
  intro userId hop
  rw [hop] at h
  simp only [execute, deactivateUser] at h
  split at h
  · cases h
  · rename_i hself
    split at h
    · cases h
    · rename_i user hfind
      cases h
      exact ⟨congrArg some (Table.key_of_find? hfind), fun heq => hself (heq.trans hactor.symm)⟩

theorem placed_goto {p : Place} (h : ∀ j, Placed (requests j) (s.place j))
    (hp : Placed (requests i) p) : ∀ j, Placed (requests j) ((s.goto i p).place j) := by
  intro j
  by_cases hij : j = i
  · subst hij
    simpa [Server.goto] using hp
  · simpa [Server.goto, hij] using h j

theorem placed_step (act : Act ι) (h : ∀ j, Placed (requests j) (s.place j)) :
    ∀ j, Placed (requests j) ((s.step requests act).place j) := by
  cases act with
  | authorize i =>
    simp only [Server.step, Server.authorize]
    split
    · split
      · exact placed_goto h trivial
      · rename_i actor hactor
        exact placed_goto h (requireAdmin_ok hactor)
    · exact h
  | read i =>
    simp only [Server.step, Server.read]
    split
    · rename_i actor hplace
      have hactor := h i
      rw [hplace] at hactor
      split
      · exact placed_goto h trivial
      · rename_i write hrun
        exact placed_goto h (execute_answers hactor hrun)
    · exact h
  | flush i =>
    simp only [Server.step, Server.flush]
    split
    · rename_i write hplace
      have hwrite := h i
      rw [hplace] at hwrite
      split
      · exact h
      · split <;> split
        · exact placed_goto h trivial
        · exact placed_goto h hwrite
        · exact placed_goto h trivial
        · exact placed_goto h hwrite
    · exact h
  | commit i =>
    simp only [Server.step, Server.commit]
    split
    · rename_i write hplace
      have happly : (s.apply write).place = s.place := by
        cases write with
        | insert user person => rfl
        | update loaded new =>
          simp only [Server.apply]
          split <;> rfl
      refine placed_goto (fun j => ?_) trivial
      rw [happly]
      exact h j
    · exact h
  | abort i =>
    simp only [Server.step, Server.abort]
    split
    · exact h
    · exact h
    · exact placed_goto h trivial

omit [DecidableEq ι] in
theorem anotherAdmin_of_caller (h : ∀ j, Placed (requests j) (s.place j)) {userId : Uuid}
    (hop : (requests i).operation = .deactivateUser userId) {caller : Account}
    (hcaller : caller ∈ s.accounts) (hid : caller.id = (requests i).callerId)
    (hadmin : caller.IsAdmin) : AnotherAdmin s (.commit i) := by
  have hplaced := h i
  show (s.place i).Spares s.accounts
  cases hplace : s.place i with
  | flushed write =>
    intro _ a ha htarget _
    rw [hplace] at hplaced
    obtain ⟨htarget', hne⟩ := hplaced userId hop
    obtain rfl : userId = a.id := Option.some.inj (htarget'.symm.trans htarget)
    exact ⟨caller, hcaller, fun heq => hne (heq.symm.trans hid), hadmin⟩
  | _ => trivial

/-- Deactivations alone, none of which outlives its caller's rights, always
leave an administrator. -/
theorem always_hasAdmin_of_callers {accounts : Table Account} {persons : Table LinkablePerson}
    {acts : List (Act ι)} (h : HasAdmin accounts)
    (hop : ∀ i, ∃ userId, (requests i).operation = .deactivateUser userId)
    (hcallers : Run.Along (Server.step requests)
      (fun s act => ∀ i, act = .commit i →
        ∃ a ∈ s.accounts, a.id = (requests i).callerId ∧ a.IsAdmin)
      (Server.start accounts persons) acts) :
    Run.Always (Server.step requests) (fun s => HasAdmin s.accounts)
      (Server.start accounts persons) acts := by
  have hstep : ∀ (s : Server ι) (act : Act ι),
      (HasAdmin s.accounts ∧ ∀ j, Placed (requests j) (s.place j)) →
      (∀ i, act = .commit i → ∃ a ∈ s.accounts, a.id = (requests i).callerId ∧ a.IsAdmin) →
      HasAdmin (s.step requests act).accounts ∧
        ∀ j, Placed (requests j) ((s.step requests act).place j) := by
    rintro s act ⟨hadmin, hplaced⟩ hcaller
    refine ⟨(hasAdmin_step requests s act hadmin).mpr ?_, placed_step act hplaced⟩
    cases act with
    | commit i =>
      obtain ⟨userId, hop⟩ := hop i
      obtain ⟨a, ha, hid, hadmin⟩ := hcaller i rfl
      exact anotherAdmin_of_caller hplaced hop ha hid hadmin
    | _ => trivial
  have halways := hcallers.always ⟨h, fun _ => trivial⟩ hstep fun s hs => hs.1
  exact halways

end
end HcMap.Admin
