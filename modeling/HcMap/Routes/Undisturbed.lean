import Mathlib.Data.List.Infix
import HcMap.Routes.Identities

/-!
# Identities, undisturbed

A merge re-points what its updates find, each in a snapshot and again when it
writes. So nothing is left of its source unless somebody else brings in a reference
after that, or a user. And another merge may take its target away between the check
and the commit, or the person of a new user.
-/

namespace HcMap.Identity

-- ---------------------------------------------------------------------------
-- What the updates look at
-- ---------------------------------------------------------------------------

/-- The row of the id refers to the source, and the update is there to re-point it. -/
def Merge.Refers (m : Merge) (db : Database) : Statement → Uuid → Prop
  | .dropOverlap, _ => False
  | .moveParticipants, id =>
    ∃ ep ∈ db.participants, ep.id = id ∧ ep.personId = m.sourceId ∧ ¬ ep.isDeleted
  | .movePerformer, id => ∃ a ∈ db.applications, a.id = id ∧ a.performerId = m.sourceId
  | .moveRecipient, id => ∃ a ∈ db.applications, a.id = id ∧ a.recipientId = m.sourceId

instance (m : Merge) (db : Database) (statement : Statement) (id : Uuid) :
    Decidable (m.Refers db statement id) := by
  cases statement <;> unfold Merge.Refers <;> infer_instance

def Place.begins : Place → Option Statement
  | .between (statement :: _) _ => some statement
  | _ => none

def Place.ends : Place → Option Statement
  | .updating statement _ _ _ => some statement
  | _ => none

/-- The server, and what was committed when the updates of the requests took their
snapshots, and when they wrote. -/
structure Watched (ι : Type) where
  server : Server ι
  snapshot : ι → Statement → Database
  written : ι → Statement → Database

section
variable {ι : Type} [DecidableEq ι]

def note (log : ι → Statement → Database) (i : ι) (statement : Option Statement) (db : Database) :
    ι → Statement → Database :=
  fun j x => if j = i ∧ statement = some x then db else log j x

variable (linkable : Uuid → Bool) (email : Uuid → String) (requests : ι → Request)

def Watched.start (db : Database) : Watched ι := ⟨Server.start db, fun _ _ => db, fun _ _ => db⟩

def Watched.step (v : Watched ι) (act : Act ι) : Watched ι where
  server := v.server.step linkable email requests act
  snapshot := match act with
    | .advance i => note v.snapshot i (v.server.place i).begins v.server.db
    | _ => v.snapshot
  written := match act with
    | .advance i => note v.written i (v.server.place i).ends v.server.db
    | _ => v.written

end

-- ---------------------------------------------------------------------------
-- The condition
-- ---------------------------------------------------------------------------

/-- Since the checks and the updates of the merge looked, nobody else has committed
what stands against it: a user of its source, the end of its target, or another
reference to its source. -/
structure Undisturbed (m : Merge) (db : Database) (snapshot written : Statement → Database) :
    Prop where
  users : ∀ u ∈ db.users, u.personId ≠ m.sourceId
  target : ∀ p ∈ db.persons, p.id = m.targetId → ¬ p.isDeleted
  participants : ∀ ep ∈ db.participants, ep.personId = m.sourceId → ¬ ep.isDeleted →
    m.Refers (snapshot .moveParticipants) .moveParticipants ep.id ∧
      m.Refers (written .moveParticipants) .moveParticipants ep.id
  performers : ∀ a ∈ db.applications, a.performerId = m.sourceId →
    m.Refers (snapshot .movePerformer) .movePerformer a.id ∧
      m.Refers (written .movePerformer) .movePerformer a.id
  recipients : ∀ a ∈ db.applications, a.recipientId = m.sourceId →
    m.Refers (snapshot .moveRecipient) .moveRecipient a.id ∧
      m.Refers (written .moveRecipient) .moveRecipient a.id

instance (m : Merge) (db : Database) (snapshot written : Statement → Database) :
    Decidable (Undisturbed m db snapshot written) :=
  decidable_of_iff (_ ∧ _ ∧ _ ∧ _ ∧ _)
    ⟨fun ⟨hu, ht, hl, hp, hr⟩ => ⟨hu, ht, hl, hp, hr⟩,
      fun h => ⟨h.users, h.target, h.participants, h.performers, h.recipients⟩⟩

/-- At its commit a merge is undisturbed, and the person of a new user still live. -/
def StillHolds {ι : Type} (requests : ι → Request) (v : Watched ι) : Act ι → Prop
  | .commit i =>
    match requests i with
    | .createUser _ personId _ => ∀ p ∈ v.server.db.persons, p.id = personId → ¬ p.isDeleted
    | .mergePerson m => Undisturbed m v.server.db (v.snapshot i) (v.written i)
  | _ => True

instance {ι : Type} (requests : ι → Request) (v : Watched ι) :
    ∀ act, Decidable (StillHolds requests v act)
  | .commit i => by
    unfold StillHolds
    dsimp only
    split <;> infer_instance
  | .advance _ | .abort _ => .isTrue trivial

-- ---------------------------------------------------------------------------
-- What the updates of a merge have covered
-- ---------------------------------------------------------------------------

def Writes.covered (w : Writes) : Statement → List Uuid
  | .dropOverlap => []
  | .moveParticipants => w.dropped ++ w.moved
  | .movePerformer => w.performer
  | .moveRecipient => w.recipient

/-- The merge has done its updates but for `todo`, and each covers what it was to
re-point. -/
structure Progress (m : Merge) (snapshot written : Statement → Database) (todo : List Statement)
    (w : Writes) : Prop where
  ne : m.sourceId ≠ m.targetId
  order : todo <:+ statements
  moved : .moveParticipants ∈ todo → w.moved = []
  performer : .movePerformer ∈ todo → w.performer = []
  recipient : .moveRecipient ∈ todo → w.recipient = []
  covers : ∀ x, x ∉ todo → ∀ id, m.Refers (snapshot x) x id → m.Refers (written x) x id →
    id ∈ w.covered x

def Request.Tracks (snapshot written : Statement → Database) : Request → Place → Prop
  | .createUser _ personId _, .inserted user => user.personId = personId
  | .mergePerson m, .sourceRead _ | .mergePerson m, .loaded => m.sourceId ≠ m.targetId
  | .mergePerson m, .between todo w => Progress m snapshot written todo w
  | .mergePerson m, .updating x todo seen w =>
    snapshot x = seen ∧ Progress m snapshot written (x :: todo) w
  | .mergePerson m, .flushed w => Progress m snapshot written [] w
  | _, _ => True

section
variable {m : Merge} {db seen : Database} {snapshot written : Statement → Database} {w : Writes}
  {x : Statement} {todo : List Statement} {id : Uuid}

theorem apply_participant {ep : EventParticipant} (hep : ep ∈ db.participants)
    (hdropped : ep.id ∉ w.dropped) (hmoved : ep.id ∉ w.moved) :
    ep ∈ (w.apply m db).participants :=
  (Table.mem_updateAt m.key_moveLink).mpr
    ⟨ep, (Table.mem_updateAt m.key_dropLink).mpr ⟨ep, hep, if_neg hdropped⟩, if_neg hmoved⟩

theorem apply_application {a : Application} (ha : a ∈ db.applications) :
    ∃ a' ∈ (w.apply m db).applications, a'.id = a.id ∧
      (a.id ∉ w.performer → a'.performerId = a.performerId) ∧
      (a.id ∉ w.recipient → a'.recipientId = a.recipientId) := by
  refine ⟨_, (Table.mem_updateAt m.key_setRecipient).mpr
    ⟨_, (Table.mem_updateAt m.key_setPerformer).mpr ⟨a, ha, rfl⟩, rfl⟩, ?_⟩
  have hkey : key (if key a ∈ w.performer then m.setPerformer a else a) = a.id := by
    split <;> rfl
  rw [hkey]
  refine ⟨?_, fun hperformer => ?_, fun hrecipient => ?_⟩
  · split <;> exact hkey
  · have hsame : key a ∉ w.performer := hperformer
    rw [if_neg hsame]
    split <;> rfl
  · rw [if_neg hrecipient]
    split <;> rfl

/-- What both the snapshot and what is committed at the write refer to, the transaction
finds in both, if it has not written it before. -/
theorem covered_record (hmoved : x = .moveParticipants → w.moved = [])
    (hperformer : x = .movePerformer → w.performer = [])
    (hrecipient : x = .moveRecipient → w.recipient = [])
    (hseen : m.Refers seen x id) (hnow : m.Refers db x id) :
    id ∈ (w.record (m.finds (w.apply m seen) (w.apply m db) x) x).covered x := by
  cases x with
  | dropOverlap => exact hseen.elim
  | moveParticipants =>
    refine List.mem_append.mpr ?_
    by_cases hdropped : id ∈ w.dropped
    · exact .inl hdropped
    · have hown : ∀ {db : Database}, m.Refers db .moveParticipants id →
          ∃ ep ∈ (w.apply m db).participants, key ep = id ∧
            (ep.personId = m.sourceId ∧ ¬ ep.isDeleted) := by
        rintro db ⟨ep, hep, rfl, hrefers⟩
        exact ⟨ep, apply_participant hep hdropped (by simp [hmoved rfl]), rfl, hrefers⟩
      obtain ⟨ep, hep, hid, hp⟩ := hown hnow
      obtain ⟨ep', hep', hid', hp'⟩ := hown hseen
      exact .inr (Table.mem_hits.mpr ⟨ep, hep, ⟨hp, ep', hep', hid'.trans hid.symm, hp'⟩, hid⟩)
  | movePerformer =>
    have hown : ∀ {db : Database}, m.Refers db .movePerformer id →
        ∃ a ∈ (w.apply m db).applications, key a = id ∧ a.performerId = m.sourceId := by
      rintro db ⟨a, ha, rfl, hrefers⟩
      obtain ⟨a', ha', hid, hsame, -⟩ := apply_application (m := m) (w := w) ha
      exact ⟨a', ha', hid, (hsame (by simp [hperformer rfl])).trans hrefers⟩
    obtain ⟨a, ha, hid, hp⟩ := hown hnow
    obtain ⟨a', ha', hid', hp'⟩ := hown hseen
    exact Table.mem_hits.mpr ⟨a, ha, ⟨hp, a', ha', hid'.trans hid.symm, hp'⟩, hid⟩
  | moveRecipient =>
    have hown : ∀ {db : Database}, m.Refers db .moveRecipient id →
        ∃ a ∈ (w.apply m db).applications, key a = id ∧ a.recipientId = m.sourceId := by
      rintro db ⟨a, ha, rfl, hrefers⟩
      obtain ⟨a', ha', hid, -, hsame⟩ := apply_application (m := m) (w := w) ha
      exact ⟨a', ha', hid, (hsame (by simp [hrecipient rfl])).trans hrefers⟩
    obtain ⟨a, ha, hid, hp⟩ := hown hnow
    obtain ⟨a', ha', hid', hp'⟩ := hown hseen
    exact Table.mem_hits.mpr ⟨a, ha, ⟨hp, a', ha', hid'.trans hid.symm, hp'⟩, hid⟩

theorem next_todo (h : x :: todo <:+ statements) :
    (x = .dropOverlap ∧ todo = [.moveParticipants, .movePerformer, .moveRecipient]) ∨
      (x = .moveParticipants ∧ todo = [.movePerformer, .moveRecipient]) ∨
      (x = .movePerformer ∧ todo = [.moveRecipient]) ∨ (x = .moveRecipient ∧ todo = []) := by
  have htails := (List.mem_tails _ _).mpr h
  simpa [statements] using htails

theorem Progress.record (h : Progress m snapshot written (x :: todo) w) :
    Progress m snapshot written todo
      (w.record (m.finds (w.apply m (snapshot x)) (w.apply m (written x)) x) x) := by
  have hself : ∀ id, m.Refers (snapshot x) x id → m.Refers (written x) x id →
      id ∈ (w.record (m.finds (w.apply m (snapshot x)) (w.apply m (written x)) x) x).covered x :=
    fun id => covered_record (fun hx => h.moved (hx ▸ List.mem_cons_self ..))
      (fun hx => h.performer (hx ▸ List.mem_cons_self ..))
      (fun hx => h.recipient (hx ▸ List.mem_cons_self ..))
  generalize m.finds (w.apply m (snapshot x)) (w.apply m (written x)) x = ids at hself ⊢
  have horder : todo <:+ statements := (List.suffix_cons x todo).trans h.order
  have hcovers : ∀ y, y ∉ todo → (w.record ids x).covered y = w.covered y ∨ y = x → ∀ id,
      m.Refers (snapshot y) y id → m.Refers (written y) y id →
        id ∈ (w.record ids x).covered y := by
    rintro y hy hsame id hs hw
    by_cases hyx : y = x
    · subst hyx
      exact hself id hs hw
    · rw [hsame.resolve_right hyx]
      exact h.covers y (by simp [hyx, hy]) id hs hw
  rcases next_todo h.order with ⟨rfl, rfl⟩ | ⟨rfl, rfl⟩ | ⟨rfl, rfl⟩ | ⟨rfl, rfl⟩
  · refine ⟨h.ne, horder, fun _ => h.moved (by simp), fun _ => h.performer (by simp),
      fun _ => h.recipient (by simp), fun y hy => hcovers y hy (.inr ?_)⟩
    cases y <;> simp_all
  · refine ⟨h.ne, horder, by simp, fun _ => h.performer (by simp),
      fun _ => h.recipient (by simp), fun y hy => hcovers y hy ?_⟩
    cases y <;> simp_all [Writes.record, Writes.covered]
  · refine ⟨h.ne, horder, by simp, by simp, fun _ => h.recipient (by simp),
      fun y hy => hcovers y hy ?_⟩
    cases y <;> simp_all [Writes.record, Writes.covered]
  · refine ⟨h.ne, horder, by simp, by simp, by simp, fun y hy => hcovers y hy ?_⟩
    cases y <;> simp [Writes.record, Writes.covered]

/-- An undisturbed merge that has done all its updates leaves nothing of its source. -/
theorem Progress.unreferenced (h : Progress m snapshot written [] w)
    (hquiet : Undisturbed m db snapshot written) : Unreferenced (w.apply m db) m.sourceId where
  users := hquiet.users
  participants ep hep hperson := by
    obtain ⟨x, hx, rfl⟩ := (Table.mem_updateAt m.key_moveLink).mp hep
    obtain ⟨r, hr, rfl⟩ := (Table.mem_updateAt m.key_dropLink).mp hx
    have hkey : key (if key r ∈ w.dropped then m.dropLink r else r) = r.id := by
      split <;> rfl
    rw [hkey] at hperson ⊢
    by_cases hmoved : r.id ∈ w.moved
    · rw [if_pos hmoved] at hperson
      exact absurd hperson.symm h.ne
    · rw [if_neg hmoved] at hperson ⊢
      by_cases hdropped : key r ∈ w.dropped
      · rw [if_pos hdropped]
        rfl
      · rw [if_neg hdropped] at hperson ⊢
        by_contra hlive
        obtain ⟨hs, hw⟩ := hquiet.participants r hr hperson hlive
        have hcovered := h.covers .moveParticipants List.not_mem_nil r.id hs hw
        exact (List.mem_append.mp hcovered).elim hdropped hmoved
  applications a ha := by
    obtain ⟨r, hr, hperformer, hrecipient⟩ := mem_applications_apply ha
    rw [hperformer, hrecipient]
    constructor
    · split
      · exact h.ne.symm
      · rename_i hwritten
        intro hsource
        obtain ⟨hs, hw⟩ := hquiet.performers r hr hsource
        exact hwritten (h.covers .movePerformer List.not_mem_nil r.id hs hw)
    · split
      · exact h.ne.symm
      · rename_i hwritten
        intro hsource
        obtain ⟨hs, hw⟩ := hquiet.recipients r hr hsource
        exact hwritten (h.covers .moveRecipient List.not_mem_nil r.id hs hw)

theorem Progress.congr {snapshot' written' : Statement → Database}
    (h : Progress m snapshot written todo w) (hs : ∀ y, y ∉ todo → snapshot' y = snapshot y)
    (hw : ∀ y, y ∉ todo → written' y = written y) : Progress m snapshot' written' todo w :=
  { h with
    covers := fun y hy id hrefers hrefers' => by
      rw [hs y hy] at hrefers
      rw [hw y hy] at hrefers'
      exact h.covers y hy id hrefers hrefers' }

theorem progress_none (hne : m.sourceId ≠ m.targetId) :
    Progress m snapshot written statements .none where
  ne := hne
  order := List.suffix_rfl
  moved _ := rfl
  performer _ := rfl
  recipient _ := rfl
  covers x hx := by cases x <;> simp [statements] at hx

end

-- ---------------------------------------------------------------------------
-- Every run
-- ---------------------------------------------------------------------------

section
variable {linkable : Uuid → Bool} {email : Uuid → String} {db : Database} {m : Merge} {r : Request}
  {p : Place} {snapshot written : Statement → Database}

theorem tracks_noted (db : Database) (h : r.Tracks snapshot written p) :
    r.Tracks (fun y => if p.begins = some y then db else snapshot y)
      (fun y => if p.ends = some y then db else written y) p := by
  cases r with
  | createUser => cases p <;> exact h
  | mergePerson m =>
    cases p with
    | between todo w =>
      refine Progress.congr h (fun y hy => if_neg fun hx => hy ?_) fun y _ => rfl
      cases todo with
      | nil => cases hx
      | cons x todo =>
        cases hx
        exact List.mem_cons_self ..
    | updating x todo seen w =>
      obtain ⟨hseen, hprogress⟩ := h
      refine ⟨hseen, hprogress.congr (fun y _ => rfl) fun y hy => if_neg fun hx => hy ?_⟩
      cases hx
      exact List.mem_cons_self ..
    | _ => exact h

theorem tracks_createUser {userId personId : Uuid} {role : UserRole}
    (h : (Request.createUser userId personId role).Tracks snapshot written p) :
    (Request.createUser userId personId role).Tracks snapshot written
      (createUser linkable email db userId personId role p) := by
  cases p with
  | ready =>
    simp only [createUser]
    split
    · trivial
    · split
      · trivial
      · split <;> trivial
  | resolved =>
    simp only [createUser]
    split
    · trivial
    · rfl
  | _ => exact h

theorem tracks_mergePerson
    (h : (Request.mergePerson m).Tracks
      (fun y => if p.begins = some y then db else snapshot y)
      (fun y => if p.ends = some y then db else written y) p) :
    (Request.mergePerson m).Tracks
      (fun y => if p.begins = some y then db else snapshot y)
      (fun y => if p.ends = some y then db else written y) (mergePerson db m p) := by
  cases p with
  | ready =>
    simp only [mergePerson]
    split
    · trivial
    · rename_i hne
      exact hne
  | sourceRead source =>
    simp only [mergePerson]
    split
    · trivial
    · exact h
  | loaded =>
    simp only [mergePerson]
    split
    · trivial
    · exact progress_none h
  | between todo w =>
    cases todo with
    | nil => exact h
    | cons x todo => exact ⟨if_pos rfl, h⟩
  | updating x todo seen w =>
    obtain ⟨hseen, hprogress⟩ := h
    have hdone := hprogress.record
    simp only [hseen, Place.ends, if_true] at hdone
    simp only [mergePerson]
    split
    · trivial
    · exact hdone
  | _ => exact h

end

section
variable {ι : Type} [DecidableEq ι] {linkable : Uuid → Bool} {email : Uuid → String}
  {requests : ι → Request} {v : Watched ι} {i j : ι} {db : Database} {act : Act ι}
  {log : ι → Statement → Database} {statement : Option Statement}

theorem note_self :
    note log i statement db i = fun x => if statement = some x then db else log i x := by
  funext x
  simp [note]

theorem note_of_ne (h : i ≠ j) : note log j statement db i = log i := by
  funext x
  simp [note, h]

def Tracked (requests : ι → Request) (v : Watched ι) : Prop :=
  ∀ i, (requests i).Tracks (v.snapshot i) (v.written i) (v.server.place i)

theorem tracks_over (r : Request) (snapshot written : Statement → Database) {p : Place}
    (hp : p = .succeeded ∨ p = .lost) : r.Tracks snapshot written p := by
  rcases hp with rfl | rfl <;> cases r <;> trivial

theorem commit_place (s : Server ι) :
    (s.commit requests j).place i = s.place i ∨ (s.commit requests j).place i = .succeeded := by
  by_cases hij : i = j
  · subst hij
    unfold Server.commit
    split
    · exact .inr (by simp [Server.goto])
    · exact .inr (by simp [Server.goto])
    · exact .inl rfl
  · unfold Server.commit
    split <;> exact .inl (by simp [Server.goto, hij])

theorem abort_place (s : Server ι) :
    (s.abort j).place i = s.place i ∨ (s.abort j).place i = .lost := by
  unfold Server.abort
  split
  · exact .inl rfl
  · exact .inl rfl
  · by_cases hij : i = j
    · exact .inr (by simp [Server.goto, hij])
    · exact .inl (by simp [Server.goto, hij])

theorem Tracked.advance (h : Tracked requests v) (j : ι) :
    Tracked requests (v.step linkable email requests (.advance j)) := by
  intro i
  by_cases hij : i = j
  · subst hij
    have hnoted := tracks_noted v.server.db (h i)
    simp only [Watched.step, note_self, Server.step, Server.advance]
    split
    · exact hnoted
    · simp only [Server.goto, Function.update_self]
      cases hrequest : requests i with
      | createUser userId personId role =>
        rw [hrequest] at hnoted
        exact tracks_createUser hnoted
      | mergePerson m =>
        rw [hrequest] at hnoted
        exact tracks_mergePerson hnoted
  · have hplace : (v.server.advance linkable email requests j).place i = v.server.place i := by
      unfold Server.advance
      split
      · rfl
      · simp [Server.goto, hij]
    simp only [Watched.step, note_of_ne hij, Server.step, hplace]
    exact h i

theorem Tracked.step (h : Tracked requests v) (act : Act ι) :
    Tracked requests (v.step linkable email requests act) := by
  cases act with
  | advance j => exact h.advance j
  | commit j =>
    intro i
    simp only [Watched.step, Server.step]
    rcases commit_place v.server with hsame | hover
    · rw [hsame]
      exact h i
    · exact tracks_over _ _ _ (.inl hover)
  | abort j =>
    intro i
    simp only [Watched.step, Server.step]
    rcases abort_place v.server with hsame | hover
    · rw [hsame]
      exact h i
    · exact tracks_over _ _ _ (.inr hover)

omit [DecidableEq ι] in
theorem Tracked.holds (h : Tracked requests v) (hok : StillHolds requests v (.commit i)) :
    Holds v.server.db (requests i) (v.server.place i) := by
  have htracks := h i
  unfold StillHolds at hok
  cases hrequest : requests i with
  | createUser userId personId role =>
    simp only [hrequest] at hok
    rw [hrequest] at htracks
    cases hplace : v.server.place i with
    | inserted user =>
      rw [hplace] at htracks
      have hperson : user.personId = personId := htracks
      intro p hp hid
      exact hok p hp (hid.trans hperson)
    | _ => trivial
  | mergePerson m =>
    simp only [hrequest] at hok
    rw [hrequest] at htracks
    cases hplace : v.server.place i with
    | flushed w =>
      rw [hplace] at htracks
      have hprogress : Progress m (v.snapshot i) (v.written i) [] w := htracks
      rintro p hp (hid | ⟨hid, hdeleted⟩)
      · rw [hid]
        exact hprogress.unreferenced hok
      · exact absurd hdeleted (hok.target p hp hid)
    | _ => trivial

theorem nobodysIdentity_step (h : Tracked requests v) (hid : NobodysIdentity v.server.db)
    (hok : StillHolds requests v act) :
    NobodysIdentity (v.step linkable email requests act).server.db := by
  cases act with
  | advance i =>
    simp only [Watched.step, Server.step, Server.advance]
    split <;> exact hid
  | abort i =>
    simp only [Watched.step, Server.step, Server.abort]
    split <;> exact hid
  | commit i =>
    have hholds := h.holds hok
    simp only [Watched.step, Server.step, Server.commit]
    split
    · rename_i userId personId role user hrequest hplace
      rw [hrequest, hplace] at hholds
      exact (nobodysIdentity_createUser hid).mpr hholds
    · rename_i m w hrequest hplace
      rw [hrequest, hplace] at hholds
      exact (nobodysIdentity_merge hid).mpr hholds
    · exact hid

structure Safe (requests : ι → Request) (v : Watched ι) : Prop where
  tracked : Tracked requests v
  identity : NobodysIdentity v.server.db

omit [DecidableEq ι] in
theorem safe_start (requests : ι → Request) (h : NobodysIdentity db) :
    Safe requests (Watched.start db) where
  tracked i := by
    show (requests i).Tracks _ _ .ready
    cases requests i <;> trivial
  identity := h

theorem Safe.step (h : Safe requests v) (hok : StillHolds requests v act) :
    Safe requests (v.step linkable email requests act) :=
  ⟨h.tracked.step act, nobodysIdentity_step h.tracked h.identity hok⟩

/-- A merged person is nobody's identity as long as every request commits
while what it checked still holds. -/
theorem always_nobodysIdentity (linkable : Uuid → Bool) (email : Uuid → String)
    (requests : ι → Request) (db : Database) (acts : List (Act ι)) (h : NobodysIdentity db)
    (hok : Run.Along (Watched.step linkable email requests) (StillHolds requests)
      (Watched.start db) acts) :
    Run.Always (Watched.step linkable email requests) (fun v => NobodysIdentity v.server.db)
      (Watched.start db) acts := by
  refine hok.always (safe_start requests h) (fun v act hsafe hstill => hsafe.step hstill) ?_
  exact fun _ hsafe => hsafe.identity

end

def mergeBeside : Bool → Request
  | true => .mergePerson ⟨4, 5, 200⟩
  | false => .createUser 9 6 .viewer

theorem always_nobodysIdentity_sample :
    Run.Always (Watched.step (fun _ => true) (fun id => toString id) mergeBeside)
      (fun v => NobodysIdentity v.server.db) (Watched.start sampleGuests)
      (.advance false :: List.replicate 6 (.advance true) ++ [.advance false, .commit false] ++
        List.replicate 6 (.advance true) ++ [.commit true]) :=
  always_nobodysIdentity (fun _ => true) (fun id => toString id) mergeBeside sampleGuests _
    (by decide) (by decide)

end HcMap.Identity
