import HcMap.Routes.Identities

/-!
# Identities, one request at a time

A merge that no other transaction disturbs does what `mergePersons` does in
one step, and requests that run one after the other leave a merged person
nobody's identity: what goes wrong needs two transactions at once.
-/

namespace HcMap.Identity

open Services (Failure PersonMergeError retireSource repoint mergePersons dropOverlap
  moveParticipant movePerformer moveRecipient)

-- ---------------------------------------------------------------------------
-- No one to wait for
-- ---------------------------------------------------------------------------

def Place.Free : Place → Prop
  | .inserted _ | .between .. | .updating .. | .flushed _ => False
  | _ => True

section
variable {ι : Type} [DecidableEq ι] {linkable : Uuid → Bool} {email : Uuid → String}
  {requests : ι → Request} {s : Server ι} {i : ι} {db : Database} {r r' : Request} {p q : Place}

def Quiet (s : Server ι) (i : ι) : Prop := ∀ j ∈ s.begun, j ≠ i → (s.place j).Free

theorem Place.Free.writes (h : q.Free) : q.writes = .none := by
  cases q with
  | between | updating | flushed => exact h.elim
  | _ => rfl

theorem not_waits_of_free (h : q.Free) : ¬ Waits email db r p r' q := by
  have hwrites := h.writes
  unfold Waits
  split
  · exact h.elim
  · rintro (⟨id, -, hid⟩ | ⟨-, -, -, -, x, -, hx, -⟩)
    · rw [hwrites] at hid
      revert hid
      cases ‹Statement› <;> simp [Writes.none, Writes.locked]
    · rw [hwrites] at hx
      simp [Writes.none, Writes.locked] at hx
  · exact h.elim
  · exact id

theorem advance_of_quiet (h : Quiet s i) :
    s.advance linkable email requests i =
      { s.goto i ((requests i).next linkable email s.db (s.place i)) with
        begun := i :: s.begun } := by
  refine if_neg ?_
  rintro ⟨j, hj, hne, hwaits⟩
  exact not_waits_of_free (h j hj hne) hwaits

variable (linkable email requests)

theorem run_advances (h : Quiet s i) (n : Nat) :
    ∃ begun, Run.run (Server.step linkable email requests) s (List.replicate n (.advance i)) =
      ⟨s.db, begun, Function.update s.place i
        (((requests i).next linkable email s.db)^[n] (s.place i))⟩ := by
  induction n generalizing s with
  | zero => exact ⟨s.begun, by simp⟩
  | succ n ih =>
    rw [List.replicate_succ, Run.run_cons, Server.step, advance_of_quiet h]
    have hquiet : Quiet { s.goto i ((requests i).next linkable email s.db (s.place i)) with
        begun := i :: s.begun } i := by
      intro j hj hne
      have hj := (List.mem_cons.mp hj).resolve_left hne
      simpa [Server.goto, hne] using h j hj hne
    obtain ⟨begun, hrun⟩ := ih hquiet
    refine ⟨begun, hrun.trans ?_⟩
    simp [Server.goto]

/-- What a request commits that has come to this place. -/
def committed (db : Database) : Request → Place → Database
  | .createUser .., .inserted user => { db with users := db.users.put user }
  | .mergePerson m, .flushed w => m.retire (w.apply m db)
  | _, _ => db

def closed : Request → Place → Place
  | .createUser .., .inserted _ | .mergePerson _, .flushed _ => .succeeded
  | _, p => p

theorem commit_eq (i : ι) :
    s.commit requests i =
      { s with
        db := committed s.db (requests i) (s.place i)
        place := Function.update s.place i (closed (requests i) (s.place i)) } := by
  have hsame : Function.update s.place i (s.place i) = s.place := Function.update_eq_self i s.place
  unfold Server.commit
  split
  · rename_i hrequest hplace
    rw [hrequest, hplace]
    rfl
  · rename_i hrequest hplace
    rw [hrequest, hplace]
    rfl
  · rename_i hcreate hmerge
    cases hrequest : requests i with
    | createUser userId personId role =>
      cases hplace : s.place i with
      | inserted user => exact absurd hplace (hcreate userId personId role user hrequest)
      | _ => simp only [committed, closed, ← hplace, hsame]
    | mergePerson m =>
      cases hplace : s.place i with
      | flushed w => exact absurd hplace (hmerge m w hrequest)
      | _ => simp only [committed, closed, ← hplace, hsame]

theorem run_alone (h : Quiet s i) :
    ∃ begun, Run.run (Server.step linkable email requests) s (alone i) =
      ⟨committed s.db (requests i) (((requests i).next linkable email s.db)^[12] (s.place i)),
        begun, Function.update s.place i (closed (requests i)
          (((requests i).next linkable email s.db)^[12] (s.place i)))⟩ := by
  obtain ⟨begun, hrun⟩ := run_advances linkable email requests h 12
  refine ⟨begun, ?_⟩
  rw [alone, Run.run_append, hrun, Run.run_cons, Run.run_nil, Server.step, commit_eq]
  simp only [Function.update_self, Function.update_idem]

end

-- ---------------------------------------------------------------------------
-- The updates of a merge
-- ---------------------------------------------------------------------------

section
variable (m : Merge) (db : Database)

theorem dropLink_hits :
    db.participants.updateAt (m.finds db db .dropOverlap) m.dropLink m.key_dropLink =
      db.participants.map (dropOverlap db m.clock m.sourceId m.targetId)
        fun _ => Services.dropOverlap_id :=
  Table.updateAt_hits_self

theorem moveLink_hits :
    db.participants.updateAt (m.finds db db .moveParticipants) m.moveLink m.key_moveLink =
      db.participants.map (moveParticipant m.clock m.sourceId m.targetId)
        fun _ => Services.moveParticipant_id :=
  Table.updateAt_hits_self

theorem setPerformer_hits :
    db.applications.updateAt (m.finds db db .movePerformer) m.setPerformer m.key_setPerformer =
      db.applications.map (movePerformer m.clock m.sourceId m.targetId)
        fun _ => Services.movePerformer_id :=
  Table.updateAt_hits_self

theorem setRecipient_hits :
    db.applications.updateAt (m.finds db db .moveRecipient) m.setRecipient m.key_setRecipient =
      db.applications.map (moveRecipient m.clock m.sourceId m.targetId)
        fun _ => Services.moveRecipient_id :=
  Table.updateAt_hits_self

def Merge.write (w : Writes) (statement : Statement) : Writes :=
  w.record (m.finds (w.apply m db) (w.apply m db) statement) statement

def Merge.writtenLinks : Writes := [.dropOverlap, .moveParticipants].foldl (m.write db) .none

def Merge.written : Writes := statements.foldl (m.write db) .none

theorem apply_none : Writes.none.apply m db = db := by
  simp [Writes.apply, Writes.none]

theorem apply_dropped :
    (m.write db .none .dropOverlap).apply m db =
      { db with
        participants := db.participants.map (dropOverlap db m.clock m.sourceId m.targetId)
          fun _ => Services.dropOverlap_id } := by
  rw [Merge.write, apply_none, Writes.record, Writes.apply]
  simp only [Writes.none, Table.updateAt_nil, dropLink_hits]

/-- The second update of the links works on what the first left. -/
theorem apply_writtenLinks (source : Person) :
    (m.writtenLinks db).apply m db =
      { db with
        participants := (repoint db m.clock source m.sourceId m.targetId).participants } := by
  have hmove := moveLink_hits m ((m.write db .none .dropOverlap).apply m db)
  rw [apply_dropped] at hmove
  have hdropped : (m.write db .none .dropOverlap).dropped = m.finds db db .dropOverlap := by
    rw [Merge.write, apply_none]
    rfl
  show (m.write db (m.write db .none .dropOverlap) .moveParticipants).apply m db = _
  rw [Merge.write, apply_dropped, Writes.record, Writes.apply]
  simp only [hdropped, dropLink_hits, hmove]
  simp [Merge.write, Writes.record, Writes.none, repoint]

section
variable {w : Writes}

theorem apply_performer (hw : w.performer = [] ∧ w.recipient = []) :
    (m.write db w .movePerformer).apply m db =
      { w.apply m db with
        applications := db.applications.map (movePerformer m.clock m.sourceId m.targetId)
          fun _ => Services.movePerformer_id } := by
  have happs : (w.apply m db).applications = db.applications := by
    simp [Writes.apply, hw.1, hw.2]
  have hperform := setPerformer_hits m (w.apply m db)
  rw [happs] at hperform
  rw [Merge.write, Writes.record, Writes.apply]
  simp only [hw.2, hperform, Table.updateAt_nil]
  rfl

theorem apply_recipient {apps : Table Application} (hw : w.recipient = [])
    (happs : (w.apply m db).applications = apps) :
    (m.write db w .moveRecipient).apply m db =
      { w.apply m db with
        applications := apps.map (moveRecipient m.clock m.sourceId m.targetId)
          fun _ => Services.moveRecipient_id } := by
  have hreceive := setRecipient_hits m (w.apply m db)
  rw [happs] at hreceive
  have hview : db.applications.updateAt w.performer m.setPerformer m.key_setPerformer = apps := by
    rw [← happs, Writes.apply]
    simp only [hw, Table.updateAt_nil]
  rw [Merge.write, Writes.record, Writes.apply]
  simp only [hview, hreceive]
  rfl

end

theorem apply_written (source : Person) :
    (m.written db).apply m db =
      { repoint db m.clock source m.sourceId m.targetId with persons := db.persons } := by
  have hperformer := apply_performer m db (w := m.writtenLinks db) ⟨rfl, rfl⟩
  rw [apply_writtenLinks m db source] at hperformer
  have hrecipient := apply_recipient m db
    (w := m.write db (m.writtenLinks db) .movePerformer) rfl
    (congrArg Database.applications hperformer)
  rw [hperformer] at hrecipient
  exact hrecipient

/-- With the tombstone they are the merge. -/
theorem retire_written {source : Person} (hsource : db.persons.find? m.sourceId = some source) :
    m.retire ((m.written db).apply m db) = repoint db m.clock source m.sourceId m.targetId := by
  have hid : source.id = m.sourceId := Table.key_of_find? hsource
  have hpersons : db.persons.map m.tombstone m.key_tombstone =
      db.persons.set (retireSource m.clock m.targetId source) := by
    refine Table.map_congr fun p hp => ?_
    have hkey : key (retireSource m.clock m.targetId source) = m.sourceId := hid
    rw [hkey]
    unfold Merge.tombstone
    by_cases hp' : p.id = m.sourceId
    · have hkey' : key p = m.sourceId := hp'
      obtain rfl : source = p :=
        Table.eq_of_key (Table.mem_of_find? hsource) hp (hid.trans hp'.symm)
      rw [if_pos hp', if_pos hkey']
    · have hkey' : ¬ key p = m.sourceId := hp'
      rw [if_neg hp', if_neg hkey']
  rw [apply_written m db source, Merge.retire]
  simp only [hpersons]
  rfl

-- ---------------------------------------------------------------------------
-- One merge
-- ---------------------------------------------------------------------------

variable {m db}

theorem mergePerson_update {w : Writes} {statement : Statement} {todo : List Statement} (n : Nat)
    (h : statement = .moveParticipants → ((m.write db w statement).apply m db).LinksUnique) :
    (mergePerson db m)^[n + 2] (.between (statement :: todo) w) =
      (mergePerson db m)^[n] (.between todo (m.write db w statement)) := by
  have hok : ¬ (statement = .moveParticipants ∧
      ¬ ((w.record (m.finds (w.apply m db) (w.apply m db) statement) statement).apply m
        db).LinksUnique) := fun ⟨hmove, hnot⟩ => hnot (h hmove)
  rw [Function.iterate_add_apply]
  congr 1
  show mergePerson db m (mergePerson db m (.between (statement :: todo) w)) = _
  simp only [mergePerson, hok, if_false]
  rfl

theorem mergePerson_updates (hne : m.sourceId ≠ m.targetId) (hunique : db.LinksUnique)
    (source : Person) :
    (mergePerson db m)^[9] (.between statements .none) = .flushed (m.written db) := by
  have hmoved : ((m.writtenLinks db).apply m db).LinksUnique := by
    have hafter : (repoint db m.clock source m.sourceId m.targetId).LinksUnique :=
      Routes.linksUnique_repoint hne hunique
    rw [apply_writtenLinks m db source]
    exact hafter
  calc (mergePerson db m)^[9] (.between statements .none)
      = (mergePerson db m)^[7] (.between [.moveParticipants, .movePerformer, .moveRecipient]
          (m.write db .none .dropOverlap)) := mergePerson_update 7 (by simp)
    _ = (mergePerson db m)^[5] (.between [.movePerformer, .moveRecipient] (m.writtenLinks db)) :=
        mergePerson_update 5 fun _ => hmoved
    _ = (mergePerson db m)^[3] (.between [.moveRecipient] _) := mergePerson_update 3 (by simp)
    _ = (mergePerson db m)^[1] (.between [] _) := mergePerson_update 1 (by simp)
    _ = .flushed (m.written db) := rfl

/-- The checks are those of `mergePersons`, in its order. -/
inductive Checked (db : Database) (m : Merge) : Prop
  | passed (source : Person) (hsource : db.persons.find? m.sourceId = some source)
      (hne : m.sourceId ≠ m.targetId)
      (hplace : (mergePerson db m)^[3] .ready = .between statements .none)
      (hmerge : mergePersons db m.clock m.sourceId m.targetId =
        .ok (repoint db m.clock source m.sourceId m.targetId))
  | refused (e : Failure) (hplace : (mergePerson db m)^[3] .ready = .failed (.inr e))
      (hmerge : mergePersons db m.clock m.sourceId m.targetId = .error e)

theorem mergePerson_checks (db : Database) (m : Merge) : Checked db m := by
  by_cases hne : m.sourceId = m.targetId
  · refine .refused (.merge .sameSourceAndTarget) ?_ ?_
    · simp [mergePerson, hne]
    · simp [mergePersons, Services.rejectIf, hne, bind, Except.bind]
  cases hsource : db.persons.find? m.sourceId with
  | none =>
    refine .refused (.merge .sourceNotFound) ?_ ?_
    · simp [mergePerson, hne, hsource, checkPersons]
    · simp [mergePersons, Services.rejectIf, hne, hsource, bind, Except.bind, throw, throwThe,
        MonadExceptOf.throw]
  | some source =>
    cases htarget : db.persons.find? m.targetId with
    | none =>
      refine .refused (.merge .targetNotFound) ?_ ?_
      · simp [mergePerson, hne, hsource, htarget, checkPersons]
      · simp [mergePersons, Services.rejectIf, hne, hsource, htarget, bind, Except.bind, throw,
          throwThe, MonadExceptOf.throw]
    | some target =>
      by_cases hs : source.isDeleted
      · refine .refused (.merge .sourceDeleted) ?_ ?_
        · simp [mergePerson, hne, hsource, htarget, checkPersons, hs]
        · simp [mergePersons, Services.rejectIf, hne, hsource, htarget, hs, bind, Except.bind]
      by_cases ht : target.isDeleted
      · refine .refused (.merge .targetDeleted) ?_ ?_
        · simp [mergePerson, hne, hsource, htarget, checkPersons, hs, ht]
        · simp [mergePersons, Services.rejectIf, hne, hsource, htarget, hs, ht, bind, Except.bind]
      by_cases hu : ∃ u ∈ db.users, u.personId = m.sourceId ∨ u.personId = m.targetId
      · refine .refused (.merge .linkedToUser) ?_ ?_
        · simp [mergePerson, hne, hsource, htarget, checkPersons, hs, ht, hu]
        · simp [mergePersons, Services.rejectIf, hne, hsource, htarget, hs, ht, hu, bind,
            Except.bind]
      · refine .passed source hsource hne ?_ ?_
        · simp [mergePerson, hne, hsource, htarget, checkPersons, hs, ht, hu]
        · simp [mergePersons, Services.rejectIf, hne, hsource, htarget, hs, ht, hu, bind,
            Except.bind, pure, Except.pure]

theorem mergePerson_ends (m : Merge) (hunique : db.LinksUnique) :
    (∃ source, db.persons.find? m.sourceId = some source ∧
        (mergePerson db m)^[12] .ready = .flushed (m.written db) ∧
        mergePersons db m.clock m.sourceId m.targetId =
          .ok (repoint db m.clock source m.sourceId m.targetId)) ∨
      ∃ e, (mergePerson db m)^[12] .ready = .failed (.inr e) ∧
        mergePersons db m.clock m.sourceId m.targetId = .error e := by
  rw [Function.iterate_add_apply (mergePerson db m) 9 3]
  cases mergePerson_checks db m with
  | passed source hsource hne hplace hmerge =>
    rw [hplace]
    exact .inl ⟨source, hsource, mergePerson_updates hne hunique source, hmerge⟩
  | refused e hplace hmerge =>
    rw [hplace]
    exact .inr ⟨e, Function.iterate_fixed rfl 9, hmerge⟩

theorem committed_merge (hunique : db.LinksUnique) :
    committed db (.mergePerson m) ((mergePerson db m)^[12] .ready) =
      match mergePersons db m.clock m.sourceId m.targetId with
      | .ok db' => db'
      | .error _ => db := by
  rcases mergePerson_ends m hunique with ⟨source, hsource, hplace, hmerge⟩ | ⟨e, hplace, hmerge⟩
  · rw [hplace, hmerge]
    exact retire_written m db hsource
  · rw [hplace, hmerge]
    rfl

end

-- ---------------------------------------------------------------------------
-- One after the other
-- ---------------------------------------------------------------------------

/-- Where a request is before its commit, when no one disturbed it. -/
inductive Ready (db : Database) : Request → Place → Prop
  | failed {r : Request} (e) : Ready db r (.failed e)
  | inserted {userId personId : Uuid} {role : UserRole} (person : Person)
      (hperson : db.persons.find? personId = some person) (hlive : person.isDeleted = false) :
      Ready db (.createUser userId personId role) (.inserted ⟨userId, role, true, personId⟩)
  | flushed {m : Merge} (source : Person)
      (hsource : db.persons.find? m.sourceId = some source)
      (hmerge : mergePersons db m.clock m.sourceId m.targetId =
        .ok (repoint db m.clock source m.sourceId m.targetId)) :
      Ready db (.mergePerson m) (.flushed (m.written db))

section
variable {ι : Type} [DecidableEq ι] {linkable : Uuid → Bool} {email : Uuid → String}
  {requests : ι → Request} {s : Server ι} {i : ι} {db : Database} {m : Merge} {r : Request}
  {p : Place}

theorem ready_createUser {userId personId : Uuid} {role : UserRole} :
    Ready db (.createUser userId personId role)
      ((createUser linkable email db userId personId role)^[12] .ready) := by
  have hfailed : ∀ n e, (createUser linkable email db userId personId role)^[n] (.failed e) =
      .failed e := fun n e => Function.iterate_fixed rfl n
  have hinserted : ∀ n user, (createUser linkable email db userId personId role)^[n]
      (.inserted user) = .inserted user := fun n user => Function.iterate_fixed rfl n
  have hread : ∀ n p, createUser linkable email db userId personId role .ready = p →
      (createUser linkable email db userId personId role)^[n + 1] .ready =
        (createUser linkable email db userId personId role)^[n] p := fun n p h => by
    rw [Function.iterate_succ_apply, h]
  cases hperson : db.persons.find? personId with
  | none =>
    rw [hread 11 (.failed (.inl Admin.personNotFound)) (by simp [createUser, hperson]), hfailed]
    exact .failed _
  | some person =>
    by_cases hdeleted : person.isDeleted
    · rw [hread 11 (.failed (.inl Admin.personDeleted))
        (by simp [createUser, hperson, hdeleted]), hfailed]
      exact .failed _
    by_cases hlinkable : linkable personId
    · rw [hread 11 .resolved (by simp [createUser, hperson, hdeleted, hlinkable]),
        Function.iterate_succ_apply]
      by_cases htaken : Taken email db userId personId
      · have hflush : createUser linkable email db userId personId role .resolved =
            .failed (.inl Admin.alreadyInUse) := if_pos htaken
        rw [hflush, hfailed]
        exact .failed _
      · have hflush : createUser linkable email db userId personId role .resolved =
            .inserted ⟨userId, role, true, personId⟩ := if_neg htaken
        rw [hflush, hinserted]
        exact .inserted person hperson (by simpa using hdeleted)
    · rw [hread 11 (.failed (.inl Admin.personNotLinkable))
        (by simp [createUser, hperson, hdeleted, hlinkable]), hfailed]
      exact .failed _

theorem ready_mergePerson (hunique : db.LinksUnique) :
    Ready db (.mergePerson m) ((mergePerson db m)^[12] .ready) := by
  rcases mergePerson_ends m hunique with ⟨source, hsource, hplace, hmerge⟩ | ⟨e, hplace, -⟩
  · rw [hplace]
    exact .flushed source hsource hmerge
  · rw [hplace]
    exact .failed _

variable (linkable email requests)

theorem ready_next (hunique : db.LinksUnique) (r : Request) :
    Ready db r ((r.next linkable email db)^[12] .ready) := by
  cases r with
  | createUser userId personId role => exact ready_createUser
  | mergePerson m => exact ready_mergePerson hunique

theorem Ready.closed_finished (h : Ready db r p) : (closed r p).Finished := by
  cases h with
  | failed e => cases r <;> trivial
  | inserted => trivial
  | flushed => trivial

theorem Ready.linksUnique (h : Ready db r p) (hunique : db.LinksUnique) :
    (committed db r p).LinksUnique := by
  cases h with
  | failed e => cases r <;> exact hunique
  | inserted => exact hunique
  | @flushed m source hsource hmerge =>
    have hne := (Routes.mergePersons_ok hmerge).1
    simp only [committed, retire_written m db hsource]
    exact Routes.linksUnique_repoint hne hunique

theorem unreferenced_repoint {clock : Time} {source : Person} {sid tid : Uuid} (hne : sid ≠ tid)
    (husers : ∀ u ∈ db.users, u.personId ≠ sid) :
    Unreferenced (repoint db clock source sid tid) sid where
  users := husers
  participants _ hep hperson := Routes.source_repoint hne hep hperson
  applications _ ha := Routes.applications_repoint_free hne ha

/-- What a request checked is as it was. -/
theorem Ready.holds (h : Ready db r p) : Holds db r p := by
  cases h with
  | failed e => cases r <;> trivial
  | inserted person hperson hlive =>
    intro p hp hid
    obtain rfl := Table.eq_of_key (Table.mem_of_find? hperson) hp
      ((Table.key_of_find? hperson).trans hid.symm)
    simp [hlive]
  | @flushed m source hsource hmerge =>
    obtain ⟨hne, ⟨target, htarget, hlive⟩, husers, -⟩ := Routes.mergePersons_ok hmerge
    intro p hp hor
    rcases hor with hid | ⟨hid, hdeleted⟩
    · rw [hid, ← unreferenced_retire (m := m), retire_written m db hsource]
      exact unreferenced_repoint hne fun u hu => (husers u hu).1
    · obtain rfl := Table.eq_of_key (Table.mem_of_find? htarget) hp
        ((Table.key_of_find? htarget).trans hid.symm)
      simp [hlive] at hdeleted

theorem Ready.nobodysIdentity (h : Ready db r p) (hid : NobodysIdentity db) :
    NobodysIdentity (committed db r p) := by
  have hholds := h.holds
  cases h with
  | failed e => cases r <;> exact hid
  | inserted => exact (nobodysIdentity_createUser hid).mpr hholds
  | flushed => exact (nobodysIdentity_merge hid).mpr hholds

def AtRest (s : Server ι) : Prop := ∀ j, s.place j = .ready ∨ (s.place j).Finished

omit [DecidableEq ι] in
theorem AtRest.quiet (h : AtRest s) (i : ι) : Quiet s i := by
  intro j _ _
  rcases h j with hready | hfinished
  · rw [hready]
    trivial
  · generalize s.place j = p at hfinished
    cases p <;> trivial

theorem next_finished (db : Database) (r : Request) (h : p.Finished) (n : Nat) :
    (r.next linkable email db)^[n] p = p ∧ committed db r p = db ∧ closed r p = p := by
  refine ⟨Function.iterate_fixed ?_ n, ?_⟩
  · cases r <;> cases p <;> first | rfl | exact h.elim
  · cases r <;> cases p <;> first | exact ⟨rfl, rfl⟩ | exact h.elim

/-- A merge that runs alone is the merge of the service. -/
theorem run_mergePerson (hrest : AtRest s) (hready : s.place i = .ready)
    (hrequest : requests i = .mergePerson m) (hunique : s.db.LinksUnique) :
    (Run.run (Server.step linkable email requests) s (alone i)).db =
      match mergePersons s.db m.clock m.sourceId m.targetId with
      | .ok db' => db'
      | .error _ => s.db := by
  obtain ⟨begun, hrun⟩ := run_alone linkable email requests (hrest.quiet i)
  rw [hrun, hready, hrequest]
  exact committed_merge hunique

structure Sound (s : Server ι) : Prop where
  identity : NobodysIdentity s.db
  unique : s.db.LinksUnique
  rest : AtRest s

theorem Sound.alone (h : Sound s) (i : ι) :
    Sound (Run.run (Server.step linkable email requests) s (alone i)) := by
  obtain ⟨begun, hrun⟩ := run_alone linkable email requests (h.rest.quiet i)
  rw [hrun]
  have hrest : ∀ p : Place, p.Finished →
      AtRest ⟨s.db, begun, Function.update s.place i p⟩ := fun p hp j => by
    by_cases hj : j = i
    · subst hj
      exact .inr (by simpa using hp)
    · simpa [hj] using h.rest j
  rcases h.rest i with hready | hfinished
  · have hend := ready_next linkable email h.unique (requests i)
    rw [hready]
    exact ⟨hend.nobodysIdentity h.identity, hend.linksUnique h.unique,
      hrest _ hend.closed_finished⟩
  · obtain ⟨hnext, hdb, hclosed⟩ :=
      next_finished linkable email s.db (requests i) hfinished 12
    rw [hnext, hdb, hclosed]
    exact ⟨h.identity, h.unique, hrest _ hfinished⟩

/-- Requests that run one after the other leave a merged person nobody's
identity. -/
theorem serial_nobodysIdentity (h : Sound s) (order : List ι) :
    NobodysIdentity
      (Run.run (Server.step linkable email requests) s (order.flatMap alone)).db := by
  induction order generalizing s with
  | nil => exact h.identity
  | cons i order ih =>
    rw [List.flatMap_cons, Run.run_append]
    exact ih (h.alone linkable email requests i)

end

end HcMap.Identity
