import HcMap.Sync.Frames

/-!
# Sequence numbers

The server numbers the applications of an event in the order in which a batch
inserts them. A session that may insert into an event sees every row of it, so
the number it computes under its policies is one more than the largest of all.
-/

namespace HcMap.Sync

def numbersOf (db : Database) (eid : Uuid) : List (Uuid × Nat) :=
  (db.applications.rows.filter fun a => a.eventId = eid).map fun a => (a.id, a.sequenceNo)

def maxSequenceNo (db : Database) (eid : Uuid) : Nat :=
  ((numbersOf db eid).map Prod.snd).foldr max 0

def NumbersDistinct (eid : Uuid) (db : Database) : Prop :=
  ((numbersOf db eid).map Prod.snd).Nodup

instance (eid : Uuid) (db : Database) : Decidable (NumbersDistinct eid db) := by
  unfold NumbersDistinct
  infer_instance

def Inserts (item : ApplicationPushItem) (ds : List ApplicationDoc) : Prop :=
  item.assumedMasterState = none ∧ ds = []

instance (item : ApplicationPushItem) (ds : List ApplicationDoc) : Decidable (Inserts item ds) := by
  unfold Inserts
  infer_instance

def acceptedInserts (s : Session) (db : Database) :
    List (Time × ApplicationPushItem) → List ApplicationDoc
  | [] => []
  | item :: items =>
    match pushApplication s db item with
    | .error _ => []
    | .ok (db', ds) =>
      if Inserts item.2 ds then item.2.newDocumentState :: acceptedInserts s db' items
      else acceptedInserts s db' items

-- ---------------------------------------------------------------------------
-- One item
-- ---------------------------------------------------------------------------

section
variable {db db' : Database} {s : Session} {clock : Time} {item : ApplicationPushItem}
  {ds : List ApplicationDoc} {eid : Uuid}

theorem numbersOf_congr (h : db'.applications = db.applications) :
    numbersOf db' eid = numbersOf db eid := by
  unfold numbersOf
  rw [h]

theorem nextSequenceNo_eq (hw : childWritable db s eid) :
    nextSequenceNo db s eid = maxSequenceNo db eid + 1 := by
  have hrows : (db.applications.rows.filter fun a => a.eventId = eid ∧ applicationVisible db s a) =
      db.applications.rows.filter fun a => a.eventId = eid := by
    refine List.filter_congr fun a _ => ?_
    simp only [Bool.decide_and, Bool.and_eq_left_iff_imp, decide_eq_true_eq]
    rintro rfl
    exact applicationVisible_of_writable hw
  unfold nextSequenceNo Services.nextSequenceNo maxSequenceNo numbersOf
  rw [hrows, List.map_map]
  rfl

theorem numbersOf_insert {a : Application} {t : Table Application}
    (ht : db.applications.insert? a = some t) (h : db'.applications = t) :
    numbersOf db' eid =
      numbersOf db eid ++ if a.eventId = eid then [(a.id, a.sequenceNo)] else [] := by
  subst h
  unfold numbersOf
  rw [(Table.insert?_eq_some.mp ht).2, List.filter_append, List.map_append]
  split <;> simp [*]

theorem numbersOf_applicationWritten (clock : Time) (new : Application) {old : Application}
    (hold : old ∈ db.applications) (hid : new.id = old.id) (he : new.eventId = old.eventId)
    (hn : new.sequenceNo = old.sequenceNo) :
    numbersOf (applicationWritten db clock new) eid = numbersOf db eid := by
  unfold numbersOf applicationWritten Table.set Table.map
  simp only [List.filter_map, List.map_map]
  have hrow : ∀ a ∈ db.applications, ∀ b : Application,
      b = (if a.id = new.id then { new with updatedAt := clock } else a) →
        b.id = a.id ∧ b.eventId = a.eventId ∧ b.sequenceNo = a.sequenceNo := by
    rintro a ha b rfl
    split
    · rename_i heq
      obtain rfl := Table.eq_of_key ha hold (heq.trans hid)
      exact ⟨hid, he, hn⟩
    · exact ⟨rfl, rfl, rfl⟩
  have hfilter : (db.applications.rows.filter fun a =>
      (if a.id = new.id then { new with updatedAt := clock } else a).eventId = eid) =
      db.applications.rows.filter fun a => a.eventId = eid :=
    List.filter_congr fun a ha => by rw [(hrow a ha _ rfl).2.1]
  simp only [Function.comp_def, key_application]
  rw [hfilter]
  refine List.map_congr_left fun a ha => ?_
  have hkeep := hrow a (List.mem_filter.mp ha).1 _ rfl
  rw [hkeep.1, hkeep.2.2]

/-- One item adds the next number when it is an accepted insert into the event,
and none otherwise. -/
theorem pushApplication_numbersOf (eid : Uuid)
    (h : pushApplication s db (clock, item) = .ok (db', ds)) :
    numbersOf db' eid = numbersOf db eid ++
      if Inserts item ds ∧ item.newDocumentState.eventId = eid then
        [(item.newDocumentState.id, maxSequenceNo db eid + 1)] else [] := by
  have hcases := pushApplication_cases s db clock item
  rw [h] at hcases
  cases hcases with
  | reported doc => simp [Inserts]
  | inserted t hitem hi ht =>
    rw [numbersOf_insert ht applicationInserted_applications]
    by_cases he : item.newDocumentState.eventId = eid
    · have hnext := nextSequenceNo_eq hi.writable
      subst he
      simp [Inserts, hitem, newApplication, hnext]
    · simp [Inserts, newApplication, he]
  | untouched existing hallow =>
    have hitem : item.assumedMasterState ≠ none := Option.isSome_iff_ne_none.mp hallow.update
    rw [numbersOf_congr syncApplicationRestraints_applications]
    simp [Inserts, hitem]
  | written existing hallow =>
    have hitem : item.assumedMasterState ≠ none := Option.isSome_iff_ne_none.mp hallow.update
    rw [numbersOf_congr syncApplicationRestraints_applications,
      numbersOf_applicationWritten clock
        (applyApplicationUpdate existing item.newDocumentState clock) hallow.mem rfl rfl rfl]
    simp [Inserts, hitem]

theorem lt_maxSequenceNo_succ {n : Uuid × Nat} (h : n ∈ numbersOf db eid) :
    n.2 < maxSequenceNo db eid + 1 :=
  Nat.lt_succ_of_le (Table.le_foldr_max (List.mem_map_of_mem h))

theorem NumbersDistinct.pushApplication (hnodup : NumbersDistinct eid db)
    (h : pushApplication s db (clock, item) = .ok (db', ds)) : NumbersDistinct eid db' := by
  unfold NumbersDistinct at *
  rw [pushApplication_numbersOf eid h, List.map_append]
  split
  · refine List.nodup_append.mpr ⟨hnodup, by simp, ?_⟩
    intro n hn m hm heq
    obtain ⟨p, hp, rfl⟩ := List.mem_map.mp hn
    have hlt := lt_maxSequenceNo_succ hp
    simp only [List.map_cons, List.map_nil, List.mem_singleton] at hm
    omega
  · simpa using hnodup

theorem maxSequenceNo_succ {id : Uuid}
    (h : numbersOf db' eid = numbersOf db eid ++ [(id, maxSequenceNo db eid + 1)]) :
    maxSequenceNo db' eid = maxSequenceNo db eid + 1 := by
  have hfold : ∀ (l : List Nat) (n : Nat), (l ++ [n]).foldr max 0 = max (l.foldr max 0) n := by
    intro l n
    induction l with
    | nil => simp
    | cons m l ih => simp [ih, max_assoc]
  unfold maxSequenceNo at *
  rw [h, List.map_append, List.map_cons, List.map_nil, hfold]
  omega

end

-- ---------------------------------------------------------------------------
-- Batches
-- ---------------------------------------------------------------------------

def InsertOrRejected (s : Session) (db : Database) (item : Time × ApplicationPushItem) : Prop :=
  item.2.assumedMasterState = none ∨
    ∃ doc, pushApplication s db item = .ok (db, [doc])

instance (s : Session) (db : Database) (item : Time × ApplicationPushItem) :
    Decidable (InsertOrRejected s db item) :=
  match h : pushApplication s db item with
  | .error _ => decidable_of_iff (item.2.assumedMasterState = none) (by simp [InsertOrRejected, h])
  | .ok (db', ds) =>
    decidable_of_iff (item.2.assumedMasterState = none ∨ (db' = db ∧ ds.length = 1))
      (by simp [InsertOrRejected, h, List.length_eq_one_iff])

section
variable {db db' : Database} {s : Session} {items : List (Time × ApplicationPushItem)}
  {item : Time × ApplicationPushItem} {ds : List ApplicationDoc} {eid : Uuid}

theorem pushApplication_insertOrRejected (h : InsertOrRejected s db item) :
    ∃ db' ds, pushApplication s db item = .ok (db', ds) := by
  rcases h with hnone | ⟨doc, h⟩
  · obtain ⟨clock, item⟩ := item
    have hcases := pushApplication_cases s db clock item
    cases hr : pushApplication s db (clock, item) with
    | ok r => exact ⟨r.1, r.2, rfl⟩
    | error e =>
      rw [hr] at hcases
      cases hcases with
      | raised existing _ hallow =>
        have hsome := hallow.update
        rw [hnone] at hsome
        cases hsome
  · exact ⟨db, [doc], h⟩

theorem pushApplications_insertOrRejected
    (h : Batch.Along (pushApplication s) (InsertOrRejected s) db items) :
    ∃ db' ds, pushApplications s db items = .ok (db', ds) := by
  induction items generalizing db with
  | nil => exact ⟨db, [], rfl⟩
  | cons item items ih =>
    obtain ⟨db₁, ds₁, hitem⟩ := pushApplication_insertOrRejected h.1
    obtain ⟨db₂, ds₂, hitems⟩ := ih (h.2 db₁ ds₁ hitem)
    exact ⟨db₂, ds₁ ++ ds₂, Batch.process_cons_ok.mpr ⟨db₁, ds₁, ds₂, hitem, hitems, rfl⟩⟩

/-- The accepted inserts into an event take the numbers after its largest, in
batch order. -/
theorem pushApplications_numbersOf (h : pushApplications s db items = .ok (db', ds)) :
    numbersOf db' eid = numbersOf db eid ++
      ((acceptedInserts s db items).filter fun doc => doc.eventId = eid).mapIdx fun k doc =>
        (doc.id, maxSequenceNo db eid + 1 + k) := by
  induction items generalizing db ds with
  | nil =>
    cases h
    simp [acceptedInserts]
  | cons item items ih =>
    obtain ⟨db₁, ds₁, ds₂, hitem, hitems, rfl⟩ := Batch.process_cons_ok.mp h
    have hstep := pushApplication_numbersOf eid hitem
    rw [ih hitems, acceptedInserts]
    simp only [hitem]
    by_cases hins : Inserts item.2 ds₁
    · by_cases he : item.2.newDocumentState.eventId = eid
      · simp only [hins, he, and_self, if_true] at hstep
        have hmax := maxSequenceNo_succ hstep
        simp [hins, he, hstep, hmax, Nat.add_assoc, Nat.add_comm, Nat.add_left_comm]
      · simp only [hins, he, and_false, if_false, List.append_nil] at hstep
        simp [hins, he, hstep, maxSequenceNo]
    · simp only [hins, false_and, if_false, List.append_nil] at hstep
      simp [hins, hstep, maxSequenceNo]

/-- A batch of inserts and rejected items returns. In every batch that does,
accepted inserts are numbered without a gap after the event's largest number,
whatever number the client put into them, and nothing else takes one; so the
numbers of an event stay distinct. -/
theorem pushApplications_sequence_numbers (s : Session) (db : Database)
    (items : List (Time × ApplicationPushItem)) :
    (Batch.Along (pushApplication s) (InsertOrRejected s) db items →
      ∃ db' ds, pushApplications s db items = .ok (db', ds)) ∧
    ∀ db' ds eid, pushApplications s db items = .ok (db', ds) →
      numbersOf db' eid = numbersOf db eid ++
        ((acceptedInserts s db items).filter fun doc => doc.eventId = eid).mapIdx (fun k doc =>
          (doc.id, maxSequenceNo db eid + 1 + k)) ∧
      (NumbersDistinct eid db → NumbersDistinct eid db') :=
  ⟨pushApplications_insertOrRejected, fun _ _ _ h => ⟨pushApplications_numbersOf h,
    Batch.preserves (fun _ _ _ _ hdistinct hitem => hdistinct.pushApplication hitem) h⟩⟩

/-- Three inserts as the owner of the sample's event; the second names a
performer that does not exist. -/
def sampleInserts : List (Time × ApplicationPushItem) :=
  [5, 6, 7].map fun id =>
    (200, ⟨none, { applicationToDoc sampleApplication [] with
      id := id
      performerId := if id = 6 then 9 else 2
      sequenceNo := 1 }⟩)

theorem pushApplications_sequence_numbers_sample :
    ∃ db' ds, pushApplications sampleOwner sample sampleInserts = .ok (db', ds) ∧
      numbersOf db' 1 = [(1, 1), (5, 2), (7, 3)] ∧ NumbersDistinct 1 db' := by
  obtain ⟨hreturns, hall⟩ := pushApplications_sequence_numbers sampleOwner sample sampleInserts
  obtain ⟨db', ds, h⟩ := hreturns (by decide +kernel)
  obtain ⟨hnumbers, hnodup⟩ := hall db' ds 1 h
  refine ⟨db', ds, h, hnumbers.trans ?_, hnodup (by decide +kernel)⟩
  decide +kernel

end

end HcMap.Sync
