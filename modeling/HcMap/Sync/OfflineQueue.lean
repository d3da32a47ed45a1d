import HcMap.Sync.Frames
import HcMap.Sync.Replication

/-!
# An offline queue

A client has recorded events and applications of these events offline, and
pushes them in two independent streams. An application that arrives before its
event is answered with a tombstone, which the client takes over.
-/

namespace HcMap.Sync

/-- What an editor has recorded offline, new to the server and in order. -/
structure OfflineQueue (editor : Session) (db : Database) (events : List EventDoc)
    (applications : List ApplicationDoc) : Prop where
  role : editor.role = .editor
  user : (db.users.find? editor.userId).isSome
  event_ids : (events.map EventDoc.id).Nodup
  event_free : ∀ e ∈ events, db.events.find? e.id = none
  ids : (applications.map ApplicationDoc.id).Nodup
  free : ∀ a ∈ applications, db.applications.find? a.id = none
  live : ∀ a ∈ applications, a.deleted = false
  event : ∀ a ∈ applications, ∃ e ∈ events, e.id = a.eventId
  performer : ∀ a ∈ applications, (db.persons.find? a.performerId).isSome
  recipient : ∀ a ∈ applications, (db.persons.find? a.recipientId).isSome
  restraints : ∀ a ∈ applications, restraintsAllowed db editor a.restraintTypeIds
  positions : ∀ a ∈ applications, positionFksAllowed db editor a

def Stored (editor : Session) (db : Database) (doc : ApplicationDoc) : Prop :=
  ∃ now clock n, db.applications.find? doc.id =
    some (newApplication { editor with now := now } clock n doc)

structure Received (editor : Session) (db₀ : Database) (events : List EventDoc)
    (applications : List ApplicationDoc) (db : Database) : Prop where
  reference : SameReference db₀ db
  owned : ∀ e ∈ events, ∀ row, db.events.find? e.id = some row →
    row.createdBy = some editor.userId
  stored : ∀ a ∈ applications, db.applications.find? a.id = none ∨
    (Stored editor db a ∧ (db.events.find? a.eventId).isSome)

section
variable {editor : Session} {db₀ db : Database} {events : List EventDoc}
  {applications : List ApplicationDoc} {clock : Time} {doc : ApplicationDoc}

theorem OfflineQueue.received (hq : OfflineQueue editor db events applications) :
    Received editor db events applications db where
  reference := .rfl
  owned e he row hrow := by simp [hq.event_free e he] at hrow
  stored a ha := .inl (hq.free a ha)

-- ---------------------------------------------------------------------------
-- Event inserts
-- ---------------------------------------------------------------------------

theorem pushEvent_insert (s : Session) (db : Database) (clock : Time) (e : EventDoc) :
    (∃ c, pushEvent s db (clock, ⟨none, e⟩) = .ok (db, [c])) ∨
      ∃ t, db.events.insert? (newEvent s clock e) = some t ∧
        pushEvent s db (clock, ⟨none, e⟩) =
          .ok (ensureParticipant { db with events := t } s clock e.id s.personId, []) := by
  have hcases := pushEvent_cases s db clock ⟨none, e⟩
  generalize hr : pushEvent s db (clock, ⟨none, e⟩) = result at hcases
  cases hcases with
  | reported c => exact .inl ⟨c, rfl⟩
  | inserted t _ _ ht => exact .inr ⟨t, ht, rfl⟩
  | untouched _ h | written _ h | raised _ h => exact absurd h.update (by simp)

theorem Received.pushEvent (h : Received editor db₀ events applications db) (now clock : Time)
    (e : EventDoc) : ∃ db' ds,
      Sync.pushEvent { editor with now := now } db (clock, ⟨none, e⟩) = .ok (db', ds) ∧
        Received editor db₀ events applications db' ∧ db'.applications = db.applications := by
  rcases pushEvent_insert { editor with now := now } db clock e with ⟨c, hc⟩ | ⟨t, ht, hp⟩
  · exact ⟨db, [c], hc, h, rfl⟩
  · refine ⟨_, _, hp, ?_, ensureParticipant_applications⟩
    obtain ⟨p, heq⟩ := ensureParticipant_eq { db with events := t } { editor with now := now } clock
      e.id editor.personId
    rw [heq]
    refine ⟨h.reference.trans ⟨rfl, rfl, rfl, rfl, rfl, rfl⟩, fun e' he' row hrow => ?_,
      fun a ha => (h.stored a ha).imp_right fun hs => ⟨hs.1, ?_⟩⟩
    · rw [Table.find?_insert? ht] at hrow
      split at hrow
      · cases hrow
        rfl
      · exact h.owned e' he' row hrow
    · show (t.find? a.eventId).isSome
      rw [Table.find?_insert? ht]
      split
      · rfl
      · exact hs.2

-- ---------------------------------------------------------------------------
-- Application inserts
-- ---------------------------------------------------------------------------

theorem Received.childWritable (h : Received editor db₀ events applications db)
    (hq : OfflineQueue editor db₀ events applications) (hdoc : doc ∈ applications)
    (hevent : (db.events.find? doc.eventId).isSome) (now : Time) :
    childWritable db { editor with now := now } doc.eventId := by
  obtain ⟨e, he, hid⟩ := hq.event doc hdoc
  obtain ⟨row, hrow⟩ := Option.isSome_iff_exists.mp hevent
  exact .inr ⟨hq.role, row, Table.mem_of_find? hrow, Table.key_of_find? hrow,
    h.owned e he row (hid ▸ hrow)⟩

theorem Received.insertAllowed (h : Received editor db₀ events applications db)
    (hq : OfflineQueue editor db₀ events applications) (hdoc : doc ∈ applications)
    (hfree : db.applications.find? doc.id = none) (hevent : (db.events.find? doc.eventId).isSome)
    (now : Time) : ApplicationInsertAllowed { editor with now := now } db doc where
  free := hfree
  restraints := h.reference.restraintsAllowed.mpr (hq.restraints doc hdoc)
  positions := h.reference.positionFksAllowed.mpr (hq.positions doc hdoc)
  writable := h.childWritable hq hdoc hevent now
  event := hevent
  performer := by
    rw [h.reference.persons]
    exact hq.performer doc hdoc
  recipient := by
    rw [h.reference.persons]
    exact hq.recipient doc hdoc
  user := by
    rw [h.reference.users]
    exact hq.user

theorem Stored.pushApplication (h : Stored editor db doc) (hrole : editor.role = .editor)
    (hlive : doc.deleted = false) (now clock : Time) : ∃ c, c.id = doc.id ∧ c.deleted = false ∧
      Sync.pushApplication { editor with now := now } db (clock, ⟨none, doc⟩) = .ok (db, [c]) := by
  obtain ⟨now', clock', n, hfind⟩ := h
  have hget : db.getApplication { editor with now := now } doc.id =
      some (newApplication { editor with now := now' } clock' n doc) :=
    Database.getApplication_eq_some.mpr ⟨hfind, .inr (.inr ⟨hrole, rfl⟩)⟩
  exact ⟨applicationConflictDoc db { editor with now := now }
    (newApplication { editor with now := now' } clock' n doc), rfl, hlive,
    by simp [Sync.pushApplication, hget]⟩

/-- An application that comes before its event is answered with a tombstone. -/
theorem pushApplication_early {s : Session} (hfree : db.applications.find? doc.id = none)
    (hevent : db.events.find? doc.eventId = none) :
    Sync.pushApplication s db (clock, ⟨none, doc⟩) =
      .ok (db, [syntheticApplicationTombstone clock doc.id doc.eventId]) := by
  have hget : db.getApplication s doc.id = none := by simp [Database.getApplication, hfree]
  have hno : ¬ ApplicationInsertAllowed s db doc := fun h => by simpa [hevent] using h.event
  by_cases hr : restraintsAllowed db s doc.restraintTypeIds
  · simp [Sync.pushApplication, hget, hr, insertApplicationOrConflict_of_not_allowed hr hno]
  · simp [Sync.pushApplication, hget, hr]

/-- The answer to an insert: conflicts of its id, that delete the document
exactly when its event has not arrived. -/
structure Answers (arrived : Table Event) (doc : ApplicationDoc) (ds : List ApplicationDoc) :
    Prop where
  id : ∀ c ∈ ds, c.id = doc.id
  there : (arrived.find? doc.eventId).isSome → ∀ c ∈ ds, c.deleted = false
  early : arrived.find? doc.eventId = none → ∃ c, ds = [c] ∧ c.deleted = true

theorem Received.pushApplication (h : Received editor db₀ events applications db)
    (hq : OfflineQueue editor db₀ events applications) (hdoc : doc ∈ applications)
    (now clock : Time) : ∃ db' ds,
      Sync.pushApplication { editor with now := now } db (clock, ⟨none, doc⟩) = .ok (db', ds) ∧
        Received editor db₀ events applications db' ∧ db'.events = db.events ∧
        ((db.events.find? doc.eventId).isSome → Stored editor db' doc) ∧
          Answers db.events doc ds ∧
            ∀ a ∈ applications, Stored editor db a → Stored editor db' a := by
  rcases h.stored doc hdoc with hfree | ⟨hstored, hevent⟩
  · cases hevent : db.events.find? doc.eventId with
    | none =>
      refine ⟨db, _, pushApplication_early hfree hevent, h, rfl, by simp, ⟨?_, ?_, ?_⟩,
        fun _ _ ha => ha⟩
      · simp [syntheticApplicationTombstone]
      · simp [hevent]
      · simp [syntheticApplicationTombstone]
    | some row =>
      have hsome : (db.events.find? doc.eventId).isSome := by simp [hevent]
      obtain ⟨t, ht, hp⟩ := pushApplication_insert clock
        (rfl : (⟨none, doc⟩ : ApplicationPushItem).assumedMasterState = none)
        (h.insertAllowed hq hdoc hfree hsome now)
      have hevents := pushApplication_events hp
      have hstored : Stored editor
          (applicationInserted { editor with now := now } db clock t doc) doc := by
        refine ⟨now, clock, nextSequenceNo db { editor with now := now } doc.eventId, ?_⟩
        rw [applicationInserted_applications]
        exact Table.find?_insert?_self ht
      have hkeep : ∀ a ∈ applications, Stored editor db a →
          Stored editor (applicationInserted { editor with now := now } db clock t doc) a := by
        rintro a - ⟨now', clock', n, hfind⟩
        refine ⟨now', clock', n, ?_⟩
        rw [(pushApplication_frame hp fun hid => ?_).1, hfind]
        simp [hid, hfree] at hfind
      refine ⟨_, _, hp, ⟨h.reference.trans (pushApplication_sameAccess hp).reference, ?_, ?_⟩,
        hevents, fun _ => hstored, ⟨by simp, by simp, by simp [hevent]⟩, hkeep⟩
      · rw [hevents]
        exact h.owned
      · intro a ha
        rw [hevents]
        by_cases hid : a.id = doc.id
        · obtain rfl := List.inj_on_of_nodup_map hq.ids ha hdoc hid
          exact .inr ⟨hstored, hsome⟩
        · rw [(pushApplication_frame hp hid).1]
          exact (h.stored a ha).imp_right fun hs => ⟨hkeep a ha hs.1, hs.2⟩
  · obtain ⟨c, hid, hdel, hp⟩ := hstored.pushApplication hq.role (hq.live doc hdoc) now clock
    refine ⟨db, [c], hp, h, rfl, fun _ => hstored, ⟨by simp [hid], by simp [hdel], ?_⟩,
      fun _ _ ha => ha⟩
    simp [Option.isSome_iff_ne_none.mp hevent]

-- ---------------------------------------------------------------------------
-- Batches
-- ---------------------------------------------------------------------------

theorem Received.sendEvents {d : Device} {b : Delivery}
    (h : Received editor db₀ events applications d.db) (hp : d.events.Pending events) :
    ∃ db' ds, d.sendEvents editor b = .ok (db', ds) ∧
      Received editor db₀ events applications db' ∧ db'.applications = d.db.applications := by
  have hitem : ∀ db x, Received editor db₀ events applications db →
      x.2.assumedMasterState = none → ∃ db' ds,
        Sync.pushEvent { editor with now := b.now } db x = .ok (db', ds) ∧
          Received editor db₀ events applications db' ∧ db'.applications = db.applications := by
    rintro db ⟨clock, m, e⟩ hdb hm
    obtain rfl : m = none := hm
    exact hdb.pushEvent b.now clock e
  obtain ⟨db', ds, hsend, hrec, -⟩ := Batch.each
    (fun db => Received editor db₀ events applications db ∧ db.applications = d.db.applications)
    (fun x _ => x.2.assumedMasterState = none) (fun _ _ => True) (fun _ _ => True)
    (fun db x hdb hx => by
      obtain ⟨db', ds, hpush, hrec, happ⟩ := hitem db x hdb.1 hx
      exact ⟨db', ds, hpush, ⟨hrec, happ.trans hdb.2⟩, trivial, trivial,
        fun y => ⟨fun _ hy => hy, fun _ hy => hy⟩⟩)
    (items_pairwise hp.batch_pairwise) ⟨h, rfl⟩ fun x hx => by
      obtain ⟨w, hw, rfl⟩ := mem_items.mp hx
      exact (hp.batch hw).1
  exact ⟨db', ds, hsend, hrec⟩

theorem Received.sendApplications {d : Device} {b : Delivery}
    (h : Received editor db₀ events applications d.db)
    (hq : OfflineQueue editor db₀ events applications)
    (hp : d.applications.Pending applications) :
    ∃ db' ds, d.sendApplications editor b = .ok (db', ds) ∧
      Received editor db₀ events applications db' ∧
        (∀ a ∈ applications, Stored editor d.db a → Stored editor db' a) ∧
          (∀ a ∈ applications, a.id ∈ d.applications.queue.take b.size →
            ((d.db.events.find? a.eventId).isSome → Stored editor db' a) ∧
              ∃ ds', Answers d.db.events a ds' ∧ ds' ⊆ ds) ∧
            ∀ c ∈ ds, ∃ a ∈ applications, ∃ ds', Answers d.db.events a ds' ∧ c ∈ ds' := by
  obtain ⟨db', ds, hsend, ⟨hrec, -, hkeep⟩, hpost, hfrom, -⟩ := Batch.each
    (fun db => Received editor db₀ events applications db ∧ db.events = d.db.events ∧
      ∀ a ∈ applications, Stored editor d.db a → Stored editor db a)
    (fun x _ => x.2.assumedMasterState = none ∧ x.2.newDocumentState ∈ applications)
    (fun x db => x.2.newDocumentState ∈ applications ∧
      ((d.db.events.find? x.2.newDocumentState.eventId).isSome →
        Stored editor db x.2.newDocumentState))
    (fun x ds => x.2.newDocumentState ∈ applications ∧
      Answers d.db.events x.2.newDocumentState ds)
    (fun db x hdb hx => by
      obtain ⟨clock, m, a⟩ := x
      obtain ⟨rfl, ha⟩ : m = none ∧ a ∈ applications := hx
      obtain ⟨hrec, hevents, hkept⟩ := hdb
      obtain ⟨db', ds, hpush, hrec', hevents', hstored, hans, hkeep⟩ :=
        hrec.pushApplication hq ha b.now clock
      rw [hevents] at hstored hans
      exact ⟨db', ds, hpush,
        ⟨hrec', hevents'.trans hevents, fun a ha hs => hkeep a ha (hkept a ha hs)⟩,
        ⟨ha, hstored⟩, ⟨ha, hans⟩, fun y =>
          ⟨fun _ hy => hy, fun _ hy => ⟨hy.1, fun he => hkeep _ hy.1 (hy.2 he)⟩⟩⟩)
    (items_pairwise hp.batch_pairwise) ⟨h, rfl, fun _ _ hs => hs⟩ fun x hx => by
      obtain ⟨w, hw, rfl⟩ := mem_items.mp hx
      exact ⟨(hp.batch hw).1, (hp.batch hw).2.1⟩
  refine ⟨db', ds, hsend, hrec, hkeep, fun a ha hin => ?_, fun c hc => ?_⟩
  · have hw := hp.mem_batch hin ha hq.ids
    obtain ⟨⟨-, hstored⟩, ds', ⟨-, hans⟩, hsub⟩ := hpost _ (mem_items.mpr ⟨_, hw, rfl⟩)
    exact ⟨hstored, ds', hans, hsub⟩
  · obtain ⟨x, -, ds', ⟨ha, hans⟩, hc⟩ := hfrom c hc
    exact ⟨_, ha, ds', hans, hc⟩

end

-- ---------------------------------------------------------------------------
-- Any interleaving of the streams
-- ---------------------------------------------------------------------------

inductive Transfer
  | events (b : Delivery) (answered : Bool)
  | applications (b : Delivery) (answered : Bool)

def Device.transfer (editor : Session) (d : Device) : Transfer → Device
  | .events b answered => d.deliverEvents editor b answered
  | .applications b answered => d.deliverApplications editor b answered

def Device.online (db : Database) (events : List EventDoc) (applications : List ApplicationDoc) :
    Device := ⟨db, .offline events, .offline applications⟩

/-- On the server exactly once and live, and not deleted in the local store. -/
structure Arrived (d : Device) (doc : ApplicationDoc) : Prop where
  once : ∃ row, d.db.applications.rows.filter (fun a => a.id = doc.id) = [row] ∧
    row.isDeleted = false ∧ row.eventId = doc.eventId
  kept : ∃ c, d.applications.docs doc.id = some c ∧ c.deleted = false

/-- A batch of applications whose answer arrives comes after the events. -/
def EventsFirst (d : Device) : Transfer → Prop
  | .applications b true =>
    ∀ w ∈ d.applications.batch b.size, (d.db.events.find? w.2.eventId).isSome
  | _ => True

instance (d : Device) (t : Transfer) : Decidable (EventsFirst d t) := by
  unfold EventsFirst
  split <;> infer_instance

structure Underway (editor : Session) (db₀ : Database) (events : List EventDoc)
    (applications : List ApplicationDoc) (d : Device) : Prop where
  received : Received editor db₀ events applications d.db
  events : d.events.Pending events
  applications : d.applications.Pending applications

def Safe (editor : Session) (d : Device) (doc : ApplicationDoc) : Prop :=
  doc.id ∈ d.applications.queue ∨
    (Stored editor d.db doc ∧ ∃ c, d.applications.docs doc.id = some c ∧ c.deleted = false)

def Lost (d : Device) (doc : ApplicationDoc) : Prop :=
  doc.id ∉ d.applications.queue ∧ ∃ c, d.applications.docs doc.id = some c ∧ c.deleted = true

section
variable {editor : Session} {db₀ : Database} {events : List EventDoc}
  {applications : List ApplicationDoc} {d : Device} {t : Transfer} {ts : List Transfer}
  {doc : ApplicationDoc} {b : Delivery} {answered : Bool}

theorem OfflineQueue.underway (hq : OfflineQueue editor db₀ events applications) :
    Underway editor db₀ events applications (Device.online db₀ events applications) :=
  ⟨hq.received, Replica.pending_offline hq.event_ids, Replica.pending_offline hq.ids⟩

theorem Underway.settle_docs (h : Underway editor db₀ events applications d)
    (hq : OfflineQueue editor db₀ events applications) {n : Nat} {ds : List ApplicationDoc}
    (hdoc : doc ∈ applications) (hin : doc.id ∈ d.applications.queue.take n)
    (hpushed : ∃ ds', Answers d.db.events doc ds' ∧ ds' ⊆ ds)
    (hfrom : ∀ c ∈ ds, ∃ a ∈ applications, ∃ ds', Answers d.db.events a ds' ∧ c ∈ ds') :
    ∃ c, (d.applications.settle n ds).docs doc.id = some c ∧
      ((d.db.events.find? doc.eventId).isSome → c.deleted = false) ∧
        (d.db.events.find? doc.eventId = none → c.deleted = true) := by
  have hown : ∀ c ∈ ds, c.id = doc.id → ∃ ds', Answers d.db.events doc ds' ∧ c ∈ ds' := by
    intro c hc hid
    obtain ⟨a, ha, ds', hans, hc⟩ := hfrom c hc
    obtain rfl := List.inj_on_of_nodup_map hq.ids ha hdoc ((hans.id c hc).symm.trans hid)
    exact ⟨ds', hans, hc⟩
  rw [Replica.settle_docs hin]
  cases hevent : d.db.events.find? doc.eventId with
  | some row =>
    obtain ⟨w, hw, hdocs⟩ := (h.applications.waiting _ (List.mem_of_mem_take hin)).2
    obtain rfl := List.inj_on_of_nodup_map hq.ids hw hdoc hdocs.1
    rcases Replica.resolved_cases ds hdocs.2 with hr | ⟨c, hc, hid, hr⟩
    · exact ⟨w, hr, fun _ => hq.live w hw, by simp⟩
    · obtain ⟨ds', hans, hc⟩ := hown c hc hid
      exact ⟨c, hr, fun _ => hans.there (by simp [hevent]) c hc, by simp⟩
  | none =>
    obtain ⟨ds', hans, hsub⟩ := hpushed
    obtain ⟨c₀, rfl, -⟩ := hans.early hevent
    have hc₀ : c₀ ∈ [c₀] := List.mem_singleton_self c₀
    obtain ⟨c, hc, hid, hr⟩ := Replica.resolved_of_conflict (r := d.applications) (hsub hc₀)
      (hans.id c₀ hc₀)
    obtain ⟨ds', hans', hc⟩ := hown c hc hid
    obtain ⟨c', rfl, hdel⟩ := hans'.early hevent
    obtain rfl := List.mem_singleton.mp hc
    exact ⟨c, hr, by simp, fun _ => hdel⟩

inductive Transferred (editor : Session) (db₀ : Database) (events : List EventDoc)
    (applications : List ApplicationDoc) (d : Device) : Transfer → Device → Prop
  | events {b answered db' r} (hrec : Received editor db₀ events applications db')
      (happ : db'.applications = d.db.applications) (hpend : r.Pending events) :
      Transferred editor db₀ events applications d (.events b answered)
        { d with db := db', events := r }
  | unanswered {b db'} (hrec : Received editor db₀ events applications db')
      (hkeep : ∀ a ∈ applications, Stored editor d.db a → Stored editor db' a) :
      Transferred editor db₀ events applications d (.applications b false) { d with db := db' }
  | answered {b : Delivery} {db' ds} (hrec : Received editor db₀ events applications db')
      (hkeep : ∀ a ∈ applications, Stored editor d.db a → Stored editor db' a)
      (hpushed : ∀ a ∈ applications, a.id ∈ d.applications.queue.take b.size →
        ((d.db.events.find? a.eventId).isSome → Stored editor db' a) ∧
          ∃ ds', Answers d.db.events a ds' ∧ ds' ⊆ ds)
      (hfrom : ∀ c ∈ ds, ∃ a ∈ applications, ∃ ds', Answers d.db.events a ds' ∧ c ∈ ds') :
      Transferred editor db₀ events applications d (.applications b true)
        { d with db := db', applications := d.applications.settle b.size ds }

theorem Underway.transfer_cases (h : Underway editor db₀ events applications d)
    (hq : OfflineQueue editor db₀ events applications) (t : Transfer) :
    Transferred editor db₀ events applications d t (d.transfer editor t) := by
  cases t with
  | events b answered =>
    obtain ⟨db', ds, hsend, hrec, happ⟩ := h.received.sendEvents (b := b) h.events
    simp only [Device.transfer, Device.deliverEvents, hsend]
    refine .events hrec happ ?_
    split
    · exact h.events.settle
    · exact h.events
  | applications b answered =>
    obtain ⟨db', ds, hsend, hrec, hkeep, hpushed, hfrom⟩ :=
      h.received.sendApplications (b := b) hq h.applications
    simp only [Device.transfer, Device.deliverApplications, hsend]
    cases answered with
    | false => exact .unanswered hrec hkeep
    | true => exact .answered hrec hkeep hpushed hfrom

theorem Underway.transfer (h : Underway editor db₀ events applications d)
    (hq : OfflineQueue editor db₀ events applications) (t : Transfer) :
    Underway editor db₀ events applications (d.transfer editor t) := by
  have hcases := h.transfer_cases hq t
  generalize d.transfer editor t = d' at hcases
  cases hcases with
  | events hrec _ hpend => exact ⟨hrec, hpend, h.applications⟩
  | unanswered hrec => exact ⟨hrec, h.events, h.applications⟩
  | answered hrec => exact ⟨hrec, h.events, h.applications.settle⟩

theorem Safe.transfer (hsafe : Safe editor d doc) (h : Underway editor db₀ events applications d)
    (hq : OfflineQueue editor db₀ events applications) (hdoc : doc ∈ applications)
    (hok : EventsFirst d t) : Safe editor (d.transfer editor t) doc := by
  have hcases := h.transfer_cases hq t
  generalize d.transfer editor t = d' at hcases
  cases hcases with
  | events _ happ =>
    refine hsafe.imp_right fun ⟨⟨now, clock, n, hfind⟩, hkept⟩ => ⟨⟨now, clock, n, ?_⟩, hkept⟩
    rw [happ]
    exact hfind
  | unanswered _ hkeep => exact hsafe.imp_right fun ⟨hs, hkept⟩ => ⟨hkeep doc hdoc hs, hkept⟩
  | @answered b db' ds _ hkeep hpushed hfrom =>
    by_cases hin : doc.id ∈ d.applications.queue.take b.size
    · have hevent := hok _ (h.applications.mem_batch hin hdoc hq.ids)
      obtain ⟨hstored, hans⟩ := hpushed doc hdoc hin
      obtain ⟨c, hc, hdel, -⟩ := h.settle_docs hq hdoc hin hans hfrom
      exact .inr ⟨hstored hevent, c, hc, hdel hevent⟩
    · rcases hsafe with hwait | ⟨hs, hkept⟩
      · rw [← List.take_append_drop b.size d.applications.queue] at hwait
        exact .inl ((List.mem_append.mp hwait).resolve_left hin)
      · refine .inr ⟨hkeep doc hdoc hs, ?_⟩
        rwa [Replica.settle_docs_of_notMem hin]

theorem Lost.transfer (hlost : Lost d doc) (h : Underway editor db₀ events applications d)
    (hq : OfflineQueue editor db₀ events applications) : Lost (d.transfer editor t) doc := by
  have hcases := h.transfer_cases hq t
  generalize d.transfer editor t = d' at hcases
  cases hcases with
  | events | unanswered => exact hlost
  | @answered b =>
    refine ⟨fun hin => hlost.1 (List.mem_of_mem_drop hin), ?_⟩
    rw [Replica.settle_docs_of_notMem fun hin => hlost.1 (List.mem_of_mem_take hin)]
    exact hlost.2

/-- An application batch that overtakes an event loses an application. -/
theorem Underway.lost (h : Underway editor db₀ events applications d)
    (hq : OfflineQueue editor db₀ events applications) (hearly : ¬ EventsFirst d t) :
    ∃ doc ∈ applications, Lost (d.transfer editor t) doc := by
  have hcases := h.transfer_cases hq t
  generalize d.transfer editor t = d' at hcases
  cases hcases with
  | events | unanswered => exact absurd trivial hearly
  | @answered b db' ds _ _ hpushed hfrom =>
    simp only [EventsFirst, not_forall] at hearly
    obtain ⟨w, hw, hevent⟩ := hearly
    obtain ⟨-, hdoc, hin⟩ := h.applications.batch hw
    obtain ⟨c, hc, -, hdel⟩ := h.settle_docs hq hdoc hin (hpushed _ hdoc hin).2 hfrom
    exact ⟨w.2, hdoc, Replica.notMem_drop_of_mem_take h.applications.nodup hin,
      c, hc, hdel (Option.not_isSome_iff_eq_none.mp hevent)⟩

theorem Safe.arrived (h : Safe editor d doc) (hlive : doc.deleted = false)
    (hdrained : d.applications.queue = []) : Arrived d doc := by
  rcases h with hin | ⟨⟨now, clock, n, hfind⟩, hkept⟩
  · simp [hdrained] at hin
  · exact ⟨⟨_, Table.filter_key hfind, hlive, rfl⟩, hkept⟩

theorem Lost.not_arrived (h : Lost d doc) : ¬ Arrived d doc := by
  rintro ⟨-, c, hc, hdel⟩
  obtain ⟨-, c', hc', hdel'⟩ := h
  obtain rfl := Option.some.inj (hc.symm.trans hc')
  simp [hdel] at hdel'

theorem Lost.run (hlost : Lost d doc) (h : Underway editor db₀ events applications d)
    (hq : OfflineQueue editor db₀ events applications) :
    Lost (Run.run (Device.transfer editor) d ts) doc := by
  induction ts generalizing d with
  | nil => exact hlost
  | cons t ts ih => exact ih (hlost.transfer h hq) (h.transfer hq t)

theorem Underway.along (h : Underway editor db₀ events applications d)
    (hq : OfflineQueue editor db₀ events applications)
    (hnone : ∀ doc ∈ applications, ¬ Lost (Run.run (Device.transfer editor) d ts) doc) :
    Run.Along (Device.transfer editor) EventsFirst d ts := by
  induction ts generalizing d with
  | nil => trivial
  | cons t ts ih =>
    refine ⟨?_, ih (h.transfer hq t) hnone⟩
    by_contra hearly
    obtain ⟨doc, hdoc, hlost⟩ := h.lost hq hearly
    exact hnone doc hdoc (hlost.run (h.transfer hq t) hq)

/-- Once both queues are drained, every application has arrived exactly when
each answered batch of applications came after the events. -/
theorem offline_queue_arrives_iff (hq : OfflineQueue editor db₀ events applications)
    (hdrained : (Run.run (Device.transfer editor) (Device.online db₀ events applications)
      ts).Drained) :
    (∀ doc ∈ applications, Arrived (Run.run (Device.transfer editor)
        (Device.online db₀ events applications) ts) doc) ↔
      Run.Along (Device.transfer editor) EventsFirst (Device.online db₀ events applications)
        ts := by
  constructor
  · intro harrived
    exact hq.underway.along hq fun doc hdoc hlost => hlost.not_arrived (harrived doc hdoc)
  · intro hrun doc hdoc
    have hstep : ∀ d t, Underway editor db₀ events applications d ∧ Safe editor d doc →
        EventsFirst d t → Underway editor db₀ events applications (d.transfer editor t) ∧
          Safe editor (d.transfer editor t) doc :=
      fun d t h hok => ⟨h.1.transfer hq t, h.2.transfer h.1 hq hdoc hok⟩
    have hsafe := hrun.invariant ⟨hq.underway, .inl (List.mem_map_of_mem hdoc)⟩ hstep
    exact hsafe.2.arrived (hq.live doc hdoc) hdrained.2

end

def trip : List EventDoc := [eventToDoc sampleEvent]
def tripApplications : List ApplicationDoc := [applicationToDoc sampleApplication []]

theorem trip_offline : OfflineQueue sampleOwner sampleUsers trip tripApplications where
  role := rfl
  user := by decide
  event_ids := by decide
  event_free := by decide
  ids := by decide
  free := by decide
  live := by decide
  event := by decide
  performer := by decide
  recipient := by decide
  restraints := by decide
  positions := by decide

def tripDelivery : Delivery := ⟨50, 100, fun _ => 100⟩

theorem trip_retried :
    Arrived (Run.run (Device.transfer sampleOwner)
      (Device.online sampleUsers trip tripApplications)
      [.applications tripDelivery false, .events tripDelivery true,
        .applications tripDelivery true]) (applicationToDoc sampleApplication []) :=
  (offline_queue_arrives_iff trip_offline (by decide +kernel)).mpr (by decide +kernel) _
    (List.mem_singleton_self _)

def tripOvertaken : Device :=
  Run.run (Device.transfer sampleOwner) (Device.online sampleUsers trip tripApplications)
    [.applications tripDelivery true, .events tripDelivery true]

theorem trip_overtaken :
    tripOvertaken.Drained ∧ ¬ ∀ doc ∈ tripApplications, Arrived tripOvertaken doc := by
  refine ⟨by decide +kernel, fun h => ?_⟩
  obtain ⟨c, hc, hdel⟩ := (h _ (List.mem_singleton_self _)).kept
  have hgone : (tripOvertaken.applications.docs sampleApplication.id).map ApplicationDoc.deleted =
      some true := by decide +kernel
  have hc' : tripOvertaken.applications.docs sampleApplication.id = some c := hc
  rw [hc', Option.map_some, hdel] at hgone
  cases hgone

end HcMap.Sync
