import HcMap.Sync.Forms
import HcMap.Sync.Isolation

/-!
# A lone writer

One editor's client writes with the app's forms and pushes what it wrote, with
no other writer and no pull in between. The server compares what a document
says of the immutable fields with its own row, whose creator it has set and
whose coordinates it has rounded.
-/

namespace HcMap.Sync

open Services (eventWritten childAfter childAfter_id stopAfter cascadeAfter_of_live Deletes
  find?_events_eventWritten_self)

-- ---------------------------------------------------------------------------
-- Rows as the client has them
-- ---------------------------------------------------------------------------

structure EventMirror (row : Event) (doc : EventDoc) : Prop where
  startedAt : row.startedAt = doc.startedAt
  lat : row.lat = doc.lat.toNumeric
  lon : row.lon = doc.lon.toNumeric
  createdBy : row.createdBy = doc.createdBy
  isDeleted : row.isDeleted = doc.deleted
  endedAt : row.endedAt = doc.endedAt
  title : row.title = doc.title
  note : row.note = doc.note
  revealParticipants : row.revealParticipants = doc.revealParticipants

def EventOn (db : Database) (doc : EventDoc) : Prop :=
  ∃ row, db.events.find? doc.id = some row ∧ EventMirror row doc

structure ApplicationMirror (db : Database) (row : Application) (doc : ApplicationDoc) : Prop where
  isDeleted : row.isDeleted = doc.deleted
  endedAt : row.endedAt = doc.endedAt
  note : row.note = doc.note
  restraints : ∀ rid, HasRestraint db doc.id rid ↔ rid ∈ doc.restraintTypeIds

def ApplicationOn (db : Database) (doc : ApplicationDoc) : Prop :=
  ∃ row, db.applications.find? doc.id = some row ∧ ApplicationMirror db row doc

/-- The column and the document hold the same coordinates. -/
def SixDecimals (doc : EventDoc) : Prop :=
  doc.lat.toNumeric.toFloat = doc.lat ∧ doc.lon.toNumeric.toFloat = doc.lon

def Running (db : Database) (eid : Uuid) : Prop :=
  ∃ a ∈ db.applications, a.eventId = eid ∧ a.isDeleted = false ∧ a.endedAt = none

instance (doc : EventDoc) : Decidable (SixDecimals doc) := by
  unfold SixDecimals
  infer_instance

instance (db : Database) (eid : Uuid) : Decidable (Running db eid) := by
  unfold Running
  infer_instance

section
variable {editor s : Session} {db db' : Database} {clock : Time} {doc m : EventDoc} {row : Event}

theorem EventEdit.rfl : EventEdit doc doc :=
  ⟨Eq.refl _, Eq.refl _, Eq.refl _, Eq.refl _, Eq.refl _, Eq.refl _, fun _ => Eq.refl _⟩

theorem EventEdit.trans {doc' : EventDoc} (h : EventEdit m doc) (h' : EventEdit doc doc') :
    EventEdit m doc' where
  id := h'.id.trans h.id
  startedAt := h'.startedAt.trans h.startedAt
  lat := h'.lat.trans h.lat
  lon := h'.lon.trans h.lon
  createdBy := h'.createdBy.trans h.createdBy
  deleted := h'.deleted.trans h.deleted
  endedAt hend := (h'.endedAt (by rwa [h.endedAt hend])).trans (h.endedAt hend)

theorem eventMirror_newEvent (hc : doc.createdBy = some s.userId) :
    EventMirror (newEvent s clock doc) doc :=
  ⟨rfl, rfl, rfl, hc.symm, rfl, rfl, rfl, rfl, rfl⟩

theorem EventMirror.apply (h : EventMirror row m) (hedit : EventEdit m doc) (clock upd : Time) :
    EventMirror { applyEventUpdate row doc clock with updatedAt := upd } doc where
  startedAt := h.startedAt.trans hedit.startedAt.symm
  lat := by
    rw [hedit.lat]
    exact h.lat
  lon := by
    rw [hedit.lon]
    exact h.lon
  createdBy := h.createdBy.trans hedit.createdBy.symm
  isDeleted := rfl
  endedAt := by
    show row.endedAt.or doc.endedAt = doc.endedAt
    rw [h.endedAt]
    cases hm : m.endedAt with
    | none => rfl
    | some t => simp [hedit.endedAt (by simp [hm]), hm]
  title := rfl
  note := rfl
  revealParticipants := rfl

theorem EventMirror.passes (h : EventMirror row m) (hedit : EventEdit m doc)
    (hsix : SixDecimals m) (role : UserRole) : checkEventUpdate row doc role = none := by
  have himm : ¬ (row.startedAt ≠ doc.startedAt ∨ row.lat.toFloat ≠ doc.lat ∨
      row.lon.toFloat ≠ doc.lon ∨ row.createdBy ≠ doc.createdBy) := by
    simp [h.startedAt, hedit.startedAt, h.lat, hsix.1, hedit.lat, h.lon, hsix.2, hedit.lon,
      h.createdBy, hedit.createdBy]
  have hend : ¬ (row.endedAt ≠ none ∧ doc.endedAt ≠ none ∧ row.endedAt ≠ doc.endedAt) := by
    rintro ⟨hset, -, hne⟩
    rw [h.endedAt] at hset hne
    exact hne (hedit.endedAt hset).symm
  have hdel : ¬ (row.isDeleted ∧ ¬ doc.deleted ∧ role ≠ .admin) := by
    rw [h.isDeleted, ← hedit.deleted]
    exact fun hd => hd.2.1 hd.1
  unfold checkEventUpdate
  rw [if_neg himm, if_neg hend, if_neg hdel]

end

-- ---------------------------------------------------------------------------
-- One event item
-- ---------------------------------------------------------------------------

/-- What the lone writer's client sends of an event: a new one, or an edit of
what the server has, with coordinates that survived, and no end while an
application runs. -/
structure EventReady (editor : Session) (item : EventPushItem) (db : Database) : Prop where
  author : item.newDocumentState.createdBy = some editor.userId
  new : item.assumedMasterState = none → db.events.find? item.newDocumentState.id = none
  edit : ∀ m, item.assumedMasterState = some m → EventOn db m ∧
    EventEdit m item.newDocumentState ∧ SixDecimals m ∧
      (m.endedAt = none → item.newDocumentState.endedAt ≠ none → ¬ Running db m.id)

section
variable {editor s : Session} {db db' : Database} {clock : Time} {doc m : EventDoc} {row : Event}
  {item : EventPushItem}

theorem eventWritten_applications {new : Event} (hdel : new.isDeleted = row.isDeleted)
    (hrun : row.endedAt = none → new.endedAt ≠ none → ¬ Running db new.id) :
    (eventWritten db clock row new).applications = db.applications := by
  show db.applications.map (childAfter clock row new) (fun _ => childAfter_id) = db.applications
  refine Table.map_eq_self fun a ha => ?_
  have hlive : ¬ Deletes row new := fun h => h.2 (hdel ▸ h.1)
  rw [childAfter, cascadeAfter_of_live hlive, stopAfter, if_neg]
  rintro ⟨he, hd, hold, hnew, hopen⟩
  exact hrun hold hnew ⟨a, ha, he, by simpa using hd, hopen⟩

theorem EventReady.insert (h : EventReady s item db) (hrole : s.role = .editor)
    (huser : (db.users.find? s.userId).isSome) (hitem : item.assumedMasterState = none)
    (clock : Time) : ∃ db', pushEvent s db (clock, item) = .ok (db', []) ∧
      SameReference db db' ∧ db'.applications = db.applications ∧
        db'.restraints = db.restraints ∧ EventOn db' item.newDocumentState := by
  have hallow : EventInsertAllowed s db item.newDocumentState := ⟨h.new hitem, .inr hrole, huser⟩
  obtain ⟨t, ht, hpush⟩ := hallow.push hitem clock
  obtain ⟨p, hp⟩ := ensureParticipant_eq { db with events := t } s clock item.newDocumentState.id
    s.personId
  refine ⟨{ db with events := t, participants := p }, hpush.trans (by rw [hp]),
    ⟨rfl, rfl, rfl, rfl, rfl, rfl⟩, rfl, rfl, newEvent s clock item.newDocumentState,
    Table.find?_insert?_self ht, eventMirror_newEvent h.author⟩

theorem EventReady.update (h : EventReady s item db) (hrole : s.role = .editor)
    (hitem : item.assumedMasterState = some m) (clock : Time) :
    ∃ db', pushEvent s db (clock, item) = .ok (db', []) ∧ SameReference db db' ∧
      db'.applications = db.applications ∧ db'.restraints = db.restraints ∧
        EventOn db' item.newDocumentState := by
  obtain ⟨⟨row, hfind, hmirror⟩, hedit, hsix, hrun⟩ := h.edit m hitem
  have hid : row.id = item.newDocumentState.id := (Table.key_of_find? hfind).trans hedit.id.symm
  have hown : row.createdBy = some s.userId :=
    hmirror.createdBy.trans (hedit.createdBy.symm.trans h.author)
  have hallow : EventUpdateAllowed s db item row :=
    ⟨Database.getEvent_eq_some.mpr ⟨hedit.id ▸ hfind, .inr (.inr ⟨hrole, hown⟩)⟩,
      by simp [hitem], hmirror.passes hedit hsix s.role⟩
  rw [pushEvent_update hallow]
  have hnew := hmirror.apply hedit clock
  split
  · rename_i hc
    have hself := (applyEventUpdate_eq_self row item.newDocumentState clock).mpr hc
    refine ⟨db, rfl, .rfl, rfl, rfl, row, hedit.id ▸ hfind, ?_⟩
    have hrow := hnew row.updatedAt
    rw [hself] at hrow
    exact hrow
  · rw [if_pos (.inr ⟨hrole, hown⟩)]
    have happs : (eventWritten db clock row
        (applyEventUpdate row item.newDocumentState clock)).applications = db.applications := by
      refine eventWritten_applications (hedit.deleted.trans hmirror.isDeleted.symm) ?_
      intro hopen hends
      have hend := (hnew clock).endedAt
      rw [hmirror.endedAt] at hopen
      have hmid : m.id = row.id := (Table.key_of_find? hfind).symm
      rw [applyEventUpdate_id, ← hmid]
      exact hrun hopen fun hnone => hends (hend.trans hnone)
    refine ⟨_, rfl, ⟨rfl, rfl, rfl, rfl, rfl, rfl⟩, happs, rfl,
      { applyEventUpdate row item.newDocumentState clock with updatedAt := clock }, ?_,
      hnew clock⟩
    rw [← hid]
    exact find?_events_eventWritten_self clock row (by simp [hallow.find])

theorem EventReady.push (h : EventReady s item db) (hrole : s.role = .editor)
    (huser : (db.users.find? s.userId).isSome) (clock : Time) :
    ∃ db', pushEvent s db (clock, item) = .ok (db', []) ∧ SameReference db db' ∧
      db'.applications = db.applications ∧ db'.restraints = db.restraints ∧
        EventOn db' item.newDocumentState := by
  cases hitem : item.assumedMasterState with
  | none => exact h.insert hrole huser hitem clock
  | some m => exact h.update hrole hitem clock

theorem EventOn.congr (h : EventOn db doc)
    (hfind : db'.events.find? doc.id = db.events.find? doc.id) : EventOn db' doc := by
  obtain ⟨row, hrow, hmirror⟩ := h
  exact ⟨row, hfind.trans hrow, hmirror⟩

theorem EventReady.congr (h : EventReady s item db) (happs : db'.applications = db.applications)
    (hfind : db'.events.find? item.newDocumentState.id =
      db.events.find? item.newDocumentState.id) : EventReady s item db' where
  author := h.author
  new hitem := hfind.trans (h.new hitem)
  edit m hitem := by
    obtain ⟨hon, hedit, hsix, hrun⟩ := h.edit m hitem
    rw [hedit.id] at hfind
    refine ⟨hon.congr hfind, hedit, hsix, fun hopen hends => ?_⟩
    unfold Running
    rw [happs]
    exact hrun hopen hends

theorem events_accepted {d : Device} {b : Delivery} (hrole : editor.role = .editor)
    (huser : (d.db.users.find? editor.userId).isSome)
    (hapart : (d.events.batch b.size).Pairwise fun w w' => key w.2 ≠ key w'.2)
    (hready : ∀ w ∈ d.events.batch b.size, EventReady editor ⟨w.1, w.2⟩ d.db) :
    ∃ db', d.sendEvents editor b = .ok (db', []) ∧ SameReference d.db db' ∧
      db'.applications = d.db.applications ∧ db'.restraints = d.db.restraints ∧
        (∀ id, (∀ w ∈ d.events.batch b.size, w.2.id ≠ id) →
          db'.events.find? id = d.db.events.find? id) ∧
            ∀ w ∈ d.events.batch b.size, EventOn db' w.2 := by
  obtain ⟨db', hsend, ⟨href, happs, hrest, hsame⟩, hpost⟩ := Batch.accepts
    (fun db => SameReference d.db db ∧ db.applications = d.db.applications ∧
      db.restraints = d.db.restraints ∧ ∀ id, (∀ w ∈ d.events.batch b.size, w.2.id ≠ id) →
        db.events.find? id = d.db.events.find? id)
    (fun x db => EventReady editor x.2 db ∧
      ∃ w ∈ d.events.batch b.size, w.2.id = x.2.newDocumentState.id)
    (fun x db => EventOn db x.2.newDocumentState)
    (fun db x hdb hx => by
      obtain ⟨clock, item⟩ := x
      obtain ⟨href, happs, hrest, hsame⟩ := hdb
      obtain ⟨hitem, w, hw, hid⟩ := hx
      obtain ⟨db', hpush, href', happs', hrest', hon⟩ :=
        EventReady.push (s := { editor with now := b.now }) ⟨hitem.author, hitem.new, hitem.edit⟩
          hrole (by rw [href.users]; exact huser) clock
      have hframe := fun id (hne : id ≠ item.newDocumentState.id) =>
        (pushEvent_frame hpush hne).1
      refine ⟨db', hpush, ⟨href.trans href', happs'.trans happs, hrest'.trans hrest, ?_⟩, hon,
        fun y => ⟨fun hne hy => ⟨hy.1.congr happs' ?_, hy.2⟩, fun hne hy => hy.congr ?_⟩⟩
      · intro id hnot
        exact (hframe id fun heq => hnot w hw (hid.trans heq.symm)).trans (hsame id hnot)
      · exact hframe _ (Ne.symm hne)
      · exact hframe _ hne)
    (items_pairwise hapart) ⟨.rfl, rfl, rfl, fun _ _ => rfl⟩ fun x hx => by
      obtain ⟨w, hw, rfl⟩ := mem_items.mp hx
      exact ⟨hready w hw, w, hw, rfl⟩
  exact ⟨db', hsend, href, happs, hrest, hsame,
    fun w hw => hpost _ (mem_items.mpr ⟨w, hw, rfl⟩)⟩

end

-- ---------------------------------------------------------------------------
-- One application item
-- ---------------------------------------------------------------------------

section
variable {editor s : Session} {db db' : Database} {clock : Time} {doc : ApplicationDoc}
  {item : ApplicationPushItem}

theorem ApplicationInsertAllowed.push (h : ApplicationInsertAllowed s db doc) (clock : Time) :
    ∃ db', pushApplication s db (clock, ⟨none, doc⟩) = .ok (db', []) ∧ ApplicationOn db' doc := by
  obtain ⟨t, ht, hpush⟩ := pushApplication_insert clock
    (rfl : (⟨none, doc⟩ : ApplicationPushItem).assumedMasterState = none) h
  refine ⟨_, hpush, newApplication s clock (nextSequenceNo db s doc.eventId) doc, ?_, rfl, rfl, rfl,
    fun rid => hasRestraint_applicationInserted h ht⟩
  rw [applicationInserted_applications]
  exact Table.find?_insert?_self ht

theorem ApplicationOn.congr (h : ApplicationOn db doc)
    (hfind : db'.applications.find? doc.id = db.applications.find? doc.id)
    (hset : ∀ rid, HasRestraint db' doc.id rid ↔ HasRestraint db doc.id rid) :
    ApplicationOn db' doc := by
  obtain ⟨row, hrow, hmirror⟩ := h
  exact ⟨row, hfind.trans hrow, hmirror.isDeleted, hmirror.endedAt, hmirror.note,
    fun rid => (hset rid).trans (hmirror.restraints rid)⟩

theorem applications_accepted {d : Device} {b : Delivery}
    (hapart : (d.applications.batch b.size).Pairwise fun w w' => key w.2 ≠ key w'.2)
    (hready : ∀ w ∈ d.applications.batch b.size,
      w.1 = none ∧ ApplicationInsertAllowed editor d.db w.2) :
    ∃ db', d.sendApplications editor b = .ok (db', []) ∧ SameReference d.db db' ∧
      db'.events = d.db.events ∧
        (∀ id, (∀ w ∈ d.applications.batch b.size, w.2.id ≠ id) →
          db'.applications.find? id = d.db.applications.find? id ∧
            ∀ rid, HasRestraint db' id rid ↔ HasRestraint d.db id rid) ∧
              ∀ w ∈ d.applications.batch b.size, ApplicationOn db' w.2 := by
  obtain ⟨db', hsend, ⟨href, hevents, hsame⟩, hpost⟩ := Batch.accepts
    (fun db => SameReference d.db db ∧ db.events = d.db.events ∧
      ∀ id, (∀ w ∈ d.applications.batch b.size, w.2.id ≠ id) →
        db.applications.find? id = d.db.applications.find? id ∧
          ∀ rid, HasRestraint db id rid ↔ HasRestraint d.db id rid)
    (fun x db => x.2.assumedMasterState = none ∧
      ApplicationInsertAllowed editor db x.2.newDocumentState ∧
        ∃ w ∈ d.applications.batch b.size, w.2.id = x.2.newDocumentState.id)
    (fun x db => ApplicationOn db x.2.newDocumentState)
    (fun db x hdb hx => by
      obtain ⟨clock, m, doc⟩ := x
      obtain ⟨href, hevents, hsame⟩ := hdb
      obtain ⟨rfl, hallow, w, hw, hid⟩ : m = none ∧ ApplicationInsertAllowed editor db doc ∧
        ∃ w ∈ d.applications.batch b.size, w.2.id = doc.id := hx
      obtain ⟨db', hpush, hon⟩ := (hallow.at b.now).push clock
      have href' := (pushApplication_sameAccess hpush).reference
      have hevents' := pushApplication_events hpush
      have hframe := fun id (hne : id ≠ doc.id) => pushApplication_frame hpush hne
      refine ⟨db', hpush, ⟨href.trans href', hevents'.trans hevents, fun id hnot => ?_⟩, hon,
        fun y => ⟨fun hne hy => ⟨hy.1, hy.2.1.congr href' hevents' ?_, hy.2.2⟩,
          fun hne hy => hy.congr ?_ ?_⟩⟩
      · have hne : id ≠ doc.id := fun heq => hnot w hw (hid.trans heq.symm)
        exact ⟨(hframe id hne).1.trans (hsame id hnot).1,
          fun rid => ((hframe id hne).2 rid).trans ((hsame id hnot).2 rid)⟩
      · exact (hframe _ (Ne.symm hne)).1
      · exact (hframe _ hne).1
      · exact (hframe _ hne).2)
    (items_pairwise hapart) ⟨.rfl, rfl, fun _ _ => ⟨rfl, fun _ => .rfl⟩⟩ fun x hx => by
      obtain ⟨w, hw, rfl⟩ := mem_items.mp hx
      exact ⟨(hready w hw).1, (hready w hw).2, w, hw, rfl⟩
  exact ⟨db', hsend, href, hevents, hsame,
    fun w hw => hpost _ (mem_items.mpr ⟨w, hw, rfl⟩)⟩

end

-- ---------------------------------------------------------------------------
-- The client's run
-- ---------------------------------------------------------------------------

inductive Act
  | form (f : Form)
  | events (b : Delivery)
  | applications (b : Delivery)

def Device.act (editor : Session) (d : Device) : Act → Device
  | .form f => d.submit editor f
  | .events b => d.deliverEvents editor b true
  | .applications b => d.deliverApplications editor b true

def Device.first (db : Database) : Device := ⟨db, .empty, .empty⟩

def Accepted (editor : Session) (d : Device) : Act → Prop
  | .form _ => True
  | .events b => ∃ db', d.sendEvents editor b = .ok (db', [])
  | .applications b => ∃ db', d.sendApplications editor b = .ok (db', [])

structure Agrees (d : Device) : Prop where
  events : ∀ id doc, d.events.docs id = some doc → id ∉ d.events.queue →
    ∃ row, d.db.events.find? id = some row ∧ row.endedAt = doc.endedAt ∧ row.note = doc.note ∧
      row.title = doc.title ∧ row.revealParticipants = doc.revealParticipants
  applications : ∀ id doc, d.applications.docs id = some doc → id ∉ d.applications.queue →
    ∃ row, d.db.applications.find? id = some row ∧ row.endedAt = doc.endedAt ∧
      row.note = doc.note ∧ ∀ rid, HasRestraint d.db id rid ↔ rid ∈ doc.restraintTypeIds

def Orderly (d : Device) : Act → Prop
  | .form (.createEvent id ..) => d.db.events.find? id = none
  | .form (.startApplication id ..) => d.db.applications.find? id = none
  | .form _ => True
  | .events _ => True
  | .applications b =>
    ∀ w ∈ d.applications.batch b.size, (d.events.master w.2.eventId).isSome

/-- An event is pushed again only with coordinates that survived and no end
while an application runs; an application is pushed once, with persons and
catalog entries the server accepts. -/
def Clean (editor : Session) (d : Device) : Act → Prop
  | .form _ => True
  | .events b => ∀ w ∈ d.events.batch b.size, ∀ m ∈ w.1, SixDecimals m ∧
    (m.endedAt = none → w.2.endedAt ≠ none → ¬ Running d.db m.id)
  | .applications b => ∀ w ∈ d.applications.batch b.size, w.1 = none ∧
    restraintsAllowed d.db editor w.2.restraintTypeIds ∧ positionFksAllowed d.db editor w.2 ∧
      (d.db.persons.find? w.2.performerId).isSome ∧ (d.db.persons.find? w.2.recipientId).isSome

instance (d : Device) (act : Act) : Decidable (Orderly d act) := by
  unfold Orderly
  split <;> infer_instance

instance (editor : Session) (d : Device) (act : Act) : Decidable (Clean editor d act) := by
  unfold Clean
  split <;> infer_instance

-- ---------------------------------------------------------------------------
-- What every step keeps
-- ---------------------------------------------------------------------------

/-- The server has what the client assumes of both collections. The client
wrote every event itself, and every application in one of them. -/
structure Steady (editor : Session) (db₀ : Database) (d : Device) : Prop where
  reference : SameReference db₀ d.db
  events : d.events.Synced (fun id => d.db.events.find? id = none) (EventOn d.db) EventEdit
  applications : d.applications.Synced (fun id => d.db.applications.find? id = none)
    (ApplicationOn d.db) ApplicationEdit
  author : ∀ id doc, d.events.docs id = some doc → doc.createdBy = some editor.userId
  parent : ∀ id doc, d.applications.docs id = some doc → (d.events.docs doc.eventId).isSome

section
variable {editor : Session} {db₀ : Database} {d : Device} {act : Act} {acts : List Act} {f : Form}
  {b : Delivery} {doc doc' : ApplicationDoc}

theorem ApplicationEdit.rfl : ApplicationEdit doc doc := ⟨Eq.refl _, Eq.refl _, Eq.refl _⟩

theorem ApplicationEdit.trans {m : ApplicationDoc} (h : ApplicationEdit m doc)
    (h' : ApplicationEdit doc doc') : ApplicationEdit m doc' :=
  ⟨h'.id.trans h.id, h'.eventId.trans h.eventId, h'.deleted.trans h.deleted⟩

theorem docs_isSome_write {r : Replica Uuid EventDoc} {id : Uuid} (e : EventDoc)
    (h : (r.docs id).isSome) : ((r.write e).docs id).isSome := by
  by_cases heq : id = key e
  · rw [heq, Replica.write_docs_self]
    rfl
  · rwa [Replica.write_docs_of_ne heq]

theorem Steady.writeEvent (h : Steady editor db₀ d) (e : EventDoc)
    (hnew : d.events.docs e.id = none → d.db.events.find? e.id = none)
    (hedit : ∀ e₀, d.events.docs e.id = some e₀ → EventEdit e₀ e)
    (hauthor : e.createdBy = some editor.userId) :
    Steady editor db₀ { d with events := d.events.write e } where
  reference := h.reference
  events := h.events.write hnew fun e₀ he₀ m hm => hm.trans (hedit e₀ he₀)
  applications := h.applications
  author id doc hdoc := by
    by_cases heq : id = e.id
    · subst heq
      have hself : (d.events.write e).docs (key e) = some doc := hdoc
      rw [Replica.write_docs_self] at hself
      exact Option.some.inj hself ▸ hauthor
    · exact h.author id doc (by rwa [← Replica.write_docs_of_ne (r := d.events) (d := e) heq])
  parent id doc hdoc := docs_isSome_write e (h.parent id doc hdoc)

theorem Steady.writeApplication (h : Steady editor db₀ d) (a : ApplicationDoc)
    (hnew : d.applications.docs a.id = none → d.db.applications.find? a.id = none)
    (hedit : ∀ a₀, d.applications.docs a.id = some a₀ → ApplicationEdit a₀ a)
    (hparent : (d.events.docs a.eventId).isSome) :
    Steady editor db₀ { d with applications := d.applications.write a } where
  reference := h.reference
  events := h.events
  applications := h.applications.write hnew fun a₀ ha₀ m hm => hm.trans (hedit a₀ ha₀)
  author := h.author
  parent id doc hdoc := by
    by_cases heq : id = a.id
    · subst heq
      have hself : (d.applications.write a).docs (key a) = some doc := hdoc
      rw [Replica.write_docs_self] at hself
      exact Option.some.inj hself ▸ hparent
    · exact h.parent id doc
        (by rwa [← Replica.write_docs_of_ne (r := d.applications) (d := a) heq])

theorem Steady.submit (h : Steady editor db₀ d) (hok : Orderly d (.form f)) :
    Steady editor db₀ (d.submit editor f) := by
  have hcases := submit_cases editor d f
  generalize d.submit editor f = d' at hcases
  cases hcases with
  | idle => exact h
  | created hfree =>
    exact h.writeEvent _ (fun _ => hok) (fun e₀ he₀ => by simp [createdEvent, hfree] at he₀) rfl
  | started hfree hevent =>
    exact h.writeApplication _ (fun _ => hok)
      (fun a₀ ha₀ => by simp [startedApplication, hfree] at ha₀) hevent
  | @eventEdited _ id e e' hdoc hedit =>
    obtain rfl := h.events.keyed id e hdoc
    rw [key_eventDoc, ← hedit.id] at hdoc
    refine h.writeEvent e' (fun hnone => by simp [hdoc] at hnone) (fun e₀ he₀ => ?_) ?_
    · obtain rfl := Option.some.inj (hdoc.symm.trans he₀)
      exact hedit
    · exact hedit.createdBy.trans (h.author _ e hdoc)
  | @applicationEdited _ id a a' hdoc hedit =>
    obtain rfl := h.applications.keyed id a hdoc
    rw [key_applicationDoc, ← hedit.id] at hdoc
    refine h.writeApplication a' (fun hnone => by simp [hdoc] at hnone) (fun a₀ ha₀ => ?_) ?_
    · obtain rfl := Option.some.inj (hdoc.symm.trans ha₀)
      exact hedit
    · rw [hedit.eventId]
      exact h.parent _ a hdoc

theorem Steady.eventReady (h : Steady editor db₀ d) (hok : Clean editor d (.events b))
    {w : Option EventDoc × EventDoc} (hw : w ∈ d.events.batch b.size) :
    EventReady editor ⟨w.1, w.2⟩ d.db where
  author := by
    obtain ⟨k, -, hdoc, -⟩ := Replica.mem_batch.mp hw
    exact h.author k w.2 hdoc
  new := (h.events.batch hw).1
  edit m hm := by
    obtain ⟨hon, hedit⟩ := (h.events.batch hw).2 m hm
    obtain ⟨hsix, hrun⟩ := hok w hw m hm
    exact ⟨hon, hedit, hsix, hrun⟩

theorem Steady.deliverEvents (h : Steady editor db₀ d) (hrole : editor.role = .editor)
    (huser : (db₀.users.find? editor.userId).isSome) (hok : Clean editor d (.events b)) :
    Accepted editor d (.events b) ∧ Steady editor db₀ (d.deliverEvents editor b true) := by
  obtain ⟨db', hsend, href, happs, hrest, hsame, hon⟩ := events_accepted hrole
    (by rw [h.reference.users]; exact huser) h.events.batch_pairwise fun w hw => h.eventReady hok hw
  refine ⟨⟨db', hsend⟩, ?_⟩
  simp only [Device.deliverEvents, hsend, if_true]
  refine ⟨h.reference.trans href, ?_, ?_, fun id doc hdoc => ?_, fun id doc hdoc => ?_⟩
  · refine h.events.settle (fun _ => .rfl) (fun m doc he => he.id.symm) hon fun id hid => ?_
    refine ⟨fun ha => (hsame id hid).trans ha, ?_⟩
    rintro m rfl honm
    exact honm.congr (hsame _ hid)
  · refine h.applications.mono (fun id ha => ?_) fun m hm => ?_
    · rw [happs]
      exact ha
    · exact hm.congr (by rw [happs]) fun rid => hasRestraint_congr hrest
  · rw [Replica.settle_nil_docs] at hdoc
    exact h.author id doc hdoc
  · show ((d.events.settle b.size []).docs doc.eventId).isSome
    rw [Replica.settle_nil_docs]
    exact h.parent id doc hdoc

theorem Steady.insertAllowed (h : Steady editor db₀ d) (hrole : editor.role = .editor)
    (huser : (db₀.users.find? editor.userId).isSome) (hord : Orderly d (.applications b))
    (hok : Clean editor d (.applications b)) {w : Option ApplicationDoc × ApplicationDoc}
    (hw : w ∈ d.applications.batch b.size) : ApplicationInsertAllowed editor d.db w.2 := by
  obtain ⟨hnew, hrestraints, hpositions, hperformer, hrecipient⟩ := hok w hw
  obtain ⟨k, -, hdoc, -⟩ := Replica.mem_batch.mp hw
  obtain ⟨e, he⟩ := Option.isSome_iff_exists.mp (h.parent k w.2 hdoc)
  obtain ⟨m, hm⟩ := Option.isSome_iff_exists.mp (hord w hw)
  obtain ⟨⟨row, hrow, hmirror⟩, hedit, -⟩ := h.events.accepted _ e m he hm
  have hid : m.id = w.2.eventId := hedit.id.symm.trans (h.events.keyed _ e he)
  have hown : row.createdBy = some editor.userId :=
    hmirror.createdBy.trans (hedit.createdBy.symm.trans (h.author _ e he))
  rw [hid] at hrow
  exact ⟨(h.applications.batch hw).1 hnew, hrestraints, hpositions,
    .inr ⟨hrole, row, Table.mem_of_find? hrow, Table.key_of_find? hrow, hown⟩, by simp [hrow],
    hperformer, hrecipient, by rw [h.reference.users]; exact huser⟩

theorem Steady.deliverApplications (h : Steady editor db₀ d) (hrole : editor.role = .editor)
    (huser : (db₀.users.find? editor.userId).isSome) (hord : Orderly d (.applications b))
    (hok : Clean editor d (.applications b)) :
    Accepted editor d (.applications b) ∧
      Steady editor db₀ (d.deliverApplications editor b true) := by
  obtain ⟨db', hsend, href, hevents, hsame, hon⟩ := applications_accepted
    h.applications.batch_pairwise
    fun w hw => ⟨(hok w hw).1, h.insertAllowed hrole huser hord hok hw⟩
  refine ⟨⟨db', hsend⟩, ?_⟩
  simp only [Device.deliverApplications, hsend, if_true]
  refine ⟨h.reference.trans href, ?_, ?_, h.author, fun id doc hdoc => ?_⟩
  · exact h.events.mono (fun id ha => by rw [hevents]; exact ha)
      fun m hm => hm.congr (by rw [hevents])
  · refine h.applications.settle (fun _ => .rfl) (fun m doc he => he.id.symm) hon fun id hid => ?_
    refine ⟨fun ha => (hsame id hid).1.trans ha, ?_⟩
    rintro m rfl honm
    exact honm.congr (hsame _ hid).1 (hsame _ hid).2
  · rw [Replica.settle_nil_docs] at hdoc
    exact h.parent id doc hdoc

theorem Steady.step (h : Steady editor db₀ d) (hrole : editor.role = .editor)
    (huser : (db₀.users.find? editor.userId).isSome) (hord : Orderly d act)
    (hok : Clean editor d act) : Accepted editor d act ∧ Steady editor db₀ (d.act editor act) := by
  cases act with
  | form f => exact ⟨trivial, h.submit hord⟩
  | events b => exact h.deliverEvents hrole huser hok
  | applications b => exact h.deliverApplications hrole huser hord hok

theorem Steady.run (h : Steady editor db₀ d) (hrole : editor.role = .editor)
    (huser : (db₀.users.find? editor.userId).isSome)
    (hrun : Run.Along (Device.act editor) (fun d act => Orderly d act ∧ Clean editor d act) d
      acts) :
    Run.Along (Device.act editor) (Accepted editor) d acts ∧
      Steady editor db₀ (Run.run (Device.act editor) d acts) := by
  induction acts generalizing d with
  | nil => exact ⟨trivial, h⟩
  | cons act acts ih =>
    obtain ⟨⟨hord, hok⟩, hrest⟩ := hrun
    obtain ⟨haccepted, hnext⟩ := h.step hrole huser hord hok
    exact ⟨⟨haccepted, (ih hnext hrest).1⟩, (ih hnext hrest).2⟩

end

end HcMap.Sync
