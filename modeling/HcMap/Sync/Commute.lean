import HcMap.Sync.Isolation

/-!
# The two push streams

A client pushes events and applications independently of each other, so the
server may process a batch of either first. On an application both act through
its `Life`: an item of its own as `Life.afterPush`, one of its event as
`Life.afterEvent`. `streams_commute_iff` says for which valid batches of
updates the two commute.
-/

namespace HcMap.Sync

open Services (childAfter childAfter_eq childAfter_of_ne Deletes stopAfter cascadeAfter
  find?_applications_eventWritten find?_events_eventWritten_self)

-- ---------------------------------------------------------------------------
-- Lives
-- ---------------------------------------------------------------------------

/-- What the two streams race for on an application. -/
structure Life where
  endedAt : Option Time
  isDeleted : Bool
  deriving DecidableEq

def lifeOf (a : Application) : Life := ⟨a.endedAt, a.isDeleted⟩

def Life.afterEvent (event : Event) (newDoc : EventDoc) (l : Life) : Life where
  endedAt :=
    if ¬ l.isDeleted ∧ ¬ (newDoc.deleted ∧ ¬ event.isDeleted) ∧ event.endedAt = none ∧
        l.endedAt = none then newDoc.endedAt
    else l.endedAt
  isDeleted := l.isDeleted || (newDoc.deleted && !event.isDeleted)

def Life.Passes (role : UserRole) (newDoc : ApplicationDoc) (l : Life) : Prop :=
  (l.endedAt = none ∨ newDoc.endedAt = none ∨ l.endedAt = newDoc.endedAt) ∧
    (l.isDeleted → newDoc.deleted ∨ role = .admin)

instance (role : UserRole) (newDoc : ApplicationDoc) (l : Life) :
    Decidable (l.Passes role newDoc) := by
  unfold Life.Passes
  infer_instance

def Life.afterPush (role : UserRole) (newDoc : ApplicationDoc) (l : Life) : Life :=
  if l.Passes role newDoc then ⟨l.endedAt.or newDoc.endedAt, newDoc.deleted⟩ else l

/-- The two orders agree on the end of the application, on what the client
recorded if it recorded one. -/
def EndsAgree (role : UserRole) (event : Event) (eventDoc : EventDoc) (l : Life)
    (newDoc : ApplicationDoc) : Prop :=
  l.endedAt ≠ none ∨
    -- The cascade deletes the row before its own item comes.
    if eventDoc.deleted ∧ ¬ event.isDeleted then
      role = .admin ∨ newDoc.deleted ∨ newDoc.endedAt = none
    -- The auto-stop ends the row before its own item comes.
    else if event.endedAt = none ∧ eventDoc.endedAt ≠ none then
      if l.isDeleted then newDoc.endedAt ≠ none ∨ newDoc.deleted
      else newDoc.endedAt = eventDoc.endedAt ∨ (newDoc.endedAt = none ∧ ¬ newDoc.deleted)
    else True

section
variable {role : UserRole} {event : Event} {eventDoc : EventDoc} {a : Application}
  {newDoc : ApplicationDoc} {l : Life}

theorem endedAt_afterEvent_some {t : Time} {b : Bool} :
    (Life.afterEvent event eventDoc ⟨some t, b⟩).endedAt = some t := by
  simp [Life.afterEvent]

theorem endedAt_afterPush_some {t : Time} (h : l.endedAt = some t) :
    (l.afterPush role newDoc).endedAt = some t := by
  unfold Life.afterPush
  split
  · simp [h]
  · exact h

theorem endsAgree_iff (h : l.Passes role newDoc) :
    (((l.afterEvent event eventDoc).afterPush role newDoc).endedAt =
        ((l.afterPush role newDoc).afterEvent event eventDoc).endedAt ∧
      ∀ t, newDoc.endedAt = some t →
        ((l.afterEvent event eventDoc).afterPush role newDoc).endedAt = some t) ↔
      EndsAgree role event eventDoc l newDoc := by
  obtain ⟨endedAt, isDeleted⟩ := l
  cases endedAt with
  | some t =>
    have hevents : ((Life.afterEvent event eventDoc ⟨some t, isDeleted⟩).afterPush role
        newDoc).endedAt = some t := endedAt_afterPush_some endedAt_afterEvent_some
    have hpush : Life.afterPush role newDoc ⟨some t, isDeleted⟩ = ⟨some t, newDoc.deleted⟩ := by
      rw [Life.afterPush, if_pos h]
      rfl
    rw [hevents, hpush, endedAt_afterEvent_some]
    simp only [EndsAgree, ne_eq, reduceCtorEq, not_false_eq_true, true_or, iff_true, true_and]
    intro t' ht'
    rcases h.1 with hn | hn | hn
    · cases hn
    · simp [ht'] at hn
    · exact hn.trans ht'
  | none =>
    have hpush : Life.afterPush role newDoc ⟨none, isDeleted⟩ =
        ⟨newDoc.endedAt, newDoc.deleted⟩ := by
      rw [Life.afterPush, if_pos h]
      rfl
    rw [hpush]
    unfold Life.Passes at h
    by_cases hcascade : eventDoc.deleted ∧ ¬ event.isDeleted
    · simp only [Life.afterEvent, Life.afterPush, Life.Passes, EndsAgree]
      grind
    by_cases hstop : event.endedAt = none ∧ eventDoc.endedAt ≠ none
    · simp only [Life.afterEvent, Life.afterPush, Life.Passes, EndsAgree]
      grind
    · simp only [Life.afterEvent, Life.afterPush, Life.Passes, EndsAgree]
      grind

theorem lifeOf_cascadeAfter (newDoc : EventDoc) (clock : Time) (h : a.eventId = event.id) :
    lifeOf (cascadeAfter clock event (applyEventUpdate event newDoc clock) a) =
      ⟨a.endedAt, a.isDeleted || (newDoc.deleted && !event.isDeleted)⟩ := by
  cases hd : a.isDeleted <;> cases hn : newDoc.deleted <;> cases he : event.isDeleted <;>
    simp [cascadeAfter, lifeOf, Deletes, h, hd, hn, he]

theorem lifeOf_stopAfter {newDoc : EventDoc} (clock : Time) (h : a.eventId = event.id) :
    lifeOf (stopAfter clock event (applyEventUpdate event newDoc clock) a) =
      ⟨if ¬ a.isDeleted ∧ event.endedAt = none ∧ a.endedAt = none then newDoc.endedAt
        else a.endedAt, a.isDeleted⟩ := by
  unfold stopAfter
  split
  · rename_i hs
    obtain ⟨-, hd, ho, -, he⟩ := hs
    simp [lifeOf, hd, ho, he]
  · rename_i hs
    by_cases hc : ¬ a.isDeleted ∧ event.endedAt = none ∧ a.endedAt = none
    · have hn : newDoc.endedAt = none := by
        by_contra hn
        exact hs ⟨h, hc.1, hc.2.1, by simpa [hc.2.1] using hn, hc.2.2⟩
      simp [lifeOf, hn, hc.2.2]
    · rw [if_neg hc]
      rfl

theorem lifeOf_childAfter {newDoc : EventDoc} (clock : Time) (h : a.eventId = event.id) :
    lifeOf (childAfter clock event (applyEventUpdate event newDoc clock) a) =
      (lifeOf a).afterEvent event newDoc := by
  have hcascade := lifeOf_cascadeAfter newDoc clock h
  have hend := congrArg Life.endedAt hcascade
  have hdel := congrArg Life.isDeleted hcascade
  simp only [lifeOf] at hend hdel
  have hid : (cascadeAfter clock event (applyEventUpdate event newDoc clock) a).eventId =
      event.id := by
    unfold cascadeAfter
    split <;> exact h
  rw [childAfter, lifeOf_stopAfter clock hid, hend, hdel]
  simp only [Life.afterEvent, lifeOf, Bool.or_eq_true, Bool.and_eq_true, Bool.not_eq_true', not_or,
    Bool.not_eq_true, and_assoc]

end

-- ---------------------------------------------------------------------------
-- Valid batches
-- ---------------------------------------------------------------------------

def itemOf {δ : Type} (idOf : δ → Uuid) (items : List (PushItem δ)) (id : Uuid) :
    Option (PushItem δ) :=
  items.find? fun item => idOf item.newDocumentState = id

section
variable {δ : Type} {idOf : δ → Uuid} {items : List (PushItem δ)} {item : PushItem δ} {id : Uuid}

theorem itemOf_eq (hn : (items.map fun item => idOf item.newDocumentState).Nodup)
    (hi : item ∈ items) : itemOf idOf items (idOf item.newDocumentState) = some item := by
  cases hf : itemOf idOf items (idOf item.newDocumentState) with
  | none => simpa using List.find?_eq_none.mp hf item hi
  | some other =>
    have hid : idOf other.newDocumentState = idOf item.newDocumentState := by
      simpa using List.find?_some hf
    rw [List.inj_on_of_nodup_map hn (List.mem_of_find?_eq_some hf) hi hid]

theorem itemOf_eq_none : itemOf idOf items id = none ↔
    ∀ item ∈ items, idOf item.newDocumentState ≠ id := by
  simp [itemOf]

theorem itemOf_some (h : itemOf idOf items id = some item) :
    item ∈ items ∧ idOf item.newDocumentState = id :=
  ⟨List.mem_of_find?_eq_some h, by simpa using List.find?_some h⟩

theorem itemOf_cons_self {rest : List (PushItem δ)} (h : idOf item.newDocumentState = id) :
    itemOf idOf (item :: rest) id = some item :=
  List.find?_cons_of_pos (by simp [h])

theorem itemOf_cons_ne {rest : List (PushItem δ)} (h : idOf item.newDocumentState ≠ id) :
    itemOf idOf (item :: rest) id = itemOf idOf rest id :=
  List.find?_cons_of_neg (by simp [h])

end

structure EventItemValid (s : Session) (db : Database) (item : EventPushItem) (existing : Event) :
    Prop where
  allowed : EventUpdateAllowed s db item existing
  writable : eventWritable s existing

structure ApplicationItemStanding (s : Session) (db : Database) (item : ApplicationPushItem)
    (existing : Application) : Prop where
  found : db.applications.find? item.newDocumentState.id = some existing
  update : item.assumedMasterState.isSome
  eventId : existing.eventId = item.newDocumentState.eventId
  sequenceNo : existing.sequenceNo = item.newDocumentState.sequenceNo
  startedAt : existing.startedAt = item.newDocumentState.startedAt
  createdBy : existing.createdBy = item.newDocumentState.createdBy
  restraints : restraintsAllowed db s item.newDocumentState.restraintTypeIds
  positions : positionFksAllowed db s item.newDocumentState
  writable : applicationWritable db s existing
  persons : PersonsKnown db existing item.newDocumentState

def EventBatchValid (s : Session) (db : Database) (items : List (Time × EventPushItem)) : Prop :=
  ((items.map Prod.snd).map fun item => item.newDocumentState.id).Nodup ∧
    ∀ item ∈ items.map Prod.snd, ∃ existing, EventItemValid s db item existing

def ApplicationBatchStanding (s : Session) (db : Database)
    (items : List (Time × ApplicationPushItem)) : Prop :=
  ((items.map Prod.snd).map fun item => item.newDocumentState.id).Nodup ∧
    ∀ item ∈ items.map Prod.snd, ∃ existing, ApplicationItemStanding s db item existing

def ApplicationBatchValid (s : Session) (db : Database)
    (items : List (Time × ApplicationPushItem)) : Prop :=
  ((items.map Prod.snd).map fun item => item.newDocumentState.id).Nodup ∧
    ∀ item ∈ items.map Prod.snd, ∃ existing, ApplicationItemStanding s db item existing ∧
      (lifeOf existing).Passes s.role item.newDocumentState

theorem ApplicationBatchValid.standing {s : Session} {db : Database}
    {items : List (Time × ApplicationPushItem)} (h : ApplicationBatchValid s db items) :
    ApplicationBatchStanding s db items :=
  ⟨h.1, fun item hi => by
    obtain ⟨a, ha, -⟩ := h.2 item hi
    exact ⟨a, ha⟩⟩

-- ---------------------------------------------------------------------------
-- An event batch
-- ---------------------------------------------------------------------------

def endedByBatch (items : List EventPushItem) (event : Event) : Option Time :=
  match itemOf EventDoc.id items event.id with
  | some item => event.endedAt.or item.newDocumentState.endedAt
  | none => event.endedAt

def Life.afterEvents (events : Table Event) (items : List EventPushItem) (eventId : Uuid)
    (l : Life) : Life :=
  match itemOf EventDoc.id items eventId, events.find? eventId with
  | some item, some event => l.afterEvent event item.newDocumentState
  | _, _ => l

/-- The columns of an application that the cascades of its event leave alone. -/
def SameButLife (a b : Application) : Prop :=
  ∃ ended del del' upd,
    b = { a with endedAt := ended, isDeleted := del, deletedAt := del', updatedAt := upd }

section
variable {s : Session} {db db' : Database} {clock : Time} {event : Event} {newDoc : EventDoc}
  {a b c : Application} {item : EventPushItem} {items : List (Time × EventPushItem)}

theorem SameButLife.rfl : SameButLife a a :=
  ⟨a.endedAt, a.isDeleted, a.deletedAt, a.updatedAt, Eq.refl _⟩

theorem SameButLife.trans (h : SameButLife a b) (h' : SameButLife b c) : SameButLife a c := by
  obtain ⟨_, _, _, _, rfl⟩ := h
  obtain ⟨ended, del, del', upd, rfl⟩ := h'
  exact ⟨ended, del, del', upd, Eq.refl _⟩

theorem SameButLife.eventId_eq (h : SameButLife a b) : b.eventId = a.eventId := by
  obtain ⟨_, _, _, _, rfl⟩ := h
  rfl

theorem pushEvent_valid (clock : Time) (h : EventItemValid s db item event) :
    ∃ db', pushEvent s db (clock, item) = .ok (db', []) ∧
      (∀ id, db'.applications.find? id = (db.applications.find? id).map
        (childAfter clock event (applyEventUpdate event item.newDocumentState clock))) ∧
      ∃ event', db'.events.find? event.id = some event' ∧
        event'.endedAt = event.endedAt.or item.newDocumentState.endedAt := by
  rw [pushEvent_update h.allowed]
  by_cases hc : EventChanges event item.newDocumentState
  · refine ⟨_, by simp [hc, h.writable], fun id => find?_applications_eventWritten, _,
      find?_events_eventWritten_self clock event (by simp [h.allowed.find]), rfl⟩
  · have hself := (applyEventUpdate_eq_self event item.newDocumentState clock).mpr hc
    refine ⟨db, by simp [hc], fun id => ?_, event, h.allowed.find, ?_⟩
    · rw [hself]
      cases db.applications.find? id <;> simp
    · exact (congrArg Event.endedAt hself).symm

theorem EventItemValid.frame {other : Time × EventPushItem} {ds : List EventDoc}
    (h : EventItemValid s db item event) (hp : pushEvent s db other = .ok (db', ds))
    (hne : item.newDocumentState.id ≠ other.2.newDocumentState.id) :
    EventItemValid s db' item event where
  allowed :=
    ⟨(getEvent_congr (pushEvent_frame hp hne).1 ((pushEvent_frame hp hne).2 s.personId)).trans
      h.allowed.found, h.allowed.update, h.allowed.passes⟩
  writable := h.writable

theorem pushEvents_valid (h : EventBatchValid s db items) :
    ∃ db', pushEvents s db items = .ok (db', []) ∧ SameAccess s db db' ∧
      (∀ id, (db'.events.find? id).map Event.endedAt =
        (db.events.find? id).map (endedByBatch (items.map Prod.snd))) ∧
      (∀ id, db.applications.find? id = none → db'.applications.find? id = none) ∧
      ∀ id a, db.applications.find? id = some a →
        ∃ b, db'.applications.find? id = some b ∧ SameButLife a b ∧
          lifeOf b = (lifeOf a).afterEvents db.events (items.map Prod.snd) a.eventId := by
  induction items generalizing db with
  | nil =>
    refine ⟨db, rfl, .rfl, fun id => rfl, fun _ h => h, fun id a ha => ⟨a, ha, .rfl, rfl⟩⟩
  | cons item items ih =>
    obtain ⟨hn, hvalid⟩ := h
    rw [List.map_cons, List.map_cons, List.nodup_cons] at hn
    have hne : ∀ other ∈ items.map Prod.snd,
        other.newDocumentState.id ≠ item.2.newDocumentState.id :=
      fun other ho he => hn.1 (he ▸ List.mem_map_of_mem ho)
    have hnone : itemOf EventDoc.id (items.map Prod.snd) item.2.newDocumentState.id = none :=
      itemOf_eq_none.mpr hne
    obtain ⟨event, hev⟩ := hvalid item.2 (by simp)
    have hfind := hev.allowed.find
    rw [hev.allowed.id_eq] at hfind
    obtain ⟨db₁, hp, happs, event', hfind', hend'⟩ := pushEvent_valid item.1 hev
    rw [hev.allowed.id_eq] at hfind'
    have hvalid₁ : EventBatchValid s db₁ items := ⟨hn.2, fun other ho => by
      obtain ⟨e, he⟩ := hvalid other (by simpa using .inr (by simpa using ho))
      exact ⟨e, he.frame hp (hne other ho)⟩⟩
    obtain ⟨db', hps, hacc, hends, hgone, hlives⟩ := ih hvalid₁
    refine ⟨db', Batch.process_cons_ok.mpr ⟨_, _, _, hp, hps, rfl⟩,
      (pushEvent_sameAccess hp hev.allowed.update).trans hacc, fun id => ?_, fun id hid => ?_,
      fun id a ha => ?_⟩
    · rw [hends]
      by_cases hid : item.2.newDocumentState.id = id
      · subst hid
        have hid' : event'.id = item.2.newDocumentState.id := Table.key_of_find? hfind'
        simp only [hfind', hfind, Option.map_some, endedByBatch, List.map_cons,
          hid', hnone, hev.allowed.id_eq, itemOf_cons_self, hend']
      · rw [(pushEvent_frame hp (Ne.symm hid)).1]
        cases he : db.events.find? id with
        | none => rfl
        | some e =>
          have hid' : item.2.newDocumentState.id ≠ e.id := fun h =>
            hid (h.trans (Table.key_of_find? he))
          simp only [Option.map_some, endedByBatch, List.map_cons, itemOf_cons_ne hid']
    · refine hgone id ?_
      rw [happs, hid]
      rfl
    · have ha₁ : db₁.applications.find? id = some (childAfter item.1 event
          (applyEventUpdate event item.2.newDocumentState item.1) a) := by
        rw [happs, ha, Option.map_some]
      obtain ⟨b, hb, hsame, hlife⟩ := hlives id _ ha₁
      have hchild : SameButLife a (childAfter item.1 event
          (applyEventUpdate event item.2.newDocumentState item.1) a) := childAfter_eq _ _ _ _
      refine ⟨b, hb, hchild.trans hsame, ?_⟩
      rw [hlife, hchild.eventId_eq]
      by_cases hid : item.2.newDocumentState.id = a.eventId
      · rw [← hid, Life.afterEvents, hnone, Life.afterEvents, List.map_cons,
          itemOf_cons_self rfl, hfind]
        exact lifeOf_childAfter item.1 (hid.symm.trans hev.allowed.id_eq.symm)
      · rw [childAfter_of_ne (by rw [applyEventUpdate_id, hev.allowed.id_eq]; exact Ne.symm hid),
          Life.afterEvents, Life.afterEvents, List.map_cons, itemOf_cons_ne hid,
          (pushEvent_frame hp (Ne.symm hid)).1]

end

-- ---------------------------------------------------------------------------
-- An application batch
-- ---------------------------------------------------------------------------

def Life.afterItems (role : UserRole) (items : List ApplicationPushItem) (id : Uuid) (l : Life) :
    Life :=
  match itemOf ApplicationDoc.id items id with
  | some item => l.afterPush role item.newDocumentState
  | none => l

section
variable {s : Session} {db db' : Database} {clock : Time} {a b : Application}
  {item : ApplicationPushItem} {items : List (Time × ApplicationPushItem)}

theorem ApplicationItemStanding.check_iff (h : ApplicationItemStanding s db item a) :
    checkApplicationUpdate a item.newDocumentState s.role = none ↔
      (lifeOf a).Passes s.role item.newDocumentState := by
  constructor
  · intro hcheck
    obtain ⟨-, -, -, -, hend, hdel⟩ := checkApplicationUpdate_none hcheck
    refine ⟨?_, fun hd => ?_⟩
    · by_cases ha : a.endedAt = none
      · exact .inl ha
      · by_cases hn : item.newDocumentState.endedAt = none
        · exact .inr (.inl hn)
        · exact .inr (.inr (hend ha hn))
    · by_cases hx : item.newDocumentState.deleted
      · exact .inl hx
      · exact .inr (hdel hd hx)
  · rintro ⟨hend, hdel⟩
    have hends : ¬ (a.endedAt ≠ none ∧ item.newDocumentState.endedAt ≠ none ∧
        a.endedAt ≠ item.newDocumentState.endedAt) := by
      rintro ⟨h₁, h₂, h₃⟩
      rcases hend with h | h | h
      · exact h₁ h
      · exact h₂ h
      · exact h₃ h
    have hdels : ¬ (a.isDeleted ∧ ¬ item.newDocumentState.deleted ∧ s.role ≠ .admin) := by
      rintro ⟨h₁, h₂, h₃⟩
      rcases hdel h₁ with h | h
      · exact h₂ h
      · exact h₃ h
    simp only [ne_eq] at hends hdels
    simp only [checkApplicationUpdate, h.eventId, h.sequenceNo, h.startedAt, h.createdBy, ne_eq,
      not_true_eq_false, or_self, if_false]
    rw [if_neg hends, if_neg hdels]

theorem ApplicationItemStanding.allowed (h : ApplicationItemStanding s db item a)
    (hp : (lifeOf a).Passes s.role item.newDocumentState) :
    ApplicationUpdateAllowed s db item a where
  found := Database.getApplication_eq_some.mpr ⟨h.found, applicationVisible_of_writable h.writable⟩
  update := h.update
  passes := h.check_iff.mpr hp
  restraints := h.restraints
  positions := h.positions

theorem ApplicationItemStanding.transfer (h : ApplicationItemStanding s db item a)
    (hacc : SameAccess s db db') (hsame : SameButLife a b)
    (hfind : db'.applications.find? item.newDocumentState.id = some b) :
    ApplicationItemStanding s db' item b := by
  obtain ⟨_, _, _, _, rfl⟩ := hsame
  refine ⟨hfind, h.update, h.eventId, h.sequenceNo, h.startedAt, h.createdBy,
    hacc.reference.restraintsAllowed.mpr h.restraints,
    hacc.reference.positionFksAllowed.mpr h.positions,
    (childWritable_congr hacc.owners).mpr h.writable, ?_⟩
  have hpersons := h.persons
  unfold PersonsKnown at hpersons ⊢
  rwa [hacc.reference.persons]

theorem ApplicationItemStanding.frame {other : Time × ApplicationPushItem}
    {ds : List ApplicationDoc} (h : ApplicationItemStanding s db item a)
    (hp : pushApplication s db other = .ok (db', ds))
    (hne : item.newDocumentState.id ≠ other.2.newDocumentState.id) :
    ApplicationItemStanding s db' item a :=
  h.transfer (pushApplication_sameAccess hp) .rfl ((pushApplication_frame hp hne).1.trans h.found)

theorem pushApplication_standing (clock : Time) (h : ApplicationItemStanding s db item a) :
    ∃ db' ds, pushApplication s db (clock, item) = .ok (db', ds) ∧
      db'.participants = db.participants ∧
      ∃ b, db'.applications.find? item.newDocumentState.id = some b ∧ b.eventId = a.eventId ∧
        lifeOf b = (lifeOf a).afterPush s.role item.newDocumentState := by
  by_cases hp : (lifeOf a).Passes s.role item.newDocumentState
  · have hallow := h.allowed hp
    rw [Life.afterPush, if_pos hp]
    by_cases hc : ApplicationChanges a item.newDocumentState
    · have hres : pushApplication s db (clock, item) = .ok (syncApplicationRestraints
          (applicationWritten db clock (applyApplicationUpdate a item.newDocumentState clock))
          s a.id item.newDocumentState.restraintTypeIds, []) := by
        simp [pushApplication_update hallow, hc, h.writable, h.persons]
      refine ⟨_, _, hres, syncApplicationRestraints_participants,
        { applyApplicationUpdate a item.newDocumentState clock with updatedAt := clock }, ?_, rfl,
        rfl⟩
      rw [syncApplicationRestraints_applications, ← hallow.id_eq]
      exact find?_applicationWritten_self db clock (by simp [hallow.find])
    · have hself := (applyApplicationUpdate_eq_self a item.newDocumentState clock).mpr hc
      have hres : pushApplication s db (clock, item) = .ok (syncApplicationRestraints db s a.id
          item.newDocumentState.restraintTypeIds, []) := by
        simp [pushApplication_update hallow, hc]
      refine ⟨_, _, hres, syncApplicationRestraints_participants, a, ?_, rfl, ?_⟩
      · rw [syncApplicationRestraints_applications]
        exact h.found
      · exact (congrArg lifeOf hself).symm
  · have hno : ∀ existing, ¬ ApplicationUpdateAllowed s db item existing := fun e he => by
      obtain rfl := Option.some.inj (h.found.symm.trans he.find_doc)
      exact hp (h.check_iff.mp he.passes)
    rw [Life.afterPush, if_neg hp]
    have hcases := pushApplication_cases s db clock item
    revert hcases
    generalize pushApplication s db (clock, item) = r
    intro hcases
    cases hcases with
    | reported doc => exact ⟨db, [doc], rfl, rfl, a, h.found, rfl, rfl⟩
    | inserted t hnone =>
      have := h.update
      simp [hnone] at this
    | untouched e he => exact absurd he (hno e)
    | written e he => exact absurd he (hno e)
    | raised e _ he => exact absurd he (hno e)

theorem pushApplications_standing (h : ApplicationBatchStanding s db items) :
    ∃ db' ds, pushApplications s db items = .ok (db', ds) ∧ db'.events = db.events ∧
      db'.participants = db.participants ∧
      (∀ id, db.applications.find? id = none → db'.applications.find? id = none) ∧
      ∀ id a, db.applications.find? id = some a →
        ∃ b, db'.applications.find? id = some b ∧ b.eventId = a.eventId ∧
          lifeOf b = (lifeOf a).afterItems s.role (items.map Prod.snd) id := by
  induction items generalizing db with
  | nil =>
    exact ⟨db, [], rfl, rfl, rfl, fun _ h => h, fun id a ha => ⟨a, ha, rfl, rfl⟩⟩
  | cons item items ih =>
    obtain ⟨hn, hstand⟩ := h
    rw [List.map_cons, List.map_cons, List.nodup_cons] at hn
    have hne : ∀ other ∈ items.map Prod.snd,
        other.newDocumentState.id ≠ item.2.newDocumentState.id :=
      fun other ho he => hn.1 (he ▸ List.mem_map_of_mem ho)
    obtain ⟨a, ha⟩ := hstand item.2 (by simp)
    obtain ⟨db₁, ds₁, hp, hparts, b, hb, heid, hlife⟩ := pushApplication_standing item.1 ha
    have hstand₁ : ApplicationBatchStanding s db₁ items := ⟨hn.2, fun other ho => by
      obtain ⟨c, hc⟩ := hstand other (by simpa using .inr (by simpa using ho))
      exact ⟨c, hc.frame hp (hne other ho)⟩⟩
    obtain ⟨db', ds, hps, hevents, hparts', hgone, hlives⟩ := ih hstand₁
    refine ⟨db', ds₁ ++ ds, Batch.process_cons_ok.mpr ⟨_, _, _, hp, hps, rfl⟩,
      hevents.trans (pushApplication_events hp), hparts'.trans hparts, fun id hid => ?_,
      fun id c hc => ?_⟩
    · refine hgone id ?_
      rw [(pushApplication_frame hp ?_).1, hid]
      rintro rfl
      simp [ha.found] at hid
    · by_cases hid : item.2.newDocumentState.id = id
      · subst hid
        obtain rfl := Option.some.inj (hc.symm.trans ha.found)
        obtain ⟨d, hd, hdeid, hdlife⟩ := hlives _ b hb
        refine ⟨d, hd, hdeid.trans heid, ?_⟩
        rw [hdlife, Life.afterItems, itemOf_eq_none.mpr hne, Life.afterItems, List.map_cons,
          itemOf_cons_self rfl]
        exact hlife
      · rw [← (pushApplication_frame hp (Ne.symm hid)).1] at hc
        obtain ⟨d, hd, hdeid, hdlife⟩ := hlives id c hc
        refine ⟨d, hd, hdeid, ?_⟩
        rw [hdlife, Life.afterItems, Life.afterItems, List.map_cons, itemOf_cons_ne hid]

end

-- ---------------------------------------------------------------------------
-- Both orders
-- ---------------------------------------------------------------------------

def endOfEvent (db : Database) (id : Uuid) : Option (Option Time) :=
  (db.events.find? id).map Event.endedAt

def endOfApplication (db : Database) (id : Uuid) : Option (Option Time) :=
  (db.applications.find? id).map Application.endedAt

/-- Both batches are processed in either order, the second time at other clock
readings; every row ends the same, and as its client recorded. -/
def StreamsCommute (s : Session) (db : Database) (events events' : List (Time × EventPushItem))
    (applications applications' : List (Time × ApplicationPushItem)) : Prop :=
  ∃ db₁ db₂ db₁' db₂' ds₁ ds₂ ds₁' ds₂',
    pushEvents s db events = .ok (db₁, ds₁) ∧
    pushApplications s db₁ applications = .ok (db₂, ds₂) ∧
    pushApplications s db applications' = .ok (db₁', ds₁') ∧
    pushEvents s db₁' events' = .ok (db₂', ds₂') ∧
    (∀ id, endOfEvent db₂ id = endOfEvent db₂' id) ∧
    (∀ id, endOfApplication db₂ id = endOfApplication db₂' id) ∧
    (∀ item ∈ events.map Prod.snd, ∀ t, item.newDocumentState.endedAt = some t →
      endOfEvent db₂ item.newDocumentState.id = some (some t)) ∧
    ∀ item ∈ applications.map Prod.snd, ∀ t, item.newDocumentState.endedAt = some t →
      endOfApplication db₂ item.newDocumentState.id = some (some t)

section
variable {s : Session} {db : Database} {events events' : List (Time × EventPushItem)}
  {applications applications' : List (Time × ApplicationPushItem)}

theorem events_first (hevents : EventBatchValid s db events)
    (happs : ApplicationBatchStanding s db applications) :
    ∃ db₁ db₂ ds, pushEvents s db events = .ok (db₁, []) ∧
      pushApplications s db₁ applications = .ok (db₂, ds) ∧
      (∀ id, endOfEvent db₂ id =
        (db.events.find? id).map (endedByBatch (events.map Prod.snd))) ∧
      ∀ id, endOfApplication db₂ id = (db.applications.find? id).map fun a =>
        (((lifeOf a).afterEvents db.events (events.map Prod.snd) a.eventId).afterItems s.role
          (applications.map Prod.snd) id).endedAt := by
  obtain ⟨db₁, hp, hacc, hends, hgone, hlives⟩ := pushEvents_valid hevents
  have hstand : ApplicationBatchStanding s db₁ applications := ⟨happs.1, fun item hi => by
    obtain ⟨a, ha⟩ := happs.2 item hi
    obtain ⟨b, hb, hsame, -⟩ := hlives _ a ha.found
    exact ⟨b, ha.transfer hacc hsame hb⟩⟩
  obtain ⟨db₂, ds, hps, hev, -, hgone', hlives'⟩ := pushApplications_standing hstand
  refine ⟨db₁, db₂, ds, hp, hps, fun id => ?_, fun id => ?_⟩
  · rw [endOfEvent, hev, hends]
  · cases ha : db.applications.find? id with
    | none =>
      rw [endOfApplication, hgone' id (hgone id ha)]
      rfl
    | some a =>
      obtain ⟨b, hb, -, hlife⟩ := hlives id a ha
      obtain ⟨c, hc, -, hlife'⟩ := hlives' id b hb
      rw [endOfApplication, hc, Option.map_some, Option.map_some, ← hlife, ← hlife']
      rfl

theorem applications_first (hevents : EventBatchValid s db events)
    (happs : ApplicationBatchStanding s db applications) :
    ∃ db₁ db₂ ds, pushApplications s db applications = .ok (db₁, ds) ∧
      pushEvents s db₁ events = .ok (db₂, []) ∧
      (∀ id, endOfEvent db₂ id =
        (db.events.find? id).map (endedByBatch (events.map Prod.snd))) ∧
      ∀ id, endOfApplication db₂ id = (db.applications.find? id).map fun a =>
        (((lifeOf a).afterItems s.role (applications.map Prod.snd) id).afterEvents db.events
          (events.map Prod.snd) a.eventId).endedAt := by
  obtain ⟨db₁, ds, hps, hev, hparts, hgone, hlives⟩ := pushApplications_standing happs
  have hvalid : EventBatchValid s db₁ events := ⟨hevents.1, fun item hi => by
    obtain ⟨event, he⟩ := hevents.2 item hi
    have hget : db₁.getEvent s item.newDocumentState.id = db.getEvent s item.newDocumentState.id :=
      getEvent_congr (by rw [hev]) (by unfold Database.Linked; rw [hparts])
    exact ⟨event, ⟨hget.trans he.allowed.found, he.allowed.update, he.allowed.passes⟩,
      he.writable⟩⟩
  obtain ⟨db₂, hp, -, hends, hgone', hlives'⟩ := pushEvents_valid hvalid
  refine ⟨db₁, db₂, ds, hps, hp, fun id => ?_, fun id => ?_⟩
  · rw [endOfEvent, hends, hev]
  · cases ha : db.applications.find? id with
    | none =>
      rw [endOfApplication, hgone' id (hgone id ha)]
      rfl
    | some a =>
      obtain ⟨b, hb, heid, hlife⟩ := hlives id a ha
      obtain ⟨c, hc, -, hlife'⟩ := hlives' id b hb
      rw [hev, heid, hlife] at hlife'
      rw [endOfApplication, hc, Option.map_some, Option.map_some, ← hlife']
      rfl

/-- For one application, the two orders and the client's record against the
condition on its item and its event's. -/
theorem itemEnds_iff (hevents : EventBatchValid s db events) {a : Application}
    {newDoc : ApplicationDoc} (hpass : (lifeOf a).Passes s.role newDoc) :
    (((((lifeOf a).afterEvents db.events (events.map Prod.snd) a.eventId).afterPush s.role
          newDoc).endedAt =
        (((lifeOf a).afterPush s.role newDoc).afterEvents db.events (events.map Prod.snd)
          a.eventId).endedAt) ∧
      ∀ t, newDoc.endedAt = some t →
        (((lifeOf a).afterEvents db.events (events.map Prod.snd) a.eventId).afterPush s.role
          newDoc).endedAt = some t) ↔
      ∀ eventItem ∈ events.map Prod.snd, ∀ event,
        db.events.find? eventItem.newDocumentState.id = some event → a.eventId = event.id →
        EndsAgree s.role event eventItem.newDocumentState (lifeOf a) newDoc := by
  cases hitem : itemOf EventDoc.id (events.map Prod.snd) a.eventId with
  | some eventItem =>
    obtain ⟨hi, hid⟩ := itemOf_some hitem
    obtain ⟨event, hev⟩ := hevents.2 eventItem hi
    have hfind := hev.allowed.find
    rw [hev.allowed.id_eq, hid] at hfind
    simp only [Life.afterEvents, hitem, hfind]
    rw [endsAgree_iff hpass]
    constructor
    · intro h other ho event' hfind' he
      have hsame : other.newDocumentState.id = a.eventId :=
        (Table.key_of_find? hfind').symm.trans he.symm
      have hitem' := itemOf_eq hevents.1 ho
      rw [hsame] at hitem' hfind'
      rw [← Option.some.inj (hitem.symm.trans hitem'), ← Option.some.inj (hfind.symm.trans hfind')]
      exact h
    · intro h
      exact h eventItem hi event (hid ▸ hfind) (Table.key_of_find? hfind).symm
  | none =>
    simp only [Life.afterEvents, hitem]
    constructor
    · intro _ eventItem hi event hfind he
      exact absurd ((Table.key_of_find? hfind).symm.trans he.symm)
        (itemOf_eq_none.mp hitem eventItem hi)
    · refine fun _ => ⟨trivial, fun t ht => ?_⟩
      rw [Life.afterPush, if_pos hpass]
      rcases hpass.1 with h | h | h
      · rw [h, Option.none_or, ht]
      · simp [ht] at h
      · rw [h, ht, Option.some_or]

theorem endedByBatch_recorded (h : EventBatchValid s db events) {item : EventPushItem}
    (hi : item ∈ events.map Prod.snd) {t : Time} (ht : item.newDocumentState.endedAt = some t) :
    (db.events.find? item.newDocumentState.id).map (endedByBatch (events.map Prod.snd)) =
      some (some t) := by
  obtain ⟨event, hvalid⟩ := h.2 item hi
  have hfind := hvalid.allowed.find
  rw [hvalid.allowed.id_eq] at hfind
  obtain ⟨-, -, -, -, hfww, -⟩ := checkEventUpdate_none hvalid.allowed.passes
  have hrec : event.endedAt.or item.newDocumentState.endedAt = some t := by
    cases ho : event.endedAt with
    | none => rw [Option.none_or, ht]
    | some t' => rw [Option.some_or, ← ho, hfww (by simp [ho]) (by simp [ht]), ht]
  rw [hfind, Option.map_some, endedByBatch, hvalid.allowed.id_eq, itemOf_eq h.1 hi]
  exact congrArg some hrec

/-- Valid batches of updates leave every row with the end its client recorded,
in either order, exactly when every application item agrees with the item of
its event. -/
theorem streams_commute_iff (hevents : EventBatchValid s db events)
    (happs : ApplicationBatchValid s db applications)
    (hevents' : events'.map Prod.snd = events.map Prod.snd)
    (happs' : applications'.map Prod.snd = applications.map Prod.snd) :
    StreamsCommute s db events events' applications applications' ↔
      ∀ eventItem ∈ events.map Prod.snd, ∀ item ∈ applications.map Prod.snd, ∀ event a,
        db.events.find? eventItem.newDocumentState.id = some event →
        db.applications.find? item.newDocumentState.id = some a → a.eventId = event.id →
        EndsAgree s.role event eventItem.newDocumentState (lifeOf a) item.newDocumentState := by
  obtain ⟨db₁, db₂, ds, hp, hps, hends, hlives⟩ := events_first hevents happs.standing
  have hevents₂ : EventBatchValid s db events' := by
    unfold EventBatchValid
    rwa [hevents']
  have happs₂ : ApplicationBatchStanding s db applications' := by
    unfold ApplicationBatchStanding
    rw [happs']
    exact happs.standing
  obtain ⟨db₁', db₂', ds', hps', hp', hends', hlives'⟩ := applications_first hevents₂ happs₂
  rw [hevents', happs'] at hlives'
  rw [hevents'] at hends'
  -- One application item at a time.
  have hiff : ∀ item ∈ applications.map Prod.snd, ∀ a,
      db.applications.find? item.newDocumentState.id = some a →
      ((endOfApplication db₂ item.newDocumentState.id =
            endOfApplication db₂' item.newDocumentState.id ∧
          ∀ t, item.newDocumentState.endedAt = some t →
            endOfApplication db₂ item.newDocumentState.id = some (some t)) ↔
        ∀ eventItem ∈ events.map Prod.snd, ∀ event,
          db.events.find? eventItem.newDocumentState.id = some event → a.eventId = event.id →
          EndsAgree s.role event eventItem.newDocumentState (lifeOf a) item.newDocumentState) := by
    intro item hi a ha
    obtain ⟨a₁, hstand, hpass⟩ := happs.2 item hi
    obtain rfl := Option.some.inj (ha.symm.trans hstand.found)
    rw [← itemEnds_iff hevents hpass, hlives, hlives', ha]
    simp only [Option.map_some, Option.some.injEq, Life.afterItems, itemOf_eq happs.1 hi]
  constructor
  · rintro ⟨e₁, e₂, e₁', e₂', _, _, _, _, hq, hqs, hqs', hq', -, hsame, -, hrec⟩
    obtain ⟨rfl, -⟩ := Prod.mk.inj (Except.ok.inj (hp.symm.trans hq))
    obtain ⟨rfl, -⟩ := Prod.mk.inj (Except.ok.inj (hps.symm.trans hqs))
    obtain ⟨rfl, -⟩ := Prod.mk.inj (Except.ok.inj (hps'.symm.trans hqs'))
    obtain ⟨rfl, -⟩ := Prod.mk.inj (Except.ok.inj (hp'.symm.trans hq'))
    intro eventItem he item hi event a hfind ha hid
    exact (hiff item hi a ha).mp ⟨hsame _, hrec item hi⟩ eventItem he event hfind hid
  · intro hagree
    have hitem : ∀ item ∈ applications.map Prod.snd,
        endOfApplication db₂ item.newDocumentState.id =
            endOfApplication db₂' item.newDocumentState.id ∧
          ∀ t, item.newDocumentState.endedAt = some t →
            endOfApplication db₂ item.newDocumentState.id = some (some t) := by
      intro item hi
      obtain ⟨a, hstand, -⟩ := happs.2 item hi
      exact (hiff item hi a hstand.found).mpr fun eventItem he event hfind hid =>
        hagree eventItem he item hi event a hfind hstand.found hid
    refine ⟨db₁, db₂, db₁', db₂', [], ds, ds', [], hp, hps, hps', hp', fun id => ?_, fun id => ?_,
      fun item hi t ht => ?_, fun item hi => (hitem item hi).2⟩
    · rw [hends, hends']
    · by_cases hid : ∃ item ∈ applications.map Prod.snd, item.newDocumentState.id = id
      · obtain ⟨item, hi, rfl⟩ := hid
        exact (hitem item hi).1
      · have hnone : itemOf ApplicationDoc.id (applications.map Prod.snd) id = none :=
          itemOf_eq_none.mpr fun item hi h => hid ⟨item, hi, h⟩
        rw [hlives, hlives']
        simp only [Life.afterItems, hnone]
    · rw [hends]
      exact endedByBatch_recorded hevents hi ht

end

/-- The owner ends the application at 30 and then the event at 40; the event's
batch overtakes the application's. -/
def overtakenEvents : List (Time × EventPushItem) :=
  [(50, ⟨some (eventToDoc sampleEvent), { eventToDoc sampleEvent with endedAt := some 40 }⟩)]

def overtakenApplications : List (Time × ApplicationPushItem) :=
  [(50, ⟨some (applicationToDoc sampleApplication []),
    { applicationToDoc sampleApplication [] with endedAt := some 30 }⟩)]

theorem overtaken_event_valid :
    EventItemValid sampleOwner sample ⟨some (eventToDoc sampleEvent),
      { eventToDoc sampleEvent with endedAt := some 40 }⟩ sampleEvent :=
  ⟨⟨by decide +kernel, rfl, by decide +kernel⟩, by decide⟩

theorem overtaken_application_standing :
    ApplicationItemStanding sampleOwner sample ⟨some (applicationToDoc sampleApplication []),
      { applicationToDoc sampleApplication [] with endedAt := some 30 }⟩ sampleApplication :=
  ⟨by decide, rfl, rfl, rfl, rfl, rfl, .inl rfl, by decide, by decide, by decide⟩

theorem overtaken_commute_iff :
    StreamsCommute sampleOwner sample overtakenEvents overtakenEvents overtakenApplications
        overtakenApplications ↔
      ∀ eventItem ∈ overtakenEvents.map Prod.snd,
        ∀ item ∈ overtakenApplications.map Prod.snd, ∀ event a,
        sample.events.find? eventItem.newDocumentState.id = some event →
        sample.applications.find? item.newDocumentState.id = some a → a.eventId = event.id →
        EndsAgree .editor event eventItem.newDocumentState (lifeOf a) item.newDocumentState :=
  streams_commute_iff
    ⟨by decide, fun item hi => by
      obtain rfl := List.mem_singleton.mp hi
      exact ⟨_, overtaken_event_valid⟩⟩
    ⟨by decide, fun item hi => by
      obtain rfl := List.mem_singleton.mp hi
      exact ⟨_, overtaken_application_standing, by decide⟩⟩ rfl rfl

theorem overtaken_not_commute :
    ¬ StreamsCommute sampleOwner sample overtakenEvents overtakenEvents overtakenApplications
      overtakenApplications := by
  rintro ⟨db₁, db₂, db₁', db₂', ds₁, ds₂, ds₁', ds₂', hp, hps, -, -, -, -, -, hrec⟩
  have hend : ((pushEvents sampleOwner sample overtakenEvents).toOption.bind fun r =>
      (pushApplications sampleOwner r.1 overtakenApplications).toOption.map fun r =>
        endOfApplication r.1 1) = some (some (some 40)) := by decide +kernel
  simp only [hp, hps, Except.toOption, Option.bind_some, Option.map_some, Option.some.injEq] at hend
  have hclient : endOfApplication db₂ 1 = some (some 30) :=
    hrec _ (List.mem_singleton.mpr rfl) 30 rfl
  rw [hend] at hclient
  cases hclient

end HcMap.Sync
