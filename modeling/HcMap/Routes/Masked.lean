import HcMap.Routes.Requests
import HcMap.Services.Masking

/-!
# Masked answers

The routes that answer with an event's participants, each with its writes. The
writes neither read nor change what masking hides, so what two databases that
look alike answer is up to the order of the list.
-/

namespace HcMap.Routes

open Services (Failure EventCreate EventStart EventUpdate EventDetail PersonRead PersonColumns
  PersonOrigin hiddenCopy listed participantsOf SameOrder)

inductive DetailRequest
  | createEvent (payload : EventCreate)
  | startEvent (payload : EventStart)
  | endEvent (eventId : Uuid)
  | getEvent (eventId : Uuid)
  | patchEvent (eventId : Uuid) (payload : EventUpdate)
  | addParticipant (eventId personId : Uuid)

def DetailRequest.write (db : Database) (s : Session) (clock : Time) :
    DetailRequest → Except Failure (Database × Uuid)
  | .createEvent payload => do
    let (db, eventId) ← Services.createEvent db s clock payload
    let db ← Services.addParticipant db s clock eventId s.personId
    pure (db, eventId)
  | .startEvent payload => Services.startEvent db s clock payload
  | .endEvent eventId => do
    let event ← orNotFound (Services.getEvent db s eventId)
    let db ← Services.endEvent db s clock event
    pure (db, eventId)
  | .getEvent eventId => pure (db, eventId)
  | .patchEvent eventId payload => do
    let event ← orNotFound (Services.getEvent db s eventId)
    let db ← Services.updateEvent db s clock event payload
    pure (db, eventId)
  | .addParticipant eventId personId => do
    let db ← Services.addParticipant db s clock eventId personId
    pure (db, eventId)

inductive DetailAnswer
  | detail (detail : EventDetail)
  | participants (persons : List PersonRead)
  deriving DecidableEq

section
variable (le : String → String → Prop) [DecidableRel le] (columns : Uuid → PersonColumns)
  (encodePlusCode : Numeric 90 → Numeric 180 → String)

/-- The answer, read from what the writes leave. -/
def DetailRequest.reply (db : Database) (s : Session) (eventId : Uuid) :
    DetailRequest → Except Failure DetailAnswer
  | .addParticipant _ _ => .ok (.participants (participantsOf le columns db s eventId))
  | _ => (Services.buildDetail le columns encodePlusCode db s eventId).map .detail

def DetailRequest.answer (r : DetailRequest) (db : Database) (s : Session) (clock : Time) :
    Except Failure DetailAnswer := do
  let (db, eventId) ← r.write db s clock
  r.reply le columns encodePlusCode db s eventId

end

-- ---------------------------------------------------------------------------
-- The writes and the persons
-- ---------------------------------------------------------------------------

def withPersons (t : Table Person) (db : Database) : Database := { db with persons := t }

section
variable {t : Table Person} {db db' : Database} {s : Session} {clock : Time}

theorem insertRow_map {ρ κ : Type} [Keyed ρ κ] [DecidableEq κ] {rows : Table ρ} {row : ρ}
    {allowed sound sound' : Prop} [Decidable allowed] [Decidable sound] [Decidable sound']
    (put : Table ρ → Database) (f : Database → Database) (h : sound ↔ sound') :
    Database.insertRow rows row allowed sound (fun x => f (put x)) =
      (Database.insertRow rows row allowed sound' put).map f := by
  unfold Database.insertRow
  by_cases ha : allowed
  · by_cases hs : sound
    · simp only [ha, hs, h.mp hs, not_true, if_false]
      cases rows.insert? row <;> rfl
    · simp only [ha, hs, mt h.mpr hs, not_true, not_false_eq_true, if_false, if_true]
      rfl
  · simp only [ha, not_false_eq_true, if_true]
    rfl

theorem flush_map (x : Except DbError Database) (f : Database → Database) :
    Services.flush (x.map f) = (Services.flush x).map f := by
  cases x <;> rfl

/-- Two computations in step, when what follows their first part is. -/
theorem bind_map {α α' β β' ε : Type} {x : Except ε α} {f : α → α'} {g : α' → Except ε β'}
    {g' : α → Except ε β} {h : β → β'} (hg : ∀ a, x = .ok a → g (f a) = (g' a).map h) :
    (x.map f >>= g) = (x >>= g').map h := by
  cases x with
  | error e => rfl
  | ok a => exact hg a rfl

theorem insertEvent_withPersons (e : Event) :
    (withPersons t db).insertEvent s e = (db.insertEvent s e).map (withPersons t) :=
  insertRow_map (fun x => { db with events := x }) (withPersons t) .rfl

theorem insertParticipant_withPersons
    (ht : ∀ id, (t.find? id).isSome = (db.persons.find? id).isSome) (ep : EventParticipant) :
    (withPersons t db).insertParticipant s ep =
      (db.insertParticipant s ep).map (withPersons t) := by
  refine insertRow_map (fun x => { db with participants := x }) (withPersons t) ?_
  show (_ ∧ (t.find? ep.personId).isSome ∧ _) ↔ _
  rw [ht]
  exact .rfl

theorem updateEvent_withPersons (old new : Event) :
    (withPersons t db).updateEvent s clock old new =
      (db.updateEvent s clock old new).map (withPersons t) := by
  unfold Database.updateEvent
  split
  · rfl
  split
  · rfl
  · unfold Database.cascadeEventSoftDelete
    split <;> rfl

theorem autoStopOnEnd_withPersons (old new : Event) :
    Services.autoStopOnEnd (withPersons t db) s clock old new =
      withPersons t (Services.autoStopOnEnd db s clock old new) := by
  unfold Services.autoStopOnEnd
  split <;> rfl

theorem createEvent_withPersons (payload : EventCreate) :
    Services.createEvent (withPersons t db) s clock payload =
      (Services.createEvent db s clock payload).map (Prod.map (withPersons t) id) := by
  simp only [Services.createEvent]
  rw [insertEvent_withPersons, flush_map]
  exact bind_map fun _ _ => rfl

theorem addParticipant_withPersons
    (ht : ∀ id, (t.find? id).isSome = (db.persons.find? id).isSome) (eid pid : Uuid) :
    Services.addParticipant (withPersons t db) s clock eid pid =
      (Services.addParticipant db s clock eid pid).map (withPersons t) := by
  unfold Services.addParticipant
  by_cases h : db.LinkVisible s eid pid
  · rw [if_pos h]
    exact if_pos h
  · rw [if_neg h]
    refine (if_neg h).trans ?_
    rw [insertParticipant_withPersons ht, flush_map]
    rfl

theorem updateService_withPersons (event : Event) (payload : EventUpdate) :
    Services.updateEvent (withPersons t db) s clock event payload =
      (Services.updateEvent db s clock event payload).map (withPersons t) := by
  unfold Services.updateEvent
  cases Services.rejectIf payload.NullsRequired (.raised .integrity) with
  | error e => rfl
  | ok u =>
    rw [updateEvent_withPersons, flush_map]
    exact bind_map fun _ _ => congrArg Except.ok (autoStopOnEnd_withPersons _ _)

theorem endEvent_withPersons (event : Event) :
    Services.endEvent (withPersons t db) s clock event =
      (Services.endEvent db s clock event).map (withPersons t) := by
  unfold Services.endEvent
  cases event.endedAt with
  | some _ => rfl
  | none =>
    simp only
    rw [updateEvent_withPersons, flush_map]
    exact bind_map fun _ _ => congrArg Except.ok (autoStopOnEnd_withPersons _ _)

theorem persons_addParticipant {eid pid : Uuid} {db₁ : Database}
    (h : Services.addParticipant db s clock eid pid = .ok db₁) : db₁.persons = db.persons := by
  have hself : Services.addParticipant db s clock eid pid =
      (Services.addParticipant db s clock eid pid).map (withPersons db.persons) :=
    addParticipant_withPersons (fun _ => rfl) eid pid
  rw [h] at hself
  have hdb : db₁ = withPersons db.persons db₁ := Except.ok.inj hself
  rw [hdb]
  rfl

theorem persons_createEvent {payload : EventCreate} {db₁ : Database} {eid : Uuid}
    (h : Services.createEvent db s clock payload = .ok (db₁, eid)) : db₁.persons = db.persons := by
  have hself : Services.createEvent db s clock payload =
      (Services.createEvent db s clock payload).map (Prod.map (withPersons db.persons) id) :=
    createEvent_withPersons payload
  rw [h] at hself
  exact congrArg (fun x => x.1.persons) (Except.ok.inj hself)

theorem startEvent_withPersons
    (ht : ∀ id, (t.find? id).isSome = (db.persons.find? id).isSome) (payload : EventStart) :
    Services.startEvent (withPersons t db) s clock payload =
      (Services.startEvent db s clock payload).map (Prod.map (withPersons t) id) := by
  unfold Services.startEvent
  rw [createEvent_withPersons]
  refine bind_map fun ⟨db₁, eid⟩ hcreate => ?_
  have ht₁ : ∀ id, (t.find? id).isSome = (db₁.persons.find? id).isSome := by
    rw [persons_createEvent hcreate]
    exact ht
  show (Services.addParticipant (withPersons t db₁) s clock eid s.personId >>= _) = _
  rw [addParticipant_withPersons ht₁]
  refine bind_map fun db₂ hadd => ?_
  have ht₂ : ∀ id, (t.find? id).isSome = (db₂.persons.find? id).isSome := by
    rw [persons_addParticipant hadd]
    exact ht₁
  cases payload.recipientId with
  | none => rfl
  | some recipientId =>
    simp only
    split
    · rw [addParticipant_withPersons ht₂]
      exact bind_map fun _ _ => rfl
    · rfl

theorem found_withPersons {found : Option Event} {f g : Event → Except Failure Database}
    {eid : Uuid} (h : ∀ event, f event = (g event).map (withPersons t)) :
    (orNotFound found >>= fun event => f event >>= fun db => pure (db, eid)) =
      (orNotFound found >>= fun event => g event >>= fun db => pure (db, eid)).map
        (Prod.map (withPersons t) id) := by
  cases orNotFound found with
  | error e => rfl
  | ok event =>
    show (f event >>= _) = (g event >>= _).map _
    rw [h]
    exact bind_map fun _ _ => rfl

/-- The writes of a request are the same whatever the persons are called. -/
theorem write_withPersons (ht : ∀ id, (t.find? id).isSome = (db.persons.find? id).isSome)
    (r : DetailRequest) :
    r.write (withPersons t db) s clock =
      (r.write db s clock).map (Prod.map (withPersons t) id) := by
  cases r with
  | createEvent payload =>
    unfold DetailRequest.write
    simp only
    rw [createEvent_withPersons]
    refine bind_map fun ⟨db₁, eid⟩ hcreate => ?_
    have ht₁ : ∀ id, (t.find? id).isSome = (db₁.persons.find? id).isSome := by
      rw [persons_createEvent hcreate]
      exact ht
    show (Services.addParticipant (withPersons t db₁) s clock eid s.personId >>= _) = _
    rw [addParticipant_withPersons ht₁]
    exact bind_map fun _ _ => rfl
  | startEvent payload => exact startEvent_withPersons ht payload
  | endEvent eventId => exact found_withPersons endEvent_withPersons
  | getEvent eventId => rfl
  | patchEvent eventId payload =>
    exact found_withPersons fun event => updateService_withPersons event payload
  | addParticipant eventId personId =>
    unfold DetailRequest.write
    simp only
    rw [addParticipant_withPersons ht]
    exact bind_map fun _ _ => rfl

theorem persons_write {r : DetailRequest} {db₁ : Database} {eid : Uuid}
    (h : r.write db s clock = .ok (db₁, eid)) : db₁.persons = db.persons := by
  have hself : r.write db s clock =
      (r.write db s clock).map (Prod.map (withPersons db.persons) id) :=
    write_withPersons (fun _ => rfl) r
  rw [h] at hself
  exact congrArg (fun x => x.1.persons) (Except.ok.inj hself)

theorem write_hidden (r : DetailRequest) :
    r.write (hiddenCopy db s) s clock =
      (r.write db s clock).map (Prod.map (fun d => hiddenCopy d s) id) := by
  have ht : ∀ id, ((hiddenCopy db s).persons.find? id).isSome = (db.persons.find? id).isSome := by
    intro id
    rw [Services.find?_hidden, Option.isSome_map]
  refine (write_withPersons (t := (hiddenCopy db s).persons) ht r).trans ?_
  cases hwrite : r.write db s clock with
  | error e => rfl
  | ok written =>
    obtain ⟨db₁, eid⟩ := written
    have hcopy : withPersons (hiddenCopy db s).persons db₁ = hiddenCopy db₁ s := by
      simp only [withPersons, hiddenCopy, persons_write hwrite]
    show Except.ok (_, eid) = Except.ok (_, eid)
    rw [hcopy]

/-- On two databases that look alike, a request fails alike, or leaves two
that look alike. -/
theorem write_alike (h : hiddenCopy db s = hiddenCopy db' s) (r : DetailRequest) :
    (∃ e, r.write db s clock = .error e ∧ r.write db' s clock = .error e) ∨
      ∃ db₁ db₁' eid, r.write db s clock = .ok (db₁, eid) ∧
        r.write db' s clock = .ok (db₁', eid) ∧ hiddenCopy db₁ s = hiddenCopy db₁' s := by
  have halike : (r.write db s clock).map (Prod.map (fun d => hiddenCopy d s) id) =
      (r.write db' s clock).map (Prod.map (fun d => hiddenCopy d s) id) := by
    rw [← write_hidden, ← write_hidden, h]
  cases hwrite : r.write db s clock with
  | error e =>
    cases hwrite' : r.write db' s clock with
    | error e' =>
      rw [hwrite, hwrite'] at halike
      exact .inl ⟨e, rfl, by rw [Except.error.inj halike]⟩
    | ok written =>
      rw [hwrite, hwrite'] at halike
      cases halike
  | ok written =>
    cases hwrite' : r.write db' s clock with
    | error e' =>
      rw [hwrite, hwrite'] at halike
      cases halike
    | ok written' =>
      rw [hwrite, hwrite'] at halike
      obtain ⟨hcopy, hid⟩ := Prod.ext_iff.mp (Except.ok.inj halike)
      exact .inr ⟨written.1, written'.1, written.2, rfl, congrArg Except.ok (Prod.ext rfl hid.symm),
        hcopy⟩

end

-- ---------------------------------------------------------------------------
-- The answers
-- ---------------------------------------------------------------------------

section
variable {le : String → String → Prop} [DecidableRel le] [Std.Total le] [IsTrans String le]
  {columns : Uuid → PersonColumns} {encodePlusCode : Numeric 90 → Numeric 180 → String}
  {db db' : Database} {s : Session} {clock : Time} {eid : Uuid} {r : DetailRequest}

theorem getEvent_alike (h : hiddenCopy db s = hiddenCopy db' s) (eid : Uuid) :
    Services.getEvent db s eid = Services.getEvent db' s eid := by
  have hcopy : Services.getEvent (hiddenCopy db s) s eid =
      Services.getEvent (hiddenCopy db' s) s eid := by rw [h]
  exact hcopy

theorem participantsOf_agree_iff (columns : Uuid → PersonColumns)
    (h : hiddenCopy db s = hiddenCopy db' s)
    (hmasked : ∀ event, Services.getEvent db s eid = some event →
      event.revealParticipants = false) :
    participantsOf le columns db s eid = participantsOf le columns db' s eid ↔
      ((Services.getEvent db s eid).isSome → SameOrder le db db' (listed db s eid)) := by
  unfold participantsOf
  rw [← getEvent_alike h]
  cases hget : Services.getEvent db s eid with
  | none => simp
  | some event =>
    simp only [Option.isSome_some, true_implies]
    exact Services.map_projectParticipant_eq_iff h (hmasked event hget)

theorem reply_agree_iff (h : hiddenCopy db s = hiddenCopy db' s)
    (hmasked : ∀ event, Services.getEvent db s eid = some event →
      event.revealParticipants = false) :
    r.reply le columns encodePlusCode db s eid = r.reply le columns encodePlusCode db' s eid ↔
      ((Services.getEvent db s eid).isSome → SameOrder le db db' (listed db s eid)) := by
  refine Iff.trans ?_ (participantsOf_agree_iff columns h hmasked)
  have hdetail : (Services.buildDetail le columns encodePlusCode db s eid).map DetailAnswer.detail =
      (Services.buildDetail le columns encodePlusCode db' s eid).map .detail ↔
        participantsOf le columns db s eid = participantsOf le columns db' s eid := by
    have hevent := getEvent_alike h eid
    unfold Services.buildDetail
    rw [← hevent]
    cases hget : Services.getEvent db s eid with
    | none => simp [participantsOf, ← hevent, hget]
    | some event => simp [Except.map]
  cases r with
  | addParticipant eventId personId => simp [DetailRequest.reply]
  | _ => exact hdetail

def DetailRequest.Answers (r : DetailRequest) (db : Database) (s : Session) (clock : Time)
    (db₁ : Database) (event : Event) : Prop :=
  r.write db s clock = .ok (db₁, event.id) ∧ Services.getEvent db₁ s event.id = some event

/-- Two databases that look alike to the session give it the same answer about
a masked event exactly when the names that are hidden from it sort alike. -/
theorem answer_agree_iff (h : hiddenCopy db s = hiddenCopy db' s)
    (hmasked : ∀ db₁ event, r.Answers db s clock db₁ event → event.revealParticipants = false) :
    r.answer le columns encodePlusCode db s clock =
        r.answer le columns encodePlusCode db' s clock ↔
      ∀ db₁ event, r.Answers db s clock db₁ event →
        SameOrder le db db' (listed db₁ s event.id) := by
  unfold DetailRequest.answer DetailRequest.Answers at *
  rcases write_alike h r with ⟨e, hwrite, hwrite'⟩ | ⟨db₁, db₁', eid, hwrite, hwrite', h₁⟩
  · rw [hwrite, hwrite']
    exact ⟨fun _ _ _ ⟨hne, _⟩ => (nomatch hne), fun _ => rfl⟩
  · rw [hwrite] at hmasked
    rw [hwrite, hwrite']
    have hid : ∀ event, Services.getEvent db₁ s eid = some event → event.id = eid := by
      intro event hget
      have hfound := (Option.filter_eq_some_iff.mp hget).1
      exact Table.key_of_find? (Database.getEvent_eq_some.mp hfound).1
    have hmasked₁ : ∀ event, Services.getEvent db₁ s eid = some event →
        event.revealParticipants = false := by
      intro event hget
      have hevent := hid event hget
      exact hmasked db₁ event ⟨by rw [hevent], by rw [hevent, hget]⟩
    refine (reply_agree_iff h₁ hmasked₁).trans ?_
    have horder : ∀ ids, SameOrder le db₁ db₁' ids ↔ SameOrder le db db' ids := by
      intro ids
      unfold SameOrder Services.nameOf
      rw [persons_write hwrite, persons_write hwrite']
    rw [horder]
    constructor
    · rintro hsame db₂ event ⟨hok, hget⟩
      cases hok
      exact hsame (by rw [hget]; rfl)
    · intro hsame hfound
      obtain ⟨event, hget⟩ := Option.isSome_iff_exists.mp hfound
      have hevent := hid event hget
      have := hsame db₁ event ⟨by rw [hevent], by rw [hevent, hget]⟩
      rwa [hevent] at this

end

def sampleColumns (_ : Uuid) : PersonColumns := ⟨.managed, false, 0⟩

def sampleRenamed (name : String) : Database :=
  { sample with persons := sample.persons.set ⟨2, name, none, none, false, none⟩ }

def samplePlusCode (_ : Numeric 90) (_ : Numeric 180) : String := "6FG22222+222"

theorem answer_agree_iff_sample :
    (DetailRequest.getEvent 1).answer (· ≤ ·) sampleColumns samplePlusCode sample sampleGuest 101 =
      (DetailRequest.getEvent 1).answer (· ≤ ·) sampleColumns samplePlusCode (sampleRenamed "A")
        sampleGuest 101 := by
  have hmasked : ∀ db₁ event,
      (DetailRequest.getEvent 1).Answers sample sampleGuest 101 db₁ event →
        db₁ = sample ∧ event = sampleEvent := by
    rintro db₁ event ⟨hok, hget⟩
    obtain ⟨rfl, hid⟩ := Prod.mk.inj (Except.ok.inj hok)
    rw [← hid] at hget
    exact ⟨rfl, (Option.some.inj hget).symm⟩
  refine (answer_agree_iff (by decide) ?_).mpr ?_
  · intro db₁ event h
    rw [(hmasked db₁ event h).2]
    rfl
  · intro db₁ event h
    obtain ⟨rfl, rfl⟩ := hmasked db₁ event h
    decide

/-- The guest can tell from the order whether the masked owner's name is before
his own. -/
theorem answer_leaks_order :
    hiddenCopy sample sampleGuest = hiddenCopy (sampleRenamed "Z") sampleGuest ∧
      (DetailRequest.getEvent 1).Answers sample sampleGuest 101 sample sampleEvent ∧
      sampleEvent.revealParticipants = false ∧
      (DetailRequest.getEvent 1).answer (· ≤ ·) sampleColumns samplePlusCode sample sampleGuest
          101 ≠
        (DetailRequest.getEvent 1).answer (· ≤ ·) sampleColumns samplePlusCode (sampleRenamed "Z")
          sampleGuest 101 := by
  refine ⟨by decide, ⟨rfl, by decide⟩, rfl, by decide⟩

end HcMap.Routes
