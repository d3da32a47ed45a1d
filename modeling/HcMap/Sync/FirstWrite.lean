import HcMap.Sync.LostUpdate

/-!
# First write wins

What no run of pushes takes back. A row that exists stays, with the columns
that are fixed when it is created; an end that is set stays set; and a deleted
row comes back only by an item of an admin's push.
-/

namespace HcMap.Sync

open Services (childAfter_eq mem_applications_eventWritten)

structure EventFixed (e e' : Event) : Prop where
  id : e'.id = e.id
  startedAt : e'.startedAt = e.startedAt
  createdBy : e'.createdBy = e.createdBy
  lat : e'.lat = e.lat
  lon : e'.lon = e.lon
  endedAt : ∀ t, e.endedAt = some t → e'.endedAt = some t

structure ApplicationFixed (a a' : Application) : Prop where
  id : a'.id = a.id
  eventId : a'.eventId = a.eventId
  sequenceNo : a'.sequenceNo = a.sequenceNo
  startedAt : a'.startedAt = a.startedAt
  createdBy : a'.createdBy = a.createdBy
  endedAt : ∀ t, a.endedAt = some t → a'.endedAt = some t

/-- Every row is still there; those restored are of the ids given. -/
structure RowsFixed (eventRestored applicationRestored : Set Uuid) (db db' : Database) : Prop where
  events : ∀ e ∈ db.events, ∃ e' ∈ db'.events, EventFixed e e' ∧
    (e.isDeleted = true → e'.isDeleted = false → e.id ∈ eventRestored)
  applications : ∀ a ∈ db.applications, ∃ a' ∈ db'.applications, ApplicationFixed a a' ∧
    (a.isDeleted = true → a'.isDeleted = false → a.id ∈ applicationRestored)

theorem EventFixed.refl (e : Event) : EventFixed e e := ⟨rfl, rfl, rfl, rfl, rfl, fun _ h => h⟩

theorem EventFixed.trans {e e' e'' : Event} (h : EventFixed e e') (h' : EventFixed e' e'') :
    EventFixed e e'' where
  id := h'.id.trans h.id
  startedAt := h'.startedAt.trans h.startedAt
  createdBy := h'.createdBy.trans h.createdBy
  lat := h'.lat.trans h.lat
  lon := h'.lon.trans h.lon
  endedAt t ht := h'.endedAt t (h.endedAt t ht)

theorem ApplicationFixed.refl (a : Application) : ApplicationFixed a a :=
  ⟨rfl, rfl, rfl, rfl, rfl, fun _ h => h⟩

theorem ApplicationFixed.trans {a a' a'' : Application} (h : ApplicationFixed a a')
    (h' : ApplicationFixed a' a'') : ApplicationFixed a a'' where
  id := h'.id.trans h.id
  eventId := h'.eventId.trans h.eventId
  sequenceNo := h'.sequenceNo.trans h.sequenceNo
  startedAt := h'.startedAt.trans h.startedAt
  createdBy := h'.createdBy.trans h.createdBy
  endedAt t ht := h'.endedAt t (h.endedAt t ht)

section
variable {db db' db'' : Database} {es as : Set Uuid}

theorem restored_trans {b b₁ b₂ : Bool} {id id₁ : Uuid} {ids : Set Uuid} (hid : id₁ = id)
    (h : b = true → b₁ = false → id ∈ ids) (h' : b₁ = true → b₂ = false → id₁ ∈ ids) :
    b = true → b₂ = false → id ∈ ids := by
  intro hdel hlive
  cases hmid : b₁ with
  | false => exact h hdel hmid
  | true => exact hid ▸ h' hmid hlive

theorem restored_self {b : Bool} {p : Prop} : b = true → b = false → p := by
  intro hdel hlive
  simp [hdel] at hlive

theorem RowsFixed.of_subset (he : ∀ e ∈ db.events, e ∈ db'.events)
    (ha : ∀ a ∈ db.applications, a ∈ db'.applications) : RowsFixed es as db db' where
  events := Table.keeps_of_subset (fun e => ⟨.refl e, restored_self⟩) he
  applications := Table.keeps_of_subset (fun a => ⟨.refl a, restored_self⟩) ha

theorem RowsFixed.refl (db : Database) : RowsFixed es as db db :=
  .of_subset (fun _ h => h) fun _ h => h

theorem RowsFixed.trans (h : RowsFixed es as db db') (h' : RowsFixed es as db' db'') :
    RowsFixed es as db db'' where
  events := Table.Keeps.trans h.events h'.events fun _ _ _ ⟨hfix, hres⟩ ⟨hfix', hres'⟩ =>
    ⟨hfix.trans hfix', restored_trans hfix.id hres hres'⟩
  applications := Table.Keeps.trans h.applications h'.applications
    fun _ _ _ ⟨hfix, hres⟩ ⟨hfix', hres'⟩ =>
      ⟨hfix.trans hfix', restored_trans hfix.id hres hres'⟩

theorem RowsFixed.mono {es' as' : Set Uuid} (h : RowsFixed es as db db') (hes : es ⊆ es')
    (has : as ⊆ as') : RowsFixed es' as' db db' where
  events e he := by
    obtain ⟨e', he', hfix, hres⟩ := h.events e he
    exact ⟨e', he', hfix, fun hdel hlive => hes (hres hdel hlive)⟩
  applications a ha := by
    obtain ⟨a', ha', hfix, hres⟩ := h.applications a ha
    exact ⟨a', ha', hfix, fun hdel hlive => has (hres hdel hlive)⟩

end

-- ---------------------------------------------------------------------------
-- One item
-- ---------------------------------------------------------------------------

def restoredBy {δ : Type} (id : δ → Uuid) (deleted : δ → Bool) (s : Session)
    (items : List (Time × PushItem δ)) : Set Uuid :=
  {i | s.role = .admin ∧ ∃ item ∈ items, id item.2.newDocumentState = i ∧
    deleted item.2.newDocumentState = false}

section
variable {s : Session} {db db' : Database} {clock : Time} {as : Set Uuid}

theorem or_of_some {o o' : Option Time} {t : Time} (h : o = some t) : o.or o' = some t := by
  simp [h]

theorem applicationFixed_childAfter (old new : Event) (a : Application) :
    ApplicationFixed a (Services.childAfter clock old new a) where
  id := by simp
  eventId := by simp
  sequenceNo := by
    obtain ⟨_, _, _, _, h⟩ := childAfter_eq clock old new a
    rw [h]
  startedAt := by
    obtain ⟨_, _, _, _, h⟩ := childAfter_eq clock old new a
    rw [h]
  createdBy := by simp
  endedAt t ht := by
    rw [Services.childAfter, Services.stopAfter, if_neg]
    · obtain ⟨_, _, _, h⟩ := Services.cascadeAfter_eq clock old new a
      rw [h]
      exact ht
    · obtain ⟨_, _, _, h⟩ := Services.cascadeAfter_eq clock old new a
      simp [h, ht]

theorem eventFixed_applyEventUpdate (existing : Event) (newDoc : EventDoc) :
    EventFixed existing { applyEventUpdate existing newDoc clock with updatedAt := clock } :=
  ⟨rfl, rfl, rfl, rfl, rfl, fun _ ht => or_of_some ht⟩

theorem applicationFixed_applyApplicationUpdate (existing : Application)
    (newDoc : ApplicationDoc) :
    ApplicationFixed existing
      { applyApplicationUpdate existing newDoc clock with updatedAt := clock } :=
  ⟨rfl, rfl, rfl, rfl, rfl, fun _ ht => or_of_some ht⟩

theorem pushEvent_fixed {item : Time × EventPushItem} {ds : List EventDoc}
    (h : pushEvent s db item = .ok (db', ds)) :
    RowsFixed (restoredBy EventDoc.id EventDoc.deleted s [item]) as db db' := by
  obtain ⟨clock, item⟩ := item
  have hcases := pushEvent_cases s db clock item
  rw [h] at hcases
  cases hcases with
  | reported | untouched => exact .refl db
  | inserted t _ _ ht =>
    refine .of_subset (fun e he => ?_) fun a ha => ?_
    · rw [ensureParticipant_events]
      exact (Table.mem_insert? ht).mpr (.inl he)
    · rw [ensureParticipant_applications]
      exact ha
  | written existing hallow =>
    obtain ⟨-, -, -, -, -, hrestore⟩ := checkEventUpdate_none hallow.passes
    refine ⟨?_, fun a ha => ?_⟩
    · refine Table.keeps_set (fun e => ⟨.refl e, restored_self⟩) (Table.mem_of_find? hallow.find)
        rfl ⟨eventFixed_applyEventUpdate existing _, fun hdel hlive => ?_⟩
      have hlive : item.newDocumentState.deleted = false := hlive
      exact ⟨hrestore hdel (by simp [hlive]), (clock, item), by simp, hallow.id_eq.symm, hlive⟩
    · refine ⟨_, mem_applications_eventWritten.mpr ⟨a, ha, rfl⟩,
        applicationFixed_childAfter existing _ a, fun hdel hlive => ?_⟩
      rw [Services.childAfter_isDeleted hdel] at hlive
      cases hlive

theorem pushApplication_fixed {es : Set Uuid} {item : Time × ApplicationPushItem}
    {ds : List ApplicationDoc} (h : pushApplication s db item = .ok (db', ds)) :
    RowsFixed es (restoredBy ApplicationDoc.id ApplicationDoc.deleted s [item]) db db' := by
  obtain ⟨clock, item⟩ := item
  have hevents : ∀ e ∈ db.events, e ∈ db'.events := fun e he => by
    rwa [pushApplication_events h]
  have hcases := pushApplication_cases s db clock item
  rw [h] at hcases
  cases hcases with
  | reported => exact .refl db
  | inserted t _ _ ht =>
    refine .of_subset hevents fun a ha => ?_
    rw [applicationInserted_applications]
    exact (Table.mem_insert? ht).mpr (.inl ha)
  | untouched => exact .of_subset hevents fun a ha => by simpa using ha
  | written existing hallow =>
    obtain ⟨-, -, -, -, -, hrestore⟩ := checkApplicationUpdate_none hallow.passes
    refine ⟨Table.keeps_of_subset (fun e => ⟨.refl e, restored_self⟩) hevents, ?_⟩
    rw [syncApplicationRestraints_applications]
    refine Table.keeps_set (fun a => ⟨.refl a, restored_self⟩) hallow.mem rfl
      ⟨applicationFixed_applyApplicationUpdate existing _, fun hdel hlive => ?_⟩
    have hlive : item.newDocumentState.deleted = false := hlive
    exact ⟨hrestore hdel (by simp [hlive]), (clock, item), by simp, hallow.id_eq.symm, hlive⟩

end

-- ---------------------------------------------------------------------------
-- Every run
-- ---------------------------------------------------------------------------

def Push.restoresEvents : Push → Set Uuid
  | .events s items => restoredBy EventDoc.id EventDoc.deleted s items
  | .applications .. => ∅

def Push.restoresApplications : Push → Set Uuid
  | .events .. => ∅
  | .applications s items => restoredBy ApplicationDoc.id ApplicationDoc.deleted s items

section
variable {s : Session} {db db' : Database} {es as : Set Uuid}

theorem restoredBy_mono {δ : Type} {id : δ → Uuid} {deleted : δ → Bool}
    {items items' : List (Time × PushItem δ)} (h : items ⊆ items') :
    restoredBy id deleted s items ⊆ restoredBy id deleted s items' :=
  fun _ ⟨hr, item, hitem, hk⟩ => ⟨hr, item, h hitem, hk⟩

theorem process_fixed {ι δ : Type} {item : Database → ι → Except DbError (Database × List δ)}
    {items : List ι} {ds : List δ}
    (hitem : ∀ i ∈ items, ∀ db db' ds, item db i = .ok (db', ds) → RowsFixed es as db db')
    (h : Batch.process item db items = .ok (db', ds)) : RowsFixed es as db db' := by
  refine Batch.preserves_of_mem (fun i hi db₁ db₂ ds hfix hp => ?_) h (.refl db)
  exact hfix.trans (hitem i hi db₁ db₂ ds hp)

theorem Push.step_fixed (db : Database) (push : Push) :
    RowsFixed push.restoresEvents push.restoresApplications db (push.step db) := by
  cases push with
  | events s items =>
    cases h : pushEvents s db items with
    | error e =>
      simp only [Push.step, h]
      exact .refl db
    | ok answer =>
      obtain ⟨db', ds⟩ := answer
      simp only [Push.step, h]
      refine process_fixed (fun i hi db db' ds hx => ?_) h
      exact (pushEvent_fixed hx).mono (restoredBy_mono (by simpa using hi)) subset_rfl
  | applications s items =>
    cases h : pushApplications s db items with
    | error e =>
      simp only [Push.step, h]
      exact .refl db
    | ok answer =>
      obtain ⟨db', ds⟩ := answer
      simp only [Push.step, h]
      refine process_fixed (fun i hi db db' ds hx => ?_) h
      exact (pushApplication_fixed hx).mono subset_rfl (restoredBy_mono (by simpa using hi))

/-- Over every run of pushes by anyone, a row keeps its fixed columns and its
end, and comes back from deletion only by an admin's item. -/
theorem pushes_fixed (db : Database) (pushes : List Push) :
    RowsFixed {id | ∃ push ∈ pushes, id ∈ push.restoresEvents}
      {id | ∃ push ∈ pushes, id ∈ push.restoresApplications} db
      (Run.run Push.step db pushes) := by
  induction pushes generalizing db with
  | nil => exact .refl db
  | cons push pushes ih =>
    refine ((Push.step_fixed db push).mono ?_ ?_).trans ((ih (push.step db)).mono ?_ ?_)
    · exact fun id hid => ⟨push, List.mem_cons_self, hid⟩
    · exact fun id hid => ⟨push, List.mem_cons_self, hid⟩
    · exact fun id ⟨p, hp, hid⟩ => ⟨p, List.mem_cons_of_mem push hp, hid⟩
    · exact fun id ⟨p, hp, hid⟩ => ⟨p, List.mem_cons_of_mem push hp, hid⟩

end

end HcMap.Sync
