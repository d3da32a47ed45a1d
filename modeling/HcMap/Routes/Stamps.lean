import HcMap.Routes.Anchored
import HcMap.Routes.Writes

/-!
# Stamps

`set_updated_at` stamps every row of an event, an application or a link that a
statement writes. The restraint links of an application are rows of a table
without the column: they change with a stamp of their application, except where
a push replaces them alone.
-/

namespace HcMap.Routes

open Sync (EventPushItem ApplicationPushItem applicationWritten)

/-- A row that none of the clock readings stamped is as it was. -/
structure RowsStamped (clocks : Set Time) (db db' : Database) : Prop where
  events : ∀ e ∈ db'.events, e.updatedAt ∉ clocks → e ∈ db.events
  participants : ∀ ep ∈ db'.participants, ep.updatedAt ∉ clocks → ep ∈ db.participants
  applications : ∀ a ∈ db'.applications, a.updatedAt ∉ clocks → a ∈ db.applications

/-- And an application with it has the restraint links it had. -/
structure Stamped (clocks : Set Time) (db db' : Database) : Prop
    extends RowsStamped clocks db db' where
  restraints : ∀ a ∈ db'.applications, a.updatedAt ∉ clocks →
    ∀ r, r.applicationId = a.id → (r ∈ db'.restraints ↔ r ∈ db.restraints)

structure StampedBy (t : Time) (db : Database) : Prop where
  events : ∀ e ∈ db.events, e.updatedAt ≤ t
  participants : ∀ ep ∈ db.participants, ep.updatedAt ≤ t
  applications : ∀ a ∈ db.applications, a.updatedAt ≤ t

theorem stampedBy_sample : StampedBy 20 sample := ⟨by decide, by decide, by decide⟩

section
variable {db db' db'' : Database} {s : Session} {clock t : Time} {clocks clocks' : Set Time}
  {may : Special → Prop}

theorem RowsStamped.refl (clocks : Set Time) (db : Database) : RowsStamped clocks db db :=
  ⟨fun _ he _ => he, fun _ hep _ => hep, fun _ ha _ => ha⟩

theorem RowsStamped.trans (h : RowsStamped clocks db db') (h' : RowsStamped clocks db' db'') :
    RowsStamped clocks db db'' where
  events e he hc := h.events e (h'.events e he hc) hc
  participants ep hep hc := h.participants ep (h'.participants ep hep hc) hc
  applications a ha hc := h.applications a (h'.applications a ha hc) hc

theorem RowsStamped.mono (h : RowsStamped clocks db db') (hsub : clocks ⊆ clocks') :
    RowsStamped clocks' db db' where
  events e he hc := h.events e he fun hm => hc (hsub hm)
  participants ep hep hc := h.participants ep hep fun hm => hc (hsub hm)
  applications a ha hc := h.applications a ha fun hm => hc (hsub hm)

theorem RowsStamped.of_subset (he : ∀ e ∈ db'.events, e ∈ db.events)
    (hep : ∀ ep ∈ db'.participants, ep ∈ db.participants)
    (ha : ∀ a ∈ db'.applications, a ∈ db.applications) : RowsStamped clocks db db' :=
  ⟨fun e hm _ => he e hm, fun ep hm _ => hep ep hm, fun a hm _ => ha a hm⟩

theorem Stamped.refl (clocks : Set Time) (db : Database) : Stamped clocks db db :=
  ⟨.refl clocks db, fun _ _ _ _ _ => .rfl⟩

theorem Stamped.trans (h : Stamped clocks db db') (h' : Stamped clocks db' db'') :
    Stamped clocks db db'' where
  toRowsStamped := h.toRowsStamped.trans h'.toRowsStamped
  restraints a ha hc r hid :=
    (h'.restraints a ha hc r hid).trans (h.restraints a (h'.applications a ha hc) hc r hid)

theorem Stamped.mono (h : Stamped clocks db db') (hsub : clocks ⊆ clocks') :
    Stamped clocks' db db' where
  toRowsStamped := h.toRowsStamped.mono hsub
  restraints a ha hc := h.restraints a ha fun hm => hc (hsub hm)

theorem Stamped.hasRestraint {a : Application} (h : Stamped clocks db db')
    (ha : a ∈ db'.applications) (hc : a.updatedAt ∉ clocks) (rid : Uuid) :
    Sync.HasRestraint db' a.id rid ↔ Sync.HasRestraint db a.id rid := by
  constructor
  · rintro ⟨r, hr, hid, hrid⟩
    exact ⟨r, (h.restraints a ha hc r hid).mp hr, hid, hrid⟩
  · rintro ⟨r, hr, hid, hrid⟩
    exact ⟨r, (h.restraints a ha hc r hid).mpr hr, hid, hrid⟩

theorem StampedBy.stamped {t' : Time} (h : StampedBy t db) (hs : RowsStamped clocks db db')
    (ht : t ≤ t') (hclocks : ∀ c ∈ clocks, c ≤ t') : StampedBy t' db' where
  events e he := by
    by_cases hc : e.updatedAt ∈ clocks
    · exact hclocks _ hc
    · exact (h.events e (hs.events e he hc)).trans ht
  participants ep hep := by
    by_cases hc : ep.updatedAt ∈ clocks
    · exact hclocks _ hc
    · exact (h.participants ep (hs.participants ep hep hc)).trans ht
  applications a ha := by
    by_cases hc : a.updatedAt ∈ clocks
    · exact hclocks _ hc
    · exact (h.applications a (hs.applications a ha hc)).trans ht

-- ---------------------------------------------------------------------------
-- Each write
-- ---------------------------------------------------------------------------

theorem Write.rowsStamped (hw : Write may s clock db db') : RowsStamped {clock} db db' := by
  cases hw with
  | eventInserted ht _ _ hat =>
    refine ⟨fun e hm hc => ?_, fun _ hm _ => hm, fun _ hm _ => hm⟩
    exact ((Table.mem_insert? ht).mp hm).resolve_right fun he => hc (he ▸ hat)
  | eventWritten =>
    refine ⟨fun e hm hc => ?_, fun ep hm hc => ?_, fun a hm hc => ?_⟩
    · rcases Services.mem_events_eventWritten hm with rfl | ⟨hm, -⟩
      · exact absurd rfl hc
      · exact hm
    · obtain ⟨r, hr, rfl⟩ := Services.mem_participants_eventWritten.mp hm
      rw [Services.linkAfter_stamped.resolve_right hc]
      exact hr
    · obtain ⟨r, hr, rfl⟩ := Services.mem_applications_eventWritten.mp hm
      rw [Services.childAfter_stamped.resolve_right hc]
      exact hr
  | eventDeleted =>
    unfold Database.deleteEvent
    split
    · exact .of_subset (fun _ hm => (Table.mem_filter.mp hm).1)
        (fun _ hm => (Table.mem_filter.mp hm).1) fun _ hm => (Table.mem_filter.mp hm).1
    · exact .refl _ db
  | linkInserted ht _ _ hat =>
    refine ⟨fun _ hm _ => hm, fun ep hm hc => ?_, fun _ hm _ => hm⟩
    exact ((Table.mem_insert? ht).mp hm).resolve_right fun he => hc (he ▸ hat)
  | linkDeleted =>
    unfold Database.deleteParticipant
    split
    · exact .of_subset (fun _ hm => hm) (fun _ hm => (Table.mem_filter.mp hm).1) fun _ hm => hm
    · exact .refl _ db
  | applicationInserted ht _ _ _ hat =>
    refine ⟨fun _ hm _ => hm, fun _ hm _ => hm, fun a hm hc => ?_⟩
    exact ((Table.mem_insert? ht).mp hm).resolve_right fun he => hc (he ▸ hat)
  | applicationWritten | applicationPatched =>
    refine ⟨fun _ hm _ => hm, fun _ hm _ => hm, fun a hm hc => ?_⟩
    rcases Table.mem_set hm with rfl | ⟨hm, -⟩
    · exact absurd rfl hc
    · exact hm
  | applicationDeleted =>
    unfold Database.deleteApplication
    split
    · exact .of_subset (fun _ hm => hm) (fun _ hm => hm) fun _ hm => (Table.mem_filter.mp hm).1
    · exact .refl _ db
  | restraintsSet | restraintsReplaced =>
    exact .of_subset (fun _ hm => hm) (fun _ hm => hm) fun _ hm => hm
  | personsMerged =>
    exact ⟨fun _ hm _ => hm,
      fun ep hm hc => (Services.participants_repoint_stamped hm).resolve_right hc,
      fun a hm hc => (Services.applications_repoint_stamped hm).resolve_right hc⟩

theorem Write.stamped (hw : Write may s clock db db') (hno : ¬ may .restraintsReplace) :
    Stamped {clock} db db' := by
  refine ⟨hw.rowsStamped, fun a hm hc r hid => ?_⟩
  cases hw with
  | eventInserted | eventWritten | linkInserted | applicationInserted | applicationWritten
  | applicationPatched | personsMerged => exact .rfl
  | @eventDeleted e =>
    unfold Database.deleteEvent at hm ⊢
    split at hm
    · rename_i hw
      rw [if_pos hw]
      obtain ⟨ha, hne⟩ := Table.mem_filter.mp hm
      refine ⟨fun hr => (Table.mem_filter.mp hr).1, fun hr => ?_⟩
      refine Table.mem_filter.mpr ⟨hr, decide_eq_true fun a' ha' hid' => ?_⟩
      obtain rfl := Table.eq_of_key ha' ha (hid'.trans hid)
      exact of_decide_eq_true hne
    · rename_i hw
      rw [if_neg hw]
  | linkDeleted =>
    unfold Database.deleteParticipant
    split <;> exact .rfl
  | @applicationDeleted b _ =>
    unfold Database.deleteApplication at hm ⊢
    split at hm
    · rename_i hw
      rw [if_pos hw]
      obtain ⟨-, hne⟩ := Table.mem_filter.mp hm
      have hne : a.id ≠ b.id := of_decide_eq_true hne
      refine ⟨fun hr => (Table.mem_filter.mp hr).1, fun hr => ?_⟩
      exact Table.mem_filter.mpr ⟨hr, decide_eq_true (hid ▸ hne)⟩
    · rename_i hw
      rw [if_neg hw]
  | restraintsSet hset hat =>
    refine hset.others r fun hid' => hc ?_
    obtain rfl := Table.eq_of_key hm hset.mem (hid.symm.trans hid')
    exact hat
  | restraintsReplaced _ hmay => exact absurd hmay hno

theorem Writes.rowsStamped (h : Writes may s clocks db db') : RowsStamped clocks db db' :=
  h.rule (.refl clocks) (fun _ _ _ h h' => h.trans h')
    fun _ _ _ hc hw => hw.rowsStamped.mono (Set.singleton_subset_iff.mpr hc)

theorem Writes.stamped (h : Writes may s clocks db db') (hno : ¬ may .restraintsReplace) :
    Stamped clocks db db' :=
  h.rule (.refl clocks) (fun _ _ _ h h' => h.trans h')
    fun _ _ _ hc hw => (hw.stamped hno).mono (Set.singleton_subset_iff.mpr hc)

-- ---------------------------------------------------------------------------
-- Each operation
-- ---------------------------------------------------------------------------

/-- No pushed application replaces restraint links and nothing else. -/
def TouchesRows (db : Database) (s : Session) : Operation → Prop
  | .pushApplications items =>
    Batch.Along (Sync.pushApplication s) (fun db item => ¬ ReplacesRestraints db s item.2) db items
  | _ => True

theorem pushApplication_stamped {item : Time × ApplicationPushItem} {ds : List Sync.ApplicationDoc}
    (h : Sync.pushApplication s db item = .ok (db', ds)) (hno : ¬ ReplacesRestraints db s item.2) :
    Stamped {item.1} db db' :=
  (pushApplication_writes h).stamped fun hmay => hno hmay.2

theorem pushEvent_stamped {item : Time × EventPushItem} {ds : List Sync.EventDoc}
    (h : Sync.pushEvent s db item = .ok (db', ds)) : Stamped {item.1} db db' := by
  have hwrites : Writes (fun _ => False) s {item.1} db db' := pushEvent_writes h
  exact hwrites.stamped id

theorem pushApplications_stamped {items : List (Time × ApplicationPushItem)}
    {ds : List Sync.ApplicationDoc}
    (h : Batch.process (Sync.pushApplication s) db items = .ok (db', ds))
    (hok : Batch.Along (Sync.pushApplication s)
      (fun db item => ¬ ReplacesRestraints db s item.2) db items) :
    Stamped {c | c ∈ items.map Prod.fst} db db' := by
  induction items generalizing db ds with
  | nil =>
    cases h
    exact .refl ..
  | cons item items ih =>
    obtain ⟨db₁, ds₁, ds₂, hi, hrest, -⟩ := Batch.process_cons_ok.mp h
    have hitem : Stamped {c | c ∈ (item :: items).map Prod.fst} db db₁ :=
      (pushApplication_stamped hi hok.1).mono (by simp)
    exact hitem.trans ((ih hrest (hok.2 _ _ hi)).mono fun c hc => List.mem_cons_of_mem _ hc)

theorem execute_rowsStamped {operation : Operation}
    (h : execute db s clock operation = .ok db') : RowsStamped (operation.clocks clock) db db' := by
  rcases execute_writes h with ⟨tables, -, rfl⟩ | hwrites
  · exact .of_subset (fun _ hm => hm) (fun _ hm => hm) fun _ hm => hm
  · exact hwrites.rowsStamped

theorem execute_stamped {operation : Operation} (h : execute db s clock operation = .ok db')
    (hok : TouchesRows db s operation) : Stamped (operation.clocks clock) db db' := by
  cases operation with
  | pushApplications items =>
    obtain ⟨ds, h⟩ := pushed_ok.mp h
    exact pushApplications_stamped h hok
  | writeReference tables =>
    rw [← Except.ok.inj h]
    exact ⟨.of_subset (fun _ hm => hm) (fun _ hm => hm) fun _ hm => hm, fun _ _ _ _ _ => .rfl⟩
  | _ =>
    rcases execute_writes h with ⟨_, hop, -⟩ | hwrites
    · cases hop
    · exact hwrites.stamped (by simp [Operation.may])

end

end HcMap.Routes
