import HcMap.Routes.CatalogRequests
import HcMap.Sync.EventLaws

/-!
# What the pages offer

`lib/rbac.ts`, the buttons of `catalog-listing.tsx`, and what the server says
when a user takes one of the offers up.
-/

namespace HcMap.Pages

open Catalog (CatalogModel CatalogRow CatalogDb CatalogRequest CatalogAction Refusal Granted
  respond respond_ok)
open Sync (EventPushItem EventUpdateAllowed EventChanges pushEvent pushEvents pushEvent_cases)

-- ---------------------------------------------------------------------------
-- rbac.ts
-- ---------------------------------------------------------------------------

structure RbacUser where
  id : Uuid
  role : UserRole
  deriving DecidableEq

def currentUser (s : Session) : RbacUser := ⟨s.userId, s.role⟩

def canEditEvent (user : RbacUser) (createdBy : Option Uuid) : Bool :=
  if user.role = .admin then true
  else if user.role = .editor then createdBy.isSome && createdBy = some user.id
  else false

def canApproveCatalog (user : RbacUser) : Bool := user.role = .admin

def canEditCatalogEntry (user : RbacUser) : Bool := user.role = .admin

def canWithdrawCatalogEntry (user : RbacUser) (entry : CatalogEntry) : Bool :=
  if entry.status ≠ .pending then false
  else if user.role = .admin then true
  else if user.role = .editor then entry.suggestedBy.isSome && entry.suggestedBy = some user.id
  else false

def canViewCatalogAdmin (user : RbacUser) : Bool := user.role = .admin || user.role = .editor

-- ---------------------------------------------------------------------------
-- catalog-listing.tsx
-- ---------------------------------------------------------------------------

structure RowActions where
  showApprove : Bool
  showReject : Bool
  showWithdraw : Bool
  showEdit : Bool
  deriving DecidableEq

def renderRowActions (user : RbacUser) (entry : CatalogEntry) : RowActions where
  showApprove := canApproveCatalog user && entry.status = .pending
  showReject := canApproveCatalog user && entry.status = .pending
  showWithdraw := canWithdrawCatalogEntry user entry
  showEdit := canEditCatalogEntry user && entry.status ≠ .pending

/-- The request that a button of the row sends, or the form behind it. -/
inductive Offered {γ υ : Type} (user : RbacUser) (entry : CatalogEntry) : CatalogRequest γ υ → Prop
  | approve (h : (renderRowActions user entry).showApprove) : Offered user entry (.approve entry.id)
  | reject {reason : Text} (h : (renderRowActions user entry).showReject) :
      Offered user entry (.reject entry.id reason)
  | withdraw (h : (renderRowActions user entry).showWithdraw) :
      Offered user entry (.withdraw entry.id)
  | edit {payload : υ} (h : (renderRowActions user entry).showEdit) :
      Offered user entry (.update entry.id payload)

section
variable {γ υ : Type} [CatalogModel γ υ] {db : CatalogDb γ} {s : Session} {now : Time}
  {row : CatalogRow γ} {user : RbacUser} {entry : CatalogEntry} {request : CatalogRequest γ υ}

theorem canWithdraw_iff :
    canWithdrawCatalogEntry user entry ↔
      entry.status = .pending ∧
        (user.role = .admin ∨ (user.role = .editor ∧ entry.suggestedBy = some user.id)) := by
  unfold canWithdrawCatalogEntry
  by_cases hpending : entry.status = .pending
  · cases hrole : user.role <;> simp +contextual [hpending]
  · simp [hpending]

theorem showApprove_iff :
    (renderRowActions user entry).showApprove ↔ user.role = .admin ∧ entry.status = .pending := by
  simp [renderRowActions, canApproveCatalog]

theorem showReject_iff :
    (renderRowActions user entry).showReject ↔ user.role = .admin ∧ entry.status = .pending := by
  simp [renderRowActions, canApproveCatalog]

theorem showEdit_iff :
    (renderRowActions user entry).showEdit ↔ user.role = .admin ∧ entry.status ≠ .pending := by
  simp [renderRowActions, canEditCatalogEntry]

structure ButtonsFit (db : CatalogDb γ) (s : Session) (now : Time) (row : CatalogRow γ) :
    Prop where
  approve : (renderRowActions (currentUser s) row.entry.toCatalogEntry).showApprove ↔
    row.entry.status = .pending ∧ ∃ db', respond db s now (.approve row.entry.id) = .ok db'
  reject : (renderRowActions (currentUser s) row.entry.toCatalogEntry).showReject ↔
    ∀ reason, ∃ db', respond db s now (.reject row.entry.id reason) = .ok db'
  withdraw : (renderRowActions (currentUser s) row.entry.toCatalogEntry).showWithdraw ∧
      row.entry.id ∉ db.referenced ↔
    ∃ db', respond db s now (.withdraw row.entry.id) = .ok db'
  edit : (renderRowActions (currentUser s) row.entry.toCatalogEntry).showEdit →
    ∀ payload, (∃ db', respond db s now (.update row.entry.id payload) = .ok db') ∨
      respond db s now (.update row.entry.id payload) = .error .conflict

theorem updateRoute_admin (hadmin : s.role = .admin)
    (hfind : db.table.find? row.entry.id = some row) (payload : υ) :
    (∃ db', respond db s now (.update row.entry.id payload) = .ok db') ∨
      respond db s now (.update row.entry.id payload) = .error .conflict := by
  have hget := Catalog.getOr404_admin hadmin hfind
  have hrole : Catalog.requireRole s [.admin] = .ok () :=
    Catalog.requireRole_ok.mpr (List.mem_singleton.mpr hadmin)
  simp only [respond, Catalog.updateRoute, hrole, hget, bind, Except.bind]
  split
  · exact .inr rfl
  · split
    · exact .inr rfl
    · exact .inl ⟨_, Catalog.updateEntry_admin hadmin⟩

theorem buttonsFit (hrow : row ∈ db.table) : ButtonsFit db s now row := by
  have hfind : db.table.find? row.entry.id = some row := Table.find?_eq_some.mpr ⟨hrow, rfl⟩
  refine ⟨?_, ?_, ?_, ?_⟩
  · rw [showApprove_iff]
    constructor
    · rintro ⟨hadmin, hpending⟩
      refine ⟨hpending, _, respond_ok.mpr (.approved hadmin hfind ?_)⟩
      rw [show row.entry.status = .pending from hpending]
      exact CatalogStatus.noConfusion
    · rintro ⟨hpending, db', h⟩
      cases respond_ok.mp h with
      | approved hadmin => exact ⟨hadmin, hpending⟩
  · rw [showReject_iff]
    constructor
    · rintro ⟨hadmin, hpending⟩ reason
      exact ⟨_, respond_ok.mpr (.rejected hadmin hfind hpending)⟩
    · intro h
      obtain ⟨db', h⟩ := h sampleNote
      cases respond_ok.mp h with
      | rejected hadmin hfind' hpending =>
        cases hfind.symm.trans hfind'
        exact ⟨hadmin, hpending⟩
  · refine (and_congr_left' canWithdraw_iff).trans ⟨?_, ?_⟩
    · rintro ⟨⟨hpending, hmay⟩, hfree⟩
      exact ⟨_, respond_ok.mpr (.withdrawn hfind hpending hmay hfree)⟩
    · rintro ⟨db', h⟩
      cases respond_ok.mp h with
      | withdrawn hfind' hpending hmay hfree =>
        cases hfind.symm.trans hfind'
        exact ⟨⟨hpending, hmay⟩, hfree⟩
  · intro hedit
    exact updateRoute_admin (showEdit_iff.mp hedit).1 hfind

/-- The answers that a click can meet besides success: the entry is gone, a
`UNIQUE` or a decision stands against it, or other rows refer to it. -/
inductive Expected (db : CatalogDb γ) : CatalogRequest γ υ → Refusal → Prop
  | notFound {request : CatalogRequest γ υ} : Expected db request .notFound
  | conflict {request : CatalogRequest γ υ} : Expected db request .conflict
  | state {request : CatalogRequest γ υ} {e : Catalog.CatalogStateError} :
      Expected db request (.state e)
  | referenced {entryId : Uuid} (h : entryId ∈ db.referenced) :
      Expected db (.withdraw entryId) (.raised .integrity)

variable {e : Refusal} {id : Uuid}

theorem getOr404_error (h : Catalog.getOr404 db s id = .error e) : e = .notFound := by
  unfold Catalog.getOr404 at h
  split at h
  · cases h
    rfl
  · cases h

theorem adminRoute_error (hadmin : s.role = .admin)
    {f : CatalogRow γ → Except Refusal (CatalogDb γ)}
    (h : (do Catalog.requireRole s [.admin]
             let row ← Catalog.getOr404 db s id
             f row) = .error e) :
    e = .notFound ∨ ∃ row, f row = .error e := by
  have hrole : Catalog.requireRole s [.admin] = .ok () :=
    Catalog.requireRole_ok.mpr (List.mem_singleton.mpr hadmin)
  rw [hrole] at h
  cases hget : Catalog.getOr404 db s id with
  | error e' =>
    obtain rfl := getOr404_error hget
    rw [hget] at h
    cases h
    exact .inl rfl
  | ok row =>
    rw [hget] at h
    exact .inr ⟨row, h⟩

omit [CatalogModel γ υ] in
theorem withdrawRoute_error (hmay : s.role = .admin ∨ s.role = .editor)
    (h : Catalog.withdrawRoute db s id = .error e) :
    Expected db (.withdraw id : CatalogRequest γ υ) e := by
  have hrole : Catalog.requireRole s [.admin, .editor] = .ok () := by
    refine Catalog.requireRole_ok.mpr ?_
    simpa only [List.mem_cons, List.not_mem_nil, or_false] using hmay
  simp only [Catalog.withdrawRoute, hrole, bind, Except.bind] at h
  cases hget : Catalog.getOr404 db s id with
  | error e' =>
    obtain rfl := getOr404_error hget
    rw [hget] at h
    cases h
    exact .notFound
  | ok row =>
    have hid := Table.key_of_find? (Catalog.getOr404_ok.mp hget).1
    simp only [hget, Catalog.deleteEntry] at h
    split at h
    · cases h
      exact .state
    · split at h
      · cases h
      · split at h
        · rename_i hrefs
          cases h
          rw [show row.entry.id = id from hid] at hrefs
          exact .referenced hrefs
        · cases h

/-- However old the list is that a button was on, the click is answered: never
with a 403, and with an uncaught error only when other rows refer to the entry
that is withdrawn. -/
theorem offered_answer (hoffered : Offered (currentUser s) entry request)
    (h : respond db s now request = .error e) : Expected db request e := by
  cases hoffered with
  | approve hshow =>
    have hadmin : s.role = .admin := (showApprove_iff.mp hshow).1
    rcases adminRoute_error hadmin h with rfl | ⟨row, h⟩
    · exact .notFound
    · split at h
      · cases h
        exact .state
      · rw [Catalog.updateEntry_admin hadmin] at h
        cases h
  | reject hshow =>
    have hadmin : s.role = .admin := (showReject_iff.mp hshow).1
    rcases adminRoute_error hadmin h with rfl | ⟨row, h⟩
    · exact .notFound
    · split at h
      · cases h
        exact .state
      · rw [Catalog.updateEntry_admin hadmin] at h
        cases h
  | withdraw hshow => exact withdrawRoute_error ((canWithdraw_iff.mp hshow).2.imp id And.left) h
  | edit hshow =>
    have hadmin : s.role = .admin := (showEdit_iff.mp hshow).1
    rcases adminRoute_error hadmin h with rfl | ⟨row, h⟩
    · exact .notFound
    · split at h
      · cases h
        exact .conflict
      · split at h
        · cases h
          exact .conflict
        · rw [Catalog.updateEntry_admin hadmin] at h
          cases h

/-- The buttons of a catalog list: exact while the list is up to date, and
never out of bounds after whatever has happened since. -/
theorem listing_agrees (db : CatalogDb γ) (s : Session) (now : Time)
    (later : List (CatalogAction γ υ)) :
    ∀ row ∈ db.table, ButtonsFit db s now row ∧
      ∀ request, Offered (currentUser s) row.entry.toCatalogEntry request →
        ∀ now' e, respond (Run.run Catalog.step db later) s now' request = .error e →
          Expected (Run.run Catalog.step db later) request e :=
  fun _ hrow => ⟨buttonsFit hrow, fun _ hoffered _ _ h => offered_answer hoffered h⟩

end

def proposedRow : CatalogRow Catalog.LookupColumns :=
  ⟨Catalog.proposeLookup 8 3 false, ⟨sampleNote, none⟩⟩

def proposedDb : CatalogDb Catalog.LookupColumns := ⟨(∅ : Table _).put proposedRow, []⟩

def meanwhile : List (CatalogAction Catalog.LookupColumns Catalog.LookupUpdate) :=
  [.request sampleAdmin 6 (.approve 8)]

def lateRejection : CatalogRequest Catalog.LookupColumns Catalog.LookupUpdate :=
  .reject 8 sampleNote

theorem listing_agrees_sample :
    ButtonsFit proposedDb sampleAdmin 5 proposedRow ∧
      ∃ e, respond (Run.run Catalog.step proposedDb meanwhile) sampleAdmin 7 lateRejection =
          .error (.state e) ∧
        Expected (Run.run Catalog.step proposedDb meanwhile) lateRejection (.state e) := by
  obtain ⟨hfit, hanswer⟩ :=
    listing_agrees proposedDb sampleAdmin 5 meanwhile proposedRow Table.mem_put_self
  have hrefused : respond (Run.run Catalog.step proposedDb meanwhile) sampleAdmin 7 lateRejection =
      .error (.state ⟨"Cannot reject from status=approved; only 'pending' allowed."⟩) := by rfl
  exact ⟨hfit, _, hrefused, hanswer lateRejection (.reject rfl) 7 _ hrefused⟩

-- ---------------------------------------------------------------------------
-- The event page
-- ---------------------------------------------------------------------------

/-- The edits of a queue that the pages let their user make: each is of an
event that `canEditEvent` opens, or of one the server does not have. -/
def Guarded (user : RbacUser) (db : Database) (items : List (Time × EventPushItem)) : Prop :=
  ∀ item ∈ items, ∀ existing ∈ db.events, existing.id = item.2.newDocumentState.id →
    canEditEvent user existing.createdBy

section
variable {db db' : Database} {s : Session} {clock : Time} {item : EventPushItem}
  {items : List (Time × EventPushItem)} {existing e : Event} {ds : List Sync.EventDoc}

theorem canEdit_iff : canEditEvent (currentUser s) e.createdBy ↔ eventWritable s e := by
  have hiff : ∀ user : RbacUser, canEditEvent user e.createdBy ↔
      user.role = .admin ∨ (user.role = .editor ∧ e.createdBy = some user.id) := by
    intro user
    unfold canEditEvent
    cases hrole : user.role <;> simp +contextual
  exact hiff (currentUser s)

theorem created_pushEvent (h : pushEvent s db (clock, item) = .ok (db', ds)) (he : e ∈ db'.events) :
    (∃ e' ∈ db.events, e'.id = e.id ∧ e'.createdBy = e.createdBy) ∨ eventWritable s e := by
  have hout := pushEvent_cases s db clock item
  rw [h] at hout
  cases hout with
  | reported | untouched => exact .inl ⟨e, he, rfl, rfl⟩
  | inserted t hitem hw ht =>
    rw [Sync.ensureParticipant_events] at he
    rcases (Table.mem_insert? ht).mp he with he | rfl
    · exact .inl ⟨e, he, rfl, rfl⟩
    · exact .inr hw
  | written existing hallowed hc hw =>
    rcases Services.mem_events_eventWritten he with rfl | ⟨he, -⟩
    · exact .inl ⟨existing, Table.mem_of_find? hallowed.find, rfl, rfl⟩
    · exact .inl ⟨e, he, rfl, rfl⟩

theorem pushEvent_guarded (clock : Time)
    (hguard : ∀ existing ∈ db.events, existing.id = item.newDocumentState.id →
      canEditEvent (currentUser s) existing.createdBy) :
    ∃ db' ds, pushEvent s db (clock, item) = .ok (db', ds) := by
  have hout := pushEvent_cases s db clock item
  generalize pushEvent s db (clock, item) = result at hout
  cases hout with
  | reported | inserted | untouched | written => exact ⟨_, _, rfl⟩
  | raised existing hallowed hc hw =>
    refine absurd (canEdit_iff.mp ?_) hw
    exact hguard existing (Table.mem_of_find? hallowed.find) hallowed.id_eq

theorem guarded_push (hguard : Guarded (currentUser s) db items) :
    ∃ db' ds, pushEvents s db items = .ok (db', ds) := by
  induction items generalizing db with
  | nil => exact ⟨db, [], rfl⟩
  | cons item items ih =>
    obtain ⟨clock, item⟩ := item
    have hfirst := hguard (clock, item) (List.mem_cons_self ..)
    obtain ⟨db₁, ds₁, h₁⟩ := pushEvent_guarded clock hfirst
    have hrest : Guarded (currentUser s) db₁ items := by
      intro later hlater e he hid
      rcases created_pushEvent h₁ he with ⟨e', he', hid', hby⟩ | hw
      · rw [← hby]
        exact hguard later (List.mem_cons_of_mem _ hlater) e' he' (hid'.trans hid)
      · exact canEdit_iff.mpr hw
    obtain ⟨db', ds₂, h₂⟩ := ih hrest
    exact ⟨db', ds₁ ++ ds₂, Batch.process_cons_ok.mpr ⟨db₁, ds₁, ds₂, h₁, h₂, rfl⟩⟩

theorem pushEvents_refused {existing : Event} (clock : Time)
    (hfind : db.events.find? item.newDocumentState.id = some existing)
    (hno : ¬ EventUpdateAllowed s db item existing) :
    ∃ doc, pushEvents s db ((clock, item) :: items) =
      (pushEvents s db items).map fun answer => (answer.1, doc :: answer.2) := by
  have hother : ∀ existing', ¬ EventUpdateAllowed s db item existing' := by
    intro existing' h
    obtain rfl := Option.some.inj
      (((Database.getEvent_eq_some.mp h.found).1).symm.trans hfind)
    exact hno h
  have hout := pushEvent_cases s db clock item
  generalize hresult : pushEvent s db (clock, item) = result at hout
  cases hout with
  | reported doc =>
    refine ⟨doc, ?_⟩
    simp only [pushEvents, Batch.process, hresult]
    cases Batch.process (pushEvent s) db items <;> rfl
  | inserted t hitem hw ht =>
    have hfree := (Table.insert?_eq_some.mp ht).1
    rw [show key (Sync.newEvent s clock item.newDocumentState) = item.newDocumentState.id from rfl,
      hfind] at hfree
    cases hfree
  | untouched _ h | written _ h | raised _ h => exact absurd h (hother _)

/-- The gate of the edit pages is exact: a queue it lets through is answered, and
one that begins with a change of an event it does not open fails as a whole where
the checks pass the change, which they otherwise report. -/
theorem editGate_exact (s : Session) (db : Database) :
    (∀ items, Guarded (currentUser s) db items →
      ∃ db' ds, pushEvents s db items = .ok (db', ds)) ∧
    ∀ clock item existing items, db.events.find? item.newDocumentState.id = some existing →
      EventChanges existing item.newDocumentState →
      canEditEvent (currentUser s) existing.createdBy = false →
      (EventUpdateAllowed s db item existing →
        pushEvents s db ((clock, item) :: items) = .error .staleData) ∧
      (¬ EventUpdateAllowed s db item existing →
        ∃ doc, pushEvents s db ((clock, item) :: items) =
          (pushEvents s db items).map fun answer => (answer.1, doc :: answer.2)) := by
  refine ⟨fun items hguard => guarded_push hguard, ?_⟩
  intro clock item existing items hfind hc hclosed
  refine ⟨fun hallowed => ?_, pushEvents_refused clock hfind⟩
  have hw : ¬ eventWritable s existing := fun hw => by simp [canEdit_iff.mpr hw] at hclosed
  have hpush : pushEvent s db (clock, item) = .error .staleData := by
    rw [Sync.pushEvent_update hallowed]
    simp [hc, hw]
  simp only [pushEvents, Batch.process, hpush]

end

end HcMap.Pages
