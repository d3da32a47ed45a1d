import HcMap.Db.Statements
import HcMap.Routes.RequestLaws
import HcMap.Seeds.Run

/-!
# Requests on a catalog

`routes/catalog.py` for any of the four catalogs: the role check, the row under
the policies of the session, the service, and the flush under the policies
again. The seeds come in beside the requests, and rows of other tables come to
refer to entries and cease to.
-/

namespace HcMap.Catalog

open Routes (bind_ok)
open Seeds (Holds seedRow seedRows missing seedEntry)

-- ---------------------------------------------------------------------------
-- Policies
-- ---------------------------------------------------------------------------

section
variable (s : Session) (c : CatalogEntry)

def catalogInsertable : Prop :=
  ((s.role = .editor ∨ s.role = .admin) ∧
    (s.role = .admin ∨ (c.status = .pending ∧ c.suggestedBy = some s.userId))) ∨
  s.role = .admin

def catalogModifiable : Prop := s.role = .admin

def catalogDeletable : Prop :=
  (s.role = .editor ∧ c.status = .pending ∧ c.suggestedBy = some s.userId) ∨ s.role = .admin

instance : Decidable (catalogInsertable s c) := by unfold catalogInsertable; infer_instance
instance : Decidable (catalogModifiable s) := by unfold catalogModifiable; infer_instance
instance : Decidable (catalogDeletable s c) := by unfold catalogDeletable; infer_instance

end

-- ---------------------------------------------------------------------------
-- The routes
-- ---------------------------------------------------------------------------

/-- One catalog, and which of its entries rows of other tables refer to. -/
structure CatalogDb (γ : Type) where
  table : Table (CatalogRow γ)
  referenced : List Uuid

/-- Why a request gets no 2xx: 403, 404, 409 and 409, and an error that no
handler catches. -/
inductive Refusal
  | forbidden
  | notFound
  | conflict
  | state (e : CatalogStateError)
  | raised (e : DbError)
  deriving DecidableEq

inductive CatalogRequest (γ υ : Type)
  | propose (id : Uuid) (payload : γ)
  | update (entryId : Uuid) (payload : υ)
  | withdraw (entryId : Uuid)
  | approve (entryId : Uuid)
  | reject (entryId : Uuid) (reason : Text)

def requireRole (s : Session) (allowed : List UserRole) : Except Refusal Unit :=
  if s.role ∈ allowed then .ok () else .error .forbidden

section
variable {γ υ : Type} [CatalogModel γ υ] (db : CatalogDb γ) (s : Session)

def getOr404 (entryId : Uuid) : Except Refusal (CatalogRow γ) :=
  match (db.table.find? entryId).filter fun r => catalogVisible s r.entry.toCatalogEntry with
  | none => .error .notFound
  | some row => .ok row

def insertEntry (row : CatalogRow γ) : Except Refusal (CatalogDb γ) :=
  if ¬ catalogInsertable s row.entry.toCatalogEntry then .error (.raised .programming)
  else match propose db.table row with
    | .error _ => .error .conflict
    | .ok table => .ok { db with table := table }

def updateEntry (row : CatalogRow γ) : Except Refusal (CatalogDb γ) :=
  if ¬ catalogModifiable s then .error (.raised .staleData)
  else .ok { db with table := db.table.set row }

/-- A `DELETE` the policies filter to no row only warns; one that leaves a
reference behind raises. -/
def deleteEntry (row : CatalogRow γ) : Except Refusal (CatalogDb γ) :=
  if ¬ catalogDeletable s row.entry.toCatalogEntry then .ok db
  else if row.entry.id ∈ db.referenced then .error (.raised .integrity)
  else .ok { db with table := db.table.filter fun r => r.entry.id ≠ row.entry.id }

def proposeRoute (id : Uuid) (payload : γ) : Except Refusal (CatalogDb γ) := do
  requireRole s [.admin, .editor]
  insertEntry db s ⟨proposeLookup id s.userId (s.role = .admin), payload⟩

def updateRoute (entryId : Uuid) (payload : υ) : Except Refusal (CatalogDb γ) := do
  requireRole s [.admin]
  let row ← getOr404 db s entryId
  match CatalogModel.update payload row.columns with
  | none => .error .conflict
  | some columns =>
    if ∃ r ∈ db.table, r.entry.id ≠ entryId ∧ CatalogModel.unique r.columns columns then
      .error .conflict
    else updateEntry db s { row with columns := columns }

def withdrawRoute (entryId : Uuid) : Except Refusal (CatalogDb γ) := do
  requireRole s [.admin, .editor]
  let row ← getOr404 db s entryId
  match withdrawEntry row.entry with
  | .error e => .error (.state e)
  | .ok () => deleteEntry db s row

def approveRoute (entryId : Uuid) : Except Refusal (CatalogDb γ) := do
  requireRole s [.admin]
  let row ← getOr404 db s entryId
  match approveEntry row.entry s.userId with
  | .error e => .error (.state e)
  | .ok entry => updateEntry db s { row with entry := entry }

def rejectRoute (now : Time) (entryId : Uuid) (reason : Text) : Except Refusal (CatalogDb γ) := do
  requireRole s [.admin]
  let row ← getOr404 db s entryId
  match rejectEntry row.entry s.userId reason now with
  | .error e => .error (.state e)
  | .ok entry => updateEntry db s { row with entry := entry }

def respond (now : Time) : CatalogRequest γ υ → Except Refusal (CatalogDb γ)
  | .propose id payload => proposeRoute db s id payload
  | .update entryId payload => updateRoute db s entryId payload
  | .withdraw entryId => withdrawRoute db s entryId
  | .approve entryId => approveRoute db s entryId
  | .reject entryId reason => rejectRoute db s now entryId reason

end

inductive CatalogAction (γ υ : Type)
  | request (s : Session) (now : Time) (request : CatalogRequest γ υ)
  | seed (seeds : List (Uuid × γ))
  -- A row of another table, whose foreign key is checked, or its end.
  | refer (entryId : Uuid)
  | release (entryId : Uuid)

section
variable {γ υ : Type} [CatalogModel γ υ]

/-- A transaction that raises leaves the catalog as it was. -/
def step (db : CatalogDb γ) : CatalogAction γ υ → CatalogDb γ
  | .request s now request =>
    match respond db s now request with
    | .ok db' => db'
    | .error _ => db
  | .seed seeds =>
    match seedRows db.table seeds 0 with
    | some (table, _) => { db with table := table }
    | none => db
  | .refer entryId =>
    if (db.table.find? entryId).isSome then { db with referenced := entryId :: db.referenced }
    else db
  | .release entryId => { db with referenced := db.referenced.erase entryId }

-- ---------------------------------------------------------------------------
-- What a request does
-- ---------------------------------------------------------------------------

inductive Granted (db : CatalogDb γ) (s : Session) (now : Time) :
    CatalogRequest γ υ → CatalogDb γ → Prop
  | proposed {id payload table} (hrole : s.role = .admin ∨ s.role = .editor)
      (hfree : ¬ Holds db.table payload)
      (hinsert : db.table.insert? ⟨proposeLookup id s.userId (s.role = .admin), payload⟩ =
        some table) :
      Granted db s now (.propose id payload) { db with table := table }
  | updated {entryId payload row columns} (hadmin : s.role = .admin)
      (hfind : db.table.find? entryId = some row)
      (hupdate : CatalogModel.update payload row.columns = some columns)
      (hfree : ∀ r ∈ db.table, r.entry.id ≠ entryId → ¬ CatalogModel.unique r.columns columns) :
      Granted db s now (.update entryId payload)
        { db with table := db.table.set { row with columns := columns } }
  | withdrawn {entryId row} (hfind : db.table.find? entryId = some row)
      (hpending : row.entry.status = .pending)
      (hmay : s.role = .admin ∨ (s.role = .editor ∧ row.entry.suggestedBy = some s.userId))
      (hfree : entryId ∉ db.referenced) :
      Granted db s now (.withdraw entryId)
        { db with table := db.table.filter fun r => r.entry.id ≠ entryId }
  | approved {entryId row} (hadmin : s.role = .admin) (hfind : db.table.find? entryId = some row)
      (hstatus : row.entry.status ≠ .rejected) :
      Granted db s now (.approve entryId)
        { db with table := db.table.set { row with entry :=
          { row.entry with
            status := .approved
            approvedBy := some s.userId
            rejectedBy := none
            rejectedAt := none
            rejectReason := none } } }
  | rejected {entryId reason row} (hadmin : s.role = .admin)
      (hfind : db.table.find? entryId = some row) (hpending : row.entry.status = .pending) :
      Granted db s now (.reject entryId reason)
        { db with table := db.table.set { row with entry :=
          { row.entry with
            status := .rejected
            rejectedBy := some s.userId
            rejectedAt := some now
            rejectReason := some reason } } }

variable {db db' : CatalogDb γ} {s : Session} {now : Time} {row r : CatalogRow γ}
  {entryId : Uuid} {request : CatalogRequest γ υ}

theorem requireRole_ok {allowed : List UserRole} {u : Unit} :
    requireRole s allowed = .ok u ↔ s.role ∈ allowed := by
  unfold requireRole
  split <;> simp [*]

theorem getOr404_ok :
    getOr404 db s entryId = .ok row ↔
      db.table.find? entryId = some row ∧ catalogVisible s row.entry.toCatalogEntry := by
  have hfilter : ((db.table.find? entryId).filter fun r =>
      catalogVisible s r.entry.toCatalogEntry) = some row ↔
      db.table.find? entryId = some row ∧ catalogVisible s row.entry.toCatalogEntry := by
    simp [Option.filter_eq_some_iff]
  rw [← hfilter]
  unfold getOr404
  split <;> simp [*]

theorem getOr404_admin (hadmin : s.role = .admin) (hfind : db.table.find? entryId = some row) :
    getOr404 db s entryId = .ok row :=
  getOr404_ok.mpr ⟨hfind, .inl hadmin⟩

theorem updateEntry_admin (hadmin : s.role = .admin) :
    updateEntry db s row = .ok { db with table := db.table.set row } :=
  if_neg (not_not_intro hadmin)

/-- A pending row that an editor sees is the editor's own, so that the policy
lets the `DELETE` of a row that passed the check through. -/
theorem deletable_of_visible (hrole : s.role = .admin ∨ s.role = .editor)
    (hpending : row.entry.status = .pending) :
    catalogVisible s row.entry.toCatalogEntry ↔ catalogDeletable s row.entry.toCatalogEntry := by
  rcases hrole with hrole | hrole <;> simp [catalogVisible, catalogDeletable, hrole, hpending]

theorem propose_ok {t t' : Table (CatalogRow γ)} :
    propose t row = .ok t' ↔ ¬ Holds t row.columns ∧ t.insert? row = some t' := by
  by_cases hheld : Holds t row.columns
  · have hpropose : propose t row = .error .conflict := if_pos hheld
    simp [hpropose, hheld]
  · rw [propose, if_neg (show ¬ ∃ r ∈ t, CatalogModel.unique r.columns row.columns from hheld)]
    cases t.insert? row <;> simp [hheld]

theorem insertEntry_ok (hmay : catalogInsertable s row.entry.toCatalogEntry) :
    insertEntry db s row = .ok db' ↔
      ¬ Holds db.table row.columns ∧
        ∃ table, db.table.insert? row = some table ∧ db' = { db with table := table } := by
  rw [insertEntry, if_neg (not_not_intro hmay)]
  cases hpropose : propose db.table row with
  | ok table =>
    obtain ⟨hfree, hinsert⟩ := propose_ok.mp hpropose
    simp [hfree, hinsert, eq_comm]
  | error e =>
    have hnot : ∀ table, ¬ (¬ Holds db.table row.columns ∧ db.table.insert? row = some table) :=
      fun table h => by simp [propose_ok.mpr h] at hpropose
    simp only [reduceCtorEq, false_iff]
    rintro ⟨hfree, table, hinsert, -⟩
    exact hnot table ⟨hfree, hinsert⟩

theorem insertable_proposeLookup (hrole : s.role = .admin ∨ s.role = .editor) (id : Uuid) :
    catalogInsertable s (proposeLookup id s.userId (s.role = .admin)).toCatalogEntry := by
  rcases hrole with hrole | hrole <;> simp [catalogInsertable, proposeLookup, hrole]

theorem adminRoute_ok {f : CatalogRow γ → Except Refusal (CatalogDb γ)} :
    (do requireRole s [.admin]
        let row ← getOr404 db s entryId
        f row) = .ok db' ↔
      s.role = .admin ∧ ∃ row, db.table.find? entryId = some row ∧ f row = .ok db' := by
  constructor
  · intro h
    obtain ⟨_, hrole, h⟩ := bind_ok.mp h
    obtain ⟨row, hrow, h⟩ := bind_ok.mp h
    exact ⟨List.mem_singleton.mp (requireRole_ok.mp hrole), row, (getOr404_ok.mp hrow).1, h⟩
  · rintro ⟨hadmin, row, hfind, h⟩
    refine bind_ok.mpr ⟨(), requireRole_ok.mpr (List.mem_singleton.mpr hadmin), ?_⟩
    exact bind_ok.mpr ⟨row, getOr404_admin hadmin hfind, h⟩

theorem withdrawRoute_ok :
    withdrawRoute db s entryId = .ok db' ↔
      ∃ row, db.table.find? entryId = some row ∧ row.entry.status = .pending ∧
        (s.role = .admin ∨ (s.role = .editor ∧ row.entry.suggestedBy = some s.userId)) ∧
        entryId ∉ db.referenced ∧
        db' = { db with table := db.table.filter fun r => r.entry.id ≠ entryId } := by
  constructor
  · intro h
    obtain ⟨_, hrole, h⟩ := bind_ok.mp h
    have hrole : s.role = .admin ∨ s.role = .editor := by
      have := requireRole_ok.mp hrole
      simpa only [List.mem_cons, List.not_mem_nil, or_false] using this
    obtain ⟨row, hrow, hdelete⟩ := bind_ok.mp h
    obtain ⟨hfind, hvisible⟩ := getOr404_ok.mp hrow
    obtain rfl : row.entry.id = entryId := Table.key_of_find? hfind
    by_cases hpending : row.entry.status = .pending
    · have hmay := (deletable_of_visible hrole hpending).mp hvisible
      by_cases hfree : row.entry.id ∈ db.referenced
      · simp [withdrawEntry, hpending, deleteEntry, hmay, hfree] at hdelete
      · simp only [withdrawEntry, hpending, ne_eq, not_true_eq_false, ↓reduceIte, deleteEntry,
          hmay, hfree, Except.ok.injEq] at hdelete
        exact ⟨row, hfind, hpending, hmay.symm.imp id fun h => ⟨h.1, h.2.2⟩, hfree,
          hdelete.symm⟩
    · simp [withdrawEntry, hpending] at hdelete
  · rintro ⟨row, hfind, hpending, hmay, hfree, rfl⟩
    have hrole : s.role = .admin ∨ s.role = .editor := hmay.imp id And.left
    have hdeletable : catalogDeletable s row.entry.toCatalogEntry :=
      hmay.symm.imp (fun h => ⟨h.1, hpending, h.2⟩) id
    obtain rfl : row.entry.id = entryId := Table.key_of_find? hfind
    refine bind_ok.mpr ⟨(), requireRole_ok.mpr ?_,
      bind_ok.mpr ⟨row, getOr404_ok.mpr ⟨hfind, ?_⟩, ?_⟩⟩
    · simpa only [List.mem_cons, List.not_mem_nil, or_false] using hrole
    · exact (deletable_of_visible hrole hpending).mpr hdeletable
    · simp [withdrawEntry, hpending, deleteEntry, hdeletable, hfree]

theorem respond_ok : respond db s now request = .ok db' ↔ Granted db s now request db' := by
  cases request with
  | propose id payload =>
    constructor
    · intro h
      obtain ⟨_, hrole, h⟩ := bind_ok.mp h
      have hrole : s.role = .admin ∨ s.role = .editor := by
        have := requireRole_ok.mp hrole
        simpa only [List.mem_cons, List.not_mem_nil, or_false] using this
      obtain ⟨hfree, table, hinsert, rfl⟩ :=
        (insertEntry_ok (insertable_proposeLookup hrole id)).mp h
      exact .proposed hrole hfree hinsert
    · rintro ⟨hrole, hfree, hinsert⟩
      refine bind_ok.mpr ⟨(), requireRole_ok.mpr ?_, ?_⟩
      · simpa only [List.mem_cons, List.not_mem_nil, or_false] using hrole
      · exact (insertEntry_ok (insertable_proposeLookup hrole id)).mpr ⟨hfree, _, hinsert, rfl⟩
  | update entryId payload =>
    refine adminRoute_ok.trans ⟨?_, ?_⟩
    · rintro ⟨hadmin, row, hfind, h⟩
      split at h
      · cases h
      · rename_i columns hupdate
        split at h
        · cases h
        · rename_i hfree
          rw [updateEntry_admin hadmin] at h
          cases h
          refine .updated hadmin hfind hupdate fun r hr hne hunique => ?_
          exact hfree ⟨r, hr, hne, hunique⟩
    · intro h
      cases h with
      | @updated _ _ row columns hadmin hfind hupdate hfree =>
        refine ⟨hadmin, row, hfind, ?_⟩
        have hnone : ¬ ∃ r ∈ db.table, r.entry.id ≠ entryId ∧
            CatalogModel.unique r.columns columns = true :=
          fun ⟨r, hr, hne, hunique⟩ => hfree r hr hne hunique
        simp only [hupdate, hnone, ↓reduceIte]
        exact updateEntry_admin hadmin
  | withdraw entryId =>
    refine withdrawRoute_ok.trans ⟨?_, ?_⟩
    · rintro ⟨row, hfind, hpending, hmay, hfree, rfl⟩
      exact .withdrawn hfind hpending hmay hfree
    · intro h
      cases h with
      | withdrawn hfind hpending hmay hfree => exact ⟨_, hfind, hpending, hmay, hfree, rfl⟩
  | approve entryId =>
    refine adminRoute_ok.trans ⟨?_, ?_⟩
    · rintro ⟨hadmin, row, hfind, h⟩
      by_cases hstatus : row.entry.status = .rejected
      · simp [approveEntry, hstatus] at h
      · simp only [approveEntry, hstatus, ↓reduceIte, updateEntry_admin hadmin] at h
        cases h
        exact .approved hadmin hfind hstatus
    · intro h
      cases h with
      | @approved _ row hadmin hfind hstatus =>
        refine ⟨hadmin, row, hfind, ?_⟩
        simp only [approveEntry, hstatus, ↓reduceIte]
        exact updateEntry_admin hadmin
  | reject entryId reason =>
    refine adminRoute_ok.trans ⟨?_, ?_⟩
    · rintro ⟨hadmin, row, hfind, h⟩
      by_cases hpending : row.entry.status = .pending
      · simp only [rejectEntry, hpending, ne_eq, not_true_eq_false, ↓reduceIte,
          updateEntry_admin hadmin] at h
        cases h
        exact .rejected hadmin hfind hpending
      · simp [rejectEntry, hpending] at h
    · intro h
      cases h with
      | @rejected _ _ row hadmin hfind hpending =>
        refine ⟨hadmin, row, hfind, ?_⟩
        simp only [rejectEntry, hpending, ne_eq, not_true_eq_false, ↓reduceIte]
        exact updateEntry_admin hadmin

theorem act_cases (db : CatalogDb γ) (action : CatalogAction γ υ) :
    (step db action).table = db.table ∨
      (∃ s now request, action = .request s now request ∧
        Granted db s now request (step db action)) ∨
      ∃ seeds n, action = .seed seeds ∧
        seedRows db.table seeds 0 = some ((step db action).table, n) := by
  cases action with
  | request s now request =>
    cases h : respond db s now request with
    | error e => exact .inl (by simp [step, h])
    | ok db' =>
      refine .inr (.inl ⟨s, now, request, rfl, ?_⟩)
      simp only [step, h]
      exact respond_ok.mp h
  | seed seeds =>
    cases h : seedRows db.table seeds 0 with
    | none => exact .inl (by simp [step, h])
    | some p => exact .inr (.inr ⟨seeds, p.2, rfl, by simp [step, h]⟩)
  | refer entryId =>
    simp only [step]
    split <;> exact .inl rfl
  | release entryId => exact .inl rfl

-- ---------------------------------------------------------------------------
-- Who stands behind an entry
-- ---------------------------------------------------------------------------

/-- Every audit column of the entry, and its contents, go back to an action of
the log by someone of the right role. -/
structure Attributed (log : List (CatalogAction γ υ)) (r : CatalogRow γ) : Prop where
  suggested : ∀ u, r.entry.suggestedBy = some u → ∃ s now payload, s.userId = u ∧
    s.role = .editor ∧ .request s now (.propose r.entry.id payload) ∈ log
  pending : r.entry.status = .pending → Undecided r.entry ∧ r.entry.suggestedBy.isSome
  approved : r.entry.status = .approved →
    (r.entry.approvedBy = none ∧ ∃ seeds columns, .seed seeds ∈ log ∧
      (r.entry.id, columns) ∈ seeds) ∨
    ∃ s now, s.role = .admin ∧ r.entry.approvedBy = some s.userId ∧
      (.request s now (.approve r.entry.id) ∈ log ∨
        ∃ payload, .request s now (.propose r.entry.id payload) ∈ log)
  unrejected : r.entry.status = .approved → r.entry.rejectedBy = none ∧
    r.entry.rejectedAt = none ∧ r.entry.rejectReason = none
  rejected : r.entry.status = .rejected → ∃ s now reason, s.role = .admin ∧
    .request s now (.reject r.entry.id reason) ∈ log ∧ r.entry.rejectedBy = some s.userId ∧
    r.entry.rejectedAt = some now ∧ r.entry.rejectReason = some reason
  unapproved : r.entry.status = .rejected → r.entry.approvedBy = none
  columns : (∃ s now, (s.role = .admin ∨ s.role = .editor) ∧
      .request s now (.propose r.entry.id r.columns) ∈ log) ∨
    (∃ seeds, .seed seeds ∈ log ∧ (r.entry.id, r.columns) ∈ seeds) ∨
    ∃ s now payload columns, s.role = .admin ∧ .request s now (.update r.entry.id payload) ∈ log ∧
      CatalogModel.update payload columns = some r.columns

section
variable {log log' : List (CatalogAction γ υ)} {action : CatalogAction γ υ} {id : Uuid}
  {payload : γ}

theorem Attributed.mono (h : Attributed log r) (hlog : ∀ a ∈ log, a ∈ log') :
    Attributed log' r where
  suggested u hu := by
    obtain ⟨s, now, payload, hs, hrole, hmem⟩ := h.suggested u hu
    exact ⟨s, now, payload, hs, hrole, hlog _ hmem⟩
  pending := h.pending
  approved hstatus := by
    rcases h.approved hstatus with ⟨hnone, seeds, columns, hmem, hseed⟩ | ⟨s, now, hs, hby, hmem⟩
    · exact .inl ⟨hnone, seeds, columns, hlog _ hmem, hseed⟩
    · refine .inr ⟨s, now, hs, hby, ?_⟩
      exact hmem.imp (hlog _) fun ⟨payload, hmem⟩ => ⟨payload, hlog _ hmem⟩
  unrejected := h.unrejected
  rejected hstatus := by
    obtain ⟨s, now, reason, hs, hmem, hrest⟩ := h.rejected hstatus
    exact ⟨s, now, reason, hs, hlog _ hmem, hrest⟩
  unapproved := h.unapproved
  columns := by
    rcases h.columns with ⟨s, now, hrole, hmem⟩ | ⟨seeds, hmem, hseed⟩ |
      ⟨s, now, p, c, hs, hmem, hupdate⟩
    · exact .inl ⟨s, now, hrole, hlog _ hmem⟩
    · exact .inr (.inl ⟨seeds, hlog _ hmem, hseed⟩)
    · exact .inr (.inr ⟨s, now, p, c, hs, hlog _ hmem, hupdate⟩)

theorem attributed_proposed (hrole : s.role = .admin ∨ s.role = .editor)
    (hmem : .request s now (.propose id payload) ∈ log) :
    Attributed log (⟨proposeLookup id s.userId (s.role = .admin), payload⟩ : CatalogRow γ) := by
  rcases hrole with hrole | hrole
  · constructor
    case columns => exact .inl ⟨s, now, .inl hrole, hmem⟩
    case approved =>
      exact fun _ => .inr ⟨s, now, hrole, by simp [proposeLookup, hrole], .inr ⟨payload, hmem⟩⟩
    all_goals simp [proposeLookup, hrole]
  · constructor
    case columns => exact .inl ⟨s, now, .inr hrole, hmem⟩
    case suggested =>
      intro u hu
      have hu : s.userId = u := by simpa [proposeLookup, hrole] using hu
      exact ⟨s, now, payload, hu, hrole, hmem⟩
    all_goals simp [proposeLookup, hrole, Undecided]

theorem attributed_seedRow {seeds : List (Uuid × γ)} {seed : Uuid × γ} (hseed : seed ∈ seeds)
    (hmem : .seed seeds ∈ log) : Attributed log (seedRow seed : CatalogRow γ) := by
  constructor
  case columns => exact .inr (.inl ⟨seeds, hmem, hseed⟩)
  case approved => exact fun _ => .inl ⟨rfl, seeds, seed.2, hmem, hseed⟩
  all_goals simp [seedRow, seedEntry]

theorem attributed_step (h : ∀ r ∈ db.table, Attributed log r) (action : CatalogAction γ υ) :
    ∀ r ∈ (step db action).table, Attributed (log ++ [action]) r := by
  have hold : ∀ r ∈ db.table, Attributed (log ++ [action]) r :=
    fun r hr => (h r hr).mono fun a ha => List.mem_append_left _ ha
  have hlast : action ∈ log ++ [action] := List.mem_append_right _ (List.mem_singleton_self _)
  intro r hr
  rcases act_cases db action with heq | ⟨s, now, request, rfl, hgranted⟩ | ⟨seeds, n, rfl, hseeds⟩
  · rw [heq] at hr
    exact hold r hr
  · generalize step db (.request s now request) = db' at hr hgranted
    cases hgranted with
    | proposed hrole hfree hinsert =>
      rcases (Table.mem_insert? hinsert).mp hr with hr | rfl
      · exact hold r hr
      · exact attributed_proposed hrole hlast
    | updated hadmin hfind hupdate hfree =>
      rcases Table.mem_set hr with rfl | ⟨hr, -⟩
      · obtain rfl := Table.key_of_find? hfind
        have hrow := hold _ (Table.mem_of_find? hfind)
        exact ⟨hrow.suggested, hrow.pending, hrow.approved, hrow.unrejected, hrow.rejected,
          hrow.unapproved, .inr (.inr ⟨s, now, _, _, hadmin, hlast, hupdate⟩)⟩
      · exact hold r hr
    | withdrawn hfind hpending hmay hfree => exact hold r (Table.mem_filter.mp hr).1
    | approved hadmin hfind hstatus =>
      rcases Table.mem_set hr with rfl | ⟨hr, -⟩
      · obtain rfl := Table.key_of_find? hfind
        have hrow := hold _ (Table.mem_of_find? hfind)
        exact ⟨hrow.suggested, fun h => (nomatch h),
          fun _ => .inr ⟨s, now, hadmin, rfl, .inl hlast⟩, fun _ => ⟨rfl, rfl, rfl⟩,
          fun h => (nomatch h), fun h => (nomatch h), hrow.columns⟩
      · exact hold r hr
    | @rejected _ reason row hadmin hfind hpending =>
      rcases Table.mem_set hr with rfl | ⟨hr, -⟩
      · obtain rfl := Table.key_of_find? hfind
        have hrow := hold _ (Table.mem_of_find? hfind)
        -- What is pending has no approver yet.
        have hnone := (hrow.pending hpending).1.2.1
        exact ⟨hrow.suggested, fun h => (nomatch h), fun h => (nomatch h), fun h => (nomatch h),
          fun _ => ⟨s, now, reason, hadmin, hlast, rfl, rfl, rfl⟩, fun _ => hnone, hrow.columns⟩
      · exact hold r hr
  · rcases (Seeds.mem_seedRows hseeds).2 r hr with hr | ⟨seed, hseed, rfl⟩
    · exact hold r hr
    · exact attributed_seedRow hseed hlast

theorem attributed_run (h : ∀ r ∈ db.table, Attributed log r) :
    ∀ r ∈ (Run.run step db log').table, Attributed (log ++ log') r := by
  induction log' generalizing db log with
  | nil => simpa using h
  | cons action log' ih =>
    have hstep := ih (attributed_step h action)
    rwa [List.append_assoc, List.singleton_append] at hstep

-- ---------------------------------------------------------------------------
-- References resolve
-- ---------------------------------------------------------------------------

def Resolves (db : CatalogDb γ) : Prop := ∀ id ∈ db.referenced, (db.table.find? id).isSome

theorem find?_step (hrefs : Resolves db) (action : CatalogAction γ υ) (hid : id ∈ db.referenced) :
    ((step db action).table.find? id).isSome := by
  have hfound := hrefs id hid
  rcases act_cases db action with heq | ⟨s, now, request, rfl, hgranted⟩ | ⟨seeds, n, rfl, hseeds⟩
  · rwa [heq]
  · generalize step db (.request s now request) = db' at hgranted
    cases hgranted with
    | proposed hrole hfree hinsert =>
      rw [Table.find?_insert? hinsert]
      split
      · rfl
      · exact hfound
    | updated | approved | rejected =>
      rw [Table.find?_set_isSome]
      exact hfound
    | @withdrawn entryId row hfind hpending hmay hfree =>
      obtain ⟨r, hr⟩ := Option.isSome_iff_exists.mp hfound
      have hne : id ≠ entryId := fun h => hfree (h ▸ hid)
      rw [Table.find?_filter hr]
      · rfl
      · rw [show r.entry.id = id from Table.key_of_find? hr]
        exact decide_eq_true hne
  · obtain ⟨r, hr, hk⟩ := Table.find?_isSome.mp hfound
    exact Table.find?_isSome.mpr ⟨r, (Seeds.mem_seedRows hseeds).1 r hr, hk⟩

theorem resolves_step (hrefs : Resolves db) (action : CatalogAction γ υ) :
    Resolves (step db action) := by
  intro id hid
  cases action with
  | request s now request =>
    refine find?_step hrefs _ ?_
    cases h : respond db s now request with
    | error e => simpa [step, h] using hid
    | ok db' =>
      simp only [step, h] at hid
      cases respond_ok.mp h <;> exact hid
  | seed seeds =>
    refine find?_step hrefs _ ?_
    cases h : seedRows db.table seeds 0 <;> simpa [step, h] using hid
  | refer entryId =>
    simp only [step] at hid ⊢
    split at hid
    · rename_i hfound
      rw [if_pos hfound]
      rcases List.mem_cons.mp hid with rfl | hid
      · exact hfound
      · exact hrefs id hid
    · rename_i hfound
      rw [if_neg hfound]
      exact hrefs id hid
  | release entryId => exact hrefs id (List.mem_of_mem_erase hid)

/-- In every run from an empty catalog, every audit column and the contents of
every entry go back to an action of the run by someone of the right role, and
no withdrawal leaves a reference without its entry. -/
theorem catalog_attributed (actions : List (CatalogAction γ υ)) :
    (∀ r ∈ (Run.run step ⟨∅, []⟩ actions).table, Attributed actions r) ∧
      Resolves (Run.run step (⟨∅, []⟩ : CatalogDb γ) actions) := by
  constructor
  · have hrun : ∀ r ∈ (Run.run step (⟨∅, []⟩ : CatalogDb γ) actions).table,
        Attributed ([] ++ actions) r :=
      attributed_run fun r hr => absurd hr List.not_mem_nil
    simpa using hrun
  · exact Run.preserves (fun id hid => absurd hid List.not_mem_nil)
      fun db action h => resolves_step h action

-- ---------------------------------------------------------------------------
-- Without an admin
-- ---------------------------------------------------------------------------

/-- No admin asks, and nothing is seeded. -/
def CatalogAction.Modest : CatalogAction γ υ → Prop
  | .request s _ _ => s.role ≠ .admin
  | .seed _ => False
  | .refer _ => True
  | .release _ => True

def OwnPending (actions : List (CatalogAction γ υ)) (r : CatalogRow γ) : Prop :=
  r.entry.status = .pending ∧ ∃ s now request, .request s now request ∈ actions ∧
    s.role = .editor ∧ r.entry.suggestedBy = some s.userId

theorem modest_step (hmodest : action.Modest) (hr : ¬ OwnPending [action] r) :
    r ∈ (step db action).table ↔ r ∈ db.table := by
  rcases act_cases db action with heq | ⟨s, now, request, rfl, hgranted⟩ | ⟨seeds, n, rfl, -⟩
  · rw [heq]
  · have hnot : s.role ≠ .admin := hmodest
    generalize step db (.request s now request) = db' at hgranted
    cases hgranted with
    | proposed hrole hfree hinsert =>
      have heditor := hrole.resolve_left hnot
      rw [Table.mem_insert? hinsert]
      refine or_iff_left_of_imp ?_
      rintro rfl
      refine absurd ⟨?_, s, now, _, List.mem_singleton_self _, heditor, ?_⟩ hr
      · simp [proposeLookup, hnot]
      · simp [proposeLookup, hnot]
    | @withdrawn entryId row hfind hpending hmay hfree =>
      obtain ⟨heditor, hown⟩ := hmay.resolve_left hnot
      rw [Table.mem_filter]
      refine and_iff_left_of_imp fun hr' => decide_eq_true ?_
      rintro rfl
      obtain rfl := Table.eq_of_key hr' (Table.mem_of_find? hfind) (Table.key_of_find? hfind).symm
      exact hr ⟨hpending, s, now, _, List.mem_singleton_self _, heditor, hown⟩
    | updated hadmin => exact absurd hadmin hnot
    | approved hadmin => exact absurd hadmin hnot
    | rejected hadmin => exact absurd hadmin hnot
  · exact hmodest.elim

/-- Without an admin, nothing comes or goes or changes but the pending entries
of the editors who ask. -/
theorem catalog_frame {actions : List (CatalogAction γ υ)} (hmodest : ∀ a ∈ actions, a.Modest)
    (hr : ¬ OwnPending actions r) :
    r ∈ (Run.run step db actions).table ↔ r ∈ db.table := by
  induction actions generalizing db with
  | nil => rfl
  | cons action actions ih =>
    have hfirst : ¬ OwnPending [action] r := by
      rintro ⟨hpending, s, now, request, hmem, hrest⟩
      rw [List.mem_singleton] at hmem
      exact hr ⟨hpending, s, now, request, hmem ▸ List.mem_cons_self .., hrest⟩
    have hlater : ¬ OwnPending actions r := by
      rintro ⟨hpending, s, now, request, hmem, hrest⟩
      exact hr ⟨hpending, s, now, request, List.mem_cons_of_mem _ hmem, hrest⟩
    have hactions : ∀ a ∈ actions, a.Modest := fun a ha => hmodest a (List.mem_cons_of_mem _ ha)
    exact (ih hactions hlater).trans (modest_step (hmodest action (List.mem_cons_self ..)) hfirst)

-- ---------------------------------------------------------------------------
-- Seeding again
-- ---------------------------------------------------------------------------

def CatalogAction.Patches : CatalogAction γ υ → Prop
  | .request _ _ (.update _ _) => True
  | _ => False

def Offers (t : Table (CatalogRow γ)) (columns : γ) : Prop :=
  ∃ r ∈ t, r.entry.status = .approved ∧ r.columns = columns

/-- An approved entry stays and stays approved, and nothing but a `PATCH` takes
its columns away. -/
theorem approved_stays (hr : r ∈ db.table) (happroved : r.entry.status = .approved)
    (action : CatalogAction γ υ) :
    ∃ r' ∈ (step db action).table, r'.entry.id = r.entry.id ∧ r'.entry.status = .approved ∧
      (¬ action.Patches → r'.columns = r.columns) := by
  rcases act_cases db action with heq | ⟨s, now, request, rfl, hgranted⟩ | ⟨seeds, n, rfl, hseeds⟩
  · rw [heq]
    exact ⟨r, hr, rfl, happroved, fun _ => rfl⟩
  · generalize step db (.request s now request) = db' at hgranted
    cases hgranted with
    | proposed hrole hfree hinsert =>
      exact ⟨r, (Table.mem_insert? hinsert).mpr (.inl hr), rfl, happroved, fun _ => rfl⟩
    | @updated entryId payload row columns hadmin hfind hupdate hfree =>
      by_cases hk : r.entry.id = row.entry.id
      · obtain rfl := Table.eq_of_key hr (Table.mem_of_find? hfind) hk
        exact ⟨_, Table.mem_set_self hr rfl, rfl, happroved, fun h => absurd trivial h⟩
      · exact ⟨r, Table.mem_set_of_ne hr hk, rfl, happroved, fun _ => rfl⟩
    | @withdrawn entryId row hfind hpending hmay hfree =>
      refine ⟨r, Table.mem_filter.mpr ⟨hr, decide_eq_true ?_⟩, rfl, happroved, fun _ => rfl⟩
      rintro rfl
      obtain rfl := Table.eq_of_key hr (Table.mem_of_find? hfind) (Table.key_of_find? hfind).symm
      exact nomatch happroved.symm.trans hpending
    | @approved entryId row hadmin hfind hstatus =>
      by_cases hk : r.entry.id = row.entry.id
      · obtain rfl := Table.eq_of_key hr (Table.mem_of_find? hfind) hk
        exact ⟨_, Table.mem_set_self hr rfl, rfl, rfl, fun _ => rfl⟩
      · exact ⟨r, Table.mem_set_of_ne hr hk, rfl, happroved, fun _ => rfl⟩
    | @rejected entryId reason row hadmin hfind hpending =>
      refine ⟨r, Table.mem_set_of_ne hr fun hk => ?_, rfl, happroved, fun _ => rfl⟩
      obtain rfl := Table.eq_of_key hr (Table.mem_of_find? hfind) hk
      exact nomatch happroved.symm.trans hpending
  · exact ⟨r, (Seeds.mem_seedRows hseeds).1 r hr, rfl, happroved, fun _ => rfl⟩

theorem offers_step (hpatch : ¬ action.Patches) {columns : γ} (h : Offers db.table columns) :
    Offers (step db action).table columns := by
  obtain ⟨r, hr, happroved, rfl⟩ := h
  obtain ⟨r', hr', -, happroved', hcolumns⟩ := approved_stays hr happroved action
  exact ⟨r', hr', happroved', hcolumns hpatch⟩

end

/-- What was seeded into an empty catalog is not seeded again, after whatever
requests but a `PATCH`. -/
theorem reseed_nothing [Seeds.LawfulCatalog γ] {l : List γ} {uuid7 uuid7' : Nat → Uuid}
    {drawn drawn' n : Nat} {t : Table (CatalogRow γ)} {actions : List (CatalogAction γ υ)}
    (hdistinct : Seeds.Distinct l)
    (hseed : seedRows ∅ (Seeds.withIds uuid7 drawn l) 0 = some (t, n))
    (hactions : ∀ a ∈ actions, ¬ a.Patches) :
    seedRows (Run.run step ⟨t, []⟩ actions).table (Seeds.withIds uuid7' drawn' l) 0 =
      some ((Run.run step ⟨t, []⟩ actions).table, 0) := by
  have hoffers : ∀ columns ∈ l, ∃ c, CatalogModel.unique c columns ∧
      Offers (Run.run step ⟨t, []⟩ actions).table c := by
    intro columns hcolumns
    obtain ⟨r, hr, hunique⟩ := (Seeds.seedRows_seeded hdistinct hseed).held columns hcolumns
    obtain ⟨seed, -, rfl⟩ := ((Seeds.mem_seedRows hseed).2 r hr).resolve_left List.not_mem_nil
    refine ⟨seed.2, hunique, ?_⟩
    have halong : Run.Along step (fun _ a => ¬ a.Patches) (⟨t, []⟩ : CatalogDb γ) actions :=
      Run.along_of_mem fun _ => hactions
    have hstart : Offers (⟨t, []⟩ : CatalogDb γ).table seed.2 := ⟨seedRow seed, hr, rfl, rfl⟩
    have hstep : ∀ (db : CatalogDb γ) (a : CatalogAction γ υ), Offers db.table seed.2 →
        ¬ a.Patches → Offers (step db a).table seed.2 :=
      fun _ _ h hpatch => offers_step hpatch h
    exact halong.invariant hstart hstep
  refine Seeds.seedRows_held fun seed hseed' => ?_
  obtain ⟨c, hunique, r, hr, -, rfl⟩ := hoffers seed.2 (Seeds.mem_withIds hseed').1
  exact ⟨r, hr, hunique⟩

end

theorem catalog_frame_sample :
    (⟨proposeLookup 8 3 false, ⟨sampleNote, none⟩⟩ : CatalogRow LookupColumns) ∈
      (Run.run step ⟨(∅ : Table (CatalogRow LookupColumns)).put
        ⟨proposeLookup 8 3 false, ⟨sampleNote, none⟩⟩, []⟩
        [.request sampleOwner 5 (.propose 90 ⟨sampleTitle, none⟩),
         .request sampleOwner 6 (.withdraw 8)]).table := by
  refine (catalog_frame ?_ ?_).mpr Table.mem_put_self
  · simp [CatalogAction.Modest, sampleOwner]
  · rintro ⟨-, s, now, request, hmem, -, hown⟩
    simp only [List.mem_cons, CatalogAction.request.injEq, List.not_mem_nil, or_false] at hmem
    rcases hmem with ⟨rfl, -⟩ | ⟨rfl, -⟩ <;> simp [proposeLookup, sampleOwner] at hown

def refusedProposal : List (CatalogAction LookupColumns LookupUpdate) :=
  [.request sampleOwner 5 (.propose 90 ⟨sampleTitle, none⟩),
   .request sampleAdmin 6 (.reject 90 sampleNote)]

theorem reseed_nothing_sample :
    ∃ t n, seedRows ∅ (Seeds.withIds id 25 Seeds.handPositions) 0 = some (t, n) ∧
      seedRows (Run.run step ⟨t, []⟩ refusedProposal).table
        (Seeds.withIds id 40 Seeds.handPositions) 0 =
        some ((Run.run step ⟨t, []⟩ refusedProposal).table, 0) := by
  have hfree : ∀ i : Nat, (∅ : Table (CatalogRow LookupColumns)).find? (id i) = none := fun _ => rfl
  obtain ⟨t, n, hseed⟩ := Seeds.seedRows_total Seeds.handPositions 25 Function.injective_id hfree
  refine ⟨t, n, hseed, reseed_nothing Seeds.distinct_handPositions hseed ?_⟩
  simp [refusedProposal, CatalogAction.Patches]

end HcMap.Catalog
