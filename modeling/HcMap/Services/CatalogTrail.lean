import Mathlib.Logic.Function.Basic
import HcMap.Lib.Run
import HcMap.Services.Catalog

/-!
# The audit trail of a catalog

The services that write a catalog, one call after another: proposals, changes
of the other columns, and decisions. They are written once for all four
catalogs, which differ in these columns, in what a `PATCH` may write and in
what is unique.
-/

namespace HcMap.Catalog

-- ---------------------------------------------------------------------------
-- The catalogs
-- ---------------------------------------------------------------------------

structure LookupColumns where
  name : Text
  description : Option Text
  deriving DecidableEq

inductive RestraintCategory
  | handcuffs
  | thumbcuffs
  | legcuffs
  | cuffsLeather
  | rope
  | tape
  | cableTie
  | cloth
  | strap
  | other
  deriving DecidableEq, Repr

inductive RestraintMechanicalType
  | chain
  | hinged
  | rigid
  deriving DecidableEq, Repr

structure RestraintTypeColumns where
  category : RestraintCategory
  brand : Option Text
  model : Option Text
  mechanicalType : Option RestraintMechanicalType
  displayName : Text
  note : Option Text
  deriving DecidableEq

/-- A `PATCH` body, in the terms of `EventUpdate`: the outer `none` is a field
left unset, the inner `none` an explicit null. -/
structure LookupUpdate where
  name : Option (Option Text)
  description : Option (Option Text)
  deriving DecidableEq

structure RestraintTypeUpdate where
  category : Option (Option RestraintCategory)
  brand : Option (Option Text)
  model : Option (Option Text)
  mechanicalType : Option (Option RestraintMechanicalType)
  displayName : Option (Option Text)
  note : Option (Option Text)
  deriving DecidableEq

def updateLookup (payload : LookupUpdate) (columns : LookupColumns) : LookupColumns where
  name := (payload.name.getD none).getD columns.name
  description := payload.description.getD columns.description

/-- `none` is a null in a `NOT NULL` column. -/
def updateRestraintType (payload : RestraintTypeUpdate) (columns : RestraintTypeColumns) :
    Option RestraintTypeColumns := do
  let category ← payload.category.getD (some columns.category)
  let displayName ← payload.displayName.getD (some columns.displayName)
  pure
    { category := category
      brand := payload.brand.getD columns.brand
      model := payload.model.getD columns.model
      mechanicalType := payload.mechanicalType.getD columns.mechanicalType
      displayName := displayName
      note := payload.note.getD columns.note }

class CatalogModel (γ : Type) (υ : outParam Type) where
  /-- The columns after a `PATCH`, or `none` when a constraint refuses them. -/
  update : υ → γ → Option γ
  /-- What the catalog's `UNIQUE` compares. -/
  unique : γ → γ → Bool

instance : CatalogModel LookupColumns LookupUpdate where
  update payload columns := some (updateLookup payload columns)
  unique c c' := c.name = c'.name

/-- `NULLS NOT DISTINCT`. -/
instance : CatalogModel RestraintTypeColumns RestraintTypeUpdate where
  update := updateRestraintType
  unique c c' := c.category = c'.category ∧ c.brand = c'.brand ∧ c.model = c'.model ∧
    c.mechanicalType = c'.mechanicalType

structure CatalogRow (γ : Type) where
  entry : AuditedEntry
  columns : γ
  deriving DecidableEq

instance : Keyed (CatalogRow γ) Uuid := ⟨fun r => r.entry.id⟩

-- ---------------------------------------------------------------------------
-- Calls
-- ---------------------------------------------------------------------------

inductive CallError
  | notFound
  | conflict
  | state (e : CatalogStateError)
  deriving DecidableEq

inductive Call (γ υ : Type)
  | propose (id : Uuid) (columns : γ) (suggestedBy : Uuid) (autoApprove : Bool)
  | update (id : Uuid) (payload : υ)
  | decide (id : Uuid) (decision : Decision)

section
variable {γ υ : Type} [CatalogModel γ υ]

def propose (t : Table (CatalogRow γ)) (row : CatalogRow γ) :
    Except CallError (Table (CatalogRow γ)) :=
  if ∃ r ∈ t, CatalogModel.unique r.columns row.columns then .error .conflict
  else match t.insert? row with
    | none => .error .conflict
    | some t' => .ok t'

def update (t : Table (CatalogRow γ)) (id : Uuid) (payload : υ) :
    Except CallError (Table (CatalogRow γ)) :=
  match t.find? id with
  | none => .error .notFound
  | some row =>
    match CatalogModel.update payload row.columns with
    | none => .error .conflict
    | some columns =>
      if ∃ r ∈ t, r.entry.id ≠ id ∧ CatalogModel.unique r.columns columns then .error .conflict
      else .ok (t.set { row with columns := columns })

def decideOn (t : Table (CatalogRow γ)) (id : Uuid) (decision : Decision) :
    Except CallError (Table (CatalogRow γ)) :=
  match t.find? id with
  | none => .error .notFound
  | some row =>
    match decision.run row.entry with
    | .error e => .error (.state e)
    | .ok none => .ok (t.filter fun r => r.entry.id ≠ id)
    | .ok (some entry) => .ok (t.set { row with entry := entry })

def perform (t : Table (CatalogRow γ)) : Call γ υ → Except CallError (Table (CatalogRow γ))
  | .propose id columns suggestedBy autoApprove =>
    propose t ⟨proposeLookup id suggestedBy autoApprove, columns⟩
  | .update id payload => update t id payload
  | .decide id decision => decideOn t id decision

/-- The transaction of a call that raises is rolled back. -/
def callStep (t : Table (CatalogRow γ)) (call : Call γ υ) : Table (CatalogRow γ) :=
  match perform t call with
  | .ok t' => t'
  | .error _ => t

def Call.id : Call γ υ → Uuid
  | .propose id _ _ _ | .update id _ | .decide id _ => id

structure Ledger (γ : Type) where
  table : Table (CatalogRow γ)
  updatedAt : Uuid → Time
  clock : Time

/-- A call, some time after the one before. Each service that writes a row writes its
`updated_at`, if it changes nothing else. -/
def Ledger.step (l : Ledger γ) (timed : Nat × Call γ υ) : Ledger γ where
  table := callStep l.table timed.2
  updatedAt :=
    match perform l.table timed.2 with
    | .ok _ => Function.update l.updatedAt timed.2.id (l.clock + timed.1 + 1)
    | .error _ => l.updatedAt
  clock := l.clock + timed.1 + 1

end

-- ---------------------------------------------------------------------------
-- What a call does
-- ---------------------------------------------------------------------------

section
variable {γ υ : Type} [CatalogModel γ υ] {t t' t'' : Table (CatalogRow γ)} {call : Call γ υ}
  {calls : List (Call γ υ)} {row r : CatalogRow γ} {id : Uuid}

@[simp] theorem key_catalogRow (r : CatalogRow γ) : key r = r.entry.id := rfl

inductive Performed (t : Table (CatalogRow γ)) : Call γ υ → Table (CatalogRow γ) → Prop
  | proposed {id columns suggestedBy autoApprove t'}
      (hinsert : t.insert? ⟨proposeLookup id suggestedBy autoApprove, columns⟩ = some t') :
      Performed t (.propose id columns suggestedBy autoApprove) t'
  | updated {id payload row columns} (hfind : t.find? id = some row) :
      Performed t (.update id payload) (t.set { row with columns := columns })
  | decided {id decision row entry} (hfind : t.find? id = some row)
      (hrun : decision.run row.entry = .ok (some entry)) :
      Performed t (.decide id decision) (t.set { row with entry := entry })
  | withdrawn {id decision row} (hfind : t.find? id = some row)
      (hrun : decision.run row.entry = .ok none) :
      Performed t (.decide id decision) (t.filter fun r => r.entry.id ≠ id)

theorem perform_cases (h : perform t call = .ok t') : Performed t call t' := by
  cases call with
  | propose id columns suggestedBy autoApprove =>
    simp only [perform, propose] at h
    split at h
    · cases h
    · split at h
      · cases h
      · rename_i hinsert
        cases h
        exact .proposed hinsert
  | update id payload =>
    simp only [perform, update] at h
    split at h
    · cases h
    · rename_i row hfind
      split at h
      · cases h
      · split at h
        · cases h
        · cases h
          exact .updated hfind
  | decide id decision =>
    simp only [perform, decideOn] at h
    split at h
    · cases h
    · rename_i row hfind
      split at h
      · cases h
      · rename_i hrun
        cases h
        exact .withdrawn hfind hrun
      · rename_i hrun
        cases h
        exact .decided hfind hrun

theorem callStep_cases (t : Table (CatalogRow γ)) (call : Call γ υ) :
    callStep t call = t ∨ Performed t call (callStep t call) := by
  unfold callStep
  split
  · rename_i h
    exact .inr (perform_cases h)
  · exact .inl rfl

-- ---------------------------------------------------------------------------
-- The trail
-- ---------------------------------------------------------------------------

/-- The audit columns say what the status says. -/
structure Audited (entry : AuditedEntry) : Prop where
  pending : entry.status = .pending → entry.approvedBy = none ∧ entry.rejectedBy = none
  rejected : entry.status = .rejected →
    entry.rejectedBy.isSome ∧ entry.rejectedAt.isSome ∧ entry.rejectReason.isSome

/-- Decisions stand: what is not pending keeps its status, and its approver. -/
def Stands (t t' : Table (CatalogRow γ)) : Prop :=
  ∀ r ∈ t, r.entry.status ≠ .pending → ∃ r' ∈ t', r'.entry.id = r.entry.id ∧
    r'.entry.status = r.entry.status ∧
    (r.entry.status = .approved → r'.entry.approvedBy = r.entry.approvedBy)

def Call.Approves (id admin : Uuid) : Call γ υ → Prop
  | .propose id' _ suggestedBy autoApprove => id' = id ∧ autoApprove ∧ suggestedBy = admin
  | .decide id' (.approve approvedBy) => id' = id ∧ approvedBy = admin
  | _ => False

def Untouched (l l' : Ledger γ) (r : CatalogRow γ) : Prop :=
  r ∈ l'.table ∧ l'.updatedAt r.entry.id = l.updatedAt r.entry.id

/-- The audit trail of a run. -/
structure AuditTrail (l : Ledger γ) (calls : List (Nat × Call γ υ)) : Prop where
  audited : Run.Always Ledger.step (fun l => ∀ r ∈ l.table, Audited r.entry) l calls
  stands : ∀ before between after, calls = before ++ between ++ after →
    Stands (Run.run Ledger.step l before).table (Run.run Ledger.step l (before ++ between)).table
  approver : ∀ before timed after, calls = before ++ timed :: after →
    ∀ r ∈ (Run.run Ledger.step l (before ++ [timed])).table, r.entry.status = .approved →
      (∃ r' ∈ (Run.run Ledger.step l before).table,
        r'.entry.id = r.entry.id ∧ r'.entry.status = .approved) ∨
      ∃ admin, timed.2.Approves r.entry.id admin ∧ r.entry.approvedBy = some admin
  /-- A repeated approval is a no-op. -/
  repeated : ∀ before delay approvedBy after, ∀ r ∈ (Run.run Ledger.step l before).table,
    calls = before ++ (delay, .decide r.entry.id (.approve approvedBy)) :: after →
    r.entry.status = .approved →
      Untouched (Run.run Ledger.step l before) (Run.run Ledger.step l
        (before ++ [(delay, .decide r.entry.id (.approve approvedBy))])) r
  refused : ∀ before timed after err, calls = before ++ timed :: after →
    perform (Run.run Ledger.step l before).table timed.2 = .error (.state err) →
      (Run.run Ledger.step l (before ++ [timed])).table = (Run.run Ledger.step l before).table ∧
        (Run.run Ledger.step l (before ++ [timed])).updatedAt =
          (Run.run Ledger.step l before).updatedAt

def ApprovesOnce (t : Table (CatalogRow γ)) : Call γ υ → Prop
  | .decide id (.approve _) => ∀ r ∈ t, r.entry.id = id → r.entry.status ≠ .approved
  | _ => True

instance : ∀ (t : Table (CatalogRow γ)) (call : Call γ υ), Decidable (ApprovesOnce t call)
  | t, .decide id (.approve _) =>
    inferInstanceAs (Decidable (∀ r ∈ t, r.entry.id = id → r.entry.status ≠ .approved))
  | _, .decide _ (.reject ..) => .isTrue trivial
  | _, .decide _ .withdraw => .isTrue trivial
  | _, .propose .. => .isTrue trivial
  | _, .update .. => .isTrue trivial

theorem audited_proposeLookup (id suggestedBy : Uuid) (autoApprove : Bool) :
    Audited (proposeLookup id suggestedBy autoApprove) := by
  cases autoApprove
  · exact ⟨fun _ => ⟨rfl, rfl⟩, fun h => (nomatch h)⟩
  · exact ⟨fun h => (nomatch h), fun h => (nomatch h)⟩

theorem Audited.run {entry new : AuditedEntry} {decision : Decision}
    (h : decision.run entry = .ok (some new)) : Audited new := by
  cases decision with
  | approve approvedBy =>
    cases run_approve_ok h
    exact ⟨fun h => (nomatch h), fun h => (nomatch h)⟩
  | reject rejectedBy reason now =>
    cases run_reject_ok h
    exact ⟨fun h => (nomatch h), fun _ => ⟨rfl, rfl, rfl⟩⟩
  | withdraw => cases run_withdraw_ok h

theorem id_run {entry new : AuditedEntry} {decision : Decision}
    (h : decision.run entry = .ok (some new)) : new.id = entry.id := by
  cases decision with
  | approve approvedBy =>
    cases run_approve_ok h
    rfl
  | reject rejectedBy reason now =>
    cases run_reject_ok h
    rfl
  | withdraw => cases run_withdraw_ok h

theorem audited_step (h : ∀ r ∈ t, Audited r.entry) (call : Call γ υ) :
    ∀ r ∈ callStep t call, Audited r.entry := by
  rcases callStep_cases t call with heq | hperformed
  · rw [heq]
    exact h
  generalize callStep t call = t' at hperformed
  intro r hr
  cases hperformed with
  | proposed hinsert =>
    rcases (Table.mem_insert? hinsert).mp hr with hr | rfl
    · exact h r hr
    · exact audited_proposeLookup _ _ _
  | updated hfind =>
    rcases Table.mem_set hr with rfl | ⟨hr, -⟩
    · have hrow := h _ (Table.mem_of_find? hfind)
      exact hrow
    · exact h r hr
  | decided hfind hrun =>
    rcases Table.mem_set hr with rfl | ⟨hr, -⟩
    · exact .run hrun
    · exact h r hr
  | withdrawn hfind hrun => exact h r (Table.mem_filter.mp hr).1

theorem Stands.refl (t : Table (CatalogRow γ)) : Stands t t :=
  fun r hr _ => ⟨r, hr, rfl, rfl, fun _ => rfl⟩

theorem Stands.trans (h : Stands t t') (h' : Stands t' t'') : Stands t t'' := by
  intro r hr hdecided
  obtain ⟨r', hr', hid, hstatus, hby⟩ := h r hr hdecided
  obtain ⟨r'', hr'', hid', hstatus', hby'⟩ := h' r' hr' (hstatus ▸ hdecided)
  refine ⟨r'', hr'', hid'.trans hid, hstatus'.trans hstatus, fun happroved => ?_⟩
  exact (hby' (hstatus ▸ happroved)).trans (hby happroved)

theorem stands_set (hfind : t.find? id = some row) (hid : r.entry.id = row.entry.id)
    (hkeeps : row.entry.status ≠ .pending → r.entry.status = row.entry.status ∧
      (row.entry.status = .approved → r.entry.approvedBy = row.entry.approvedBy)) :
    Stands t (t.set r) := by
  have hrow := Table.mem_of_find? hfind
  intro x hx hdecided
  by_cases hk : x.entry.id = row.entry.id
  · obtain rfl := Table.eq_of_key hx hrow hk
    obtain ⟨hstatus, hby⟩ := hkeeps hdecided
    exact ⟨r, Table.mem_set_self hx hid.symm, hid, hstatus, hby⟩
  · refine ⟨x, Table.mem_set_of_ne hx ?_, rfl, rfl, fun _ => rfl⟩
    rw [key_catalogRow, key_catalogRow, hid]
    exact hk

theorem run_withdrawn_pending {entry : AuditedEntry} {decision : Decision}
    (h : decision.run entry = .ok none) : entry.status = .pending := by
  cases run_ok_none h
  rcases run_ok_status h with hpending | ⟨-, approvedBy, happrove⟩
  · exact hpending
  · cases happrove

theorem ApprovesOnce.stands (honce : ApprovesOnce t call) : Stands t (callStep t call) := by
  rcases callStep_cases t call with heq | hperformed
  · rw [heq]
    exact Stands.refl t
  generalize callStep t call = t' at hperformed
  cases hperformed with
  | proposed hinsert =>
    exact fun r hr _ => ⟨r, (Table.mem_insert? hinsert).mpr (.inl hr), rfl, rfl, fun _ => rfl⟩
  | updated hfind => exact stands_set hfind rfl fun _ => ⟨rfl, fun _ => rfl⟩
  | @decided id decision row entry hfind hrun =>
    refine stands_set hfind (id_run hrun) fun hdecided => ?_
    rcases run_ok_status hrun with hpending | ⟨happroved, approvedBy, rfl⟩
    · exact absurd hpending hdecided
    · exact absurd happroved (honce row (Table.mem_of_find? hfind) (Table.key_of_find? hfind))
  | @withdrawn id decision row hfind hrun =>
    intro r hr hdecided
    refine ⟨r, Table.mem_filter.mpr ⟨hr, ?_⟩, rfl, rfl, fun _ => rfl⟩
    refine decide_eq_true fun hid => hdecided ?_
    rw [Table.eq_of_key hr (Table.mem_of_find? hfind)
      (hid.trans (Table.key_of_find? hfind).symm)]
    exact run_withdrawn_pending hrun

theorem approver_step (call : Call γ υ) (hr : r ∈ callStep t call)
    (happroved : r.entry.status = .approved) :
    (∃ r' ∈ t, r'.entry.id = r.entry.id ∧ r'.entry.status = .approved) ∨
      ∃ admin, call.Approves r.entry.id admin ∧ r.entry.approvedBy = some admin := by
  rcases callStep_cases t call with heq | hperformed
  · rw [heq] at hr
    exact .inl ⟨r, hr, rfl, happroved⟩
  generalize callStep t call = t' at hr hperformed
  cases hperformed with
  | @proposed id columns suggestedBy autoApprove _ hinsert =>
    rcases (Table.mem_insert? hinsert).mp hr with hr | rfl
    · exact .inl ⟨r, hr, rfl, happroved⟩
    · cases autoApprove with
      | false => cases happroved
      | true => exact .inr ⟨suggestedBy, ⟨rfl, rfl, rfl⟩, rfl⟩
  | updated hfind =>
    rcases Table.mem_set hr with rfl | ⟨hr, -⟩
    · exact .inl ⟨_, Table.mem_of_find? hfind, rfl, happroved⟩
    · exact .inl ⟨r, hr, rfl, happroved⟩
  | @decided id decision row entry hfind hrun =>
    rcases Table.mem_set hr with rfl | ⟨hr, -⟩
    · cases decision with
      | withdraw => cases run_withdraw_ok hrun
      | reject rejectedBy reason now =>
        cases run_reject_ok hrun
        cases happroved
      | approve approvedBy =>
        cases run_approve_ok hrun
        exact .inr ⟨approvedBy, ⟨(Table.key_of_find? hfind).symm, rfl⟩, rfl⟩
    · exact .inl ⟨r, hr, rfl, happroved⟩
  | withdrawn hfind hrun => exact .inl ⟨r, (Table.mem_filter.mp hr).1, rfl, happroved⟩

-- ---------------------------------------------------------------------------
-- Every run
-- ---------------------------------------------------------------------------

variable {l : Ledger γ} {calls : List (Nat × Call γ υ)} {timed : Nat × Call γ υ}

theorem step_refused {err : CallError} (h : perform l.table timed.2 = .error err) :
    (l.step timed).table = l.table ∧ (l.step timed).updatedAt = l.updatedAt := by
  simp [Ledger.step, callStep, h]

/-- An approval of what is approved already writes the row again. -/
theorem approve_again {delay : Nat} {approvedBy : Uuid} (hr : r ∈ l.table)
    (happroved : r.entry.status = .approved) :
    (l.step (delay, (.decide r.entry.id (.approve approvedBy) : Call γ υ))).updatedAt r.entry.id =
      l.clock + delay + 1 := by
  have hfind : l.table.find? r.entry.id = some r := Table.find?_eq_some.mpr ⟨hr, rfl⟩
  simp [Ledger.step, perform, decideOn, hfind, Decision.run, approveEntry, happroved, Except.map,
    Call.id]

def Ledger.Past (l : Ledger γ) : Prop := ∀ id, l.updatedAt id ≤ l.clock

theorem Ledger.Past.step (h : l.Past) (timed : Nat × Call γ υ) : (l.step timed).Past := by
  intro id
  have hlater : l.updatedAt id ≤ l.clock + timed.1 + 1 :=
    Nat.le_trans (h id) (Nat.le_trans (Nat.le_add_right ..) (Nat.le_succ _))
  simp only [Ledger.step]
  cases perform l.table timed.2 with
  | error => exact hlater
  | ok t =>
    by_cases hid : id = timed.2.id
    · subst hid
      simp
    · simpa [hid] using hlater

theorem stands_run
    (h : Run.Along Ledger.step (fun l timed => ApprovesOnce l.table timed.2) l calls) :
    Stands l.table (Run.run Ledger.step l calls).table := by
  induction calls generalizing l with
  | nil => exact Stands.refl l.table
  | cons timed calls ih =>
    have hstep : Stands l.table (l.step timed).table := h.1.stands
    exact hstep.trans (ih h.2)

/-- The trail of a run is in order when nobody approves what is approved already,
and only then. -/
theorem auditTrail_iff (h0 : ∀ r ∈ l.table, Audited r.entry) (hpast : l.Past) :
    AuditTrail l calls ↔
      Run.Along Ledger.step (fun l timed => ApprovesOnce l.table timed.2) l calls := by
  constructor
  · intro h
    by_contra hbad
    obtain ⟨good, ⟨delay, call⟩, rest, rfl, -, hcall⟩ := Run.exists_bad_step hbad
    have hpast' : (Run.run Ledger.step l good).Past :=
      Run.preserves hpast fun _ timed h => h.step timed
    cases call with
    | propose | update => exact hcall trivial
    | decide id decision =>
      cases decision with
      | reject | withdraw => exact hcall trivial
      | approve approvedBy =>
        refine hcall ?_
        rintro r hr rfl happroved
        obtain ⟨-, hsame⟩ := h.repeated good delay approvedBy rest r hr rfl happroved
        rw [Run.run_append, Run.run_cons, Run.run_nil, approve_again hr happroved] at hsame
        have hbefore : (Run.run Ledger.step l good).updatedAt r.entry.id ≤
            (Run.run Ledger.step l good).clock := hpast' r.entry.id
        rw [← hsame] at hbefore
        exact Nat.not_succ_le_self _ (Nat.le_trans (Nat.succ_le_succ (Nat.le_add_right ..)) hbefore)
  · intro honce
    have hkeeps : Run.Always Ledger.step (fun l => ∀ r ∈ l.table, Audited r.entry) l calls :=
      honce.always h0 (fun _ timed h _ => audited_step h timed.2) fun _ h => h
    refine ⟨hkeeps, ?_, ?_, ?_, ?_⟩
    · rintro before between after rfl
      have hbetween := (Run.along_append.mp (Run.along_append.mp honce).1).2
      rw [Run.run_append]
      exact stands_run hbetween
    · rintro before timed after rfl r hr happroved
      rw [Run.run_append] at hr
      exact approver_step timed.2 hr happroved
    · rintro before delay approvedBy after r hr rfl happroved
      exact absurd happroved ((Run.along_append.mp honce).2.1 r hr rfl)
    · rintro before timed after err rfl herr
      rw [Run.run_append]
      exact step_refused herr

end

def approvedProposal (calls : List (Nat × Call LookupColumns LookupUpdate)) :
    List (Nat × Call LookupColumns LookupUpdate) :=
  (5, .propose 7 ⟨sampleTitle, none⟩ 2 false) :: (5, .decide 7 (.approve 1)) :: calls

def emptyLedger : Ledger LookupColumns := ⟨∅, fun _ => 0, 0⟩

theorem auditTrail_iff_sample :
    AuditTrail emptyLedger (approvedProposal
      [(5, .decide 7 (.reject 1 sampleNote 9)), (5, .update 7 ⟨some (some sampleNote), none⟩)]) :=
  (auditTrail_iff (fun _ hr => absurd hr List.not_mem_nil) fun _ => Nat.le_refl 0).mpr (by decide)

/-- A second admin's approval is not a no-op. -/
theorem approve_twice :
    ¬ AuditTrail emptyLedger (approvedProposal [(5, .decide 7 (.approve 3))]) := by
  intro h
  have hbefore :
      (⟨⟨⟨7, .approved, some 2⟩, some 1, none, none, none⟩, ⟨sampleTitle, none⟩⟩ :
        CatalogRow LookupColumns) ∈
          (Run.run Ledger.step emptyLedger (approvedProposal [])).table := by
    decide
  obtain ⟨hsame, -⟩ := h.repeated (approvedProposal []) 5 3 [] _ hbefore rfl rfl
  revert hsame
  decide

end HcMap.Catalog
