import HcMap.Db.Rows

/-!
# Catalog decisions

`approve_entry`, `reject_entry` and `withdraw_entry`, the same for all four
catalogs, and the `UPDATE` their flush sends. `updated_at`, which each of them
writes and none reads, stands beside the table in `CatalogTrail`.
-/

namespace HcMap.Catalog

structure AuditedEntry extends CatalogEntry where
  approvedBy : Option Uuid
  rejectedBy : Option Uuid
  rejectedAt : Option Time
  rejectReason : Option Text
  deriving DecidableEq

def proposeLookup (id suggestedBy : Uuid) (autoApprove : Bool) : AuditedEntry where
  id := id
  status := if autoApprove then .approved else .pending
  suggestedBy := if autoApprove then none else some suggestedBy
  approvedBy := if autoApprove then some suggestedBy else none
  rejectedBy := none
  rejectedAt := none
  rejectReason := none

def Undecided (entry : AuditedEntry) : Prop :=
  entry.status = .pending ∧ entry.approvedBy = none ∧ entry.rejectedBy = none ∧
    entry.rejectedAt = none ∧ entry.rejectReason = none

theorem undecided_proposeLookup (id suggestedBy : Uuid) :
    Undecided (proposeLookup id suggestedBy false) := by
  simp [Undecided, proposeLookup]

-- ---------------------------------------------------------------------------
-- The services
-- ---------------------------------------------------------------------------

structure CatalogStateError where
  message : String
  deriving DecidableEq

def statusValue : CatalogStatus → String
  | .approved => "approved"
  | .pending => "pending"
  | .rejected => "rejected"

/-- The entity as `approve_entry` leaves it for the flush. -/
def approveEntry (entry : AuditedEntry) (approvedBy : Uuid) :
    Except CatalogStateError AuditedEntry :=
  if entry.status = .rejected then .error ⟨"Cannot approve a rejected entry directly."⟩
  else
    .ok { entry with
          status := .approved
          approvedBy := some approvedBy
          rejectedBy := none
          rejectedAt := none
          rejectReason := none }

def rejectEntry (entry : AuditedEntry) (rejectedBy : Uuid) (reason : Text) (now : Time) :
    Except CatalogStateError AuditedEntry :=
  if entry.status ≠ .pending then
    .error ⟨"Cannot reject from status=" ++ statusValue entry.status ++ "; only 'pending' allowed."⟩
  else
    .ok { entry with
          status := .rejected
          rejectedBy := some rejectedBy
          rejectedAt := some now
          rejectReason := some reason }

def withdrawEntry (entry : AuditedEntry) : Except CatalogStateError Unit :=
  if entry.status ≠ .pending then
    .error
      ⟨"Cannot withdraw from status=" ++ statusValue entry.status ++ "; only 'pending' allowed."⟩
  else .ok ()

inductive Decision
  | approve (approvedBy : Uuid)
  | reject (rejectedBy : Uuid) (reason : Text) (now : Time)
  | withdraw
  deriving DecidableEq

/-- The check on the loaded entity, and what is left to flush: the entity with
its new values, or its deletion. -/
def Decision.run (entry : AuditedEntry) : Decision → Except CatalogStateError (Option AuditedEntry)
  | .approve approvedBy => (approveEntry entry approvedBy).map some
  | .reject rejectedBy reason now => (rejectEntry entry rejectedBy reason now).map some
  | .withdraw => (withdrawEntry entry).map fun _ => none

-- ---------------------------------------------------------------------------
-- The flush
-- ---------------------------------------------------------------------------

/-- A column is in the `UPDATE` only if its value is not the loaded one. -/
def setColumn {α : Type} [DecidableEq α] (loaded new current : α) : α :=
  if new = loaded then current else new

/-- The `UPDATE` by primary key: it writes the changed columns onto the row it
finds, which need not be the row that was loaded. -/
def flushUpdate (loaded new current : AuditedEntry) : AuditedEntry where
  id := current.id
  status := setColumn loaded.status new.status current.status
  suggestedBy := current.suggestedBy
  approvedBy := setColumn loaded.approvedBy new.approvedBy current.approvedBy
  rejectedBy := setColumn loaded.rejectedBy new.rejectedBy current.rejectedBy
  rejectedAt := setColumn loaded.rejectedAt new.rejectedAt current.rejectedAt
  rejectReason := setColumn loaded.rejectReason new.rejectReason current.rejectReason

@[simp] theorem setColumn_self {α : Type} [DecidableEq α] (loaded new : α) :
    setColumn loaded new loaded = new := by
  unfold setColumn
  split
  · rename_i h
    exact h.symm
  · rfl

section
variable {entry loaded current : AuditedEntry} {decision : Decision} {target : Option AuditedEntry}
  {approvedBy rejectedBy : Uuid} {reason : Text} {now : Time}

theorem run_ok_status (h : decision.run entry = .ok target) :
    entry.status = .pending ∨
      (entry.status = .approved ∧ ∃ approvedBy, decision = .approve approvedBy) := by
  cases decision with
  | approve approvedBy =>
    simp only [Decision.run, approveEntry] at h
    split at h
    · cases h
    · rename_i hs
      cases hstatus : entry.status with
      | pending => exact .inl rfl
      | approved => exact .inr ⟨rfl, approvedBy, rfl⟩
      | rejected => exact absurd hstatus hs
  | reject rejectedBy reason now =>
    simp only [Decision.run, rejectEntry] at h
    split at h
    · cases h
    · rename_i hs
      exact .inl (not_not.mp hs)
  | withdraw =>
    simp only [Decision.run, withdrawEntry] at h
    split at h
    · cases h
    · rename_i hs
      exact .inl (not_not.mp hs)

theorem run_error_status {err : CatalogStateError} (h : decision.run entry = .error err) :
    entry.status ≠ .pending := by
  intro hs
  cases decision <;>
    simp [Decision.run, approveEntry, rejectEntry, withdrawEntry, hs, Except.map] at h

theorem run_approve_ok (h : (Decision.approve approvedBy).run entry = .ok target) :
    target = some { entry with
      status := .approved, approvedBy := some approvedBy, rejectedBy := none, rejectedAt := none,
      rejectReason := none } := by
  simp only [Decision.run, approveEntry] at h
  split at h
  · cases h
  · cases h
    rfl

theorem run_reject_ok (h : (Decision.reject rejectedBy reason now).run entry = .ok target) :
    target = some { entry with
      status := .rejected, rejectedBy := some rejectedBy, rejectedAt := some now,
      rejectReason := some reason } := by
  simp only [Decision.run, rejectEntry] at h
  split at h
  · cases h
  · cases h
    rfl

theorem run_withdraw_ok (h : Decision.withdraw.run entry = .ok target) : target = none := by
  simp only [Decision.run, withdrawEntry] at h
  split at h
  · cases h
  · cases h
    rfl

theorem run_ok_none (h : decision.run entry = .ok none) : decision = .withdraw := by
  cases decision with
  | approve approvedBy => cases run_approve_ok h
  | reject rejectedBy reason now => cases run_reject_ok h
  | withdraw => rfl

theorem flushUpdate_self (h : decision.run entry = .ok target) :
    target.map (fun new => flushUpdate entry new entry) = target := by
  cases decision with
  | approve approvedBy =>
    rw [run_approve_ok h]
    simp [flushUpdate]
  | reject rejectedBy reason now =>
    rw [run_reject_ok h]
    simp [flushUpdate]
  | withdraw =>
    rw [run_withdraw_ok h]
    rfl

end

end HcMap.Catalog
