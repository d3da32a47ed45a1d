import HcMap.Lib.Lock
import HcMap.Lib.Run
import HcMap.Services.Catalog

/-!
# Concurrent catalog decisions

Requests of several admins on one catalog entry, side by side under READ
COMMITTED. Each loads the committed row and checks its status, then writes by
primary key, then commits. A write waits while another transaction has written
the row. An `UPDATE` that finds the row gone raises `StaleDataError`; a
`DELETE` that does only warns. A transaction may be lost at any time.
-/

namespace HcMap.Catalog

-- ---------------------------------------------------------------------------
-- Transactions
-- ---------------------------------------------------------------------------

/-- Where a request is. `wrote` holds the row's lock; `failed` has answered
404, 409 or 500, `lost` has answered nothing. -/
inductive Place
  | ready
  | checked (loaded : AuditedEntry) (target : Option AuditedEntry)
  | wrote (loaded : AuditedEntry) (row : Option AuditedEntry)
  | deletedNothing (loaded : AuditedEntry)
  | succeeded (loaded : AuditedEntry)
  | failed
  | lost
  deriving DecidableEq

def Place.holdsLock : Place → Bool
  | .wrote .. => true
  | _ => false

/-- The committed row, the transaction that has written it, and the requests. -/
structure Server (ι : Type) where
  entry : Option AuditedEntry
  lock : Option ι
  place : ι → Place

inductive Act (ι : Type)
  | read (i : ι)
  | write (i : ι)
  | commit (i : ι)
  | abort (i : ι)

namespace Server

variable {ι : Type} [DecidableEq ι] (requests : ι → Decision)

def start (entry : AuditedEntry) : Server ι := ⟨some entry, none, fun _ => .ready⟩

def goto (s : Server ι) (i : ι) (p : Place) : Server ι :=
  { s with place := Function.update s.place i p }

def read (s : Server ι) (i : ι) : Server ι :=
  match s.place i, s.entry with
  | .ready, none => s.goto i .failed
  | .ready, some entry =>
    match (requests i).run entry with
    | .error _ => s.goto i .failed
    | .ok target => s.goto i (.checked entry target)
  | _, _ => s

def write (s : Server ι) (i : ι) : Server ι :=
  match s.place i, s.lock with
  | .checked loaded target, none =>
    match s.entry, target with
    | some current, some new =>
      { s.goto i (.wrote loaded (some (flushUpdate loaded new current))) with lock := some i }
    | some _, none => { s.goto i (.wrote loaded none) with lock := some i }
    | none, some _ => s.goto i .failed
    | none, none => s.goto i (.deletedNothing loaded)
  | _, _ => s

def commit (s : Server ι) (i : ι) : Server ι :=
  match s.place i with
  | .wrote loaded row => { s.goto i (.succeeded loaded) with entry := row, lock := none }
  | .deletedNothing loaded => s.goto i (.succeeded loaded)
  | _ => s

def abort (s : Server ι) (i : ι) : Server ι :=
  match s.place i with
  | .succeeded _ | .failed => s
  | .wrote .. => { s.goto i .lost with lock := none }
  | _ => s.goto i .lost

def step (s : Server ι) : Act ι → Server ι
  | .read i => s.read requests i
  | .write i => s.write i
  | .commit i => s.commit i
  | .abort i => s.abort i

end Server

section
variable {ι : Type} [DecidableEq ι] {requests : ι → Decision} {s : Server ι} {e0 : AuditedEntry}

-- ---------------------------------------------------------------------------
-- What a step does
-- ---------------------------------------------------------------------------

inductive Outcome (requests : ι → Decision) (s : Server ι) : Act ι → Server ι → Prop
  | idle {act} : Outcome requests s act s
  | gone {i} (hp : s.place i = .ready) (hentry : s.entry = none) :
      Outcome requests s (.read i) (s.goto i .failed)
  | refused {i entry err} (hp : s.place i = .ready) (hentry : s.entry = some entry)
      (hrun : (requests i).run entry = .error err) :
      Outcome requests s (.read i) (s.goto i .failed)
  | checked {i entry target} (hp : s.place i = .ready) (hentry : s.entry = some entry)
      (hrun : (requests i).run entry = .ok target) :
      Outcome requests s (.read i) (s.goto i (.checked entry target))
  | wrote {i loaded target current} (hp : s.place i = .checked loaded target)
      (hfree : s.lock = none) (hentry : s.entry = some current) :
      Outcome requests s (.write i)
        { s.goto i (.wrote loaded (target.map fun new => flushUpdate loaded new current)) with
          lock := some i }
  | stale {i loaded new} (hp : s.place i = .checked loaded (some new)) (hfree : s.lock = none)
      (hentry : s.entry = none) : Outcome requests s (.write i) (s.goto i .failed)
  | deletedNothing {i loaded} (hp : s.place i = .checked loaded none) (hfree : s.lock = none)
      (hentry : s.entry = none) : Outcome requests s (.write i) (s.goto i (.deletedNothing loaded))
  | committed {i loaded row} (hp : s.place i = .wrote loaded row) :
      Outcome requests s (.commit i)
        { s.goto i (.succeeded loaded) with entry := row, lock := none }
  | committedNothing {i loaded} (hp : s.place i = .deletedNothing loaded) :
      Outcome requests s (.commit i) (s.goto i (.succeeded loaded))
  | rolledBack {i loaded row} (hp : s.place i = .wrote loaded row) :
      Outcome requests s (.abort i) { s.goto i .lost with lock := none }
  | aborted {i} (hp : (s.place i).holdsLock = false) (hopen : ∀ e, s.place i ≠ .succeeded e) :
      Outcome requests s (.abort i) (s.goto i .lost)

theorem step_cases (requests : ι → Decision) (s : Server ι) (act : Act ι) :
    Outcome requests s act (s.step requests act) := by
  cases act with
  | read i =>
    simp only [Server.step, Server.read]
    split
    · rename_i hp hentry
      exact .gone hp hentry
    · rename_i hp hentry
      split
      · rename_i hrun
        exact .refused hp hentry hrun
      · rename_i hrun
        exact .checked hp hentry hrun
    · exact .idle
  | write i =>
    simp only [Server.step, Server.write]
    split
    · rename_i loaded target hp hfree
      split
      · rename_i current new hentry
        exact .wrote hp hfree hentry
      · rename_i hentry
        exact .wrote hp hfree hentry
      · rename_i hentry
        exact .stale hp hfree hentry
      · rename_i hentry
        exact .deletedNothing hp hfree hentry
    · exact .idle
  | commit i =>
    simp only [Server.step, Server.commit]
    split
    · rename_i hp
      exact .committed hp
    · rename_i hp
      exact .committedNothing hp
    · exact .idle
  | abort i =>
    simp only [Server.step, Server.abort]
    split
    · exact .idle
    · exact .idle
    · rename_i hp
      exact .rolledBack hp
    · rename_i hs hf hw
      refine .aborted ?_ hs
      cases hp : s.place i with
      | wrote loaded row => exact absurd hp (hw loaded row)
      | _ => rfl

end

section
variable {ι : Type} {requests : ι → Decision} {s : Server ι} {e0 : AuditedEntry}

-- ---------------------------------------------------------------------------
-- Stable decisions
-- ---------------------------------------------------------------------------

/-- The request took the entry out of `pending`; an approval of an entry that
was approved already decides nothing. -/
def Server.Decides (s : Server ι) (i : ι) : Prop :=
  ∃ loaded, s.place i = .succeeded loaded ∧ loaded.status = .pending

def Server.Approver (requests : ι → Decision) (s : Server ι) (approvedBy : Uuid) : Prop :=
  ∃ i loaded, s.place i = .succeeded loaded ∧ requests i = .approve approvedBy

def NotRejected (e : AuditedEntry) : Prop :=
  e.rejectedBy = none ∧ e.rejectedAt = none ∧ e.rejectReason = none

/-- The audit columns are those of the status, each from a request that set it. -/
def AuditFits (requests : ι → Decision) (s : Server ι) (e : AuditedEntry) : Prop :=
  match e.status with
  | .pending => e.approvedBy = none ∧ NotRejected e
  | .approved => NotRejected e ∧ ∃ approvedBy, e.approvedBy = some approvedBy ∧
      s.Approver requests approvedBy
  | .rejected => e.approvedBy = none ∧ ∃ i rejectedBy reason now,
      requests i = .reject rejectedBy reason now ∧ s.Decides i ∧ e.rejectedBy = some rejectedBy ∧
        e.rejectedAt = some now ∧ e.rejectReason = some reason

def Place.Answered : Place → Prop
  | .succeeded _ | .failed => True
  | _ => False

structure Stable (requests : ι → Decision) (s : Server ι) : Prop where
  /-- After an approval the entry is there and approved. -/
  approved : ∀ i approvedBy loaded, requests i = .approve approvedBy →
    s.place i = .succeeded loaded → ∃ e, s.entry = some e ∧ e.status = .approved
  once : ∀ i j, s.Decides i → s.Decides j → i = j
  decided : ∀ _ : ι, (∀ i, (s.place i).Answered) → ∃ i, s.Decides i
  audit : ∀ e, s.entry = some e → AuditFits requests s e

/-- A request that has loaded the entry as pending writes it while it still is,
or finds it gone and has to update it. -/
def WritesFresh (requests : ι → Decision) (s : Server ι) : Act ι → Prop
  | .write i => ∀ loaded target, s.place i = .checked loaded target → s.lock = none →
      loaded.status = .pending →
        (∃ e, s.entry = some e ∧ e.status = .pending) ∨
          (s.entry = none ∧ requests i ≠ .withdraw)
  | _ => True

-- ---------------------------------------------------------------------------
-- Before and after the decision
-- ---------------------------------------------------------------------------

def OpenPlace (e0 : AuditedEntry) (request : Decision) : Place → Prop
  | .ready | .lost => True
  | .checked loaded target => loaded = e0 ∧ request.run e0 = .ok target
  | .wrote loaded row => loaded = e0 ∧ request.run e0 = .ok row
  | _ => False

structure Repeats (request made : Decision) (loaded : AuditedEntry) : Prop where
  status : loaded.status = .approved
  notRejected : NotRejected loaded
  request : ∃ approvedBy, request = .approve approvedBy
  made : ∃ approvedBy, made = .approve approvedBy

/-- An approved row: clean, with an approver that has succeeded or is `request`. -/
def ApprovedRow (requests : ι → Decision) (s : Server ι) (request : Decision)
    (row : AuditedEntry) : Prop :=
  row.status = .approved ∧ NotRejected row ∧ ∃ approvedBy, row.approvedBy = some approvedBy ∧
    (request = .approve approvedBy ∨ s.Approver requests approvedBy)

def ClosedPlace (requests : ι → Decision) (s : Server ι) (e0 : AuditedEntry)
    (request made : Decision) : Place → Prop
  | .ready | .failed | .lost => True
  | .checked loaded target => request.run loaded = .ok target ∧
      (loaded = e0 ∨ Repeats request made loaded)
  | .wrote loaded row => Repeats request made loaded ∧
      ∃ r, row = some r ∧ ApprovedRow requests s request r
  | .succeeded loaded => Repeats request made loaded
  | .deletedNothing _ => False

def ClosedEntry (requests : ι → Decision) (s : Server ι) (e0 : AuditedEntry) :
    Decision → Option AuditedEntry → Prop
  | .approve approvedBy, row => ∃ e, row = some e ∧ ApprovedRow requests s (.approve approvedBy) e
  | .reject rejectedBy reason now, row => row = some { e0 with
      status := .rejected, rejectedBy := some rejectedBy, rejectedAt := some now,
      rejectReason := some reason }
  | .withdraw, row => row = none

inductive Phase (requests : ι → Decision) (e0 : AuditedEntry) (s : Server ι) : Prop
  | pending (hentry : s.entry = some e0) (hplace : ∀ i, OpenPlace e0 (requests i) (s.place i))
  | decided (j : ι) (hj : s.place j = .succeeded e0)
      (hentry : ClosedEntry requests s e0 (requests j) s.entry)
      (hplace : ∀ i, i ≠ j → ClosedPlace requests s e0 (requests i) (requests j) (s.place i))

theorem phase_start : Phase requests e0 (Server.start e0) := .pending rfl fun _ => trivial

theorem ApprovedRow.mono {s' : Server ι} {request : Decision} {row : AuditedEntry}
    (h : ApprovedRow requests s request row)
    (hmono : ∀ b, s.Approver requests b → s'.Approver requests b) :
    ApprovedRow requests s' request row := by
  obtain ⟨hstatus, hclean, b, hb, hby⟩ := h
  exact ⟨hstatus, hclean, b, hb, hby.imp_right (hmono b)⟩

theorem ClosedPlace.mono {s' : Server ι} {request made : Decision} {p : Place}
    (h : ClosedPlace requests s e0 request made p)
    (hmono : ∀ b, s.Approver requests b → s'.Approver requests b) :
    ClosedPlace requests s' e0 request made p := by
  cases p with
  | wrote loaded row =>
    obtain ⟨hrep, r, hr, hrow⟩ := h
    exact ⟨hrep, r, hr, hrow.mono hmono⟩
  | _ => exact h

theorem ClosedEntry.mono {s' : Server ι} {made : Decision} {row : Option AuditedEntry}
    (h : ClosedEntry requests s e0 made row)
    (hmono : ∀ b, s.Approver requests b → s'.Approver requests b) :
    ClosedEntry requests s' e0 made row := by
  cases made with
  | approve approvedBy =>
    obtain ⟨e, he, hrow⟩ := h
    exact ⟨e, he, hrow.mono hmono⟩
  | _ => exact h

theorem ClosedEntry.not_pending {made : Decision} {row : Option AuditedEntry} {e : AuditedEntry}
    (h : ClosedEntry requests s e0 made row) (hrow : row = some e) : e.status ≠ .pending := by
  subst hrow
  cases made with
  | approve approvedBy =>
    obtain ⟨e', he', hstatus, -⟩ := h
    cases he'
    simp [hstatus]
  | reject rejectedBy reason now =>
    cases h
    simp
  | withdraw => cases h

theorem ClosedEntry.approved {j : ι} {made : Decision} {current : AuditedEntry}
    (hj : s.place j = .succeeded e0) (hreq : requests j = made) {approvedBy : Uuid}
    (hmade : made = .approve approvedBy)
    (hentry : ClosedEntry requests s e0 made (some current)) :
    current.status = .approved ∧ NotRejected current ∧
      ∃ b, current.approvedBy = some b ∧ s.Approver requests b := by
  subst hmade
  obtain ⟨e, he, hstatus, hclean, b, hb, hby⟩ := hentry
  cases he
  refine ⟨hstatus, hclean, b, hb, ?_⟩
  rcases hby with hby | hby
  · cases hby
    exact ⟨j, e0, hj, hreq⟩
  · exact hby

theorem ClosedPlace.of_place {i j : ι} {p : Place} (hj : s.place j = .succeeded e0)
    (hplace : ∀ i, i ≠ j → ClosedPlace requests s e0 (requests i) (requests j) (s.place i))
    (hp : s.place i = p) (hne : p ≠ .succeeded e0) :
    ClosedPlace requests s e0 (requests i) (requests j) p := by
  have hij : i ≠ j := by
    rintro rfl
    exact hne (hp.symm.trans hj)
  exact hp ▸ hplace i hij

/-- A repeated approval leaves the columns it found equal, and may put its own
approver in. -/
theorem Repeats.row {request : Decision} {made : Decision} {loaded current : AuditedEntry}
    {target : Option AuditedEntry} (hrep : Repeats request made loaded)
    (hrun : request.run loaded = .ok target) (hstatus : current.status = .approved)
    (hclean : NotRejected current) {b : Uuid} (hb : current.approvedBy = some b)
    (hby : s.Approver requests b) :
    ∃ r, target.map (fun new => flushUpdate loaded new current) = some r ∧
      ApprovedRow requests s request r := by
  obtain ⟨approvedBy, rfl⟩ := hrep.request
  obtain ⟨h₁, h₂, h₃⟩ := hrep.notRejected
  obtain ⟨c₁, c₂, c₃⟩ := hclean
  refine ⟨_, by rw [run_approve_ok hrun]; rfl, ?_, ?_, ?_⟩
  · simp [flushUpdate, hrep.status, setColumn, hstatus]
  · simp [NotRejected, flushUpdate, h₁, h₂, h₃, c₁, c₂, c₃]
  · by_cases hsame : some approvedBy = loaded.approvedBy
    · exact ⟨b, by simp [flushUpdate, setColumn, hsame, hb], .inr hby⟩
    · exact ⟨approvedBy, by simp [flushUpdate, setColumn, hsame], .inl rfl⟩

theorem Repeats.of_closed {j : ι} {request : Decision} {entry : AuditedEntry}
    {target : Option AuditedEntry} (hentry : ClosedEntry requests s e0 (requests j) (some entry))
    (hrun : request.run entry = .ok target) : Repeats request (requests j) entry := by
  rcases run_ok_status hrun with hpend | ⟨happ, hreq⟩
  · exact absurd hpend (hentry.not_pending rfl)
  · cases hmade : requests j with
    | approve approvedBy =>
      rw [hmade] at hentry
      obtain ⟨e, he, -, hclean, -⟩ := hentry
      cases he
      exact ⟨happ, hclean, hreq, approvedBy, rfl⟩
    | reject rejectedBy reason now =>
      rw [hmade] at hentry
      cases hentry
      cases happ
    | withdraw =>
      rw [hmade] at hentry
      cases hentry

theorem Phase.repeats_of_write {i j : ι} {loaded current : AuditedEntry}
    {target : Option AuditedEntry} (hpend : Undecided e0)
    (hentry : ClosedEntry requests s e0 (requests j) s.entry)
    (hclosed : ClosedPlace requests s e0 (requests i) (requests j) (.checked loaded target))
    (hfresh : WritesFresh requests s (.write i)) (hp : s.place i = .checked loaded target)
    (hfree : s.lock = none) (hread : s.entry = some current) :
    Repeats (requests i) (requests j) loaded := by
  rcases hclosed.2 with rfl | hrep
  · rcases hfresh loaded target hp hfree hpend.1 with ⟨e, he, hstatus⟩ | ⟨hnone, -⟩
    · exact absurd hstatus (hentry.not_pending he)
    · simp [hnone] at hread
  · exact hrep

theorem Phase.stable (hpend : Undecided e0) (h : Phase requests e0 s) : Stable requests s := by
  cases h with
  | pending hentry hplace =>
    have hnone : ∀ i loaded, s.place i ≠ .succeeded loaded := by
      intro i loaded hi
      have hopen := hplace i
      rw [hi] at hopen
      exact hopen
    constructor
    · intro i approvedBy loaded _ hi
      exact absurd hi (hnone i loaded)
    · rintro i j ⟨loaded, hi, -⟩ -
      exact absurd hi (hnone i loaded)
    · intro k hall
      have hopen := hplace k
      have hanswered := hall k
      cases hk : s.place k <;> simp [hk, OpenPlace, Place.Answered] at hopen hanswered
    · intro e he
      rw [hentry] at he
      cases he
      obtain ⟨hstatus, happroved, hclean⟩ := hpend
      simp [AuditFits, hstatus, happroved, NotRejected, hclean]
  | decided j hj hentry hplace =>
    have hdecides : s.Decides j := ⟨e0, hj, hpend.1⟩
    have honly : ∀ i, s.Decides i → i = j := by
      rintro i ⟨loaded, hi, hstatus⟩
      by_contra hij
      have hclosed := hplace i hij
      rw [hi] at hclosed
      simp [hclosed.status] at hstatus
    have happroved : ∀ approvedBy, requests j = .approve approvedBy →
        ∃ e, s.entry = some e ∧ e.status = .approved := by
      intro approvedBy hreq
      rw [hreq] at hentry
      obtain ⟨e, he, hstatus, -⟩ := hentry
      exact ⟨e, he, hstatus⟩
    constructor
    · intro i approvedBy loaded hreq hi
      by_cases hij : i = j
      · subst hij
        exact happroved approvedBy hreq
      · have hclosed := hplace i hij
        rw [hi] at hclosed
        obtain ⟨madeBy, hmade⟩ := hclosed.made
        exact happroved madeBy hmade
    · intro i k hi hk
      rw [honly i hi, honly k hk]
    · exact fun _ _ => ⟨j, hdecides⟩
    · intro e he
      rw [he] at hentry
      cases hreq : requests j with
      | approve approvedBy =>
        rw [hreq] at hentry
        obtain ⟨hstatus, hclean, b, hb, hby⟩ := hentry.approved hj hreq rfl
        rw [AuditFits, hstatus]
        exact ⟨hclean, b, hb, hby⟩
      | reject rejectedBy reason now =>
        rw [hreq] at hentry
        cases hentry
        exact ⟨hpend.2.1, j, rejectedBy, reason, now, hreq, hdecides, rfl, rfl, rfl⟩
      | withdraw =>
        rw [hreq] at hentry
        cases hentry

-- ---------------------------------------------------------------------------
-- The phase, step by step
-- ---------------------------------------------------------------------------

variable [DecidableEq ι]

theorem Server.Approver.update {i : ι} {p : Place} {s' : Server ι} {approvedBy : Uuid}
    (h : s.Approver requests approvedBy) (hp : ∀ e, s.place i ≠ .succeeded e)
    (hs' : s'.place = Function.update s.place i p) : s'.Approver requests approvedBy := by
  obtain ⟨k, loaded, hk, hreq⟩ := h
  refine ⟨k, loaded, ?_, hreq⟩
  have hki : k ≠ i := by
    rintro rfl
    exact hp loaded hk
  simp [hs', hki, hk]

theorem Phase.decided_goto {i j : ι} {p : Place} {s' : Server ι} (hj : s.place j = .succeeded e0)
    (hentry : ClosedEntry requests s e0 (requests j) s.entry)
    (hplace : ∀ i, i ≠ j → ClosedPlace requests s e0 (requests i) (requests j) (s.place i))
    (hi : ∀ e, s.place i ≠ .succeeded e) (hs' : s'.place = Function.update s.place i p)
    (he' : s'.entry = s.entry) (hp : ClosedPlace requests s e0 (requests i) (requests j) p) :
    Phase requests e0 s' := by
  have hij : j ≠ i := by
    rintro rfl
    exact hi e0 hj
  have hmono : ∀ b, s.Approver requests b → s'.Approver requests b := fun b hb => hb.update hi hs'
  refine .decided j (by simp [hs', hij, hj]) ?_ fun k hk => ?_
  · rw [he']
    exact hentry.mono hmono
  · by_cases hki : k = i
    · subst hki
      simpa [hs'] using hp.mono hmono
    · simpa [hs', hki] using (hplace k hk).mono hmono

theorem Phase.pending_goto {i : ι} {p : Place} {s' : Server ι} (hentry : s.entry = some e0)
    (hplace : ∀ i, OpenPlace e0 (requests i) (s.place i))
    (hs' : s'.place = Function.update s.place i p) (he' : s'.entry = s.entry)
    (hp : OpenPlace e0 (requests i) p) : Phase requests e0 s' := by
  refine .pending (he'.trans hentry) fun k => ?_
  by_cases hki : k = i
  · subst hki
    simpa [hs'] using hp
  · simpa [hs', hki] using hplace k

theorem phase_decide {i : ι} {loaded : AuditedEntry} {row : Option AuditedEntry}
    (hpend : Undecided e0) (hlock : Lock.Owned Place.holdsLock s.lock s.place)
    (hplace : ∀ i, OpenPlace e0 (requests i) (s.place i)) (hp : s.place i = .wrote loaded row) :
    Phase requests e0 { s.goto i (.succeeded loaded) with entry := row, lock := none } := by
  have hopen := hplace i
  rw [hp] at hopen
  obtain ⟨rfl, hrun⟩ := hopen
  refine .decided i (by simp [Server.goto]) ?_ fun k hk => ?_
  · cases hreq : requests i with
    | approve approvedBy =>
      rw [hreq] at hrun
      exact ⟨_, run_approve_ok hrun, rfl, ⟨rfl, rfl, rfl⟩, approvedBy, rfl, .inl rfl⟩
    | reject rejectedBy reason now =>
      rw [hreq] at hrun
      exact run_reject_ok hrun
    | withdraw =>
      rw [hreq] at hrun
      exact run_withdraw_ok hrun
  · have hopen := hplace k
    simp only [Server.goto, Function.update_of_ne hk]
    cases hpk : s.place k with
    | checked loaded' target =>
      rw [hpk] at hopen
      obtain ⟨rfl, hrun'⟩ := hopen
      exact ⟨hrun', .inl rfl⟩
    | wrote loaded' row' =>
      -- two transactions cannot both have written the row
      have hsame : k = i :=
        hlock.unique (by simp [hpk, Place.holdsLock]) (by simp [hp, Place.holdsLock])
      exact absurd hsame hk
    | ready => trivial
    | lost => trivial
    | deletedNothing loaded' =>
      rw [hpk] at hopen
      exact hopen.elim
    | succeeded loaded' =>
      rw [hpk] at hopen
      exact hopen.elim
    | failed => trivial

theorem Phase.decided_repeat {i j : ι} {loaded : AuditedEntry} {row : Option AuditedEntry}
    (hj : s.place j = .succeeded e0)
    (hplace : ∀ i, i ≠ j → ClosedPlace requests s e0 (requests i) (requests j) (s.place i))
    (hp : s.place i = .wrote loaded row) :
    Phase requests e0 { s.goto i (.succeeded loaded) with entry := row, lock := none } := by
  have hij : i ≠ j := by
    rintro rfl
    simp [hj] at hp
  obtain ⟨hrep, r, rfl, hstatus, hclean, b, hb, hby⟩ :=
    ClosedPlace.of_place hj hplace hp (by simp)
  have hmono : ∀ b, s.Approver requests b →
      Server.Approver requests
        { s.goto i (.succeeded loaded) with entry := some r, lock := none } b :=
    fun b hb => hb.update (p := .succeeded loaded) (by simp [hp]) rfl
  refine .decided j (by simp [Server.goto, hij.symm, hj]) ?_ fun k hk => ?_
  · obtain ⟨madeBy, hmade⟩ := hrep.made
    rw [hmade]
    refine ⟨r, rfl, hstatus, hclean, b, hb, .inr ?_⟩
    rcases hby with hby | hby
    · exact ⟨i, loaded, by simp [Server.goto], hby⟩
    · exact hmono b hby
  · by_cases hki : k = i
    · subst hki
      simpa [Server.goto, ClosedPlace] using hrep
    · simpa [Server.goto, hki] using (hplace k hk).mono hmono

theorem phase_step (hpend : Undecided e0) (act : Act ι)
    (hlock : Lock.Owned Place.holdsLock s.lock s.place) (hphase : Phase requests e0 s)
    (hfresh : WritesFresh requests s act) : Phase requests e0 (s.step requests act) := by
  have hout := step_cases requests s act
  generalize s.step requests act = s' at hout
  cases hphase with
  | pending hentry hplace =>
    cases hout with
    | idle => exact .pending hentry hplace
    | gone hp hgone => simp [hentry] at hgone
    | refused hp hread hrun =>
      rw [hentry] at hread
      cases hread
      exact absurd hpend.1 (run_error_status hrun)
    | checked hp hread hrun =>
      rw [hentry] at hread
      cases hread
      exact .pending_goto hentry hplace rfl rfl ⟨rfl, hrun⟩
    | @wrote i loaded target current hp hfree hread =>
      rw [hentry] at hread
      cases hread
      have hopen := hplace i
      rw [hp] at hopen
      obtain ⟨rfl, hrun⟩ := hopen
      refine .pending_goto hentry hplace rfl rfl ⟨rfl, ?_⟩
      rw [flushUpdate_self hrun]
      exact hrun
    | stale hp hfree hgone => simp [hentry] at hgone
    | deletedNothing hp hfree hgone => simp [hentry] at hgone
    | committed hp => exact phase_decide hpend hlock hplace hp
    | @committedNothing i loaded hp =>
      have hopen := hplace i
      rw [hp] at hopen
      exact hopen.elim
    | rolledBack hp => exact .pending_goto hentry hplace rfl rfl trivial
    | aborted hp hopen => exact .pending_goto hentry hplace rfl rfl trivial
  | decided j hj hentry hplace =>
    cases hout with
    | idle => exact .decided j hj hentry hplace
    | gone hp hgone => exact .decided_goto hj hentry hplace (by simp [hp]) rfl rfl trivial
    | refused hp hread hrun => exact .decided_goto hj hentry hplace (by simp [hp]) rfl rfl trivial
    | checked hp hread hrun =>
      rw [hread] at hentry
      exact .decided_goto hj (hread ▸ hentry) hplace (by simp [hp]) rfl rfl
        ⟨hrun, .inr (.of_closed hentry hrun)⟩
    | @wrote i loaded target current hp hfree hread =>
      have hclosed := ClosedPlace.of_place hj hplace hp (by simp)
      have hrep := Phase.repeats_of_write hpend hentry hclosed hfresh hp hfree hread
      obtain ⟨madeBy, hmade⟩ := hrep.made
      rw [hread] at hentry
      obtain ⟨hstatus, hclean, b, hb, hby⟩ := hentry.approved hj rfl hmade
      exact .decided_goto hj (hread ▸ hentry) hplace (by simp [hp]) rfl rfl
        ⟨hrep, hrep.row hclosed.1 hstatus hclean hb hby⟩
    | stale hp hfree hgone => exact .decided_goto hj hentry hplace (by simp [hp]) rfl rfl trivial
    | @deletedNothing i loaded hp hfree hgone =>
      have hclosed := ClosedPlace.of_place hj hplace hp (by simp)
      have hwithdraw := run_ok_none hclosed.1
      rcases hclosed.2 with rfl | hrep
      · rcases hfresh loaded none hp hfree hpend.1 with ⟨e, he, -⟩ | ⟨-, hne⟩
        · simp [hgone] at he
        · exact absurd hwithdraw hne
      · obtain ⟨approvedBy, happ⟩ := hrep.request
        simp [hwithdraw] at happ
    | committed hp => exact .decided_repeat hj hplace hp
    | @committedNothing i loaded hp =>
      exact (ClosedPlace.of_place hj hplace hp (by simp)).elim
    | rolledBack hp => exact .decided_goto hj hentry hplace (by simp [hp]) rfl rfl trivial
    | aborted hp hopen => exact .decided_goto hj hentry hplace hopen rfl rfl trivial

-- ---------------------------------------------------------------------------
-- The row's lock
-- ---------------------------------------------------------------------------

def Server.LockOwned (s : Server ι) : Prop := Lock.Owned Place.holdsLock s.lock s.place

omit [DecidableEq ι] in
theorem lockOwned_start : (Server.start e0 : Server ι).LockOwned :=
  Lock.owned_start fun _ => rfl

theorem lockOwned_step (act : Act ι) (h : s.LockOwned) : (s.step requests act).LockOwned := by
  have hout := step_cases requests s act
  generalize s.step requests act = s' at hout
  unfold Server.LockOwned at h ⊢
  cases hout with
  | idle => exact h
  | gone hp _ => exact h.stay (by simp [hp, Place.holdsLock])
  | refused hp _ _ => exact h.stay (by simp [hp, Place.holdsLock])
  | checked hp _ _ => exact h.stay (by simp [hp, Place.holdsLock])
  | wrote hp hfree _ =>
    rw [hfree] at h
    exact h.take rfl
  | stale hp _ _ => exact h.stay (by simp [hp, Place.holdsLock])
  | deletedNothing hp _ _ => exact h.stay (by simp [hp, Place.holdsLock])
  | committed hp => exact h.give (by simp [hp, Place.holdsLock]) rfl
  | committedNothing hp => exact h.stay (by simp [hp, Place.holdsLock])
  | rolledBack hp => exact h.give (by simp [hp, Place.holdsLock]) rfl
  | aborted hp _ => exact h.stay hp.symm

-- ---------------------------------------------------------------------------
-- Every run
-- ---------------------------------------------------------------------------

/-- A late write of a request that loaded the entry as pending succeeds next
to the decision that was made. -/
theorem Phase.not_stable_of_write {i : ι} (hpend : Undecided e0) (h : Phase requests e0 s)
    (hbad : ¬ WritesFresh requests s (.write i)) :
    ¬ Stable requests (Run.run (Server.step requests) s [.write i, .commit i]) := by
  simp only [WritesFresh, not_forall] at hbad
  obtain ⟨loaded, target, hp, hfree, hstatus, hlate⟩ := hbad
  cases h with
  | pending hentry hplace => exact absurd (.inl ⟨e0, hentry, hpend.1⟩) hlate
  | decided j hj hentry hplace =>
    have hij : j ≠ i := by
      rintro rfl
      simp [hj] at hp
    have hclosed := hplace i hij.symm
    rw [hp] at hclosed
    have hi : (Run.run (Server.step requests) s [.write i, .commit i]).place i =
        .succeeded loaded := by
      cases hread : s.entry with
      | some current =>
        cases target <;>
          simp [Server.step, Server.write, Server.commit, hp, hfree, hread, Server.goto]
      | none =>
        have hwithdraw : requests i = .withdraw := by
          by_contra hne
          exact hlate (.inr ⟨hread, hne⟩)
        have hrun := hclosed.1
        rw [hwithdraw] at hrun
        rw [run_withdraw_ok hrun] at hp
        simp [Server.step, Server.write, Server.commit, hp, hfree, hread, Server.goto]
    have hj' : (Run.run (Server.step requests) s [.write i, .commit i]).place j =
        .succeeded e0 := by
      cases hread : s.entry <;> cases target <;>
        simp [Server.step, Server.write, Server.commit, hp, hfree, hread, Server.goto, hij, hj]
    intro hstable
    exact hij (hstable.once j i ⟨e0, hj', hpend.1⟩ ⟨loaded, hi, hstatus⟩)

/-- Decisions are stable as long as every request that has loaded the entry as
pending writes it while it is, and only then: the first late write needs only
its commit to be a second decision. -/
theorem decisions_stable (hpend : Undecided e0) (acts : List (Act ι)) :
    (Run.Along (Server.step requests) (WritesFresh requests) (.start e0) acts →
      Run.Always (Server.step requests) (Stable requests) (.start e0) acts) ∧
    (¬ Run.Along (Server.step requests) (WritesFresh requests) (.start e0) acts →
      ∃ before i, before ++ [.write i] <+: acts ∧
        ¬ Stable requests
          (Run.run (Server.step requests) (.start e0) (before ++ [.write i, .commit i]))) := by
  have hstep : ∀ (s : Server ι) act, (s.LockOwned ∧ Phase requests e0 s) →
      WritesFresh requests s act →
        ((s.step requests act).LockOwned ∧ Phase requests e0 (s.step requests act)) :=
    fun s act h hfresh => ⟨lockOwned_step act h.1, phase_step hpend act h.1 h.2 hfresh⟩
  have hstart : (Server.start e0 : Server ι).LockOwned ∧ Phase requests e0 (.start e0) :=
    ⟨lockOwned_start, phase_start⟩
  constructor
  · intro hfresh
    exact hfresh.always hstart hstep fun _ h => h.2.stable hpend
  · intro hbad
    obtain ⟨before, act, rest, rfl, hgood, hact⟩ := Run.exists_bad_step hbad
    have hphase := (hgood.invariant hstart hstep).2
    cases act with
    | write i =>
      refine ⟨before, i, ⟨rest, by simp⟩, ?_⟩
      rw [Run.run_append]
      exact hphase.not_stable_of_write hpend hact
    | read i => exact absurd trivial hact
    | commit i => exact absurd trivial hact
    | abort i => exact absurd trivial hact

end

-- ---------------------------------------------------------------------------
-- Two admins
-- ---------------------------------------------------------------------------

def approveAndReject (i : Nat) : Decision :=
  if i = 0 then .approve 1 else .reject 5 sampleNote 200

def approvalFirst : List (Act Nat) := [.read 0, .write 0, .commit 0, .read 1]

theorem approvalFirst_stable :
    Run.Always (Server.step approveAndReject) (Stable approveAndReject)
      (.start (proposeLookup 1 2 false)) approvalFirst :=
  (decisions_stable (undecided_proposeLookup 1 2) approvalFirst).1 <| by
    refine ⟨trivial, fun _ _ _ _ _ => .inl ⟨proposeLookup 1 2 false, rfl, rfl⟩, trivial, trivial,
      trivial⟩

/-- Both load the pending entry; the rejection is written after the approval
has been answered. -/
def lateRejection : List (Act Nat) :=
  [.read 0, .read 1, .write 0, .commit 0, .write 1, .commit 1]

theorem lateRejection_not_stable :
    Undecided (proposeLookup 1 2 false) ∧
      ¬ Run.Always (Server.step approveAndReject) (Stable approveAndReject)
        (.start (proposeLookup 1 2 false)) lateRejection := by
  refine ⟨undecided_proposeLookup 1 2, fun h => ?_⟩
  obtain ⟨e, he, hstatus⟩ := h.last.approved 0 1 (proposeLookup 1 2 false) rfl (by decide)
  have hlast : (Run.run (Server.step approveAndReject) (.start (proposeLookup 1 2 false))
      lateRejection).entry = some ⟨⟨1, .rejected, some 2⟩, some 1, some 5, some 200,
        some sampleNote⟩ := by decide
  rw [hlast] at he
  cases he
  cases hstatus

end HcMap.Catalog
