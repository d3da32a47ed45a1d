import HcMap.Lib.Run
import HcMap.Sync.ApplicationLaws
import Mathlib.Data.List.Pairwise

/-!
# Concurrent application inserts

Transactions that insert applications run side by side under READ COMMITTED.
Each reads `max(sequence_no) + 1` in one statement and inserts in another. An
insert whose id or number another open transaction has inserted waits for it;
one whose id or number is committed fails, which a push answers with a
tombstone and a route with an error. Only the rows of `application` are
followed; what else such a transaction writes can make a route fail, and any
transaction may fail at any time.
-/

namespace HcMap.Routes

open Sync (ApplicationDoc newApplication restraintsAllowed positionFksAllowed)

-- ---------------------------------------------------------------------------
-- Transactions
-- ---------------------------------------------------------------------------

/-- One row to insert: an item of `push_applications`, or the row that
`create_application` and `start_application` build, its number still open. -/
inductive Job
  | push (clock : Time) (newDoc : ApplicationDoc)
  | post (application : Application)

def Job.id : Job → Uuid
  | .push _ newDoc => newDoc.id
  | .post application => application.id

def Job.eventId : Job → Uuid
  | .push _ newDoc => newDoc.eventId
  | .post application => application.eventId

def Job.row (s : Session) (sequenceNo : Nat) : Job → Application
  | .push clock newDoc => newApplication s clock sequenceNo newDoc
  | .post application => { application with sequenceNo := sequenceNo }

def Job.Live : Job → Prop
  | .push _ newDoc => newDoc.deleted = false
  | .post application => application.isDeleted = false

/-- A push item that passes every check and constraint but those on keys. A
route that fails says so. -/
def Job.Permitted (db : Database) (s : Session) : Job → Prop
  | .push _ newDoc =>
    restraintsAllowed db s newDoc.restraintTypeIds ∧ positionFksAllowed db s newDoc ∧
      childWritable db s newDoc.eventId ∧ db.ApplicationRefs (newApplication s 0 0 newDoc)
  | .post _ => True

inductive Status
  | running
  | committed
  | aborted
  deriving DecidableEq

structure Tx where
  session : Session
  waiting : List Job
  number : Option Nat
  tombstones : List Uuid
  status : Status

/-- The committed database, the rows inserted and not yet committed, each with
its transaction, and the transactions. -/
structure Server where
  db : Database
  inflight : List (Nat × Application)
  txs : Nat → Tx

def Server.start (db : Database) (requests : Nat → Session × List Job) : Server where
  db := db
  inflight := []
  txs i := ⟨(requests i).1, (requests i).2, none, [], .running⟩

namespace Server

def own (sv : Server) (i : Nat) : List Application :=
  (sv.inflight.filter fun p => p.1 = i).map Prod.snd

/-- What a statement of the transaction sees: what is committed, and its own
rows. -/
def view (sv : Server) (i : Nat) : Database :=
  { sv.db with applications := (sv.own i).foldl Table.put sv.db.applications }

/-- Another open transaction has inserted the row's id or its number. -/
def Blocked (sv : Server) (i : Nat) (a : Application) : Prop :=
  ∃ p ∈ sv.inflight, p.1 ≠ i ∧
    (p.2.id = a.id ∨ (p.2.eventId = a.eventId ∧ p.2.sequenceNo = a.sequenceNo))

instance (sv : Server) (i : Nat) (a : Application) : Decidable (sv.Blocked i a) := by
  unfold Blocked
  infer_instance

def setTx (sv : Server) (i : Nat) (tx : Tx) : Server :=
  { sv with txs := Function.update sv.txs i tx }

def read (sv : Server) (i : Nat) : Server :=
  let tx := sv.txs i
  let db := sv.view i
  match tx.status, tx.waiting with
  | .running, .push _ newDoc :: rest =>
    if (db.getApplication tx.session newDoc.id).isSome then sv.setTx i { tx with waiting := rest }
    else if ¬ (restraintsAllowed db tx.session newDoc.restraintTypeIds ∧
        positionFksAllowed db tx.session newDoc) then
      sv.setTx i { tx with waiting := rest, tombstones := newDoc.id :: tx.tombstones }
    else
      sv.setTx i { tx with number := some (Sync.nextSequenceNo db tx.session newDoc.eventId) }
  | .running, .post application :: _ =>
    sv.setTx i
      { tx with number := some (Services.nextSequenceNo db tx.session application.eventId) }
  | _, _ => sv

def abort (sv : Server) (i : Nat) : Server :=
  if (sv.txs i).status = .running then
    { sv with
      inflight := sv.inflight.filter fun p => p.1 ≠ i
      txs := Function.update sv.txs i { sv.txs i with status := .aborted } }
  else sv

def insert (sv : Server) (i : Nat) : Server :=
  let tx := sv.txs i
  match tx.status, tx.waiting, tx.number with
  | .running, job :: rest, some n =>
    if sv.Blocked i (job.row tx.session n) then sv
    else match (sv.view i).insertApplication tx.session (job.row tx.session n), job with
      | .ok _, _ =>
        { sv with
          inflight := sv.inflight ++ [(i, job.row tx.session n)]
          txs := Function.update sv.txs i { tx with waiting := rest, number := none } }
      | .error _, .push _ newDoc =>
        sv.setTx i
          { tx with waiting := rest, number := none, tombstones := newDoc.id :: tx.tombstones }
      | .error _, .post _ => sv.abort i
  | _, _, _ => sv

def commit (sv : Server) (i : Nat) : Server :=
  if (sv.txs i).status = .running ∧ (sv.txs i).waiting = [] then
    { db := sv.view i
      inflight := sv.inflight.filter fun p => p.1 ≠ i
      txs := Function.update sv.txs i { sv.txs i with status := .committed } }
  else sv

end Server

inductive Act
  | read (i : Nat)
  | insert (i : Nat)
  | commit (i : Nat)
  | abort (i : Nat)

def Server.step (sv : Server) : Act → Server
  | .read i => sv.read i
  | .insert i => sv.insert i
  | .commit i => sv.commit i
  | .abort i => sv.abort i

-- ---------------------------------------------------------------------------
-- What a step does
-- ---------------------------------------------------------------------------

def Server.rolledBack (sv : Server) (i : Nat) : Server :=
  { sv with
    inflight := sv.inflight.filter fun p => p.1 ≠ i
    txs := Function.update sv.txs i { sv.txs i with status := .aborted } }

inductive Outcome (sv : Server) : Act → Server → Prop
  | idle {act} : Outcome sv act sv
  | numbered {i n} (hrun : (sv.txs i).status = .running) :
      Outcome sv (.read i) (sv.setTx i { sv.txs i with number := some n })
  | found {i job rest} (hrun : (sv.txs i).status = .running)
      (hwait : (sv.txs i).waiting = job :: rest)
      (hfound : ∃ a ∈ (sv.view i).applications, a.id = job.id) :
      Outcome sv (.read i) (sv.setTx i { sv.txs i with waiting := rest })
  | refused {i clock newDoc rest} (hrun : (sv.txs i).status = .running)
      (hwait : (sv.txs i).waiting = .push clock newDoc :: rest)
      (hno : ¬ (Job.push clock newDoc).Permitted (sv.view i) (sv.txs i).session) :
      Outcome sv (.read i) (sv.setTx i
        { sv.txs i with
          waiting := rest
          tombstones := newDoc.id :: (sv.txs i).tombstones })
  | inserted {i job rest n t} (hrun : (sv.txs i).status = .running)
      (hwait : (sv.txs i).waiting = job :: rest)
      (hblock : ¬ sv.Blocked i (job.row (sv.txs i).session n))
      (hseq : ¬ (sv.view i).SequenceTaken job.eventId n)
      (ht : (sv.view i).applications.insert? (job.row (sv.txs i).session n) = some t) :
      Outcome sv (.insert i)
        { sv with
          inflight := sv.inflight ++ [(i, job.row (sv.txs i).session n)]
          txs := Function.update sv.txs i { sv.txs i with waiting := rest, number := none } }
  | collided {i clock newDoc rest n} (hrun : (sv.txs i).status = .running)
      (hwait : (sv.txs i).waiting = .push clock newDoc :: rest)
      (hnum : (sv.txs i).number = some n)
      (hblock : ¬ sv.Blocked i ((Job.push clock newDoc).row (sv.txs i).session n))
      (herr : ∀ db', (sv.view i).insertApplication (sv.txs i).session
        ((Job.push clock newDoc).row (sv.txs i).session n) ≠ .ok db') :
      Outcome sv (.insert i) (sv.setTx i
        { sv.txs i with
          waiting := rest
          number := none
          tombstones := newDoc.id :: (sv.txs i).tombstones })
  | aborted {act i} (hrun : (sv.txs i).status = .running) : Outcome sv act (sv.rolledBack i)
  | committed {i} (hrun : (sv.txs i).status = .running) (hwait : (sv.txs i).waiting = []) :
      Outcome sv (.commit i)
        { db := sv.view i
          inflight := sv.inflight.filter fun p => p.1 ≠ i
          txs := Function.update sv.txs i { sv.txs i with status := .committed } }

section
variable {sv : Server} {i : Nat} {s : Session} {n : Nat} {job : Job}

@[simp] theorem Job.row_id : (job.row s n).id = job.id := by cases job <;> rfl

@[simp] theorem Job.row_eventId : (job.row s n).eventId = job.eventId := by cases job <;> rfl

@[simp] theorem Job.row_sequenceNo : (job.row s n).sequenceNo = n := by cases job <;> rfl

theorem Job.row_live (h : job.Live) : (job.row s n).isDeleted = false := by cases job <;> exact h

theorem read_cases (sv : Server) (i : Nat) : Outcome sv (.read i) (sv.read i) := by
  unfold Server.read
  dsimp only
  split
  · rename_i clock newDoc rest hrun hwait
    split
    · rename_i hget
      obtain ⟨a, ha⟩ := Option.isSome_iff_exists.mp hget
      have hfind := (Database.getApplication_eq_some.mp ha).1
      exact .found hrun hwait ⟨a, Table.mem_of_find? hfind, Table.key_of_find? hfind⟩
    · split
      · rename_i hno
        exact .refused hrun hwait fun h => hno ⟨h.1, h.2.1⟩
      · exact .numbered hrun
  · rename_i hrun _
    exact .numbered hrun
  · exact .idle

theorem abort_cases (sv : Server) (act : Act) (i : Nat) : Outcome sv act (sv.abort i) := by
  unfold Server.abort
  split
  · rename_i hrun
    exact .aborted hrun
  · exact .idle

theorem insert_cases (sv : Server) (i : Nat) : Outcome sv (.insert i) (sv.insert i) := by
  unfold Server.insert
  dsimp only
  split
  · rename_i job rest n hrun hwait hnum
    split
    · exact .idle
    · rename_i hblock
      split
      · rename_i db' hok
        obtain ⟨-, ⟨-, hseq⟩, t, ht, -⟩ := Database.insertRow_ok.mp hok
        rw [Job.row_eventId, Job.row_sequenceNo] at hseq
        exact .inserted hrun hwait hblock hseq ht
      · rename_i e clock newDoc herr
        refine .collided hrun hwait hnum hblock fun db' hok => ?_
        rw [herr] at hok
        cases hok
      · exact abort_cases sv _ i
  · exact .idle

theorem act_cases (sv : Server) (act : Act) : Outcome sv act (sv.step act) := by
  cases act with
  | read i => exact read_cases sv i
  | insert i => exact insert_cases sv i
  | commit i =>
    show Outcome sv (.commit i) (sv.commit i)
    unfold Server.commit
    split
    · rename_i h
      exact .committed h.1 h.2
    · exact .idle
  | abort i => exact abort_cases sv _ i

end

-- ---------------------------------------------------------------------------
-- Distinct numbers
-- ---------------------------------------------------------------------------

def Apart (a b : Application) : Prop :=
  a.id ≠ b.id ∧ ¬ (a.eventId = b.eventId ∧ a.sequenceNo = b.sequenceNo)

def NumbersDistinct (db : Database) : Prop :=
  ∀ a ∈ db.applications, ∀ b ∈ db.applications, a.eventId = b.eventId →
    a.sequenceNo = b.sequenceNo → a = b

instance (db : Database) : Decidable (NumbersDistinct db) := by
  unfold NumbersDistinct
  infer_instance

structure KeysDistinct (sv : Server) : Prop where
  rows : NumbersDistinct sv.db
  flight : sv.inflight.Pairwise fun p q => Apart p.2 q.2
  flight_rows : ∀ p ∈ sv.inflight, ∀ a ∈ sv.db.applications, Apart p.2 a

section
variable {sv sv' : Server} {i : Nat} {act : Act} {a : Application}

theorem Apart.symm {b : Application} (h : Apart a b) : Apart b a :=
  ⟨h.1.symm, fun hk => h.2 ⟨hk.1.symm, hk.2.symm⟩⟩

instance : Std.Symm fun p q : Nat × Application => Apart p.2 q.2 := ⟨fun _ _ => Apart.symm⟩

theorem mem_own : a ∈ sv.own i ↔ (i, a) ∈ sv.inflight := by
  unfold Server.own
  rw [List.mem_map]
  constructor
  · rintro ⟨⟨j, b⟩, hb, rfl⟩
    obtain ⟨hin, hj⟩ := List.mem_filter.mp hb
    obtain rfl : j = i := by simpa using hj
    exact hin
  · intro h
    exact ⟨(i, a), List.mem_filter.mpr ⟨h, by simp⟩, rfl⟩

theorem KeysDistinct.apart {p q : Nat × Application} (h : KeysDistinct sv)
    (hp : p ∈ sv.inflight) (hq : q ∈ sv.inflight) (hne : p ≠ q) : Apart p.2 q.2 :=
  h.flight.forall hp hq hne

theorem KeysDistinct.mem_view (h : KeysDistinct sv) :
    a ∈ (sv.view i).applications ↔ a ∈ sv.db.applications ∨ (i, a) ∈ sv.inflight := by
  rw [← mem_own]
  refine Table.mem_foldl_put ?_ fun b hb => ?_
  · refine List.pairwise_map.mpr ?_
    exact (h.flight.filter _).imp fun hk => hk.1
  · refine Table.find?_eq_none.mpr fun x hx hk => ?_
    exact (h.flight_rows _ (mem_own.mp hb) x hx).1 hk.symm

theorem KeysDistinct.view_numbers (h : KeysDistinct sv) : NumbersDistinct (sv.view i) := by
  intro a ha b hb he hn
  rcases h.mem_view.mp ha with ha | ha <;> rcases h.mem_view.mp hb with hb | hb
  · exact h.rows a ha b hb he hn
  · exact absurd ⟨he.symm, hn.symm⟩ (h.flight_rows _ hb a ha).2
  · exact absurd ⟨he, hn⟩ (h.flight_rows _ ha b hb).2
  · by_contra hne
    exact (h.apart ha hb fun heq => hne (congrArg Prod.snd heq)).2 ⟨he, hn⟩

theorem KeysDistinct.insert_apart (h : KeysDistinct sv) {t : Table Application}
    (hblock : ¬ sv.Blocked i a) (hseq : ¬ (sv.view i).SequenceTaken a.eventId a.sequenceNo)
    (ht : (sv.view i).applications.insert? a = some t) :
    (∀ p ∈ sv.inflight, Apart p.2 a) ∧ ∀ b ∈ sv.db.applications, Apart a b := by
  have hview : ∀ b ∈ (sv.view i).applications, Apart b a := fun b hb =>
    ⟨Table.find?_eq_none.mp (Table.insert?_eq_some.mp ht).1 b hb,
      fun hk => hseq ⟨b, hb, hk.1, hk.2⟩⟩
  refine ⟨fun p hp => ?_, fun b hb => (hview b (h.mem_view.mpr (.inl hb))).symm⟩
  by_cases hi : p.1 = i
  · subst hi
    exact hview p.2 (h.mem_view.mpr (.inr hp))
  · exact ⟨fun hk => hblock ⟨p, hp, hi, .inl hk⟩, fun hk => hblock ⟨p, hp, hi, .inr hk⟩⟩

theorem KeysDistinct.rolledBack (h : KeysDistinct sv) : KeysDistinct (sv.rolledBack i) :=
  ⟨h.rows, h.flight.filter _, fun p hp => h.flight_rows p (List.mem_filter.mp hp).1⟩

theorem KeysDistinct.step (h : KeysDistinct sv) (ho : Outcome sv act sv') : KeysDistinct sv' := by
  cases ho with
  | idle => exact h
  | numbered | found | refused | collided => exact ⟨h.rows, h.flight, h.flight_rows⟩
  | inserted _ _ hblock hseq ht =>
    obtain ⟨hflight, hrows⟩ := h.insert_apart hblock (by simpa using hseq) ht
    refine ⟨h.rows, ?_, fun p hp => ?_⟩
    · refine List.pairwise_append.mpr ⟨h.flight, List.pairwise_singleton _ _, fun p hp q hq => ?_⟩
      obtain rfl := List.mem_singleton.mp hq
      exact hflight p hp
    · rcases List.mem_append.mp hp with hp | hp
      · exact h.flight_rows p hp
      · obtain rfl := List.mem_singleton.mp hp
        exact hrows
  | aborted => exact h.rolledBack
  | @committed i =>
    refine ⟨h.view_numbers, h.flight.filter _, fun p hp a ha => ?_⟩
    obtain ⟨hp, hi⟩ := List.mem_filter.mp hp
    rcases h.mem_view.mp ha with ha | ha
    · exact h.flight_rows p hp a ha
    · exact h.apart hp ha fun heq => by simp [heq] at hi

end

-- ---------------------------------------------------------------------------
-- The fate of each job
-- ---------------------------------------------------------------------------

/-- A push that inserts finds the number it read still free, where nothing else
stops it. -/
def Unraced (sv : Server) : Act → Prop
  | .insert i =>
    match (sv.txs i).waiting, (sv.txs i).number with
    | .push clock newDoc :: _, some n =>
      (Job.push clock newDoc).Permitted sv.db (sv.txs i).session →
        ¬ sv.Blocked i ((Job.push clock newDoc).row (sv.txs i).session n) →
          (sv.view i).applications.find? newDoc.id = none →
            ¬ (sv.view i).SequenceTaken newDoc.eventId n
    | _, _ => True
  | _ => True

def Present (sv : Server) (i : Nat) (id : Uuid) : Prop :=
  ∃ a : Application, a.id = id ∧ (a ∈ sv.db.applications ∨ (i, a) ∈ sv.inflight)

/-- What has become of a request's jobs: those that could not fail wait or are
present, and a tombstone answers only those that could, or an id that is
taken. -/
structure Tally (db₀ : Database) (request : Session × List Job) (tx : Tx) (present : Uuid → Prop) :
    Prop where
  session : tx.session = request.1
  waiting : tx.waiting ⊆ request.2
  done : tx.status = .committed → tx.waiting = []
  kept : ∀ job ∈ request.2, job.Permitted db₀ request.1 →
    db₀.applications.find? job.id = none →
      tx.status = .aborted ∨ job ∈ tx.waiting ∨ present job.id
  refused : ∀ id ∈ tx.tombstones, tx.status = .aborted ∨ present id ∨
    ∃ job ∈ request.2, job.id = id ∧ ¬ job.Permitted db₀ request.1

section
variable {db₀ : Database} {request : Session × List Job} {tx : Tx} {present present' : Uuid → Prop}
  {job : Job} {rest : List Job} {number : Option Nat}

theorem Tally.mono (h : Tally db₀ request tx present) (hp : ∀ id, present id → present' id) :
    Tally db₀ request tx present' where
  session := h.session
  waiting := h.waiting
  done := h.done
  kept job hj hperm hfresh := (h.kept job hj hperm hfresh).imp_right fun h => h.imp_right (hp _)
  refused id hid := (h.refused id hid).imp_right fun h => h.imp_left (hp _)

theorem Tally.numbered (h : Tally db₀ request tx present) :
    Tally db₀ request { tx with number := number } present :=
  ⟨h.session, h.waiting, h.done, h.kept, h.refused⟩

theorem Tally.aborted (h : Tally db₀ request tx present) :
    Tally db₀ request { tx with status := .aborted } present' where
  session := h.session
  waiting := h.waiting
  done hs := by cases hs
  kept _ _ _ _ := .inl rfl
  refused _ _ := .inl rfl

theorem Tally.committed (h : Tally db₀ request tx present) (hrun : tx.status = .running)
    (hwait : tx.waiting = []) : Tally db₀ request { tx with status := .committed } present where
  session := h.session
  waiting := h.waiting
  done _ := hwait
  kept job hj hperm hfresh :=
    .inr ((h.kept job hj hperm hfresh).resolve_left (by simp [hrun]))
  refused id hid := .inr ((h.refused id hid).resolve_left (by simp [hrun]))

theorem Tally.next (h : Tally db₀ request tx present) (hrun : tx.status = .running)
    (hwait : tx.waiting = job :: rest)
    (hjob : present job.id ∨ ¬ job.Permitted db₀ request.1) :
    Tally db₀ request { tx with waiting := rest, number := number } present where
  session := h.session
  waiting _ hj := h.waiting (hwait ▸ List.mem_cons_of_mem job hj)
  done hs := by simp [hrun] at hs
  kept job' hj hperm hfresh := by
    rcases h.kept job' hj hperm hfresh with hab | hin | hpres
    · exact .inl hab
    · rw [hwait] at hin
      rcases List.mem_cons.mp hin with rfl | hin
      · exact .inr (.inr (hjob.resolve_right fun hno => hno hperm))
      · exact .inr (.inl hin)
    · exact .inr (.inr hpres)
  refused := h.refused

theorem Tally.tombstone (h : Tally db₀ request tx present) (hrun : tx.status = .running)
    (hwait : tx.waiting = job :: rest)
    (hjob : present job.id ∨ ¬ job.Permitted db₀ request.1) :
    Tally db₀ request
      { tx with waiting := rest, number := number, tombstones := job.id :: tx.tombstones }
      present := by
  have hnext : Tally db₀ request { tx with waiting := rest, number := number } present :=
    h.next hrun hwait hjob
  have hmem : job ∈ request.2 := h.waiting (hwait ▸ List.mem_cons_self)
  refine ⟨hnext.session, hnext.waiting, hnext.done, hnext.kept, fun id hid => ?_⟩
  rcases List.mem_cons.mp hid with rfl | hid
  · exact .inr (hjob.imp_right fun hno => ⟨job, hmem, rfl, hno⟩)
  · exact h.refused id hid

end

-- ---------------------------------------------------------------------------
-- Every interleaving
-- ---------------------------------------------------------------------------

def Requested (requests : Nat → Session × List Job) (i : Nat) (a : Application) : Prop :=
  ∃ job ∈ (requests i).2, ∃ n, a = job.row (requests i).1 n

structure Kept (db₀ : Database) (requests : Nat → Session × List Job) (sv : Server) : Prop where
  keys : KeysDistinct sv
  tables : ∃ t, sv.db = { db₀ with applications := t }
  rows : ∀ a ∈ sv.db.applications, a ∈ db₀.applications ∨ ∃ i, Requested requests i a
  flight : ∀ p ∈ sv.inflight, (sv.txs p.1).status = .running ∧ Requested requests p.1 p.2
  tally : ∀ i, Tally db₀ (requests i) (sv.txs i) (Present sv i)

section
variable {db₀ : Database} {requests : Nat → Session × List Job} {sv sv' : Server} {i : Nat}
  {act : Act} {s : Session} {job : Job}

theorem Job.permitted_view : job.Permitted (sv.view i) s ↔ job.Permitted sv.db s := by
  cases job <;> exact Iff.rfl

theorem Kept.permitted (h : Kept db₀ requests sv) :
    job.Permitted sv.db s ↔ job.Permitted db₀ s := by
  obtain ⟨t, ht⟩ := h.tables
  rw [ht]
  cases job <;> exact Iff.rfl

theorem KeysDistinct.present_iff (h : KeysDistinct sv) {id : Uuid} :
    Present sv i id ↔ ∃ a ∈ (sv.view i).applications, a.id = id := by
  constructor
  · rintro ⟨a, hid, ha⟩
    exact ⟨a, h.mem_view.mpr ha, hid⟩
  · rintro ⟨a, ha, hid⟩
    exact ⟨a, hid, h.mem_view.mp ha⟩

theorem status_update (txs : Nat → Tx) (tx : Tx) (h : tx.status = (txs i).status) (k : Nat) :
    (Function.update txs i tx k).status = (txs k).status := by
  by_cases hk : k = i
  · subst hk
    rw [Function.update_self, h]
  · rw [Function.update_of_ne hk]

theorem Kept.setTx (h : Kept db₀ requests sv) {tx : Tx} (hstatus : tx.status = (sv.txs i).status)
    (htx : Tally db₀ (requests i) tx (Present sv i)) : Kept db₀ requests (sv.setTx i tx) where
  keys := ⟨h.keys.rows, h.keys.flight, h.keys.flight_rows⟩
  tables := h.tables
  rows := h.rows
  flight p hp := ⟨(status_update sv.txs tx hstatus p.1).trans (h.flight p hp).1, (h.flight p hp).2⟩
  tally :=
    (Function.forall_update_iff sv.txs fun k tx => Tally db₀ (requests k) tx (Present sv k)).mpr
      ⟨htx, fun k _ => h.tally k⟩

theorem Kept.rolledBack (h : Kept db₀ requests sv) : Kept db₀ requests (sv.rolledBack i) where
  keys := h.keys.rolledBack
  tables := h.tables
  rows := h.rows
  flight p hp := by
    obtain ⟨hin, hi⟩ := List.mem_filter.mp hp
    have hne : p.1 ≠ i := by simpa using hi
    simpa [Server.rolledBack, Function.update_of_ne hne] using h.flight p hin
  tally := by
    refine (Function.forall_update_iff sv.txs fun k tx =>
      Tally db₀ (requests k) tx (Present (sv.rolledBack i) k)).mpr ⟨?_, fun k hk => ?_⟩
    · exact (h.tally i).aborted
    · refine (h.tally k).mono fun id ⟨a, hid, ha⟩ => ⟨a, hid, ha.imp_right fun hin => ?_⟩
      exact List.mem_filter.mpr ⟨hin, by simpa using hk⟩

theorem Kept.inserted (h : Kept db₀ requests sv) {n : Nat} {rest : List Job}
    (hrun : (sv.txs i).status = .running) (hwait : (sv.txs i).waiting = job :: rest)
    (hsv' : sv' =
      { sv with
        inflight := sv.inflight ++ [(i, job.row (sv.txs i).session n)]
        txs := Function.update sv.txs i { sv.txs i with waiting := rest, number := none } })
    (hkeys : KeysDistinct sv') : Kept db₀ requests sv' := by
  have hpres : ∀ k id, Present sv k id → Present sv' k id := by
    rintro k id ⟨a, hid, ha⟩
    subst hsv'
    exact ⟨a, hid, ha.imp_right fun hin => List.mem_append_left _ hin⟩
  subst hsv'
  refine ⟨hkeys, h.tables, h.rows, fun p hp => ⟨?_, ?_⟩, ?_⟩
  · refine (status_update sv.txs { sv.txs i with waiting := rest, number := none } rfl p.1).trans ?_
    rcases List.mem_append.mp hp with hp | hp
    · exact (h.flight p hp).1
    · obtain rfl := List.mem_singleton.mp hp
      exact hrun
  · rcases List.mem_append.mp hp with hp | hp
    · exact (h.flight p hp).2
    · obtain rfl := List.mem_singleton.mp hp
      refine ⟨job, (h.tally i).waiting (hwait ▸ List.mem_cons_self), n, ?_⟩
      rw [(h.tally i).session]
  · refine (Function.forall_update_iff sv.txs fun k tx => Tally db₀ (requests k) tx _).mpr
      ⟨?_, fun k _ => (h.tally k).mono (hpres k)⟩
    refine ((h.tally i).mono (hpres i)).next hrun hwait (.inl ?_)
    exact ⟨_, Job.row_id, .inr (List.mem_append_right _ (List.mem_singleton_self _))⟩

theorem Kept.committed (h : Kept db₀ requests sv) (hrun : (sv.txs i).status = .running)
    (hwait : (sv.txs i).waiting = [])
    (hsv' : sv' =
      { db := sv.view i
        inflight := sv.inflight.filter fun p => p.1 ≠ i
        txs := Function.update sv.txs i { sv.txs i with status := .committed } })
    (hkeys : KeysDistinct sv') : Kept db₀ requests sv' := by
  subst hsv'
  obtain ⟨t, ht⟩ := h.tables
  refine ⟨hkeys, ⟨(sv.view i).applications, ?_⟩, fun a ha => ?_, fun p hp => ?_, ?_⟩
  · exact congrArg (fun db => { db with applications := (sv.view i).applications }) ht
  · rcases h.keys.mem_view.mp ha with ha | ha
    · exact h.rows a ha
    · exact .inr ⟨i, (h.flight _ ha).2⟩
  · obtain ⟨hin, hi⟩ := List.mem_filter.mp hp
    have hne : p.1 ≠ i := by simpa using hi
    simpa [Function.update_of_ne hne] using h.flight p hin
  · refine (Function.forall_update_iff sv.txs fun k tx => Tally db₀ (requests k) tx _).mpr
      ⟨((h.tally i).committed hrun hwait).mono ?_, fun k hk => (h.tally k).mono ?_⟩
    · exact fun id ⟨a, hid, ha⟩ => ⟨a, hid, .inl (h.keys.mem_view.mpr ha)⟩
    · rintro id ⟨a, hid, ha | ha⟩
      · exact ⟨a, hid, .inl (h.keys.mem_view.mpr (.inl ha))⟩
      · exact ⟨a, hid, .inr (List.mem_filter.mpr ⟨ha, by simpa using hk⟩)⟩

/-- Where the number was free and the item is refused, it is not permitted or
its id is taken. -/
theorem Kept.refused_cause (h : Kept db₀ requests sv) {clock : Time} {newDoc : ApplicationDoc}
    {rest : List Job} {n : Nat} (hok : Unraced sv (.insert i))
    (hwait : (sv.txs i).waiting = .push clock newDoc :: rest) (hnum : (sv.txs i).number = some n)
    (hblock : ¬ sv.Blocked i ((Job.push clock newDoc).row (sv.txs i).session n))
    (herr : ∀ db', (sv.view i).insertApplication (sv.txs i).session
      ((Job.push clock newDoc).row (sv.txs i).session n) ≠ .ok db') :
    Present sv i newDoc.id ∨ ¬ (Job.push clock newDoc).Permitted db₀ (requests i).1 := by
  by_contra hcon
  obtain ⟨habsent, hperm⟩ := not_or.mp hcon
  have hperm := h.permitted.mpr (not_not.mp hperm)
  rw [← (h.tally i).session] at hperm
  have hfree : (sv.view i).applications.find? newDoc.id = none :=
    Table.find?_eq_none.mpr fun a ha hid => habsent (h.keys.present_iff.mpr ⟨a, ha, hid⟩)
  have hseq : ¬ (sv.view i).SequenceTaken newDoc.eventId n := by
    have hfact : Unraced sv (.insert i) := hok
    simp only [Unraced, hwait, hnum] at hfact
    exact hfact hperm hblock hfree
  obtain ⟨t, ht⟩ := Table.insert?_isSome
    (r := (Job.push clock newDoc).row (sv.txs i).session n) hfree
  obtain ⟨-, -, hwritable, hrefs⟩ := Job.permitted_view (i := i).mpr hperm
  exact herr _ (Database.insertRow_ok.mpr ⟨hwritable, ⟨hrefs, hseq⟩, t, ht, rfl⟩)

theorem Kept.step (h : Kept db₀ requests sv) (hok : Unraced sv act) (ho : Outcome sv act sv') :
    Kept db₀ requests sv' := by
  have hkeys := h.keys.step ho
  cases ho with
  | idle => exact h
  | @numbered i n => exact h.setTx rfl (h.tally i).numbered
  | @found i job rest hrun hwait hfound =>
    exact h.setTx rfl ((h.tally i).next hrun hwait (.inl (h.keys.present_iff.mpr hfound)))
  | @refused i clock newDoc rest hrun hwait hno =>
    refine h.setTx rfl ((h.tally i).tombstone hrun hwait (.inr fun hperm => hno ?_))
    rw [Job.permitted_view, h.permitted, (h.tally i).session]
    exact hperm
  | inserted hrun hwait => exact h.inserted hrun hwait rfl hkeys
  | @collided i clock newDoc rest n hrun hwait hnum hblock herr =>
    exact h.setTx rfl
      ((h.tally i).tombstone hrun hwait (h.refused_cause hok hwait hnum hblock herr))
  | aborted => exact h.rolledBack
  | committed hrun hwait => exact h.committed hrun hwait rfl hkeys

theorem kept_start {db : Database} (hdb : NumbersDistinct db) :
    Kept db requests (Server.start db requests) where
  keys := ⟨hdb, List.Pairwise.nil, by simp [Server.start]⟩
  tables := ⟨db.applications, rfl⟩
  rows _ ha := .inl ha
  flight := by simp [Server.start]
  tally i :=
    { session := rfl
      waiting := fun _ hj => hj
      done := by simp [Server.start]
      kept := fun _ hj _ _ => .inr (.inl hj)
      refused := by simp [Server.start] }

end

/-- Numbers are distinct, every job that could not fail has its application,
live and as requested, once its transaction has committed, and a tombstone
answers no other. -/
structure LosesNothing (db₀ : Database) (requests : Nat → Session × List Job) (sv : Server) :
    Prop where
  numbers : NumbersDistinct sv.db
  kept : ∀ i, (sv.txs i).status = .committed → ∀ job ∈ (requests i).2,
    job.Permitted db₀ (requests i).1 → db₀.applications.find? job.id = none →
      ∃ a ∈ sv.db.applications, a.id = job.id ∧ a.isDeleted = false ∧ ∃ j, Requested requests j a
  refused : ∀ i, (sv.txs i).status = .committed → ∀ id ∈ (sv.txs i).tombstones,
    (∃ a ∈ sv.db.applications, a.id = id) ∨
      ∃ job ∈ (requests i).2, job.id = id ∧ ¬ job.Permitted db₀ (requests i).1

section
variable {db₀ : Database} {requests : Nat → Session × List Job} {sv : Server} {i : Nat}
  {acts : List Act}

theorem Kept.present_committed (h : Kept db₀ requests sv) {id : Uuid}
    (hstatus : (sv.txs i).status = .committed) (hp : Present sv i id) :
    ∃ a ∈ sv.db.applications, a.id = id := by
  obtain ⟨a, hid, ha | ha⟩ := hp
  · exact ⟨a, ha, hid⟩
  · have hrun := (h.flight _ ha).1
    simp [hstatus] at hrun

theorem Kept.losesNothing (h : Kept db₀ requests sv)
    (hlive : ∀ i, ∀ job ∈ (requests i).2, job.Live) : LosesNothing db₀ requests sv where
  numbers := h.keys.rows
  kept i hstatus job hj hperm hfresh := by
    rcases (h.tally i).kept job hj hperm hfresh with hab | hwait | hpres
    · simp [hstatus] at hab
    · simp [(h.tally i).done hstatus] at hwait
    · obtain ⟨a, ha, hid⟩ := h.present_committed hstatus hpres
      rcases h.rows a ha with hold | ⟨j, job', hj', n, rfl⟩
      · exact absurd hid (Table.find?_eq_none.mp hfresh a hold)
      · exact ⟨_, ha, hid, Job.row_live (hlive j job' hj'), j, job', hj', n, rfl⟩
  refused i hstatus id hid := by
    rcases (h.tally i).refused id hid with hab | hpres | hno
    · simp [hstatus] at hab
    · exact .inl (h.present_committed hstatus hpres)
    · exact .inr hno

/-- In every interleaving in which no push inserts a number that was taken
since it read it, nothing is lost. -/
theorem inserts_lose_nothing (hdb : NumbersDistinct db₀)
    (hlive : ∀ i, ∀ job ∈ (requests i).2, job.Live)
    (hrun : Run.Along Server.step Unraced (Server.start db₀ requests) acts) :
    LosesNothing db₀ requests (Run.run Server.step (Server.start db₀ requests) acts) :=
  (hrun.invariant (kept_start hdb) fun sv act h hok => h.step hok (act_cases sv act)).losesNothing
    hlive

end

instance (db : Database) (s : Session) (job : Job) : Decidable (job.Permitted db s) := by
  unfold Job.Permitted
  split <;> infer_instance

instance (sv : Server) (act : Act) : Decidable (Unraced sv act) := by
  unfold Unraced
  repeat' split
  all_goals infer_instance

def ownersPush (id : Uuid) : Job :=
  .push 110 { Sync.applicationToDoc sampleApplication [] with id := id }

def rivals : Nat → Session × List Job
  | 0 => (sampleOwner, [ownersPush 5])
  | 1 => (sampleOwner, [ownersPush 6])
  | _ => (sampleOwner, [])

theorem rivals_live : ∀ i, ∀ job ∈ (rivals i).2, job.Live
  | 0 => by simp [rivals, ownersPush, Job.Live, Sync.applicationToDoc, sampleApplication]
  | 1 => by simp [rivals, ownersPush, Job.Live, Sync.applicationToDoc, sampleApplication]
  | _ + 2 => by simp [rivals]

theorem rivals_in_turn :
    LosesNothing sample rivals (Run.run Server.step (Server.start sample rivals)
      [.read 0, .insert 0, .commit 0, .read 1, .insert 1, .commit 1]) :=
  inserts_lose_nothing (by decide) rivals_live (by decide +kernel)

/-- Both read the same number; the first to insert commits, and the other's
application is answered with a tombstone. -/
theorem rivals_race :
    ¬ LosesNothing sample rivals (Run.run Server.step (Server.start sample rivals)
      [.read 0, .read 1, .insert 1, .commit 1, .insert 0, .commit 0]) := by
  intro h
  obtain ⟨a, ha, hid, -⟩ := h.kept 0 (by decide +kernel) (ownersPush 5) (by simp [rivals])
    (by decide +kernel) (by decide +kernel)
  have hgone : ∀ a ∈ (Run.run Server.step (Server.start sample rivals)
      [.read 0, .read 1, .insert 1, .commit 1, .insert 0, .commit 0]).db.applications,
      a.id ≠ 5 := by decide +kernel
  exact hgone a ha hid

end HcMap.Routes
