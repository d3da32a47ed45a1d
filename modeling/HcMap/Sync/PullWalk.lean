import HcMap.Sync.Pull

/-!
# Pulling until a page is empty

The pull handler of `replication.ts` calls its endpoint again and again, each
time with the checkpoint it made of the last answer. While the rows the session
may see stay as they are, the pages are these rows, each once and in order.
-/

namespace HcMap.Sync

open Cursor (Lists page advance)

-- ---------------------------------------------------------------------------
-- The handler and its endpoint
-- ---------------------------------------------------------------------------

structure PullParams where
  updatedAt : Option Time
  id : Option Uuid
  limit : Nat

def buildPullParams (checkpoint : Option SyncCheckpoint) (batchSize : Nat) : PullParams where
  updatedAt := checkpoint.map SyncCheckpoint.updatedAt
  id := checkpoint.map SyncCheckpoint.id
  limit := batchSize

/-- `_checkpoint`: both must be supplied or neither. -/
def checkpointOf : Option Time → Option Uuid → Option SyncCheckpoint
  | some updatedAt, some cursorId => some ⟨updatedAt, cursorId⟩
  | _, _ => none

@[simp] theorem checkpointOf_buildPullParams (checkpoint : Option SyncCheckpoint)
    (batchSize : Nat) :
    checkpointOf (buildPullParams checkpoint batchSize).updatedAt
      (buildPullParams checkpoint batchSize).id = checkpoint := by
  cases checkpoint <;> rfl

/-- `pull.handler` against an endpoint: the answer's documents, and the
checkpoint of the next call. -/
def pullHandler {δ : Type} (id : δ → Uuid) (updatedAt : δ → Time)
    (endpoint : Option SyncCheckpoint → Nat → PullResponse δ)
    (lastCheckpoint : Option SyncCheckpoint) (batchSize : Nat) : PullResponse δ :=
  let query := buildPullParams lastCheckpoint batchSize
  let result := endpoint (checkpointOf query.updatedAt query.id) query.limit
  { documents := result.documents
    checkpoint :=
      match result.documents.getLast? with
      | some tail => some ⟨updatedAt tail, id tail⟩
      | none => result.checkpoint.or lastCheckpoint }

theorem receive_eq_pullHandler {δ : Type} (id : δ → Uuid) (updatedAt : δ → Time)
    (endpoint : Option SyncCheckpoint → Nat → PullResponse δ)
    (feed : Cursor.Feed Uuid SyncCheckpoint δ) (batchSize : Nat) :
    let answer := pullHandler id updatedAt endpoint feed.checkpoint batchSize
    receive id updatedAt feed (endpoint feed.checkpoint batchSize) =
      ⟨answer.checkpoint, answer.documents.foldl
        (fun docs d => Function.update docs (id d) (some d)) feed.docs⟩ := by
  simp only [pullHandler, checkpointOf_buildPullParams]
  rfl

theorem pullHandler_page {ρ δ : Type} {id : δ → Uuid} {updatedAt : δ → Time}
    {pos : ρ → SyncCheckpoint} {render : ρ → δ} {rows : List ρ} {c : Option SyncCheckpoint}
    {endpoint : Option SyncCheckpoint → Nat → PullResponse δ} {limit : Nat}
    (hpos : ∀ r, pos r = ⟨updatedAt (render r), id (render r)⟩)
    (h : endpoint c limit = ⟨rows.map render, advance pos c rows⟩) :
    pullHandler id updatedAt endpoint c limit = ⟨rows.map render, advance pos c rows⟩ := by
  simp only [pullHandler, checkpointOf_buildPullParams]
  show PullResponse.mk (endpoint c limit).documents _ = _
  simp only [buildPullParams, h, List.getLast?_map]
  congr 1
  unfold advance
  cases rows.getLast? with
  | some last => simp [hpos]
  | none => simp

-- ---------------------------------------------------------------------------
-- Walks
-- ---------------------------------------------------------------------------

structure Walk (δ : Type) where
  call : Nat → Option SyncCheckpoint → PullResponse δ

namespace Walk

variable {δ : Type} (walk : Walk δ)

def checkpoint : Nat → Option SyncCheckpoint
  | 0 => none
  | n + 1 => (walk.call n (checkpoint n)).checkpoint

def documents (n : Nat) : List δ := (walk.call n (walk.checkpoint n)).documents

def pulled (n : Nat) : List δ := (List.range n).flatMap walk.documents

/-- After finitely many calls the walk has brought `rows`, in this order, each
as one document that shows it; from then on pages are empty and the checkpoint
stays. -/
def Brings {ρ : Type} (shows : δ → ρ → Prop) (rows : List ρ) : Prop :=
  ∃ last, List.Forall₂ shows (walk.pulled last) rows ∧
    ∀ n, last ≤ n → walk.documents n = [] ∧ walk.checkpoint n = walk.checkpoint last

theorem pulled_succ (n : Nat) : walk.pulled (n + 1) = walk.pulled n ++ walk.documents n := by
  simp [pulled, List.range_succ]

section
variable {walk} {ρ : Type} [Keyed ρ Uuid] {pos : ρ → SyncCheckpoint} {render : Nat → ρ → δ}
  {t : Nat → Table ρ} {visible : Nat → ρ → Prop} [∀ n, DecidablePred (visible n)] {rows : List ρ}
  {limit : Nat}

def Pages (walk : Walk δ) (pos : ρ → SyncCheckpoint) (render : Nat → ρ → δ) (t : Nat → Table ρ)
    (visible : Nat → ρ → Prop) [∀ n, DecidablePred (visible n)] (limit : Nat) : Prop :=
  ∀ n c, walk.call n c =
    ⟨(page pos (t n) (visible n) c limit).map (render n),
      advance pos c (page pos (t n) (visible n) c limit)⟩

theorem Pages.checkpoint_eq (h : walk.Pages pos render t visible limit)
    (hrows : ∀ n, Lists pos (t n) (visible n) rows) (n : Nat) :
    walk.checkpoint n = advance pos none (rows.take (n * limit)) := by
  induction n with
  | zero => simp [checkpoint, advance]
  | succ n ih =>
    calc walk.checkpoint (n + 1)
        = advance pos (walk.checkpoint n)
            (page pos (t n) (visible n) (walk.checkpoint n) limit) := by rw [checkpoint, h]
      _ = advance pos (advance pos none (rows.take (n * limit)))
            ((rows.drop (n * limit)).take limit) := by rw [ih, (hrows n).page_after]
      _ = advance pos none (rows.take ((n + 1) * limit)) := by
        rw [Cursor.advance_take, Nat.succ_mul]

theorem Pages.documents_eq (h : walk.Pages pos render t visible limit)
    (hrows : ∀ n, Lists pos (t n) (visible n) rows) (n : Nat) :
    walk.documents n = ((rows.drop (n * limit)).take limit).map (render n) := by
  rw [documents, h, h.checkpoint_eq hrows, (hrows n).page_after]

theorem Pages.pulled (h : walk.Pages pos render t visible limit)
    (hrows : ∀ n, Lists pos (t n) (visible n) rows) (n : Nat) :
    List.Forall₂ (fun d r => ∃ m, d = render m r) (walk.pulled n) (rows.take (n * limit)) := by
  induction n with
  | zero => simp [Walk.pulled]
  | succ n ih =>
    have hpage : List.Forall₂ (fun d r => ∃ m, d = render m r) (walk.documents n)
        ((rows.drop (n * limit)).take limit) := by
      rw [h.documents_eq hrows, List.forall₂_map_left_iff]
      exact List.forall₂_same.mpr fun r _ => ⟨n, rfl⟩
    rw [pulled_succ, Nat.succ_mul, List.take_add]
    exact List.rel_append ih hpage

/-- A walk over rows that stay as they are is exact. -/
theorem Pages.brings (h : walk.Pages pos render t visible limit)
    (hrows : ∀ n, Lists pos (t n) (visible n) rows) (hlimit : 1 ≤ limit) :
    walk.Brings (fun d r => ∃ m, d = render m r) rows := by
  have hpast : ∀ n, rows.length ≤ n → rows.length ≤ n * limit := fun n hn =>
    hn.trans (Nat.le_mul_of_pos_right n hlimit)
  refine ⟨rows.length, ?_, fun n hn => ⟨?_, ?_⟩⟩
  · have hpulled := h.pulled hrows rows.length
    rwa [List.take_of_length_le (hpast _ le_rfl)] at hpulled
  · rw [h.documents_eq hrows, List.drop_eq_nil_of_le (hpast n hn), List.take_nil, List.map_nil]
  · rw [h.checkpoint_eq hrows, h.checkpoint_eq hrows, List.take_of_length_le (hpast n hn),
      List.take_of_length_le (hpast _ le_rfl)]

end

end Walk

-- ---------------------------------------------------------------------------
-- The three streams
-- ---------------------------------------------------------------------------

/-- The session may see the same rows of a table at every call. -/
def Unmoved {ρ : Type} [Keyed ρ Uuid] (t : Nat → Table ρ) (visible : Nat → ρ → Prop) : Prop :=
  ∀ n r, (r ∈ t n ∧ visible n r) ↔ (r ∈ t 0 ∧ visible 0 r)

section
variable (db later : Nat → Database) (s : Session) (limit : Nat)

def eventWalk : Walk EventDoc where
  call n c := pullHandler EventDoc.id EventDoc.updatedAt (pullEvents (db n) s) c limit

def applicationWalk : Walk ApplicationDoc where
  call n c :=
    pullHandler ApplicationDoc.id ApplicationDoc.updatedAt (pullApplications (db n) (later n) s) c
      limit

def participantWalk : Walk EventParticipantDoc where
  call n c :=
    pullHandler EventParticipantDoc.id EventParticipantDoc.updatedAt
      (pullEventParticipants (db n) s) c limit

theorem eventWalk_pages : (eventWalk db s limit).Pages eventPosition (fun _ => eventToDoc)
    (fun n => (db n).events) (fun n => eventVisible (db n) s) limit :=
  fun _ _ => pullHandler_page (fun _ => rfl) rfl

theorem applicationWalk_pages : (applicationWalk db later s limit).Pages applicationPosition
    (fun n a => applicationToDoc a (loadRestraintSet (later n) s a.id))
    (fun n => (db n).applications) (fun n => applicationVisible (db n) s) limit :=
  fun _ _ => pullHandler_page (fun _ => rfl) rfl

theorem participantWalk_pages : (participantWalk db s limit).Pages participantPosition
    (fun _ => eventParticipantToDoc) (fun n => (db n).participants)
    (fun n => participantVisible (db n) s) limit :=
  fun _ _ => pullHandler_page (fun _ => rfl) rfl

/-- The walk of a stream whose visible rows stay as they are brings them all,
each once, in strictly increasing order of `(updated_at, id)`, tombstones
included. An application comes with the restraint set of the call. -/
theorem pull_walk_exact (hlimit : 1 ≤ limit) :
    (Unmoved (fun n => (db n).events) (fun n => eventVisible (db n) s) →
      ∃ rows, Lists eventPosition (db 0).events (eventVisible (db 0) s) rows ∧
        (eventWalk db s limit).Brings (fun d e => d = eventToDoc e) rows) ∧
    (Unmoved (fun n => (db n).applications) (fun n => applicationVisible (db n) s) →
      ∃ rows, Lists applicationPosition (db 0).applications (applicationVisible (db 0) s) rows ∧
        (applicationWalk db later s limit).Brings
          (fun d a => ∃ n, d = applicationToDoc a (loadRestraintSet (later n) s a.id)) rows) ∧
    (Unmoved (fun n => (db n).participants) (fun n => participantVisible (db n) s) →
      ∃ rows, Lists participantPosition (db 0).participants (participantVisible (db 0) s) rows ∧
        (participantWalk db s limit).Brings (fun d ep => d = eventParticipantToDoc ep) rows) := by
  refine ⟨fun hsteady => ?_, fun hsteady => ?_, fun hsteady => ?_⟩
  · obtain ⟨rows, hrows⟩ := Cursor.exists_lists eventPosition (db 0).events
      (eventVisible (db 0) s) fun _ ha _ hb => eventPosition_inj ha hb
    have hbrings := (eventWalk_pages db s limit).brings (fun n => hrows.congr (hsteady n)) hlimit
    exact ⟨rows, hrows, by simpa using hbrings⟩
  · obtain ⟨rows, hrows⟩ := Cursor.exists_lists applicationPosition (db 0).applications
      (applicationVisible (db 0) s)
      fun _ ha _ hb => applicationPosition_inj ha hb
    exact ⟨rows, hrows, (applicationWalk_pages db later s limit).brings
      (fun n => hrows.congr (hsteady n)) hlimit⟩
  · obtain ⟨rows, hrows⟩ := Cursor.exists_lists participantPosition (db 0).participants
      (participantVisible (db 0) s)
      fun _ ha _ hb => participantPosition_inj ha hb
    have hbrings :=
      (participantWalk_pages db s limit).brings (fun n => hrows.congr (hsteady n)) hlimit
    exact ⟨rows, hrows, by simpa using hbrings⟩

theorem pull_walk_exact_sample :
    ∃ rows, Lists participantPosition sample.participants (participantVisible sample sampleGuest)
      rows ∧ (participantWalk (fun _ => sample) sampleGuest 1).Brings
        (fun d ep => d = eventParticipantToDoc ep) rows :=
  (pull_walk_exact (fun _ => sample) (fun _ => sample) sampleGuest 1 (by decide)).2.2
    fun _ _ => Iff.rfl

end

end HcMap.Sync
