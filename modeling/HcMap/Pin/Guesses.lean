import HcMap.Pin.StaysLocked
import Mathlib.Data.Fintype.Basic

/-!
# Bounded guessing

`tryUnlock` counts an attempt before it verifies the candidate, and the fifth
wrong one wipes the record. The counter it goes by is the one its tab has in
memory, and it is stored as a part of the whole record: attempts that overlap,
or a tab whose memory is older than the store, take counts back. A page that is
lost between the fifth verification and the request to log out sends none.
-/

namespace HcMap.Pin

-- ---------------------------------------------------------------------------
-- Counting
-- ---------------------------------------------------------------------------

/-- What has happened since the PIN was set or a `tryUnlock` succeeded: how many
wrong candidates were verified, how many attempts were counted, and how many
requests to log out were sent. -/
structure Counts where
  wrong : Nat
  increments : Nat
  logouts : Nat
  deriving DecidableEq

def Task.count (deriveBits : DeriveBits) (n : Counts) : Task → Counts
  | .counting _ _ => { n with increments := n.increments + 1 }
  | .verifying candidate tentative =>
    if verifyPin deriveBits candidate tentative = some false then { n with wrong := n.wrong + 1 }
    else n
  | .saving _ | .resetting _ _ => ⟨0, 0, 0⟩
  | .wiped => { n with logouts := n.logouts + 1 }
  | _ => n

structure Watched (ι κ : Type) where
  world : World ι κ
  counts : Counts

namespace Watched

variable {ι κ : Type} [DecidableEq ι] [DecidableEq κ] (deriveBits : DeriveBits)

def start : Watched ι κ := ⟨World.start, ⟨0, 0, 0⟩⟩

def step (v : Watched ι κ) (e : Event ι κ) : Watched ι κ where
  world := v.world.step deriveBits e
  counts := match e with
    | .advance c =>
      match v.world.calls c with
      | some (_, t) => t.count deriveBits v.counts
      | none => v.counts
    | _ => v.counts

end Watched

/-- The forced logout is about to wipe the record, or has wiped it and is about to
send its request, or has sent it. -/
def LoggingOut {ι κ : Type} (v : Watched ι κ) : Prop :=
  (∃ c i, v.world.calls c = some (i, .wiping)) ∨
    v.world.store = none ∧ ((∃ c i, v.world.calls c = some (i, .wiped)) ∨ 0 < v.counts.logouts)

/-- No more wrong candidates than the limit, with which the user is logged out;
and every attempt is counted in the record. -/
structure Bounded {ι κ : Type} (v : Watched ι κ) : Prop where
  wrong : v.counts.wrong ≤ pinFailLimit
  loggedOut : v.counts.wrong = pinFailLimit → LoggingOut v
  counted : ∀ record, v.world.store = some record → record.failCount = v.counts.increments

-- ---------------------------------------------------------------------------
-- The condition
-- ---------------------------------------------------------------------------

/-- The task writes the record, or decides if something is written, or has yet to
send the request to log out. -/
def Task.Busy : Task → Prop
  | .saving _ | .clearing | .counting _ _ | .counted _ _ | .verifying _ _ | .resetting _ _
  | .wiping | .wiped => True
  | _ => False

instance : DecidablePred Task.Busy
  | .saving _ | .clearing | .counting .. | .counted .. | .verifying .. | .resetting ..
  | .wiping | .wiped => .isTrue trivial
  | .reading | .loaded _ | .saved _ | .cleared | .reset .. | .loggingOut => .isFalse id

section
variable {ι κ : Type}

def Idle (w : World ι κ) : Prop := ∀ c, ∀ call ∈ w.calls c, ¬ call.2.Busy

/-- An operation on the PIN starts when no other is under way, a `tryUnlock`
only in a tab that has the stored record in memory; and a forced logout wipes
the record and sends its request before its page is lost. -/
def Orderly (w : World ι κ) : Event ι κ → Prop
  | .setPin .. | .clearPin .. => Idle w
  | .tryUnlock i _ _ => ∀ record ∈ (w.tabs i).record, w.store = some record ∧ Idle w
  | .load i _ => ∀ c, w.calls c ≠ some (i, .wiping) ∧ w.calls c ≠ some (i, .wiped)
  | .fail c => ∀ call ∈ w.calls c, call.2 ≠ .wiping
  | _ => True

instance [Fintype κ] (w : World ι κ) : Decidable (Idle w) :=
  inferInstanceAs (Decidable (∀ c, ∀ call ∈ w.calls c, ¬ call.2.Busy))

instance [Fintype κ] [DecidableEq ι] (w : World ι κ) : DecidablePred (Orderly w)
  | .setPin .. | .clearPin .. => inferInstanceAs (Decidable (Idle w))
  | .tryUnlock i _ _ =>
    inferInstanceAs (Decidable (∀ record ∈ (w.tabs i).record, w.store = some record ∧ Idle w))
  | .load i _ =>
    inferInstanceAs (Decidable
      (∀ c, w.calls c ≠ some (i, .wiping) ∧ w.calls c ≠ some (i, .wiped)))
  | .fail c => inferInstanceAs (Decidable (∀ call ∈ w.calls c, call.2 ≠ .wiping))
  | .activity _ | .hidden _ | .timeout _ | .lock _ | .advance _ => .isTrue trivial

end

-- ---------------------------------------------------------------------------
-- One operation at a time
-- ---------------------------------------------------------------------------

section
variable {deriveBits : DeriveBits} {store : Option PinRecord} {t t' : Task} {n : Counts}

theorem busy_of_next (h : t.next deriveBits store = some t') (hbusy : t'.Busy) : t.Busy := by
  cases next_cases h with
  | reads => exact hbusy
  | _ => trivial

theorem busy_of_nextThrown (h : t.nextThrown = some t') (hbusy : t'.Busy) : t.Busy := by
  cases nextThrown_cases h with
  | still => exact hbusy
  | _ => trivial

theorem write_of_not_busy (h : ¬ t.Busy) : t.write store = store := by
  cases t <;> first | rfl | exact absurd trivial h

theorem count_of_not_busy (h : ¬ t.Busy) : t.count deriveBits n = n := by
  cases t <;> first | rfl | exact absurd trivial h

end

def OneBusy {ι κ : Type} (w : World ι κ) : Prop :=
  ∀ c c' i i' t t', w.calls c = some (i, t) → w.calls c' = some (i', t') → t.Busy → t'.Busy →
    c = c'

def Event.starts {ι κ : Type} : Event ι κ → Option κ
  | .setPin _ c _ _ _ | .clearPin _ c | .tryUnlock _ c _ => some c
  | _ => none

section
variable {ι κ : Type} [DecidableEq ι] [DecidableEq κ] {deriveBits : DeriveBits} {w : World ι κ}
  {e : Event ι κ} {c : κ} {i : ι} {t : Task}

theorem busy_before (horderly : Orderly w e) (h : (w.step deriveBits e).calls c = some (i, t))
    (hbusy : t.Busy) :
    (∃ t', w.calls c = some (i, t') ∧ t'.Busy) ∨ (Idle w ∧ e.starts = some c) := by
  cases step_calls h with
  | still hcall hother => exact .inl ⟨t, hcall, hbusy⟩
  | loads => exact hbusy.elim
  | sets hnext => exact .inr ⟨horderly, rfl⟩
  | clears => exact .inr ⟨horderly, rfl⟩
  | tries hrecord => exact .inr ⟨(horderly _ hrecord).2, rfl⟩
  | advanced hcall hnext => exact .inl ⟨_, hcall, busy_of_next hnext hbusy⟩
  | thrown hcall hnext => exact .inl ⟨_, hcall, busy_of_nextThrown hnext hbusy⟩

theorem OneBusy.step (h : OneBusy w) (horderly : Orderly w e) :
    OneBusy (w.step deriveBits e) := by
  intro c c' i i' t t' hc hc' ht ht'
  rcases busy_before horderly hc ht with ⟨u, hu, hbusy⟩ | ⟨hidle, hstarts⟩
  · rcases busy_before horderly hc' ht' with ⟨u', hu', hbusy'⟩ | ⟨hidle, -⟩
    · exact h c c' i i' u u' hu hu' hbusy hbusy'
    · exact absurd hbusy (hidle c _ hu)
  · rcases busy_before horderly hc' ht' with ⟨u', hu', hbusy'⟩ | ⟨-, hstarts'⟩
    · exact absurd hbusy' (hidle c' _ hu')
    · exact Option.some.inj (hstarts.symm.trans hstarts')

end

-- ---------------------------------------------------------------------------
-- What the tasks rely on
-- ---------------------------------------------------------------------------

/-- The record of the task is the stored one, counted up to the attempt. -/
def Task.Fits (store : Option PinRecord) (wrong : Nat) : Task → Prop
  | .counting _ tentative =>
    ∃ record, store = some record ∧ tentative = record.withFailCount (record.failCount + 1)
  | .counted _ tentative | .verifying _ tentative =>
    store = some tentative ∧ wrong < tentative.failCount
  | .resetting _ record | .saving record => record.failCount = 0
  | _ => True

def Counted (store : Option PinRecord) (n : Counts) : Prop :=
  ∀ record, store = some record → record.failCount = n.increments ∧ n.wrong ≤ n.increments

section
variable {deriveBits : DeriveBits} {store : Option PinRecord} {t t' : Task} {n : Counts}
  {wrong : Nat}

theorem fits_of_not_busy (h : ¬ t.Busy) : t.Fits store wrong := by
  cases t <;> first | trivial | exact absurd trivial h

theorem fits_next (h : t.Fits store n.wrong) (hcounted : Counted store n)
    (hnext : t.next deriveBits store = some t') :
    t'.Fits (t.write store) (t.count deriveBits n).wrong := by
  cases next_cases hnext with
  | counts =>
    obtain ⟨record, hstore, rfl⟩ := h
    obtain ⟨hcount, hwrong⟩ := hcounted record hstore
    refine ⟨rfl, ?_⟩
    simp only [withFailCount_failCount, Task.count]
    omega
  | verifies => exact h
  | accepts hverified => rfl
  | _ => trivial

theorem fits_nextThrown (h : t.Fits store wrong) (hnext : t.nextThrown = some t') :
    t'.Fits store wrong := by
  cases nextThrown_cases hnext with
  | still => exact h
  | _ => trivial

theorem counted_write (h : t.Fits store n.wrong) (hcounted : Counted store n) :
    Counted (t.write store) (t.count deriveBits n) := by
  intro record hrecord
  cases t with
  | saving next =>
    cases hrecord
    exact ⟨h, Nat.le_refl 0⟩
  | resetting candidate reset =>
    cases hrecord
    exact ⟨h, Nat.le_refl 0⟩
  | counting candidate tentative =>
    cases hrecord
    obtain ⟨record, hstore, rfl⟩ := h
    obtain ⟨hcount, hwrong⟩ := hcounted record hstore
    simp only [withFailCount_failCount, Task.count]
    omega
  | verifying candidate tentative =>
    obtain ⟨hstore, hlt⟩ := h
    obtain rfl : tentative = record := Option.some.inj (hstore.symm.trans hrecord)
    obtain ⟨hcount, hwrong⟩ := hcounted tentative hstore
    simp only [Task.count]
    split
    · exact ⟨hcount, hcount ▸ hlt⟩
    · exact ⟨hcount, hwrong⟩
  | clearing => cases hrecord
  | wiping => cases hrecord
  | _ => exact hcounted record hrecord

/-- There are fewer wrong candidates than the limit before the wipe, and no record
after it. -/
def Low (store : Option PinRecord) (n : Counts) (t : Task) : Prop :=
  t = .wiping ∨ n.wrong < pinFailLimit ∨ (store = none ∧ (t = .wiped ∨ 0 < n.logouts))

theorem Low.of_store {record : PinRecord} (h : Low store n t) (hstore : store = some record)
    (ht : t ≠ .wiping) : n.wrong < pinFailLimit := by
  rcases h with h | h | ⟨h, -⟩
  · exact absurd h ht
  · exact h
  · rw [hstore] at h
    cases h

theorem count_wrong_le (h : t.Fits store n.wrong) (hlow : Low store n t)
    (hlimit : n.wrong ≤ pinFailLimit) : (t.count deriveBits n).wrong ≤ pinFailLimit := by
  cases t with
  | verifying candidate tentative =>
    have hwrong := hlow.of_store h.1 (by simp)
    simp only [Task.count]
    split
    · exact hwrong
    · exact hlimit
  | saving next => exact Nat.zero_le _
  | resetting candidate record => exact Nat.zero_le _
  | _ => exact hlimit

/-- The wrong candidate that reaches the limit calls for the wipe, and the wipe for
the request. -/
theorem low_advance (h : t.Fits store n.wrong) (hlow : Low store n t) :
    (t.count deriveBits n).wrong < pinFailLimit ∨ t.next deriveBits store = some .wiping ∨
      t.write store = none ∧
        (t.next deriveBits store = some .wiped ∨ 0 < (t.count deriveBits n).logouts) := by
  cases t with
  | saving next => exact .inl (Nat.zero_lt_succ _)
  | resetting candidate record => exact .inl (Nat.zero_lt_succ _)
  | wiping => exact .inr (.inr ⟨rfl, .inl rfl⟩)
  | wiped =>
    rcases hlow with hlow | hlow | ⟨hstore, -⟩
    · cases hlow
    · exact .inl hlow
    · exact .inr (.inr ⟨hstore, .inr (Nat.zero_lt_succ _)⟩)
  | clearing =>
    rcases hlow with hlow | hlow | ⟨-, hlow | hlow⟩
    · cases hlow
    · exact .inl hlow
    · cases hlow
    · exact .inr (.inr ⟨rfl, .inr hlow⟩)
  | counting candidate tentative =>
    obtain ⟨record, hstore, -⟩ := h
    exact .inl (hlow.of_store hstore (by simp))
  | verifying candidate tentative =>
    obtain ⟨hstore, hlt⟩ := h
    have hwrong := hlow.of_store hstore (by simp)
    simp only [Task.count, Task.next, Task.rejected]
    split
    · rename_i hfalse
      by_cases hfifth : n.wrong + 1 < pinFailLimit
      · exact .inl hfifth
      · have hlimit : pinFailLimit ≤ tentative.failCount := by omega
        rw [if_neg (by simp [hfalse]), if_pos hlimit]
        exact .inr (.inl rfl)
    · exact .inl hwrong
  | _ =>
    rcases hlow with hlow | hlow | ⟨hstore, hlow | hlow⟩
    · cases hlow
    · exact .inl hlow
    · cases hlow
    · exact .inr (.inr ⟨hstore, .inr hlow⟩)

end

-- ---------------------------------------------------------------------------
-- Every run
-- ---------------------------------------------------------------------------

structure Inv {ι κ : Type} (v : Watched ι κ) : Prop where
  one : OneBusy v.world
  fits : ∀ c i t, v.world.calls c = some (i, t) → t.Fits v.world.store v.counts.wrong
  counted : Counted v.world.store v.counts
  limit : v.counts.wrong ≤ pinFailLimit
  low : v.counts.wrong < pinFailLimit ∨ LoggingOut v

section
variable {ι κ : Type} [DecidableEq ι] [DecidableEq κ] {deriveBits : DeriveBits} {v : Watched ι κ}
  {e : Event ι κ} {c : κ} {i : ι} {t : Task}

omit [DecidableEq ι] [DecidableEq κ] in
theorem Inv.bounded (h : Inv v) : Bounded v := by
  refine ⟨h.limit, fun hwrong => ?_, fun record hrecord => (h.counted record hrecord).1⟩
  rcases h.low with hlow | hlow
  · omega
  · exact hlow

theorem step_quiet
    (h : ∀ c i t, e = .advance c → v.world.calls c = some (i, t) → ¬ t.Busy) :
    (v.step deriveBits e).world.store = v.world.store ∧
      (v.step deriveBits e).counts = v.counts := by
  constructor
  · rcases step_store deriveBits v.world e with hstore | ⟨c, i, t, he, hcall, hstore⟩
    · exact hstore
    · exact hstore.trans (write_of_not_busy (h c i t he hcall))
  · unfold Watched.step
    split
    · split
      · rename_i hcall
        exact count_of_not_busy (h _ _ _ rfl hcall)
      · rfl
    · rfl

omit [DecidableEq ι] [DecidableEq κ] in
theorem inv_start : Inv (Watched.start : Watched ι κ) := by
  refine ⟨?_, ?_, ?_, Nat.zero_le _, .inl (Nat.zero_lt_succ _)⟩
  · intro c c' i i' t t' h
    cases h
  · intro c i t h
    cases h
  · intro record h
    cases h

theorem hashPin_failCount {pin : String} {salt : List UInt8} {setAt : Nat} {next : PinRecord}
    (h : hashPin deriveBits pin salt setAt = some next) : next.failCount = 0 := by
  unfold hashPin at h
  split at h
  · cases h
  · cases h
    rfl

theorem Inv.step_quiet (h : Inv v) (horderly : Orderly v.world e)
    (hquiet : ∀ c i t, e = .advance c → v.world.calls c = some (i, t) → ¬ t.Busy) :
    Inv (v.step deriveBits e) := by
  have hsame : (v.step deriveBits e).world.store = v.world.store ∧
      (v.step deriveBits e).counts = v.counts := Pin.step_quiet hquiet
  obtain ⟨hstore, hcounts⟩ := hsame
  refine ⟨h.one.step horderly, ?_, ?_, ?_, ?_⟩
  · intro c i t hafter
    rw [hstore, hcounts]
    cases step_calls hafter with
    | still hcall hother => exact h.fits c i t hcall
    | loads => trivial
    | sets hnext => exact hashPin_failCount hnext
    | clears => trivial
    | tries hrecord => exact ⟨_, (horderly _ hrecord).1, rfl⟩
    | advanced hcall hnext =>
      have hbusy := hquiet _ _ _ rfl hcall
      exact fits_of_not_busy fun ht => hbusy (busy_of_next hnext ht)
    | thrown hcall hnext => exact fits_nextThrown (h.fits c i _ hcall) hnext
  · rw [hstore, hcounts]
    exact h.counted
  · rw [hcounts]
    exact h.limit
  · rw [LoggingOut, hstore, hcounts]
    refine h.low.imp id (Or.imp ?_ (And.imp id (Or.imp ?_ id)))
    · rintro ⟨c, i, hcall⟩
      refine ⟨c, i, step_keeps hcall ?_ ?_ ?_⟩
      · intro he
        exact hquiet c i _ he hcall trivial
      · rintro rfl
        exact horderly _ hcall rfl
      · rintro b rfl
        exact (horderly c).1 hcall
    · rintro ⟨c, i, hcall⟩
      by_cases hfail : e = .fail c
      · subst hfail
        refine ⟨c, i, ?_⟩
        simp [Watched.step, World.step, hcall, World.recover, Task.nextThrown]
      · refine ⟨c, i, step_keeps hcall ?_ hfail ?_⟩
        · intro he
          exact hquiet c i _ he hcall trivial
        · rintro b rfl
          exact (horderly c).2 hcall

theorem Inv.step_busy (h : Inv v) (hcall : v.world.calls c = some (i, t)) (hbusy : t.Busy) :
    Inv (v.step deriveBits (.advance c)) := by
  have hworld : (v.step deriveBits (.advance c)).world = v.world.proceed deriveBits c i t := by
    simp only [Watched.step, World.step, hcall]
  have hcounts : (v.step deriveBits (.advance c)).counts = t.count deriveBits v.counts := by
    simp only [Watched.step, hcall]
  have hstore : (v.step deriveBits (.advance c)).world.store = t.write v.world.store := by
    rw [hworld]
    rfl
  have hfits := h.fits c i t hcall
  have hlow : Low v.world.store v.counts t := by
    -- A forced logout under way is the call that goes on.
    have hsame : ∀ u : Task, u.Busy → (∃ b j, v.world.calls b = some (j, u)) → t = u := by
      rintro u hu ⟨b, j, hother⟩
      obtain rfl := h.one c b i j t u hcall hother hbusy hu
      rw [hcall] at hother
      exact congrArg Prod.snd (Option.some.inj hother)
    rcases h.low with hlow | hwiping | ⟨hstore, hwiped | hlogouts⟩
    · exact .inr (.inl hlow)
    · exact .inl (hsame .wiping trivial hwiping)
    · exact .inr (.inr ⟨hstore, .inl (hsame .wiped trivial hwiped)⟩)
    · exact .inr (.inr ⟨hstore, .inr hlogouts⟩)
  refine ⟨h.one.step trivial, ?_, ?_, ?_, ?_⟩
  · intro b j u hb
    rw [hstore, hcounts]
    cases step_calls hb with
    | still hb' hother =>
      refine fits_of_not_busy fun hu => hother ?_
      rw [h.one c b i j t u hcall hb' hbusy hu]
    | advanced hb' hnext =>
      obtain ⟨rfl, rfl⟩ := Prod.mk.inj (Option.some.inj (hcall.symm.trans hb'))
      exact fits_next hfits h.counted hnext
  · rw [hstore, hcounts]
    exact counted_write hfits h.counted
  · rw [hcounts]
    exact count_wrong_le hfits hlow h.limit
  · have hnext : ∀ u, t.next deriveBits v.world.store = some u →
        ∃ b j, (v.step deriveBits (.advance c)).world.calls b = some (j, u) := fun u hu =>
      ⟨c, i, by simp [hworld, World.proceed, hu]⟩
    rw [LoggingOut, hstore, hcounts]
    exact (low_advance hfits hlow).imp id
      (Or.imp (hnext .wiping) (And.imp id (Or.imp (hnext .wiped) id)))

theorem Inv.step (h : Inv v) (horderly : Orderly v.world e) : Inv (v.step deriveBits e) := by
  by_cases hbusy : ∃ c i t, e = .advance c ∧ v.world.calls c = some (i, t) ∧ t.Busy
  · obtain ⟨c, i, t, rfl, hcall, hbusy⟩ := hbusy
    exact h.step_busy hcall hbusy
  · exact h.step_quiet horderly fun c i t he hcall ht => hbusy ⟨c, i, t, he, hcall, ht⟩

/-- As long as the operations on the PIN do not overlap, and none is made on an
outdated memory, guesses are bounded and no count is lost. -/
theorem bounded_of_orderly (deriveBits : DeriveBits) (es : List (Event ι κ))
    (h : Run.Along (Watched.step deriveBits) (fun v e => Orderly v.world e) Watched.start es) :
    Run.Always (Watched.step deriveBits) Bounded Watched.start es :=
  h.always inv_start (fun _ _ hv horderly => hv.step horderly) fun _ hv => hv.bounded

end

def guess {ι : Type} (i : ι) : List (Event ι Unit) :=
  .tryUnlock i () "0000" :: List.replicate 3 (.advance ())

def sampleGuesses : List (Event Unit Unit) :=
  sampleVisit ++ guess () ++ guess () ++ guess () ++ sampleReload ++ [.lock ()] ++ guess () ++
    guess () ++ [.advance (), .advance ()]

theorem bounded_of_orderly_sample :
    Run.Always (Watched.step samplePbkdf2) Bounded (Watched.start : Watched Unit Unit)
      sampleGuesses :=
  bounded_of_orderly samplePbkdf2 sampleGuesses (by decide +kernel)

/-- Two tabs of one browser: the PIN is set in the one, the other is opened, and
both are locked. -/
def twoTabs : List (Event Bool Unit) :=
  [.load true (), .advance (), .advance (), .setPin true () "1234" sampleSalt 0, .advance (),
    .advance (), .load false (), .advance (), .advance (), .lock true, .lock false]

def eightGuesses : List (Event Bool Unit) :=
  twoTabs ++ (List.replicate 4 (guess true)).flatten ++ (List.replicate 4 (guess false)).flatten

/-- All eight are verified, four counts are lost, and nothing is wiped, nor anyone
logged out. -/
theorem eight_guesses :
    (Run.run (Watched.step samplePbkdf2) Watched.start eightGuesses).counts = ⟨8, 8, 0⟩ ∧
      (Run.run (Watched.step samplePbkdf2) Watched.start eightGuesses).world.store.map
        PinRecord.failCount = some 4 ∧
      (Run.run (Watched.step samplePbkdf2) Watched.start eightGuesses).world.calls () = none := by
  decide +kernel

end HcMap.Pin
