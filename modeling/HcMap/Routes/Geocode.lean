import Mathlib.Algebra.Order.Round
import Mathlib.Data.Finset.Dedup
import Mathlib.Data.Finset.Order
import Mathlib.Data.List.Induction
import Mathlib.Data.Rat.Floor
import Mathlib.Tactic.Linarith
import HcMap.Db.Rows
import HcMap.Lib.RollingWindow
import HcMap.Lib.Run

/-!
# The geocoding proxy's rate limit

`_check_rate_limit` and `_retry_after_header` of `app/routes/geocode.py`, with
the clock's value as an argument. The clock is exact.
-/

namespace HcMap.Geocode

open RollingWindow (prune within Tracks)

def rateWindowSeconds : ℚ := 60

/-- `_request_log`; a user without an entry has an empty bucket. -/
abbrev RequestLog := Uuid → List ℚ

/-- Retry-after seconds if blocked, and the log; `limitPerMinute = 0` disables
the limiter. -/
def checkRateLimit (log : RequestLog) (userId : Uuid) (limitPerMinute : Int) (now : ℚ) :
    Option ℚ × RequestLog :=
  if limitPerMinute ≤ 0 then (none, log)
  else
    let windowStart := now - rateWindowSeconds
    let bucket := prune windowStart (log userId)
    if limitPerMinute ≤ bucket.length then
      match bucket with
      | oldest :: _ =>
        (some (max 1 (rateWindowSeconds - (now - oldest))), Function.update log userId bucket)
      -- A full bucket is not empty.
      | [] => (none, log)
    else (none, Function.update log userId (bucket ++ [now]))

/-- Python's `round`: to the nearest, half to even. -/
def roundHalfEven (q : ℚ) : Int :=
  if Int.fract q < 1 / 2 ∨ (Int.fract q = 1 / 2 ∧ Even ⌊q⌋) then ⌊q⌋ else ⌊q⌋ + 1

def retryAfter (seconds : ℚ) : Int := max 1 (roundHalfEven seconds)

-- ---------------------------------------------------------------------------
-- One call
-- ---------------------------------------------------------------------------

section
variable {log log' : RequestLog} {userId other : Uuid} {limit : Int} {now : ℚ}

/-- A call is admitted and recorded, or refused while the bucket is full. -/
inductive Answered (log : RequestLog) (userId : Uuid) (limit : Int) (now : ℚ) :
    Option ℚ × RequestLog → Prop
  | admitted (hroom : ((prune (now - rateWindowSeconds) (log userId)).length : Int) < limit) :
      Answered log userId limit now (none, Function.update log userId
        (prune (now - rateWindowSeconds) (log userId) ++ [now]))
  | refused {oldest rest}
      (hbucket : prune (now - rateWindowSeconds) (log userId) = oldest :: rest)
      (hfull : limit ≤ (oldest :: rest).length) :
      Answered log userId limit now
        (some (max 1 (rateWindowSeconds - (now - oldest))),
          Function.update log userId (oldest :: rest))

theorem checkRateLimit_cases (hlimit : 1 ≤ limit) (log : RequestLog) (userId : Uuid) (now : ℚ) :
    Answered log userId limit now (checkRateLimit log userId limit now) := by
  unfold checkRateLimit
  rw [if_neg (by omega)]
  simp only
  split
  · rename_i hfull
    cases hbucket : prune (now - rateWindowSeconds) (log userId) with
    | nil =>
      rw [hbucket] at hfull
      have hpos : limit ≤ 0 := hfull
      omega
    | cons oldest rest => exact .refused hbucket (hbucket ▸ hfull)
  · rename_i hroom
    exact .admitted (not_le.mp hroom)

theorem checkRateLimit_other (hne : other ≠ userId) :
    (checkRateLimit log userId limit now).2 other = log other := by
  unfold checkRateLimit
  split
  · rfl
  · simp only
    split
    · split
      · exact Function.update_of_ne hne _ _
      · rfl
    · exact Function.update_of_ne hne _ _

theorem checkRateLimit_congr (limit : Int) (now : ℚ) (h : log userId = log' userId) :
    (checkRateLimit log userId limit now).1 = (checkRateLimit log' userId limit now).1 ∧
      (checkRateLimit log userId limit now).2 userId =
        (checkRateLimit log' userId limit now).2 userId := by
  unfold checkRateLimit
  rw [h]
  split
  · exact ⟨rfl, h⟩
  · simp only
    split
    · split
      · simp
      · exact ⟨rfl, h⟩
    · simp

end

-- ---------------------------------------------------------------------------
-- Many calls
-- ---------------------------------------------------------------------------

structure Call where
  user : Uuid
  now : ℚ
  deriving DecidableEq

section
variable (limit : Int)

def record (log : RequestLog) (call : Call) : RequestLog :=
  (checkRateLimit log call.user limit call.now).2

def answers : RequestLog → List Call → List (Call × Option ℚ)
  | _, [] => []
  | log, call :: calls =>
    (call, (checkRateLimit log call.user limit call.now).1) :: answers (record limit log call) calls

end

def admitted (user : Uuid) (answered : List (Call × Option ℚ)) : List ℚ :=
  (answered.filter fun a => a.1.user = user ∧ a.2 = none).map fun a => a.1.now

def emptyLog : RequestLog := fun _ => []

section
variable {limit : Int} {log log' : RequestLog} {user : Uuid} {now : ℚ} {call : Call}
  {calls calls' : List Call}

theorem answers_append :
    answers limit log (calls ++ calls') =
      answers limit log calls ++ answers limit (Run.run (record limit) log calls) calls' := by
  induction calls generalizing log with
  | nil => rfl
  | cons call calls ih =>
    rw [List.cons_append, answers, ih, answers, List.cons_append, Run.run_cons]

theorem admitted_append (as bs : List (Call × Option ℚ)) :
    admitted user (as ++ bs) = admitted user as ++ admitted user bs := by
  simp [admitted]

theorem answers_of_user (h : log user = log' user) :
    (answers limit log calls).filter (fun a => a.1.user = user) =
      answers limit log' (calls.filter fun call => call.user = user) := by
  induction calls generalizing log log' with
  | nil => rfl
  | cons call calls ih =>
    rw [answers]
    by_cases huser : call.user = user
    · subst huser
      obtain ⟨hanswer, hbucket⟩ := checkRateLimit_congr limit call.now h
      have hrest := ih (show record limit log call call.user = record limit log' call call.user from
        hbucket)
      rw [List.filter_cons_of_pos (by simp), List.filter_cons_of_pos (by simp), hrest, answers,
        hanswer]
    · have hother : record limit log call user = log user :=
        checkRateLimit_other (Ne.symm huser)
      rw [List.filter_cons_of_neg (by simpa using huser),
        List.filter_cons_of_neg (by simpa using huser)]
      exact ih (hother.trans h)

theorem tracks_record (hlimit : 1 ≤ limit) {history : List (Call × Option ℚ)}
    (h : ∀ user, Tracks rateWindowSeconds limit.toNat (admitted user history) (log user) call.now)
    (user : Uuid) :
    Tracks rateWindowSeconds limit.toNat
      (admitted user (history ++ answers limit log [call])) (record limit log call user)
      call.now := by
  have hanswer : answers limit log [call] =
      [(call, (checkRateLimit log call.user limit call.now).1)] := rfl
  rw [admitted_append, hanswer, record]
  by_cases huser : call.user = user
  · subst huser
    have hcases := checkRateLimit_cases hlimit log call.user call.now
    generalize checkRateLimit log call.user limit call.now = result at hcases
    cases hcases with
    | admitted hroom =>
      have htimes : admitted call.user [(call, none)] = [call.now] := by simp [admitted]
      simp only [htimes, Function.update_self]
      exact (h call.user).record (by omega)
    | refused hbucket hfull =>
      have htimes : ∀ seconds, admitted call.user [(call, some seconds)] = [] := fun seconds => by
        simp [admitted]
      simp only [htimes, Function.update_self, List.append_nil, ← hbucket]
      exact (h call.user).prune
  · have htimes : ∀ answer, admitted user [(call, answer)] = [] := fun answer => by
      simp [admitted, huser]
    rw [htimes, List.append_nil, checkRateLimit_other (Ne.symm huser)]
    exact h user

theorem tracks_run (hlimit : 1 ≤ limit) (hclock : calls.Pairwise fun a b => a.now ≤ b.now)
    (hnow : ∀ call ∈ calls, call.now ≤ now) (user : Uuid) :
    Tracks rateWindowSeconds limit.toNat (admitted user (answers limit emptyLog calls))
      (Run.run (record limit) emptyLog calls user) now := by
  induction calls using List.reverseRecOn generalizing now user with
  | nil => exact .empty rateWindowSeconds limit.toNat now
  | append_singleton calls call ih =>
    obtain ⟨hbefore, -, hlast⟩ := List.pairwise_append.mp hclock
    have hcall : ∀ c ∈ calls, c.now ≤ call.now := fun c hc =>
      hlast c hc call (List.mem_singleton_self call)
    rw [answers_append, Run.run_append]
    exact (tracks_record hlimit (ih hbefore hcall) user).later
      (hnow call (List.mem_append_right calls (List.mem_singleton_self call)))

/-- The limiter is sound: no closed window of 60 seconds has more admitted calls
of a user than the limit, a refused call comes at the end of one that has as
many, and the calls of one user are answered as if there were no others. -/
theorem rateLimit_sound (hlimit : 1 ≤ limit)
    (hclock : calls.Pairwise fun a b => a.now ≤ b.now) :
    (∀ user start, ((within rateWindowSeconds start
        (admitted user (answers limit emptyLog calls))).length : Int) ≤ limit) ∧
    (∀ before call after seconds, calls = before ++ call :: after →
      (checkRateLimit (Run.run (record limit) emptyLog before) call.user limit call.now).1 =
          some seconds →
        limit ≤ (within rateWindowSeconds (call.now - rateWindowSeconds)
          (admitted call.user (answers limit emptyLog before))).length) ∧
    ∀ user, (answers limit emptyLog calls).filter (fun a => a.1.user = user) =
      answers limit emptyLog (calls.filter fun call => call.user = user) := by
  refine ⟨fun user start => ?_, ?_, fun user => answers_of_user rfl⟩
  · obtain ⟨now, hnow⟩ := (calls.map Call.now).toFinset.exists_le
    have hbound : ∀ c ∈ calls, c.now ≤ now := fun c hc =>
      hnow c.now (List.mem_toFinset.mpr (List.mem_map_of_mem hc))
    have htracks := tracks_run hlimit hclock hbound user
    have hsparse := htracks.sparse start
    omega
  · rintro before call after seconds rfl hrefused
    obtain ⟨hbefore, -, hlast⟩ := List.pairwise_append.mp hclock
    have hbound : ∀ c ∈ before, c.now ≤ call.now := fun c hc =>
      hlast c hc call List.mem_cons_self
    have htracks := tracks_run hlimit hbefore hbound call.user
    rw [← htracks.prune_eq]
    have hcases := checkRateLimit_cases hlimit (Run.run (record limit) emptyLog before) call.user
      call.now
    generalize checkRateLimit _ call.user limit call.now = result at hcases hrefused
    cases hcases with
    | admitted hroom => cases hrefused
    | refused hbucket hfull => rwa [hbucket]

end

def sampleCalls : List Call := [⟨1, 0⟩, ⟨2, 5⟩, ⟨1, 10⟩]

theorem rateLimit_sound_sample :
    ((within rateWindowSeconds 0 (admitted 1 (answers 1 emptyLog sampleCalls))).length : Int) ≤ 1 ∧
      1 ≤ ((within rateWindowSeconds (10 - rateWindowSeconds)
        (admitted 1 (answers 1 emptyLog [⟨1, 0⟩, ⟨2, 5⟩]))).length : Int) ∧
      (answers 1 emptyLog sampleCalls).filter (fun a => a.1.user = 1) =
        answers 1 emptyLog [⟨1, 0⟩, ⟨1, 10⟩] := by
  have hclock : sampleCalls.Pairwise fun a b => a.now ≤ b.now := by
    simp only [sampleCalls, List.pairwise_cons, List.mem_cons]
    norm_num
  have hsound := rateLimit_sound (show (1 : Int) ≤ 1 from le_rfl) hclock
  have hrefused : (checkRateLimit (Run.run (record 1) emptyLog [⟨1, 0⟩, ⟨2, 5⟩]) 1 1 10).1 =
      some 50 := by decide +kernel
  exact ⟨hsound.1 1 0, hsound.2.1 [⟨1, 0⟩, ⟨2, 5⟩] ⟨1, 10⟩ [] 50 rfl hrefused, hsound.2.2 1⟩

-- ---------------------------------------------------------------------------
-- The call after the wait
-- ---------------------------------------------------------------------------

def remaining (now oldest : ℚ) : ℚ := rateWindowSeconds - (now - oldest)

/-- `round` takes the integer above. -/
def RoundsUp (q : ℚ) : Prop := 1 / 2 < Int.fract q ∨ (Int.fract q = 1 / 2 ∧ Odd ⌊q⌋)

theorem lt_roundHalfEven_iff {q : ℚ} : q < roundHalfEven q ↔ RoundsUp q := by
  unfold roundHalfEven RoundsUp
  split
  · rename_i hdown
    refine iff_of_false (not_lt.mpr (Int.floor_le q)) ?_
    rintro (hup | ⟨hhalf, hodd⟩)
    · rcases hdown with hdown | ⟨hhalf, -⟩
      · exact lt_asymm hup hdown
      · exact hup.ne' hhalf
    · rcases hdown with hdown | ⟨-, heven⟩
      · exact hdown.ne hhalf
      · exact Int.not_even_iff_odd.mpr hodd heven
  · rename_i hup
    obtain ⟨hge, hodd⟩ := not_or.mp hup
    refine iff_of_true ?_ ?_
    · push_cast
      exact Int.lt_floor_add_one q
    · rcases (not_lt.mp hge).lt_or_eq with hgt | heq
      · exact .inl hgt
      · exact .inr ⟨heq.symm, Int.not_even_iff_odd.mp fun heven => hodd ⟨heq.symm, heven⟩⟩

theorem one_le_roundHalfEven {q : ℚ} (h : 1 ≤ q) : 1 ≤ roundHalfEven q := by
  have hfloor : 1 ≤ ⌊q⌋ := Int.le_floor.mpr (by exact_mod_cast h)
  unfold roundHalfEven
  split <;> omega

theorem lt_retryAfter_iff {q : ℚ} : q < retryAfter (max 1 q) ↔ q < 1 ∨ RoundsUp q := by
  rcases lt_or_ge q 1 with hlt | hge
  · have hwait : retryAfter (max 1 q) = 1 := by
      rw [max_eq_left hlt.le]
      decide +kernel
    simp [hwait, hlt]
  · rw [max_eq_right hge, retryAfter, max_eq_right (one_le_roundHalfEven hge), lt_roundHalfEven_iff,
      or_iff_right hge.not_gt]

def Bounded (limit : Int) (log : RequestLog) : Prop := ∀ user, ((log user).length : Int) ≤ limit

section
variable {limit : Int} {log : RequestLog} {user : Uuid} {now seconds : ℚ} {calls : List Call}

theorem bounded_record (hlimit : 1 ≤ limit) (h : Bounded limit log) (call : Call) :
    Bounded limit (record limit log call) := by
  intro user
  rw [record]
  by_cases huser : user = call.user
  · subst huser
    have hcases := checkRateLimit_cases hlimit log call.user call.now
    generalize checkRateLimit log call.user limit call.now = result at hcases
    cases hcases with
    | admitted hroom =>
      simp only [Function.update_self, List.length_append, List.length_singleton]
      omega
    | refused hbucket hfull =>
      have hpruned : (prune (call.now - rateWindowSeconds) (log call.user)).length ≤
          (log call.user).length := RollingWindow.length_prune_le
      simp only [Function.update_self, ← hbucket]
      exact (Int.ofNat_le.mpr hpruned).trans (h call.user)
  · rw [checkRateLimit_other huser]
    exact h user

theorem bounded_run (hlimit : 1 ≤ limit) (calls : List Call) :
    Bounded limit (Run.run (record limit) emptyLog calls) :=
  Run.preserves (fun _ => Int.le_of_lt hlimit) fun _ call h => bounded_record hlimit h call

theorem admitted_iff_of_full {oldest later : ℚ} {rest : List ℚ} (hlimit : 1 ≤ limit)
    (hbucket : log user = oldest :: rest) (hfull : ((oldest :: rest).length : Int) = limit) :
    (checkRateLimit log user limit later).1 = none ↔ oldest < later - rateWindowSeconds := by
  have hcases := checkRateLimit_cases hlimit log user later
  generalize checkRateLimit log user limit later = result at hcases
  rcases lt_or_ge oldest (later - rateWindowSeconds) with hlt | hge
  · refine iff_of_true ?_ hlt
    have hshort : (prune (later - rateWindowSeconds) (log user)).length ≤ rest.length := by
      rw [hbucket, RollingWindow.prune_cons_of_lt hlt]
      exact RollingWindow.length_prune_le
    cases hcases with
    | admitted hroom => rfl
    | refused hpruned hstill =>
      rw [hpruned] at hshort
      rw [List.length_cons] at hfull
      omega
  · refine iff_of_false ?_ hge.not_gt
    cases hcases with
    | admitted hroom =>
      rw [hbucket, RollingWindow.prune_cons_of_le hge] at hroom
      omega
    | refused hpruned hstill => simp

/-- The call after the wait the header names is admitted exactly when the oldest
call has less than a second to go or what it has is rounded up. -/
theorem retryAfter_admitted_iff (hlimit : 1 ≤ limit)
    (hrefused : (checkRateLimit (Run.run (record limit) emptyLog calls) user limit now).1 =
      some seconds) :
    ∃ oldest,
      (prune (now - rateWindowSeconds) (Run.run (record limit) emptyLog calls user)).head? =
        some oldest ∧
      ((checkRateLimit (Run.run (record limit) emptyLog (calls ++ [⟨user, now⟩])) user limit
          (now + retryAfter seconds)).1 = none ↔
        remaining now oldest < 1 ∨ RoundsUp (remaining now oldest)) := by
  have hlength := bounded_run hlimit (calls ++ [⟨user, now⟩]) user
  have hcases := checkRateLimit_cases hlimit (Run.run (record limit) emptyLog calls) user now
  rw [Run.run_append, Run.run_cons, Run.run_nil, record] at hlength ⊢
  generalize checkRateLimit _ user limit now = result at hcases hrefused hlength ⊢
  cases hcases with
  | admitted hroom => cases hrefused
  | @refused oldest rest hbucket hfull =>
    obtain rfl : max 1 (remaining now oldest) = seconds := Option.some.inj hrefused
    simp only [Function.update_self] at hlength
    refine ⟨oldest, by rw [hbucket, List.head?_cons], ?_⟩
    rw [admitted_iff_of_full hlimit (Function.update_self ..) (le_antisymm hlength hfull),
      ← lt_retryAfter_iff, remaining]
    constructor <;> intro h <;> linarith

theorem retryAfter_admitted_iff_sample :
    (checkRateLimit (Run.run (record 1) emptyLog ([⟨1, 3 / 4⟩] ++ [⟨1, 10⟩])) 1 1
      (10 + retryAfter (203 / 4))).1 = none := by
  have hrefused : (checkRateLimit (Run.run (record 1) emptyLog [⟨1, 3 / 4⟩]) 1 1 10).1 =
      some (203 / 4) := by decide +kernel
  obtain ⟨oldest, holdest, hiff⟩ := retryAfter_admitted_iff le_rfl hrefused
  have hhead : (prune (10 - rateWindowSeconds)
      (Run.run (record 1) emptyLog [⟨1, 3 / 4⟩] 1)).head? = some (3 / 4) := by decide +kernel
  obtain rfl := Option.some.inj (hhead.symm.trans holdest)
  exact hiff.mpr (.inr (.inl (by decide +kernel)))

/-- Refused at 10, told to wait for 50 seconds, and refused at 60: the call at 0
is then just within the window. -/
theorem retryAfter_refused_again :
    ¬ ∀ (limit : Int) (calls : List Call) (user : Uuid) (now seconds : ℚ), 1 ≤ limit →
      List.Pairwise (fun a b : Call => a.now ≤ b.now) (calls ++ [⟨user, now⟩]) →
      (checkRateLimit (Run.run (record limit) emptyLog calls) user limit now).1 = some seconds →
        (checkRateLimit (Run.run (record limit) emptyLog (calls ++ [⟨user, now⟩])) user limit
          (now + retryAfter seconds)).1 = none := by
  intro h
  have hclock : ([⟨1, 0⟩, ⟨1, 10⟩] : List Call).Pairwise fun a b => a.now ≤ b.now := by norm_num
  have hadmitted := h 1 [⟨1, 0⟩] 1 10 50 le_rfl hclock (by decide +kernel)
  revert hadmitted
  decide +kernel

end

end HcMap.Geocode
