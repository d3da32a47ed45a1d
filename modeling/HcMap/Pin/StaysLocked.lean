import HcMap.Pin.Provider

/-!
# What opens a locked tab

A locked tab is opened by a `tryUnlock` that passes or by the forced logout,
as long as its page lives: a page load starts over, unlocked where a record is
stored. A load, `setPin` or `clearPin` that completes while the tab is locked
does not look at its status either, and is kept apart here.
-/

namespace HcMap.Pin

variable {ι κ : Type} {deriveBits : DeriveBits} {w : World ι κ} {e : Event ι κ}
  {es : List (Event ι κ)} {i : ι} {c : κ} {t t' : Task} {r record : PinRecord}

-- ---------------------------------------------------------------------------
-- Sound worlds
-- ---------------------------------------------------------------------------

def Tab.Held (tab : Tab) : Prop :=
  tab.status = .unlocked ∨ tab.status = .locked → tab.record.isSome = true

/-- A candidate is accepted only after it has passed. -/
def Task.Passed (deriveBits : DeriveBits) : Task → Prop
  | .resetting candidate record | .reset candidate record =>
    verifyPin deriveBits candidate record = some true
  | _ => True

structure Sound (deriveBits : DeriveBits) (w : World ι κ) : Prop where
  held : ∀ i, (w.tabs i).Held
  passed : ∀ c i t, w.calls c = some (i, t) → t.Passed deriveBits

section
variable {tab : Tab} {store : Option PinRecord}

@[simp] theorem setStatus_status {status : Status} : (tab.setStatus status).status = status := by
  unfold Tab.setStatus
  split
  · assumption
  · rfl

@[simp] theorem setStatus_record {status : Status} :
    (tab.setStatus status).record = tab.record := by
  unfold Tab.setStatus
  split <;> rfl

theorem held_show {status : Status} : (tab.show (some record) status).Held := by
  intro _
  simp [Tab.show, Tab.setRecord]

theorem held_show_noPin : (tab.show none .noPin).Held := by
  intro hs
  simp [Tab.show] at hs

theorem held_display (h : tab.Held) (t : Task) : (t.display tab).Held := by
  cases t with
  | loaded loaded =>
    cases loaded with
    | none => exact held_show_noPin
    | some record => exact held_show
  | saved next => exact held_show
  | counted candidate tentative => exact fun _ => rfl
  | reset candidate record => exact held_show
  | cleared => exact held_show_noPin
  | wiped => exact held_show_noPin
  | _ => exact h

theorem held_displayThrown (h : tab.Held) (t : Task) : (t.displayThrown tab).Held := by
  cases t with
  | reading => exact held_show_noPin
  | _ => exact h

theorem passed_next (h : t.Passed deriveBits) (hnext : t.next deriveBits store = some t') :
    t'.Passed deriveBits := by
  cases next_cases hnext with
  | accepts hverified => exact hverified
  | resets => exact h
  | _ => trivial

theorem passed_nextThrown (h : t.Passed deriveBits) (hnext : t.nextThrown = some t') :
    t'.Passed deriveBits := by
  cases nextThrown_cases hnext with
  | still => exact h
  | _ => trivial

end

section

theorem sound_start : Sound deriveBits (World.start : World ι κ) := by
  constructor
  · rintro i (h | h) <;> cases h
  · intro c i t h
    cases h

variable [DecidableEq ι] [DecidableEq κ]

theorem Sound.step (h : Sound deriveBits w) (e : Event ι κ) :
    Sound deriveBits (w.step deriveBits e) := by
  constructor
  · intro i
    have hheld := h.held i
    generalize htab : (w.step deriveBits e).tabs i = tab
    have hshows := step_tabs deriveBits w e i
    rw [htab] at hshows
    cases hshows with
    | still => exact hheld
    | loads => rintro (hs | hs) <;> cases hs
    | timed timer => exact hheld
    | locks hs => exact fun _ => hheld (.inl hs)
    | advanced hcall => exact held_display hheld _
    | thrown hcall => exact held_displayThrown hheld _
  · intro c i t hafter
    cases step_calls hafter with
    | still hcall hother => exact h.passed c i t hcall
    | loads => trivial
    | sets hnext => trivial
    | clears => trivial
    | tries hrecord => trivial
    | advanced hcall hnext => exact passed_next (h.passed c i _ hcall) hnext
    | thrown hcall hnext => exact passed_nextThrown (h.passed c i _ hcall) hnext

theorem sound_run (es : List (Event ι κ)) :
    Sound deriveBits (Run.run (World.step deriveBits) World.start es) :=
  Run.preserves sound_start fun _ e h => h.step e

end

-- ---------------------------------------------------------------------------
-- One page
-- ---------------------------------------------------------------------------

def Event.Loads (i : ι) : Event ι κ → Prop
  | .load j _ => j = i
  | _ => False

def Task.Overtakes : Task → Prop
  | .loaded _ | .saved _ | .cleared => True
  | _ => False

def Overtakes (i : ι) (w : World ι κ) : Event ι κ → Prop
  | .advance c => ∃ call ∈ w.calls c, call.1 = i ∧ call.2.Overtakes
  | .fail c => w.calls c = some (i, .reading)
  | _ => False

/-- The tab's page lives on, and nothing overtakes its lock. -/
def SamePage (i : ι) (w : World ι κ) (e : Event ι κ) : Prop := ¬ e.Loads i ∧ ¬ Overtakes i w e

def Task.Opens : Task → Prop
  | .reset _ _ | .wiped => True
  | _ => False

def Opens (i : ι) (w : World ι κ) : Event ι κ → Prop
  | .advance c => ∃ call ∈ w.calls c, call.1 = i ∧ call.2.Opens
  | _ => False

def Locked (i : ι) (w : World ι κ) : Prop := (w.tabs i).status = .locked

instance (i : ι) [DecidableEq ι] : DecidablePred (Event.Loads (κ := κ) i)
  | .load j _ => inferInstanceAs (Decidable (j = i))
  | .activity _ | .hidden _ | .timeout _ | .lock _ | .setPin .. | .clearPin .. | .tryUnlock ..
  | .advance _ | .fail _ => .isFalse id

instance : DecidablePred Task.Overtakes
  | .loaded _ | .saved _ | .cleared => .isTrue trivial
  | .reading | .saving _ | .clearing | .counting .. | .counted .. | .verifying ..
  | .resetting .. | .reset .. | .wiping | .wiped | .loggingOut => .isFalse id

instance [DecidableEq ι] (i : ι) (w : World ι κ) : DecidablePred (Overtakes i w)
  | .advance c => inferInstanceAs (Decidable (∃ call ∈ w.calls c, call.1 = i ∧ call.2.Overtakes))
  | .fail c => inferInstanceAs (Decidable (w.calls c = some (i, .reading)))
  | .load .. | .activity _ | .hidden _ | .timeout _ | .lock _ | .setPin .. | .clearPin ..
  | .tryUnlock .. => .isFalse id

instance : DecidablePred Task.Opens
  | .reset .. | .wiped => .isTrue trivial
  | .reading | .loaded _ | .saving _ | .saved _ | .clearing | .cleared | .counting .. | .counted ..
  | .verifying .. | .resetting .. | .wiping | .loggingOut => .isFalse id

instance [DecidableEq ι] (i : ι) (w : World ι κ) : DecidablePred (Opens i w)
  | .advance c => inferInstanceAs (Decidable (∃ call ∈ w.calls c, call.1 = i ∧ call.2.Opens))
  | .load .. | .activity _ | .hidden _ | .timeout _ | .lock _ | .setPin .. | .clearPin ..
  | .tryUnlock .. | .fail _ => .isFalse id

instance (i : ι) (w : World ι κ) : Decidable (Locked i w) :=
  inferInstanceAs (Decidable (_ = _))

instance [DecidableEq ι] (i : ι) (w : World ι κ) (e : Event ι κ) : Decidable (SamePage i w e) :=
  inferInstanceAs (Decidable (_ ∧ _))

inductive ShowsStill (w : World ι κ) (i : ι) : Event ι κ → Tab → Prop
  | still {e : Event ι κ} {tab : Tab} (hrecord : tab.record = (w.tabs i).record)
      (hstatus : tab.status = (w.tabs i).status ∨ tab.status = .locked) : ShowsStill w i e tab
  | counts {c : κ} {candidate : String} {tentative : PinRecord}
      (hcall : w.calls c = some (i, .counted candidate tentative)) :
      ShowsStill w i (.advance c) ((w.tabs i).setRecord (some tentative))
  | resets {c : κ} {candidate : String} {record : PinRecord}
      (hcall : w.calls c = some (i, .reset candidate record)) :
      ShowsStill w i (.advance c) ((w.tabs i).show (some record) .unlocked)
  | wipes {c : κ} (hcall : w.calls c = some (i, .wiped)) :
      ShowsStill w i (.advance c) ((w.tabs i).show none .noPin)

section
variable [DecidableEq ι] [DecidableEq κ]

theorem step_tab (deriveBits : DeriveBits) (hpage : SamePage i w e) :
    ShowsStill w i e ((w.step deriveBits e).tabs i) := by
  obtain ⟨hloads, hovertakes⟩ := hpage
  have hshows := step_tabs deriveBits w e i
  generalize (w.step deriveBits e).tabs i = tab at hshows ⊢
  cases hshows with
  | still => exact .still rfl (.inl rfl)
  | loads => exact absurd rfl hloads
  | timed timer => exact .still rfl (.inl rfl)
  | locks hs => exact .still rfl (.inr rfl)
  | @advanced c t hcall =>
    have hno : ¬ t.Overtakes := fun ht => hovertakes ⟨(i, t), hcall, rfl, ht⟩
    cases t with
    | loaded loaded => exact absurd trivial hno
    | saved next => exact absurd trivial hno
    | cleared => exact absurd trivial hno
    | counted candidate tentative => exact .counts hcall
    | reset candidate record => exact .resets hcall
    | wiped => exact .wipes hcall
    | _ => exact .still rfl (.inl rfl)
  | @thrown c t hcall =>
    cases t with
    | reading => exact absurd hcall hovertakes
    | _ => exact .still rfl (.inl rfl)

theorem locked_step (hlocked : Locked i w) (hpage : SamePage i w e) :
    Locked i (w.step deriveBits e) ∨ Opens i w e := by
  have hshows := step_tab deriveBits hpage
  unfold Locked at hlocked ⊢
  generalize (w.step deriveBits e).tabs i = tab at hshows ⊢
  cases hshows with
  | still hrecord hstatus =>
    rcases hstatus with hstatus | hstatus
    · exact .inl (hstatus.trans hlocked)
    · exact .inl hstatus
  | counts hcall => exact .inl hlocked
  | resets hcall => exact .inr ⟨_, hcall, rfl, trivial⟩
  | wipes hcall => exact .inr ⟨_, hcall, rfl, trivial⟩

end

-- ---------------------------------------------------------------------------
-- The record that was locked
-- ---------------------------------------------------------------------------

def Task.attempt : Task → Option PinRecord
  | .counting _ r | .counted _ r | .verifying _ r | .resetting _ r | .reset _ r => some r
  | _ => none

/-- `r` is `record` up to the counter. -/
def SamePin (record r : PinRecord) : Prop := ∃ n, r = record.withFailCount n

structure OnRecord (i : ι) (record : PinRecord) (w : World ι κ) : Prop where
  held : ∀ r, (w.tabs i).record = some r → SamePin record r
  attempts : ∀ c t r, w.calls c = some (i, t) → t.attempt = some r → SamePin record r

theorem samePin_refl (record : PinRecord) : SamePin record record := ⟨record.failCount, rfl⟩

theorem SamePin.withFailCount {n : Nat} (h : SamePin record r) :
    SamePin record (r.withFailCount n) := by
  obtain ⟨m, rfl⟩ := h
  exact ⟨n, rfl⟩

theorem SamePin.verifyPin {candidate : String} (h : SamePin record r) :
    verifyPin deriveBits candidate r = verifyPin deriveBits candidate record := by
  obtain ⟨m, rfl⟩ := h
  exact verifyPin_withFailCount deriveBits

theorem samePin_next {store : Option PinRecord} (hnext : t.next deriveBits store = some t')
    (h : ∀ r, t.attempt = some r → SamePin record r) (hr : t'.attempt = some r) :
    SamePin record r := by
  cases next_cases hnext with
  | accepts hverified =>
    cases hr
    exact (h _ rfl).withFailCount
  | counts => exact h r hr
  | verifies => exact h r hr
  | resets => exact h r hr
  | _ => cases hr

theorem samePin_nextThrown (hnext : t.nextThrown = some t')
    (h : ∀ r, t.attempt = some r → SamePin record r) (hr : t'.attempt = some r) :
    SamePin record r := by
  cases nextThrown_cases hnext with
  | still => exact h r hr
  | _ => cases hr

section
variable [DecidableEq ι] [DecidableEq κ]

theorem OnRecord.step (h : OnRecord i record w) (hpage : SamePage i w e) :
    OnRecord i record (w.step deriveBits e) := by
  constructor
  · intro r hr
    have hshows := step_tab deriveBits hpage
    generalize (w.step deriveBits e).tabs i = tab at hshows hr
    cases hshows with
    | still hrecord hstatus => exact h.held r (hrecord ▸ hr)
    | counts hcall => exact h.attempts _ _ r hcall hr
    | resets hcall =>
      rw [Tab.show, setStatus_record] at hr
      exact h.attempts _ _ r hcall hr
    | wipes hcall =>
      rw [Tab.show, setStatus_record] at hr
      cases hr
  · intro c t r hafter hr
    cases step_calls hafter with
    | still hcall hother => exact h.attempts c t r hcall hr
    | loads => cases hr
    | sets hnext => cases hr
    | clears => cases hr
    | tries hrecord =>
      cases hr
      exact (h.held _ hrecord).withFailCount
    | advanced hcall hnext => exact samePin_next hnext (fun r => h.attempts c _ r hcall) hr
    | thrown hcall hnext => exact samePin_nextThrown hnext (fun r => h.attempts c _ r hcall) hr

end

-- ---------------------------------------------------------------------------
-- Every run
-- ---------------------------------------------------------------------------

/-- Some step of the run opens the tab, which is locked until then: a forced
logout, or a `tryUnlock` whose candidate passes. It is the PIN of the record
that the tab held to begin with, if no attempt was under way then. -/
def Opened [DecidableEq ι] [DecidableEq κ] (deriveBits : DeriveBits) (i : ι) (w : World ι κ)
    (es : List (Event ι κ)) : Prop :=
  ∃ before c after, es = before ++ .advance c :: after ∧
    Run.Always (World.step deriveBits) (Locked i) w before ∧
    ((Run.run (World.step deriveBits) w before).calls c = some (i, .wiped) ∨
      ∃ candidate r, (Run.run (World.step deriveBits) w before).calls c =
          some (i, .reset candidate r) ∧ verifyPin deriveBits candidate r = some true ∧
        ((∀ b t, w.calls b = some (i, t) → t.attempt = none) →
          ∀ record, (w.tabs i).record = some record →
            verifyPin deriveBits candidate record = some true))

/-- As long as its page lives, only the PIN or the forced logout opens a locked
tab. -/
theorem opened_of_not_locked [DecidableEq ι] [DecidableEq κ] (deriveBits : DeriveBits) (i : ι)
    (past es : List (Event ι κ))
    (hlocked : Locked i (Run.run (World.step deriveBits) World.start past))
    (hpage : Run.Along (World.step deriveBits) (SamePage i)
      (Run.run (World.step deriveBits) World.start past) es)
    (hopen : ¬ Run.Always (World.step deriveBits) (Locked i)
      (Run.run (World.step deriveBits) World.start past) es) :
    Opened deriveBits i (Run.run (World.step deriveBits) World.start past) es := by
  have hsound : Sound deriveBits (Run.run (World.step deriveBits) World.start past) :=
    sound_run past
  generalize Run.run (World.step deriveBits) World.start past = w at *
  -- A run that nothing opens stays locked.
  have hstays : ∀ es, Run.Along (World.step deriveBits) (SamePage i) w es →
      Run.Along (World.step deriveBits) (fun w e => ¬ Opens i w e) w es →
        Run.Always (World.step deriveBits) (Locked i) w es := by
    intro es hpage hshut
    refine (hpage.and hshut).always hlocked ?_ fun w hw => hw
    rintro w e hlocked ⟨hpage, hshut⟩
    exact (locked_step hlocked hpage).resolve_right hshut
  obtain ⟨before, e, after, rfl, hbefore, hopens⟩ :=
    Run.exists_bad_step fun hshut => hopen (hstays es hpage hshut)
  have hpages := (Run.along_append.mp hpage).1
  cases e with
  | advance c =>
    obtain ⟨⟨j, t⟩, hcall, rfl, ht⟩ := not_not.mp hopens
    refine ⟨before, c, after, rfl, hstays before hpages hbefore, ?_⟩
    cases t with
    | wiped => exact .inl hcall
    | reset candidate r =>
      have hlast : Sound deriveBits (Run.run (World.step deriveBits) w before) :=
        Run.preserves hsound fun _ e h => h.step e
      have hverified := hlast.passed c j _ hcall
      refine .inr ⟨candidate, r, hcall, hverified, fun hidle record hrecord => ?_⟩
      have honrecord : OnRecord j record (Run.run (World.step deriveBits) w before) := by
        refine hpages.invariant ⟨fun r hr => ?_, fun b t r hcall hr => ?_⟩
          fun w e hw hpage => hw.step hpage
        · obtain rfl := Option.some.inj (hrecord.symm.trans hr)
          exact samePin_refl record
        · rw [hidle b t hcall] at hr
          cases hr
      rw [← (honrecord.attempts c _ r hcall rfl).verifyPin]
      exact hverified
    | _ => exact ht.elim
  | _ => exact absurd id hopens

-- ---------------------------------------------------------------------------
-- A sample
-- ---------------------------------------------------------------------------

def sampleSalt : List UInt8 := [0, 1, 2, 3, 4, 5, 6, 7, 8, 9, 10, 11, 12, 13, 14, 15]

def samplePbkdf2 : DeriveBits := fun pin salt iterations =>
  if salt = sampleSalt ∧ iterations = pinIterations then
    if pin = "1234" then
      [159, 57, 217, 199, 28, 34, 196, 196, 89, 188, 44, 186, 204, 109, 116, 226, 24, 65, 133, 214,
        113, 217, 31, 10, 52, 166, 131, 68, 19, 160, 132, 157]
    else if pin = "0000" then
      [46, 35, 106, 188, 243, 57, 127, 19, 30, 101, 121, 122, 57, 37, 159, 170, 109, 79, 199, 122,
        147, 147, 196, 4, 42, 205, 231, 16, 255, 172, 108, 160]
    else []
  else []

def sampleVisit : List (Event Unit Unit) :=
  [.load () (), .advance (), .advance (), .setPin () () "1234" sampleSalt 0, .advance (),
    .advance (), .lock ()]

def sampleUnlock : List (Event Unit Unit) :=
  .tryUnlock () () "1234" :: List.replicate 5 (.advance ())

def sampleReload : List (Event Unit Unit) := [.load () (), .advance (), .advance ()]

theorem opened_of_not_locked_sample :
    Opened samplePbkdf2 () (Run.run (World.step samplePbkdf2) World.start sampleVisit)
      sampleUnlock :=
  opened_of_not_locked samplePbkdf2 () sampleVisit sampleUnlock (by decide +kernel)
    (by decide +kernel) fun h => absurd h.last (by decide +kernel)

/-- A page load opens a locked tab, its record still stored, and no `tryUnlock`
and no forced logout completes. -/
theorem reload_unlocks :
    Locked () (Run.run (World.step samplePbkdf2) World.start sampleVisit) ∧
      (Run.run (World.step samplePbkdf2) World.start sampleVisit).store.isSome ∧
      Run.Along (World.step samplePbkdf2) (fun w e => ¬ Opens () w e)
        (Run.run (World.step samplePbkdf2) World.start sampleVisit) sampleReload ∧
      ((Run.run (World.step samplePbkdf2) World.start (sampleVisit ++ sampleReload)).tabs
        ()).status = .unlocked := by
  decide +kernel

end HcMap.Pin
