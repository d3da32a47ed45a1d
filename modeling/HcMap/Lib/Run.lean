import Mathlib.Data.List.Basic

/-!
# Runs and batches

A run applies steps one after another; a condition on steps is met along a
run when each step meets it in the state it finds. A batch applies items that
answer: each item gives a new state and a list of replies, and one item's
error loses the whole batch, as one transaction does.
-/

namespace Run

variable {σ : Type u} {α : Type v}

def run (step : σ → α → σ) (s : σ) (as : List α) : σ := as.foldl step s

/-- Every step of the run meets `ok` in the state before it. -/
def Along (step : σ → α → σ) (ok : σ → α → Prop) : σ → List α → Prop
  | _, [] => True
  | s, a :: as => ok s a ∧ Along step ok (step s a) as

/-- Every state of the run meets `p`, the first and the last included. -/
def Always (step : σ → α → σ) (p : σ → Prop) : σ → List α → Prop
  | s, [] => p s
  | s, a :: as => p s ∧ Always step p (step s a) as

section
variable {step : σ → α → σ} {ok : σ → α → Prop} {inv : σ → Prop} {s : σ} {as bs : List α}

@[simp] theorem run_nil : run step s [] = s := rfl
@[simp] theorem run_cons {a : α} : run step s (a :: as) = run step (step s a) as := rfl

theorem run_append : run step s (as ++ bs) = run step (run step s as) bs :=
  List.foldl_append

theorem along_append :
    Along step ok s (as ++ bs) ↔ Along step ok s as ∧ Along step ok (run step s as) bs := by
  induction as generalizing s with
  | nil => simp [Along]
  | cons a as ih => simp [Along, ih, and_assoc]

theorem along_of_mem (h : ∀ s, ∀ a ∈ as, ok s a) : Along step ok s as := by
  induction as generalizing s with
  | nil => trivial
  | cons a as ih =>
    exact ⟨h s a (List.mem_cons_self ..), ih fun s b hb => h s b (List.mem_cons_of_mem _ hb)⟩

theorem Along.mono {ok' : σ → α → Prop} (h : Along step ok s as)
    (hok : ∀ s a, ok s a → ok' s a) : Along step ok' s as := by
  induction as generalizing s with
  | nil => trivial
  | cons a as ih => exact ⟨hok _ _ h.1, ih h.2⟩

theorem Along.and {ok' : σ → α → Prop} (h : Along step ok s as) (h' : Along step ok' s as) :
    Along step (fun s a => ok s a ∧ ok' s a) s as := by
  induction as generalizing s with
  | nil => trivial
  | cons a as ih => exact ⟨⟨h.1, h'.1⟩, ih h.2 h'.2⟩

/-- An invariant that every good step keeps holds after every run of good
steps, hence in every state such a run reaches. -/
theorem Along.invariant (h : Along step ok s as) (h0 : inv s)
    (hstep : ∀ s a, inv s → ok s a → inv (step s a)) : inv (run step s as) := by
  induction as generalizing s with
  | nil => exact h0
  | cons a as ih => exact ih h.2 (hstep _ _ h0 h.1)

theorem preserves (h0 : inv s) (hstep : ∀ s a, inv s → inv (step s a)) : inv (run step s as) := by
  induction as generalizing s with
  | nil => exact h0
  | cons a as ih => exact ih (hstep s a h0)

theorem Along.always {p : σ → Prop} (h : Along step ok s as) (h0 : inv s)
    (hstep : ∀ s a, inv s → ok s a → inv (step s a)) (hp : ∀ s, inv s → p s) :
    Always step p s as := by
  induction as generalizing s with
  | nil => exact hp s h0
  | cons a as ih => exact ⟨hp s h0, ih h.2 (hstep s a h0 h.1)⟩

/-- What every step keeps holds in every state of every run. -/
theorem always_of_preserves {p : σ → Prop} (h0 : inv s)
    (hstep : ∀ s a, inv s → inv (step s a)) (hp : ∀ s, inv s → p s) : Always step p s as := by
  induction as generalizing s with
  | nil => exact hp s h0
  | cons a as ih => exact ⟨hp s h0, ih (hstep s a h0)⟩

/-- Where a run stops being good: its good part, and the first bad step. -/
theorem exists_bad_step (h : ¬ Along step ok s as) :
    ∃ good a rest, as = good ++ a :: rest ∧ Along step ok s good ∧ ¬ ok (run step s good) a := by
  induction as generalizing s with
  | nil => exact absurd trivial h
  | cons a as ih =>
    by_cases ha : ok s a
    · obtain ⟨good, b, rest, has, hgood, hb⟩ := ih fun has => h ⟨ha, has⟩
      exact ⟨a :: good, b, rest, by simp [has], ⟨ha, hgood⟩, hb⟩
    · exact ⟨[], a, as, rfl, trivial, ha⟩

theorem always_of_forall {p : σ → Prop} (h : ∀ s, p s) : Always step p s as := by
  induction as generalizing s with
  | nil => exact h s
  | cons a as ih => exact ⟨h s, ih⟩

theorem Always.head {p : σ → Prop} (h : Always step p s as) : p s := by
  cases as with
  | nil => exact h
  | cons a as => exact h.1

theorem Always.last {p : σ → Prop} (h : Always step p s as) : p (run step s as) := by
  induction as generalizing s with
  | nil => exact h
  | cons a as ih => exact ih h.2

/-- Where `ok` tells exactly the steps that keep `p`, the runs that keep it are
the runs of such steps. -/
theorem always_iff_along {p : σ → Prop} (hstep : ∀ s a, p s → (p (step s a) ↔ ok s a))
    (h : p s) : Always step p s as ↔ Along step ok s as := by
  induction as generalizing s with
  | nil => exact ⟨fun _ => trivial, fun _ => h⟩
  | cons a as ih =>
    constructor
    · rintro ⟨-, hrest⟩
      exact ⟨(hstep s a h).mp hrest.head, (ih hrest.head).mp hrest⟩
    · rintro ⟨hok, hrest⟩
      have hp := (hstep s a h).mpr hok
      exact ⟨h, (ih hp).mpr hrest⟩

theorem Always.invariant {p : σ → Prop} (hp : Always step p s as) (h : Along step ok s as)
    (h0 : inv s)
    (hstep : ∀ s a, inv s → ok s a → p s → p (step s a) → inv (step s a)) :
    inv (run step s as) := by
  induction as generalizing s with
  | nil => exact h0
  | cons a as ih => exact ih hp.2 h.2 (hstep s a h0 h.1 hp.1 hp.2.head)

end

instance Along.decidable {step : σ → α → σ} {ok : σ → α → Prop} [∀ s a, Decidable (ok s a)] :
    ∀ s as, Decidable (Along step ok s as)
  | _, [] => .isTrue trivial
  | s, a :: as =>
    have : Decidable (Along step ok (step s a) as) := Along.decidable (step s a) as
    inferInstanceAs (Decidable (ok s a ∧ Along step ok (step s a) as))

end Run

namespace Batch

variable {σ : Type u} {α : Type v} {ε : Type w} {δ : Type x}

/-- Process the items in order; the replies of all items together are the
batch's replies. -/
def process (item : σ → α → Except ε (σ × List δ)) : σ → List α → Except ε (σ × List δ)
  | s, [] => .ok (s, [])
  | s, a :: as =>
    match item s a with
    | .error e => .error e
    | .ok (s', ds) =>
      match process item s' as with
      | .error e => .error e
      | .ok (s'', ds') => .ok (s'', ds ++ ds')

/-- Every item the batch reaches meets `ok` in the state it finds. -/
def Along (item : σ → α → Except ε (σ × List δ)) (ok : σ → α → Prop) : σ → List α → Prop
  | _, [] => True
  | s, a :: as => ok s a ∧ ∀ s' ds, item s a = .ok (s', ds) → Along item ok s' as

section
variable {item : σ → α → Except ε (σ × List δ)} {s s' : σ} {a : α} {as bs : List α} {ds : List δ}

@[simp] theorem process_nil : process item s [] = .ok (s, []) := rfl

theorem process_cons_ok :
    process item s (a :: as) = .ok (s', ds) ↔
      ∃ s₁ ds₁ ds₂, item s a = .ok (s₁, ds₁) ∧ process item s₁ as = .ok (s', ds₂) ∧
        ds = ds₁ ++ ds₂ := by
  constructor
  · intro h
    unfold process at h
    split at h
    · cases h
    · rename_i hi
      split at h
      · cases h
      · rename_i hp
        cases h
        exact ⟨_, _, _, hi, hp, rfl⟩
  · rintro ⟨s₁, ds₁, ds₂, hi, hp, rfl⟩
    simp [process, hi, hp]

theorem Along.mono {ok ok' : σ → α → Prop} (h : Along item ok s as)
    (hok : ∀ s a, ok s a → ok' s a) : Along item ok' s as := by
  induction as generalizing s with
  | nil => trivial
  | cons a as ih => exact ⟨hok _ _ h.1, fun s' ds ha => ih (h.2 s' ds ha)⟩

theorem along_of_forall {ok : σ → α → Prop} (h : ∀ s a, ok s a) : Along item ok s as := by
  induction as generalizing s with
  | nil => trivial
  | cons a as ih => exact ⟨h s a, fun _ _ _ => ih⟩

theorem invariant_of_mem (inv : σ → Prop) {ok : σ → α → Prop}
    (hitem : ∀ a ∈ as, ∀ s s' ds, inv s → ok s a → item s a = .ok (s', ds) → inv s')
    (h : process item s as = .ok (s', ds)) (hok : Along item ok s as) (h0 : inv s) : inv s' := by
  induction as generalizing s ds with
  | nil =>
    cases h
    exact h0
  | cons a as ih =>
    obtain ⟨s₁, ds₁, ds₂, ha, has, rfl⟩ := process_cons_ok.mp h
    have h₁ := hitem a List.mem_cons_self s s₁ ds₁ h0 hok.1 ha
    exact ih (fun b hb => hitem b (List.mem_cons_of_mem a hb)) has (hok.2 _ _ ha) h₁

theorem invariant (inv : σ → Prop) {ok : σ → α → Prop}
    (hitem : ∀ s a s' ds, inv s → ok s a → item s a = .ok (s', ds) → inv s')
    (h : process item s as = .ok (s', ds)) (hok : Along item ok s as) (h0 : inv s) : inv s' :=
  invariant_of_mem inv (fun a _ s s' ds => hitem s a s' ds) h hok h0

theorem preserves_of_mem {inv : σ → Prop}
    (hitem : ∀ a ∈ as, ∀ s s' ds, inv s → item s a = .ok (s', ds) → inv s')
    (h : process item s as = .ok (s', ds)) (h0 : inv s) : inv s' :=
  invariant_of_mem inv (fun a ha s s' ds h0 (_ : True) => hitem a ha s s' ds h0) h
    (along_of_forall fun _ _ => trivial) h0

theorem preserves {inv : σ → Prop} (hitem : ∀ s a s' ds, inv s → item s a = .ok (s', ds) → inv s')
    (h : process item s as = .ok (s', ds)) (h0 : inv s) : inv s' :=
  preserves_of_mem (fun a _ s s' ds => hitem s a s' ds) h h0

/-- Where each item settles itself and keeps settled what it is apart from, a
batch of items apart settles them all. -/
theorem settles (settled : α → σ → Prop) (apart : α → α → Prop)
    (hitem : ∀ s a s' ds, item s a = .ok (s', ds) → settled a s')
    (hkeep : ∀ s a b s' ds, apart a b → settled a s → item s b = .ok (s', ds) → settled a s')
    (has : as.Pairwise apart) (h : process item s as = .ok (s', ds)) : ∀ a ∈ as, settled a s' := by
  induction as generalizing s ds with
  | nil => simp
  | cons a as ih =>
    obtain ⟨happart, hrest⟩ := List.pairwise_cons.mp has
    obtain ⟨s₁, ds₁, ds₂, ha, hp, rfl⟩ := process_cons_ok.mp h
    intro b hb
    rcases List.mem_cons.mp hb with rfl | hb
    · have hfirst := hitem s b s₁ ds₁ ha
      exact preserves_of_mem (fun c hc s s' ds => hkeep s b c s' ds (happart c hc)) hp hfirst
    · exact ih hrest hp b hb

/-- Where each item answers with what is good in the state it leaves, and items
apart from it keep it good, every reply of a batch of items apart is good. -/
theorem replies (good : α → δ → σ → Prop) (apart : α → α → Prop)
    (hitem : ∀ s a s' ds, item s a = .ok (s', ds) → ∀ d ∈ ds, good a d s')
    (hkeep : ∀ s a b s' ds d, apart a b → good a d s → item s b = .ok (s', ds) → good a d s')
    (has : as.Pairwise apart) (h : process item s as = .ok (s', ds)) :
    ∀ d ∈ ds, ∃ a ∈ as, good a d s' := by
  induction as generalizing s ds with
  | nil =>
    cases h
    simp
  | cons a as ih =>
    obtain ⟨happart, hrest⟩ := List.pairwise_cons.mp has
    obtain ⟨s₁, ds₁, ds₂, ha, hp, rfl⟩ := process_cons_ok.mp h
    intro d hd
    rcases List.mem_append.mp hd with hd | hd
    · have hfirst := hitem s a s₁ ds₁ ha d hd
      refine ⟨a, List.mem_cons_self, ?_⟩
      exact preserves_of_mem (fun c hc s s' ds => hkeep s a c s' ds d (happart c hc)) hp hfirst
    · obtain ⟨b, hb, hgood⟩ := ih hrest hp d hd
      exact ⟨b, List.mem_cons_of_mem a hb, hgood⟩

theorem idle (h : ∀ a ∈ as, ∃ ds, item s a = .ok (s, ds)) :
    ∃ ds, process item s as = .ok (s, ds) := by
  induction as with
  | nil => exact ⟨[], rfl⟩
  | cons a as ih =>
    obtain ⟨ds, ha⟩ := h a List.mem_cons_self
    obtain ⟨ds', has⟩ := ih fun b hb => h b (List.mem_cons_of_mem a hb)
    exact ⟨ds ++ ds', process_cons_ok.mpr ⟨s, ds, ds', ha, has, rfl⟩⟩

/-- The rule for a batch: an item that finds its precondition returns, with its
postcondition and an answer of its kind, and spoils neither the precondition of
an item after it nor the postcondition of an item before it. -/
theorem each (inv : σ → Prop) (pre post : α → σ → Prop) (answer : α → List δ → Prop)
    {apart : α → α → Prop}
    (hitem : ∀ s a, inv s → pre a s → ∃ s' ds, item s a = .ok (s', ds) ∧ inv s' ∧ post a s' ∧
      answer a ds ∧ ∀ b, (apart a b → pre b s → pre b s') ∧ (apart b a → post b s → post b s'))
    (has : as.Pairwise apart) (h0 : inv s) (hpre : ∀ a ∈ as, pre a s) :
    ∃ s' ds, process item s as = .ok (s', ds) ∧ inv s' ∧
      (∀ a ∈ as, post a s' ∧ ∃ ds', answer a ds' ∧ ds' ⊆ ds) ∧
        (∀ d ∈ ds, ∃ a ∈ as, ∃ ds', answer a ds' ∧ d ∈ ds') ∧
          ∀ b, (∀ a ∈ as, apart b a) → post b s → post b s' := by
  induction as generalizing s with
  | nil => exact ⟨s, [], rfl, h0, by simp, by simp, fun _ _ hb => hb⟩
  | cons a as ih =>
    obtain ⟨happart, hrest⟩ := List.pairwise_cons.mp has
    obtain ⟨s₁, ds₁, ha, hinv₁, hpost₁, hans₁, hframe⟩ := hitem s a h0 (hpre a List.mem_cons_self)
    have hpre₁ : ∀ b ∈ as, pre b s₁ := fun b hb =>
      (hframe b).1 (happart b hb) (hpre b (List.mem_cons_of_mem a hb))
    obtain ⟨s₂, ds₂, has₂, hinv₂, hpost₂, hfrom₂, hkeep⟩ := ih hrest hinv₁ hpre₁
    refine ⟨s₂, ds₁ ++ ds₂, process_cons_ok.mpr ⟨s₁, ds₁, ds₂, ha, has₂, rfl⟩, hinv₂, ?_, ?_, ?_⟩
    · intro b hb
      rcases List.mem_cons.mp hb with rfl | hb
      · exact ⟨hkeep b happart hpost₁, ds₁, hans₁, List.subset_append_left ds₁ ds₂⟩
      · obtain ⟨hpost, ds', hans, hsub⟩ := hpost₂ b hb
        exact ⟨hpost, ds', hans, fun d hd => List.mem_append_right ds₁ (hsub hd)⟩
    · intro d hd
      rcases List.mem_append.mp hd with hd | hd
      · exact ⟨a, List.mem_cons_self, ds₁, hans₁, hd⟩
      · obtain ⟨b, hb, hans⟩ := hfrom₂ d hd
        exact ⟨b, List.mem_cons_of_mem a hb, hans⟩
    · intro b hb hpostb
      have hb₁ := (hframe b).2 (hb a List.mem_cons_self) hpostb
      exact hkeep b (fun c hc => hb c (List.mem_cons_of_mem a hc)) hb₁

theorem accepts (inv : σ → Prop) (pre post : α → σ → Prop) {apart : α → α → Prop}
    (hitem : ∀ s a, inv s → pre a s → ∃ s', item s a = .ok (s', []) ∧ inv s' ∧ post a s' ∧
      ∀ b, (apart a b → pre b s → pre b s') ∧ (apart b a → post b s → post b s'))
    (has : as.Pairwise apart) (h0 : inv s) (hpre : ∀ a ∈ as, pre a s) :
    ∃ s', process item s as = .ok (s', []) ∧ inv s' ∧ ∀ a ∈ as, post a s' := by
  obtain ⟨s', ds, hprocess, hinv, hpost, hfrom, -⟩ := each inv pre post (fun _ ds => ds = [])
    (fun s a hs ha => by
      obtain ⟨s', hitem', hinv, hpost, hframe⟩ := hitem s a hs ha
      exact ⟨s', [], hitem', hinv, hpost, rfl, hframe⟩) has h0 hpre
  have hds : ds = [] := by
    refine List.eq_nil_iff_forall_not_mem.mpr fun d hd => ?_
    obtain ⟨a, -, ds', rfl, hd⟩ := hfrom d hd
    exact List.not_mem_nil hd
  subst hds
  exact ⟨s', hprocess, hinv, fun a ha => (hpost a ha).1⟩

end

instance Along.decidable {item : σ → α → Except ε (σ × List δ)} {ok : σ → α → Prop}
    [∀ s a, Decidable (ok s a)] : ∀ s as, Decidable (Along item ok s as)
  | _, [] => .isTrue trivial
  | s, a :: as =>
    match h : item s a with
    | .error _ => decidable_of_iff (ok s a) (by simp [Along, h])
    | .ok (s', _) =>
      have : Decidable (Along item ok s' as) := Along.decidable s' as
      decidable_of_iff (ok s a ∧ Along item ok s' as) (by simp [Along, h])

end Batch
