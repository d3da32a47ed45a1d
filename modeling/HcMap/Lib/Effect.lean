import Mathlib.Data.List.Nodup

/-!
# Effects that begin asynchronous work

An effect of a component runs again whenever what it depends on changes. What a
run has begun may settle long after it: the clean-up of a run marks its tasks as
cancelled, and a task that settles looks at its mark. The uncancelled tasks are
those of the latest run.
-/

/-- A piece of work that is under way. -/
structure Effect.Task (τ : Type u) where
  id : Nat
  run : Nat
  cancelled : Bool
  arg : τ

/-- How often the effect has run, and its tasks that have not settled. -/
structure Effect (τ : Type u) where
  run : Nat
  nextId : Nat
  tasks : List (Effect.Task τ)

namespace Effect

variable {τ : Type u}

def idle : Effect τ := ⟨0, 0, []⟩

/-- The clean-up of the latest run. -/
def cleanup (e : Effect τ) : Effect τ :=
  { e with
    tasks := e.tasks.map fun t => if t.run = e.run then { t with cancelled := true } else t }

def rerun (e : Effect τ) : Effect τ := { e.cleanup with run := e.run + 1 }

def begin (e : Effect τ) (arg : τ) : Effect τ :=
  { e with nextId := e.nextId + 1, tasks := e.tasks ++ [⟨e.nextId, e.run, false, arg⟩] }

def settle (e : Effect τ) (id : Nat) : Option (Task τ × Effect τ) :=
  (e.tasks.find? (·.id = id)).map fun t =>
    (t, { e with tasks := e.tasks.filter (·.id ≠ id) })

def live (e : Effect τ) : List (Task τ) := e.tasks.filter (!·.cancelled)

/-- Tasks are told apart by their ids, and those of earlier runs are cancelled. -/
structure Tidy (e : Effect τ) : Prop where
  fresh : ∀ t ∈ e.tasks, t.id < e.nextId
  nodup : (e.tasks.map Task.id).Nodup
  latest : ∀ t ∈ e.live, t.run = e.run

section
variable {e e' : Effect τ} {t : Task τ} {id : Nat} {arg : τ}

theorem mem_live : t ∈ e.live ↔ t ∈ e.tasks ∧ t.cancelled = false := by
  simp [live]

theorem tidy_idle : (idle : Effect τ).Tidy where
  fresh _ h := nomatch h
  nodup := List.nodup_nil
  latest _ h := nomatch h

theorem map_id_cleanup : e.cleanup.tasks.map Task.id = e.tasks.map Task.id := by
  rw [cleanup, List.map_map]
  refine List.map_congr_left fun t _ => ?_
  by_cases h : t.run = e.run <;> simp [h]

theorem Tidy.live_cleanup (h : e.Tidy) : e.cleanup.live = [] := by
  rw [List.eq_nil_iff_forall_not_mem]
  intro t ht
  obtain ⟨hmem, hlive⟩ := mem_live.mp ht
  obtain ⟨t', ht', rfl⟩ := List.mem_map.mp hmem
  by_cases hrun : t'.run = e.run
  · simp [hrun] at hlive
  · simp only [hrun, if_false] at hlive
    exact hrun (h.latest t' (mem_live.mpr ⟨ht', hlive⟩))

theorem Tidy.cleanup (h : e.Tidy) : e.cleanup.Tidy where
  fresh t ht := by
    obtain ⟨t', ht', rfl⟩ := List.mem_map.mp ht
    have hid : t'.id < e.cleanup.nextId := h.fresh t' ht'
    by_cases hrun : t'.run = e.run <;> simpa [hrun] using hid
  nodup := by
    rw [map_id_cleanup]
    exact h.nodup
  latest t ht := by
    rw [h.live_cleanup] at ht
    cases ht

theorem Tidy.live_rerun (h : e.Tidy) : e.rerun.live = [] := h.live_cleanup

theorem Tidy.rerun (h : e.Tidy) : e.rerun.Tidy where
  fresh := h.cleanup.fresh
  nodup := h.cleanup.nodup
  latest t ht := by
    rw [h.live_rerun] at ht
    cases ht

theorem live_begin (e : Effect τ) (arg : τ) :
    (e.begin arg).live = e.live ++ [⟨e.nextId, e.run, false, arg⟩] := by
  simp [live, begin]

theorem Tidy.begin (h : e.Tidy) (arg : τ) : (e.begin arg).Tidy where
  fresh t ht := by
    rcases List.mem_append.mp ht with ht | ht
    · exact Nat.lt_succ_of_lt (h.fresh t ht)
    · obtain rfl := List.mem_singleton.mp ht
      exact Nat.lt_succ_self _
  nodup := by
    rw [Effect.begin, List.map_append, List.nodup_append]
    refine ⟨h.nodup, List.nodup_singleton _, ?_⟩
    rintro _ hid _ hnew rfl
    obtain ⟨t, ht, rfl⟩ := List.mem_map.mp hid
    have hlt := h.fresh t ht
    simp only [List.map_cons, List.map_nil, List.mem_singleton] at hnew
    omega
  latest t ht := by
    rw [live_begin] at ht
    rcases List.mem_append.mp ht with ht | ht
    · exact h.latest t ht
    · obtain rfl := List.mem_singleton.mp ht
      rfl

theorem settle_eq_some : e.settle id = some (t, e') ↔
    e.tasks.find? (·.id = id) = some t ∧
      e' = { e with tasks := e.tasks.filter (·.id ≠ id) } := by
  simp only [settle, Option.map_eq_some_iff, Prod.mk.injEq]
  constructor
  · rintro ⟨t', ht', rfl, rfl⟩
    exact ⟨ht', rfl⟩
  · rintro ⟨ht, rfl⟩
    exact ⟨t, ht, rfl, rfl⟩

theorem mem_of_settle (h : e.settle id = some (t, e')) : t ∈ e.tasks ∧ t.id = id := by
  obtain ⟨hfind, -⟩ := settle_eq_some.mp h
  exact ⟨List.mem_of_find?_eq_some hfind, by simpa using List.find?_some hfind⟩

theorem mem_live_settle (h : e.settle id = some (t, e')) {t' : Task τ} :
    t' ∈ e'.live ↔ t' ∈ e.live ∧ t'.id ≠ id := by
  obtain ⟨-, rfl⟩ := settle_eq_some.mp h
  simp [mem_live, and_right_comm]

theorem Tidy.settle (h : e.Tidy) (hsettle : e.settle id = some (t, e')) : e'.Tidy := by
  obtain ⟨-, rfl⟩ := settle_eq_some.mp hsettle
  exact
    { fresh := fun t ht => h.fresh t (List.mem_of_mem_filter ht)
      nodup := h.nodup.sublist (List.filter_sublist.map _)
      latest := fun t ht => h.latest t ((mem_live_settle hsettle).mp ht).1 }

theorem Tidy.eq_of_id (h : e.Tidy) {t' : Task τ} (ht : t ∈ e.tasks) (ht' : t' ∈ e.tasks)
    (hid : t.id = t'.id) : t = t' :=
  List.inj_on_of_nodup_map h.nodup ht ht' hid

theorem Tidy.live_settle_cancelled (h : e.Tidy) (hsettle : e.settle id = some (t, e'))
    (hc : t.cancelled = true) : e'.live = e.live := by
  obtain ⟨ht, hid⟩ := mem_of_settle hsettle
  obtain ⟨-, rfl⟩ := settle_eq_some.mp hsettle
  have hother : ∀ t' ∈ e.live, t'.id ≠ id := by
    intro t' ht' heq
    obtain ⟨hmem, hlive⟩ := mem_live.mp ht'
    obtain rfl := h.eq_of_id ht hmem (hid.trans heq.symm)
    simp [hc] at hlive
  have hfilter : ({ e with tasks := e.tasks.filter (·.id ≠ id) } : Effect τ).live =
      e.live.filter (·.id ≠ id) := by
    simp only [live, List.filter_filter, Bool.and_comm]
  rw [hfilter]
  exact List.filter_eq_self.mpr fun t' ht' => by simpa using hother t' ht'

/-- Where one task is live, it is the one that settles uncancelled, and nothing is
left. -/
theorem live_settle_one {t' : Task τ} (hlive : e.live = [t'])
    (hsettle : e.settle id = some (t, e')) (hc : t.cancelled = false) : t = t' ∧ e'.live = [] := by
  obtain ⟨ht, hid⟩ := mem_of_settle hsettle
  have hmem : t ∈ e.live := mem_live.mpr ⟨ht, hc⟩
  obtain rfl := List.mem_singleton.mp (hlive ▸ hmem)
  refine ⟨rfl, List.eq_nil_iff_forall_not_mem.mpr fun t'' ht'' => ?_⟩
  obtain ⟨hold, hne⟩ := (mem_live_settle hsettle).mp ht''
  have heq : t'' = t := List.mem_singleton.mp (hlive ▸ hold)
  exact hne (heq ▸ hid)

theorem cancelled_of_live_nil (hlive : e.live = []) (hsettle : e.settle id = some (t, e')) :
    t.cancelled = true := by
  by_contra hc
  have hmem := mem_live.mpr ⟨(mem_of_settle hsettle).1, by simpa using hc⟩
  rw [hlive] at hmem
  cases hmem

end

end Effect
