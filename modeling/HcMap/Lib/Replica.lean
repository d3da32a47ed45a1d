import Mathlib.Logic.Function.Basic
import HcMap.Lib.Table

/-!
# Replicas

A client's replica of a collection that a server owns: its documents, the
master state it assumes for each, and the keys of the documents it has still
to push, oldest first. A batch pushes the first of them; the answer is a list
of conflicts, and the client takes a conflict's document over, both as its own
and as the master state. A document without a conflict is master from then on.
-/

structure Replica (κ : Type u) (δ : Type v) where
  docs : κ → Option δ
  master : κ → Option δ
  queue : List κ

namespace Replica

variable {κ : Type u} {δ : Type v}

def empty : Replica κ δ := ⟨fun _ => none, fun _ => none, []⟩

/-- The next `n` documents, each with the master state it was written on. -/
def batch (r : Replica κ δ) (n : Nat) : List (Option δ × δ) :=
  (r.queue.take n).filterMap fun k => (r.docs k).map fun d => (r.master k, d)

theorem mem_batch {r : Replica κ δ} {n : Nat} {w : Option δ × δ} :
    w ∈ r.batch n ↔ ∃ k ∈ r.queue.take n, r.docs k = some w.2 ∧ r.master k = w.1 := by
  unfold batch
  rw [List.mem_filterMap]
  constructor
  · rintro ⟨k, hk, hw⟩
    obtain ⟨d, hd, rfl⟩ := Option.map_eq_some_iff.mp hw
    exact ⟨k, hk, hd, rfl⟩
  · rintro ⟨k, hk, hd, hm⟩
    exact ⟨k, hk, by rw [hd, hm]; rfl⟩

theorem notMem_drop_of_mem_take {r : Replica κ δ} {n : Nat} {k : κ} (h : r.queue.Nodup)
    (hk : k ∈ r.queue.take n) : k ∉ r.queue.drop n :=
  List.disjoint_take_drop h (Nat.le_refl n) hk

theorem notMem_take_of_mem_drop {r : Replica κ δ} {n : Nat} {k : κ} (h : r.queue.Nodup)
    (hk : k ∈ r.queue.drop n) : k ∉ r.queue.take n := fun ht =>
  notMem_drop_of_mem_take h ht hk

variable [Keyed δ κ]

theorem batch_pairwise {r : Replica κ δ} (n : Nat) (hnodup : r.queue.Nodup)
    (hdocs : ∀ k ∈ r.queue, ∀ d, r.docs k = some d → key d = k) :
    (r.batch n).Pairwise fun w w' => key w.2 ≠ key w'.2 := by
  unfold batch
  rw [List.pairwise_filterMap]
  refine (hnodup.sublist (List.take_sublist n r.queue)).imp_of_mem ?_
  rintro k k' hk hk' hne w hw w' hw'
  obtain ⟨d, hd, rfl⟩ := Option.map_eq_some_iff.mp hw
  obtain ⟨d', hd', rfl⟩ := Option.map_eq_some_iff.mp hw'
  rwa [hdocs k (List.mem_of_mem_take hk) d hd, hdocs k' (List.mem_of_mem_take hk') d' hd']

/-- What waits is to be inserted, as it is in `ds`. -/
structure Pending (r : Replica κ δ) (ds : List δ) : Prop where
  nodup : r.queue.Nodup
  waiting : ∀ k ∈ r.queue, r.master k = none ∧ ∃ d ∈ ds, key d = k ∧ r.docs k = some d

section
variable {r : Replica κ δ} {ds : List δ} {n : Nat} {d : δ} {w : Option δ × δ}

theorem Pending.batch (h : Pending r ds) (hw : w ∈ r.batch n) :
    w.1 = none ∧ w.2 ∈ ds ∧ key w.2 ∈ r.queue.take n := by
  obtain ⟨k, hk, hd, hm⟩ := mem_batch.mp hw
  obtain ⟨hnone, d, hmem, hkey, hdoc⟩ := h.waiting k (List.mem_of_mem_take hk)
  obtain rfl : d = w.2 := Option.some.inj (hdoc.symm.trans hd)
  exact ⟨hm.symm.trans hnone, hmem, hkey ▸ hk⟩

theorem Pending.batch_pairwise (h : Pending r ds) :
    (r.batch n).Pairwise fun w w' => key w.2 ≠ key w'.2 :=
  Replica.batch_pairwise n h.nodup fun k hk d hd => by
    obtain ⟨-, d', -, hkey, hdoc⟩ := h.waiting k hk
    rwa [← Option.some.inj (hdoc.symm.trans hd)]

theorem Pending.mem_batch (h : Pending r ds) (hk : key d ∈ r.queue.take n) (hd : d ∈ ds)
    (hds : (ds.map key).Nodup) : (none, d) ∈ r.batch n := by
  obtain ⟨hnone, d', hmem, hkey, hdoc⟩ := h.waiting _ (List.mem_of_mem_take hk)
  obtain rfl := List.inj_on_of_nodup_map hds hmem hd hkey
  exact Replica.mem_batch.mpr ⟨_, hk, hdoc, hnone⟩

end

-- ---------------------------------------------------------------------------
-- A replica the server follows
-- ---------------------------------------------------------------------------

/-- The server has what the replica assumes: nothing of a document that has
never been accepted, and of the others the assumed master state, of which the
document is an edit. `absent` and `on` speak of the server. -/
structure Synced (r : Replica κ δ) (absent : κ → Prop) (on : δ → Prop) (edit : δ → δ → Prop) :
    Prop where
  nodup : r.queue.Nodup
  orphan : ∀ k, r.docs k = none → r.master k = none
  keyed : ∀ k d, r.docs k = some d → key d = k
  new : ∀ k d, r.docs k = some d → r.master k = none → absent k ∧ k ∈ r.queue
  accepted : ∀ k d m, r.docs k = some d → r.master k = some m →
    on m ∧ edit m d ∧ (k ∉ r.queue → d = m)

section
variable {r : Replica κ δ} {absent absent' : κ → Prop} {on on' : δ → Prop} {edit : δ → δ → Prop}
  {n : Nat} {k : κ} {d : δ} {w : Option δ × δ}

theorem Synced.current (h : r.Synced absent on edit) (hdoc : r.docs k = some d)
    (hin : k ∉ r.queue) : on d := by
  cases hm : r.master k with
  | none => exact absurd (h.new k d hdoc hm).2 hin
  | some m =>
    obtain ⟨hon, -, heq⟩ := h.accepted k d m hdoc hm
    rwa [heq hin]

theorem Synced.batch (h : r.Synced absent on edit) (hw : w ∈ r.batch n) :
    (w.1 = none → absent (key w.2)) ∧ ∀ m, w.1 = some m → on m ∧ edit m w.2 := by
  obtain ⟨k, hk, hd, hm⟩ := mem_batch.mp hw
  obtain rfl := h.keyed k w.2 hd
  refine ⟨fun hnone => (h.new _ _ hd (hm.trans hnone)).1, fun m hsome => ?_⟩
  obtain ⟨hon, hedit, -⟩ := h.accepted _ _ m hd (hm.trans hsome)
  exact ⟨hon, hedit⟩

theorem Synced.batch_pairwise (h : r.Synced absent on edit) :
    (r.batch n).Pairwise fun w w' => key w.2 ≠ key w'.2 :=
  Replica.batch_pairwise n h.nodup fun k _ => h.keyed k

theorem Synced.mono (h : r.Synced absent on edit) (ha : ∀ k, absent k → absent' k)
    (ho : ∀ d, on d → on' d) : r.Synced absent' on' edit where
  nodup := h.nodup
  orphan := h.orphan
  keyed := h.keyed
  new k d hd hm := (h.new k d hd hm).imp_left (ha k)
  accepted k d m hd hm := (h.accepted k d m hd hm).imp_left (ho m)

end

-- ---------------------------------------------------------------------------
-- Writing and settling
-- ---------------------------------------------------------------------------
variable [DecidableEq κ]

def offline (ds : List δ) : Replica κ δ where
  docs k := ds.find? fun d => key d = k
  master _ := none
  queue := ds.map key

/-- A local write. A document already waiting keeps its place. -/
def write (r : Replica κ δ) (d : δ) : Replica κ δ where
  docs := Function.update r.docs (key d) (some d)
  master := r.master
  queue := if key d ∈ r.queue then r.queue else r.queue ++ [key d]

/-- What the client holds after the answer: the conflict's document, else its
own. -/
def resolved (r : Replica κ δ) (conflicts : List δ) (k : κ) : Option δ :=
  (conflicts.find? fun d => key d = k).or (r.docs k)

def settle (r : Replica κ δ) (n : Nat) (conflicts : List δ) : Replica κ δ where
  docs k := if k ∈ r.queue.take n then r.resolved conflicts k else r.docs k
  master k := if k ∈ r.queue.take n then r.resolved conflicts k else r.master k
  queue := r.queue.drop n

section
variable {r : Replica κ δ} {ds conflicts : List δ} {n : Nat} {k : κ} {d : δ}

theorem mem_write_queue : k ∈ (r.write d).queue ↔ k ∈ r.queue ∨ k = key d := by
  unfold write
  dsimp only
  split
  · rename_i hin
    exact ⟨.inl, fun h => h.elim id fun hk => hk ▸ hin⟩
  · rw [List.mem_append, List.mem_singleton]

theorem write_nodup (h : r.queue.Nodup) : (r.write d).queue.Nodup := by
  unfold write
  dsimp only
  split
  · exact h
  · rename_i hnot
    exact List.nodup_append.mpr ⟨h, List.nodup_singleton _, fun k hk k' hk' heq => by
      obtain rfl := List.mem_singleton.mp hk'
      exact hnot (heq ▸ hk)⟩

@[simp] theorem write_docs_self : (r.write d).docs (key d) = some d := Function.update_self ..

theorem write_docs_of_ne (h : k ≠ key d) : (r.write d).docs k = r.docs k :=
  Function.update_of_ne h ..

@[simp] theorem settle_nil_docs : (r.settle n []).docs = r.docs := by
  funext k
  simp [settle, resolved]

theorem settle_nil_master :
    (r.settle n []).master k = if k ∈ r.queue.take n then r.docs k else r.master k := by
  simp [settle, resolved]

theorem settle_docs (h : k ∈ r.queue.take n) :
    (r.settle n conflicts).docs k = r.resolved conflicts k := if_pos h

theorem settle_docs_of_notMem (h : k ∉ r.queue.take n) :
    (r.settle n conflicts).docs k = r.docs k := if_neg h

theorem settle_master_of_notMem (h : k ∉ r.queue.take n) :
    (r.settle n conflicts).master k = r.master k := if_neg h

theorem resolved_cases (conflicts : List δ) (h : r.docs k = some d) :
    r.resolved conflicts k = some d ∨
      ∃ c ∈ conflicts, key c = k ∧ r.resolved conflicts k = some c := by
  unfold resolved
  cases hf : conflicts.find? fun d => key d = k with
  | none => exact .inl (by simpa using h)
  | some c =>
    exact .inr ⟨c, List.mem_of_find?_eq_some hf, by simpa using List.find?_some hf, rfl⟩

theorem resolved_of_conflict (hc : d ∈ conflicts) (hk : key d = k) :
    ∃ c ∈ conflicts, key c = k ∧ r.resolved conflicts k = some c := by
  unfold resolved
  cases hf : conflicts.find? fun d => key d = k with
  | none => exact absurd hk (by simpa using List.find?_eq_none.mp hf d hc)
  | some c => exact ⟨c, List.mem_of_find?_eq_some hf, by simpa using List.find?_some hf, rfl⟩

theorem pending_offline (h : (ds.map key).Nodup) : Pending (offline ds) ds where
  nodup := h
  waiting k hk := by
    obtain ⟨d, hd, rfl⟩ := List.mem_map.mp hk
    refine ⟨rfl, d, hd, rfl, ?_⟩
    have hsome : (ds.find? fun x => key x = key d).isSome :=
      List.find?_isSome.mpr ⟨d, hd, by simp⟩
    obtain ⟨x, hx⟩ := Option.isSome_iff_exists.mp hsome
    have hkey : key x = key d := by simpa using List.find?_some hx
    obtain rfl := List.inj_on_of_nodup_map h (List.mem_of_find?_eq_some hx) hd hkey
    exact hx

theorem Pending.settle (h : Pending r ds) : Pending (r.settle n conflicts) ds where
  nodup := h.nodup.sublist (List.drop_sublist n r.queue)
  waiting k hk := by
    have hnot := notMem_take_of_mem_drop h.nodup hk
    rw [settle_master_of_notMem hnot, settle_docs_of_notMem hnot]
    exact h.waiting k (List.mem_of_mem_drop hk)

end

section
variable {r : Replica κ δ} {absent absent' : κ → Prop} {on on' : δ → Prop} {edit : δ → δ → Prop}
  {n : Nat} {d : δ}

theorem Synced.write (h : r.Synced absent on edit)
    (hnew : r.docs (key d) = none → absent (key d))
    (hedit : ∀ d₀, r.docs (key d) = some d₀ → ∀ m, edit m d₀ → edit m d) :
    (r.write d).Synced absent on edit where
  nodup := write_nodup h.nodup
  orphan k hk := by
    by_cases heq : k = key d
    · subst heq
      simp at hk
    · exact h.orphan k (by rwa [write_docs_of_ne heq] at hk)
  keyed k x hx := by
    by_cases heq : k = key d
    · subst heq
      rw [write_docs_self] at hx
      exact congrArg key (Option.some.inj hx).symm
    · exact h.keyed k x (by rwa [write_docs_of_ne heq] at hx)
  new k x hx hm := by
    by_cases heq : k = key d
    · subst heq
      refine ⟨?_, mem_write_queue.mpr (.inr rfl)⟩
      cases hdoc : r.docs (key d) with
      | none => exact hnew hdoc
      | some d₀ => exact (h.new _ d₀ hdoc hm).1
    · rw [write_docs_of_ne heq] at hx
      exact (h.new k x hx hm).imp_right fun hin => mem_write_queue.mpr (.inl hin)
  accepted k x m hx hm := by
    by_cases heq : k = key d
    · subst heq
      rw [write_docs_self] at hx
      obtain rfl := Option.some.inj hx
      cases hdoc : r.docs (key d) with
      | none => exact absurd ((h.orphan _ hdoc).symm.trans hm) (by simp)
      | some d₀ =>
        obtain ⟨hon, hed, -⟩ := h.accepted _ d₀ m hdoc hm
        exact ⟨hon, hedit d₀ hdoc m hed, fun hin => absurd (mem_write_queue.mpr (.inr rfl)) hin⟩
    · rw [write_docs_of_ne heq] at hx
      obtain ⟨hon, hed, hcur⟩ := h.accepted k x m hx hm
      exact ⟨hon, hed, fun hin => hcur fun hr => hin (mem_write_queue.mpr (.inl hr))⟩

/-- An accepted batch: its documents are on the server, and the rest of the
server is as it was. -/
theorem Synced.settle (h : r.Synced absent on edit) (hrefl : ∀ d, edit d d)
    (hkey : ∀ m d, edit m d → key m = key d) (hbatch : ∀ w ∈ r.batch n, on' w.2)
    (hrest : ∀ k, (∀ w ∈ r.batch n, key w.2 ≠ k) →
      (absent k → absent' k) ∧ ∀ m, key m = k → on m → on' m) :
    (r.settle n []).Synced absent' on' edit := by
  have hout : ∀ k, k ∉ r.queue.take n → ∀ w ∈ r.batch n, key w.2 ≠ k := by
    rintro k hk w hw rfl
    obtain ⟨k', hk', hd, -⟩ := mem_batch.mp hw
    exact hk (h.keyed k' w.2 hd ▸ hk')
  refine ⟨h.nodup.sublist (List.drop_sublist n r.queue), fun k hk => ?_, fun k d hd => ?_,
    fun k d hd hm => ?_, fun k d m hd hm => ?_⟩
  · rw [settle_nil_docs] at hk
    rw [settle_nil_master]
    split
    · exact hk
    · exact h.orphan k hk
  · exact h.keyed k d (by rwa [settle_nil_docs] at hd)
  · rw [settle_nil_docs] at hd
    rw [settle_nil_master] at hm
    split at hm
    · simp [hd] at hm
    · rename_i hnot
      obtain ⟨ha, hin⟩ := h.new k d hd hm
      rw [← List.take_append_drop n r.queue] at hin
      exact ⟨(hrest k (hout k hnot)).1 ha, (List.mem_append.mp hin).resolve_left hnot⟩
  · rw [settle_nil_docs] at hd
    rw [settle_nil_master] at hm
    split at hm
    · rename_i hin
      obtain rfl := Option.some.inj (hd.symm.trans hm)
      exact ⟨hbatch (r.master k, d) (mem_batch.mpr ⟨k, hin, hd, rfl⟩), hrefl d, fun _ => rfl⟩
    · rename_i hnot
      obtain ⟨hon, hedit, hcur⟩ := h.accepted k d m hd hm
      have hk : key m = k := (hkey m d hedit).trans (h.keyed k d hd)
      refine ⟨(hrest k (hout k hnot)).2 m hk hon, hedit, fun hdrop => hcur fun hin => ?_⟩
      rw [← List.take_append_drop n r.queue] at hin
      exact (List.mem_append.mp hin).elim hnot hdrop

end

end Replica
