import HcMap.Lib.Table

/-!
# Updates under READ COMMITTED

An `UPDATE` finds its rows in a snapshot of what was committed when it began.
Where another transaction has written one of them since, it waits, and checks
the row again as it is then. `hits` are the keys of the rows it writes, and
`updateAt` is the table with these rows written.
-/

namespace Table

variable {ρ : Type u} {κ : Type v} [Keyed ρ κ] [DecidableEq κ] {t seen now : Table ρ}
  {p : ρ → Prop} [DecidablePred p] {f : ρ → ρ} {hf : ∀ r, key (f r) = key r} {r x : ρ} {k : κ}

/-- The rows that `p` holds of both in the snapshot and now. -/
def hits (seen now : Table ρ) (p : ρ → Prop) [DecidablePred p] : List κ :=
  (now.rows.filter fun r => p r ∧ ∃ x ∈ seen, key x = key r ∧ p x).map key

def updateAt (t : Table ρ) (keys : List κ) (f : ρ → ρ) (hf : ∀ r, key (f r) = key r) : Table ρ :=
  t.map (fun r => if key r ∈ keys then f r else r) fun r => by
    split
    · exact hf r
    · rfl

theorem mem_hits :
    k ∈ hits seen now p ↔ ∃ r ∈ now, (p r ∧ ∃ x ∈ seen, key x = key r ∧ p x) ∧ key r = k := by
  simp only [hits, List.mem_map, List.mem_filter, decide_eq_true_eq, mem_rows, and_assoc]

theorem key_mem_hits_self (hr : r ∈ t) : key r ∈ hits t t p ↔ p r := by
  rw [mem_hits]
  constructor
  · rintro ⟨x, hx, ⟨hp, -⟩, hk⟩
    rwa [← eq_of_key hx hr hk]
  · intro hp
    exact ⟨r, hr, ⟨hp, r, hr, rfl, hp⟩, rfl⟩

theorem updateAt_hits_self :
    t.updateAt (hits t t p) f hf = t.map (fun r => if p r then f r else r) fun r => by
      split
      · exact hf r
      · rfl :=
  map_congr fun r hr => by simp only [key_mem_hits_self hr]

@[simp] theorem updateAt_nil : t.updateAt [] f hf = t := map_eq_self fun r _ => by simp

theorem mem_updateAt (hf : ∀ r, key (f r) = key r) {keys : List κ} :
    x ∈ t.updateAt keys f hf ↔ ∃ r ∈ t, (if key r ∈ keys then f r else r) = x := mem_map

end Table
