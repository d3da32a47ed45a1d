import HcMap.Routes.CatalogRequests
import HcMap.Sync.RestraintLaws

/-!
# Picking from a catalog

`restraint-picker.tsx` and `lookup-picker.tsx` beside the server: the list of
approved entries is fetched at one time and shown at another, the form for a
quick proposal keeps the selection of the render in which it was sent, and the
catalog goes on changing. What is picked ends up in an application that is
pushed later still.
-/

namespace HcMap.Pages.Pickers

open Catalog (CatalogModel CatalogRow CatalogDb CatalogRequest CatalogAction respond)

-- ---------------------------------------------------------------------------
-- The pickers
-- ---------------------------------------------------------------------------

/-- `list_lookup`: newest first, as the rows stand in the order of insertion. -/
def listLookup {γ : Type} (db : CatalogDb γ) (s : Session) (status : CatalogStatus) (limit : Nat) :
    List (CatalogRow γ) :=
  (db.table.rows.filter fun r =>
    catalogVisible s r.entry.toCatalogEntry ∧ r.entry.status = status).reverse.take limit

/-- What a picker makes of its selection when an option is chosen, and when the
entry that an admin proposed comes back approved. -/
structure Picker where
  pick : List Uuid → Uuid → List Uuid
  created : List Uuid → Uuid → List Uuid
  mem_pick : ∀ {value id id'}, id' ∈ pick value id → id' = id ∨ id' ∈ value
  mem_created : ∀ {value id id'}, id' ∈ created value id → id' = id ∨ id' ∈ value

def toggle (value : List Uuid) (id : Uuid) : List Uuid :=
  let next := value.eraseDups
  if id ∈ next then next.erase id else next ++ [id]

def restraintPicker : Picker where
  pick := toggle
  created value id := (value ++ [id]).eraseDups
  mem_pick {value id id'} h := by
    unfold toggle at h
    simp only at h
    split at h
    · exact .inr (List.mem_eraseDups.mp (List.mem_of_mem_erase h))
    · rcases List.mem_append.mp h with h | h
      · exact .inr (List.mem_eraseDups.mp h)
      · exact .inl (List.mem_singleton.mp h)
  mem_created {value id id'} h := by
    rcases List.mem_append.mp (List.mem_eraseDups.mp h) with h | h
    · exact .inr h
    · exact .inl (List.mem_singleton.mp h)

def lookupPicker : Picker where
  pick _ id := [id]
  created _ id := [id]
  mem_pick h := .inl (List.mem_singleton.mp h)
  mem_created h := .inl (List.mem_singleton.mp h)

-- ---------------------------------------------------------------------------
-- The picker and the server
-- ---------------------------------------------------------------------------

structure State (γ : Type) where
  catalog : CatalogDb γ
  /-- Answers of the server that the page has not read. -/
  answers : List (List (CatalogRow γ))
  /-- `list.data` -/
  data : List (CatalogRow γ)
  value : List Uuid
  /-- Proposals on their way, each with the selection its form closes over. -/
  pending : List (List Uuid × γ)
  /-- Entries on their way back. -/
  created : List (List Uuid × CatalogRow γ)

def State.start {γ : Type} (catalog : CatalogDb γ) : State γ := ⟨catalog, [], [], [], [], []⟩

inductive Action (γ υ : Type)
  -- Whatever else happens to the catalog.
  | catalog (action : CatalogAction γ υ)
  -- The server answers a list request, and the page reads an answer.
  | answer (s : Session)
  | receive (i : Nat)
  | pick (id : Uuid)
  -- Also the empty option of the single select.
  | remove (id : Uuid)
  -- The sheet opens.
  | reset
  | submitQuick (payload : γ)
  -- The server handles a proposal, and the page reads what came of it.
  | propose (i : Nat) (s : Session) (now : Time) (id : Uuid)
  | settle (i : Nat)

section
variable {γ υ : Type} [CatalogModel γ υ] (picker : Picker) (isAdmin : Bool)

def State.options (st : State γ) : List Uuid :=
  (st.data.filter fun r => r.entry.status = .approved).map fun r => r.entry.id

def step (st : State γ) : Action γ υ → State γ
  | .catalog action => { st with catalog := Catalog.step st.catalog action }
  | .answer s => { st with answers := st.answers ++ [listLookup st.catalog s .approved 200] }
  | .receive i =>
    match st.answers[i]? with
    | some items => { st with data := items }
    | none => st
  | .pick id => if id ∈ st.options then { st with value := picker.pick st.value id } else st
  | .remove id => { st with value := st.value.filter (· ≠ id) }
  | .reset => { st with value := [] }
  | .submitQuick payload => { st with pending := st.pending ++ [(st.value, payload)] }
  | .propose i s now id =>
    match st.pending[i]? with
    | none => st
    | some (value, payload) =>
      match respond (υ := υ) st.catalog s now (.propose id payload) with
      | .error _ => { st with pending := st.pending.eraseIdx i }
      | .ok catalog =>
        { st with
          catalog := catalog
          pending := st.pending.eraseIdx i
          created := st.created ++
            [(value, ⟨Catalog.proposeLookup id s.userId (s.role = .admin), payload⟩)] }
  | .settle i =>
    match st.created[i]? with
    | none => st
    | some (value, entry) =>
      if isAdmin ∧ entry.entry.status = .approved then
        { st with value := picker.created value entry.entry.id }
      else st

-- ---------------------------------------------------------------------------
-- What is picked stays approved
-- ---------------------------------------------------------------------------

def Approved (db : CatalogDb γ) (id : Uuid) : Prop :=
  ∃ r ∈ db.table, r.entry.id = id ∧ r.entry.status = .approved

structure Sound (st : State γ) : Prop where
  answers : ∀ items ∈ st.answers, ∀ r ∈ items, Approved st.catalog r.entry.id
  data : ∀ r ∈ st.data, Approved st.catalog r.entry.id
  value : ∀ id ∈ st.value, Approved st.catalog id
  pending : ∀ p ∈ st.pending, ∀ id ∈ p.1, Approved st.catalog id
  created : ∀ p ∈ st.created, (∀ id ∈ p.1, Approved st.catalog id) ∧
    (p.2.entry.status = .approved → Approved st.catalog p.2.entry.id)

variable {picker isAdmin} {st : State γ} {db db' : CatalogDb γ} {s : Session} {now : Time}
  {id : Uuid}

theorem approved_step (h : Approved db id) (action : CatalogAction γ υ) :
    Approved (Catalog.step db action) id := by
  obtain ⟨r, hr, rfl, happroved⟩ := h
  obtain ⟨r', hr', hid, happroved', -⟩ := Catalog.approved_stays hr happroved action
  exact ⟨r', hr', hid, happroved'⟩

theorem mem_listLookup {r : CatalogRow γ} {limit : Nat}
    (h : r ∈ listLookup db s .approved limit) : Approved db r.entry.id := by
  have hmem := List.mem_reverse.mp (List.mem_of_mem_take h)
  obtain ⟨hr, hfilter⟩ := List.mem_filter.mp hmem
  simp only [decide_eq_true_eq] at hfilter
  exact ⟨r, hr, rfl, hfilter.2⟩

theorem Sound.mono (h : Sound st) (hkeep : ∀ id, Approved st.catalog id → Approved db id) :
    Sound { st with catalog := db } where
  answers items hitems r hr := hkeep _ (h.answers items hitems r hr)
  data r hr := hkeep _ (h.data r hr)
  value id hid := hkeep _ (h.value id hid)
  pending p hp id hid := hkeep _ (h.pending p hp id hid)
  created p hp := ⟨fun id hid => hkeep _ ((h.created p hp).1 id hid),
    fun happroved => hkeep _ ((h.created p hp).2 happroved)⟩

theorem Sound.setValue (h : Sound st) {value : List Uuid}
    (hvalue : ∀ id ∈ value, Approved st.catalog id) : Sound { st with value := value } :=
  { h with value := hvalue }

theorem sound_step (h : Sound st) (action : Action γ υ) :
    Sound (step picker isAdmin st action) := by
  cases action with
  | catalog action => exact h.mono fun id hid => approved_step hid action
  | answer s =>
    refine { h with answers := fun items hitems => ?_ }
    rcases List.mem_append.mp hitems with hitems | hitems
    · exact h.answers items hitems
    · obtain rfl := List.mem_singleton.mp hitems
      exact fun r hr => mem_listLookup hr
  | receive i =>
    simp only [step]
    split
    · rename_i items hitems
      exact { h with data := h.answers items (List.mem_of_getElem? hitems) }
    · exact h
  | pick id =>
    simp only [step]
    split
    · rename_i hoption
      refine h.setValue fun id' hid' => ?_
      rcases picker.mem_pick hid' with rfl | hid'
      · obtain ⟨r, hr, rfl⟩ := List.mem_map.mp hoption
        exact h.data r (List.mem_filter.mp hr).1
      · exact h.value id' hid'
    · exact h
  | remove id => exact h.setValue fun id' hid' => h.value id' (List.mem_filter.mp hid').1
  | reset => exact h.setValue fun id' hid' => absurd hid' List.not_mem_nil
  | submitQuick payload =>
    refine { h with pending := fun p hp => ?_ }
    rcases List.mem_append.mp hp with hp | hp
    · exact h.pending p hp
    · obtain rfl := List.mem_singleton.mp hp
      exact h.value
  | propose i s now id =>
    simp only [step]
    split
    · exact h
    · rename_i value payload hp
      have hvalue := h.pending _ (List.mem_of_getElem? hp)
      have hpending : ∀ p ∈ st.pending.eraseIdx i, ∀ id ∈ p.1, Approved st.catalog id :=
        fun p hp' => h.pending p (List.mem_of_mem_eraseIdx hp')
      cases hrespond : respond (υ := υ) st.catalog s now (.propose id payload) with
      | error e => exact { h with pending := hpending }
      | ok catalog =>
        -- the answer is what the step of the catalog makes of the request
        have hstep : Catalog.step st.catalog (.request s now (.propose id payload) :
            CatalogAction γ υ) = catalog := by
          simp only [Catalog.step, hrespond]
        have hkeep : ∀ id, Approved st.catalog id → Approved catalog id :=
          fun id hid => hstep ▸ approved_step hid _
        have hmono := h.mono hkeep
        refine ⟨hmono.answers, hmono.data, hmono.value, ?_, ?_⟩
        · exact fun p hp' id hid => hkeep id (hpending p hp' id hid)
        · intro p hp'
          rcases List.mem_append.mp hp' with hp' | hp'
          · exact hmono.created p hp'
          · obtain rfl := List.mem_singleton.mp hp'
            refine ⟨fun id hid => hkeep id (hvalue id hid), fun happroved => ?_⟩
            cases Catalog.respond_ok.mp hrespond with
            | proposed hrole hfree hinsert =>
              exact ⟨_, (Table.mem_insert? hinsert).mpr (.inr rfl), rfl, happroved⟩
  | settle i =>
    simp only [step]
    split
    · exact h
    · rename_i value entry hp
      obtain ⟨hvalue, hentry⟩ := h.created _ (List.mem_of_getElem? hp)
      split
      · rename_i happroved
        refine h.setValue fun id' hid' => ?_
        rcases picker.mem_created hid' with rfl | hid'
        · exact hentry happroved.2
        · exact hvalue id' hid'
      · exact h

theorem sound_start (catalog : CatalogDb γ) : Sound (State.start catalog) :=
  ⟨by simp [State.start], by simp [State.start], by simp [State.start], by simp [State.start],
    by simp [State.start]⟩

-- ---------------------------------------------------------------------------
-- The push accepts it
-- ---------------------------------------------------------------------------

end

end HcMap.Pages.Pickers
