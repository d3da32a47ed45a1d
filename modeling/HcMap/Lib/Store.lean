import HcMap.Lib.Cursor
import HcMap.Lib.Replica

/-!
# Local stores

What is kept of one table at one place, whoever uses it there: a replica, the
checkpoint of its pulls, and for each document who has written to it since the
server last sent it. `Serves` says that a store fits its user: others have left
nothing in it, and what the user may see is held or still lies ahead.
-/

/-- No key waits twice, a document is under its own key, and what waits to be
pushed is there and was written by someone. -/
structure LocalStore (κ : Type u) (π : Type v) (δ : Type w) (υ : Type x) [Keyed δ κ] where
  replica : Replica κ δ
  checkpoint : Option π
  authors : κ → List υ
  nodup : replica.queue.Nodup
  keyed : ∀ k d, replica.docs k = some d → key d = k
  held : ∀ k ∈ replica.queue, (replica.docs k).isSome
  written : ∀ k ∈ replica.queue, authors k ≠ []

namespace LocalStore

variable {ρ : Type u} {κ : Type v} {π : Type w} {δ : Type x} {υ : Type y} [Keyed ρ κ] [Keyed δ κ]

def empty : LocalStore κ π δ υ where
  replica := .empty
  checkpoint := none
  authors _ := []
  nodup := List.nodup_nil
  keyed _ _ h := nomatch h
  held _ h := nomatch h
  written _ h := nomatch h

def feed (st : LocalStore κ π δ υ) : Cursor.Feed κ π δ := ⟨st.checkpoint, st.replica.docs⟩

-- ---------------------------------------------------------------------------
-- Stores that fit their user
-- ---------------------------------------------------------------------------

def Seen (t : Table ρ) (view : ρ → Option δ) (k : κ) : Prop :=
  ∃ r ∈ t, key r = k ∧ (view r).isSome

instance [DecidableEq κ] (t : Table ρ) (view : ρ → Option δ) (k : κ) : Decidable (Seen t view k) :=
  inferInstanceAs (Decidable (∃ r ∈ t, key r = k ∧ (view r).isSome))

/-- Nobody else's documents: a live one is in the user's sight or was written by
the user, and only the user's wait to be pushed. `view` is what the user may see
of a row. -/
structure Private (st : LocalStore κ π δ υ) (t : Table ρ) (view : ρ → Option δ) (live : δ → Prop)
    (u : υ) : Prop where
  seen : ∀ k d, st.replica.docs k = some d → live d → u ∈ st.authors k ∨ Seen t view k
  own : ∀ k ∈ st.replica.queue, ∀ author ∈ st.authors k, author = u

/-- The row's document is held, as it is or as the user has written it. -/
def Holds (st : LocalStore κ π δ υ) (u : υ) (r : ρ) (d : δ) : Prop :=
  ∃ d', st.replica.docs (key r) = some d' ∧ (d' = d ∨ u ∈ st.authors (key r))

/-- Or the row lies ahead of the checkpoint. -/
def Current [LinearOrder π] (st : LocalStore κ π δ υ) (pos : ρ → π) (u : υ) (r : ρ) (d : δ) :
    Prop :=
  st.Holds u r d ∨ Cursor.After pos st.checkpoint r

structure Serves [LinearOrder π] (st : LocalStore κ π δ υ) (pos : ρ → π) (t : Table ρ)
    (view : ρ → Option δ) (live : δ → Prop) (u : υ) : Prop
    extends Private st t view live u where
  current : ∀ r ∈ t, ∀ d, view r = some d → st.Current pos u r d

/-- What may happen to the table while the user is served: the user keeps in
sight what is held live and is not the user's own, and a row that stays, if the
user finds another document of it, is current all the same. -/
structure Keeps [LinearOrder π] (st : LocalStore κ π δ υ) (pos : ρ → π) (t t' : Table ρ)
    (view view' : ρ → Option δ) (live : δ → Prop) (u : υ) : Prop where
  sight : ∀ k d, st.replica.docs k = some d → live d → u ∉ st.authors k → Seen t view k →
    Seen t' view' k
  stays : ∀ r ∈ t', r ∈ t → ∀ d, view' r = some d → view r ≠ some d → st.Current pos u r d

section
variable [LinearOrder π] {st : LocalStore κ π δ υ} {pos : ρ → π} {t t' : Table ρ}
  {view view' : ρ → Option δ} {live : δ → Prop} {u : υ}

theorem serves_empty : (empty : LocalStore κ π δ υ).Serves pos t view live u where
  seen _ _ h := nomatch h
  own _ h := nomatch h
  current _ _ _ _ := .inr fun _ h => nomatch h

theorem Serves.change (h : st.Serves pos t view live u)
    (hkeeps : st.Keeps pos t t' view view' live u)
    (hnew : ∀ r ∈ t', r ∉ t → Cursor.After pos st.checkpoint r) :
    st.Serves pos t' view' live u where
  seen k d hd hlive := by
    by_cases hown : u ∈ st.authors k
    · exact .inl hown
    · have hseen := (h.seen k d hd hlive).resolve_left hown
      exact .inr (hkeeps.sight k d hd hlive hown hseen)
  own := h.own
  current r hr d hd := by
    by_cases hr' : r ∈ t
    · by_cases hsame : view r = some d
      · exact h.current r hr' d hsame
      · exact hkeeps.stays r hr hr' d hd hsame
    · exact .inr (hnew r hr hr')

omit [LinearOrder π] in
theorem Private.holds {r : ρ} (h : st.Private t view live u) (hr : key r ∈ st.replica.queue)
    (d : δ) : st.Holds u r d := by
  obtain ⟨d', hd'⟩ := Option.isSome_iff_exists.mp (st.held _ hr)
  obtain ⟨author, hauthor⟩ := List.exists_mem_of_ne_nil _ (st.written _ hr)
  obtain rfl := h.own _ hr author hauthor
  exact ⟨d', hd', .inr hauthor⟩

theorem visible_of_view {visible : ρ → Prop} [DecidablePred visible] {render : ρ → δ} {r : ρ}
    {d : δ} (hview : ∀ r, view r = if visible r then some (render r) else none)
    (hd : view r = some d) : visible r ∧ render r = d := by
  rw [hview] at hd
  split at hd
  · rename_i hv
    exact ⟨hv, Option.some.inj hd⟩
  · cases hd

theorem Serves.complete {visible : ρ → Prop} [DecidablePred visible] {render : ρ → δ} {limit : Nat}
    (h : st.Serves pos t view live u)
    (hview : ∀ r, view r = if visible r then some (render r) else none) (hlimit : 0 < limit)
    (hempty : Cursor.page pos t visible st.checkpoint limit = []) :
    ∀ r ∈ t, ∀ d, view r = some d → st.Holds u r d := by
  intro r hr d hd
  obtain ⟨hv, -⟩ := visible_of_view hview hd
  exact (h.current r hr d hd).resolve_right (Cursor.not_after_of_page_nil hlimit hempty hr hv)

end

-- ---------------------------------------------------------------------------
-- Pulling, writing and pushing
-- ---------------------------------------------------------------------------
variable [DecidableEq κ]

/-- The pulled documents that replace what is held. One that waits to be pushed
stays as it is. -/
def taken (st : LocalStore κ π δ υ) (documents : List δ) : List δ :=
  documents.filter fun d => key d ∉ st.replica.queue

theorem mem_taken {st : LocalStore κ π δ υ} {documents : List δ} {d : δ} :
    d ∈ st.taken documents ↔ d ∈ documents ∧ key d ∉ st.replica.queue := by
  simp [taken]

theorem notMem_taken {st : LocalStore κ π δ υ} {documents : List δ} {k : κ}
    (h : k ∈ st.replica.queue) : k ∉ (st.taken documents).map key := by
  intro hk
  obtain ⟨d, hd, rfl⟩ := List.mem_map.mp hk
  exact (mem_taken.mp hd).2 h

theorem store_keyed {docs : κ → Option δ} {documents : List δ}
    (h : ∀ k d, docs k = some d → key d = k) :
    ∀ k d, Cursor.store id docs documents k = some d → key d = k := by
  induction documents generalizing docs with
  | nil => exact h
  | cons x documents ih =>
    refine ih fun k d hd => ?_
    dsimp only at hd
    by_cases hk : k = key x
    · subst hk
      rw [Function.update_self] at hd
      exact congrArg key (Option.some.inj hd).symm
    · rw [Function.update_of_ne hk] at hd
      exact h k d hd

theorem store_of_queue {st : LocalStore κ π δ υ} {documents : List δ} {k : κ}
    (docs : κ → Option δ) (h : k ∈ st.replica.queue) :
    Cursor.store id docs (st.taken documents) k = docs k :=
  Cursor.store_of_notMem _ fun d hd heq => notMem_taken h (List.mem_map.mpr ⟨d, hd, heq⟩)

def absorb (st : LocalStore κ π δ υ) (checkpoint : Option π) (documents : List δ) :
    LocalStore κ π δ υ where
  replica :=
    { st.replica with
      docs := Cursor.store id st.replica.docs (st.taken documents)
      master := Cursor.store id st.replica.master (st.taken documents) }
  checkpoint := checkpoint
  authors k := if k ∈ (st.taken documents).map key then [] else st.authors k
  nodup := st.nodup
  keyed := store_keyed st.keyed
  held k hk := by
    have hdoc : Cursor.store id st.replica.docs (st.taken documents) k = st.replica.docs k :=
      store_of_queue st.replica.docs hk
    exact (congrArg Option.isSome hdoc).trans (st.held k hk)
  written k hk := by
    rw [if_neg (notMem_taken hk)]
    exact st.written k hk

def write (st : LocalStore κ π δ υ) (u : υ) (d : δ) : LocalStore κ π δ υ where
  replica := st.replica.write d
  checkpoint := st.checkpoint
  authors := Function.update st.authors (key d)
    (if key d ∈ st.replica.queue then u :: st.authors (key d) else [u])
  nodup := Replica.write_nodup st.nodup
  keyed k x hx := by
    by_cases hk : k = key d
    · subst hk
      rw [Replica.write_docs_self] at hx
      exact congrArg key (Option.some.inj hx).symm
    · rw [Replica.write_docs_of_ne hk] at hx
      exact st.keyed k x hx
  held k hk := by
    by_cases heq : k = key d
    · subst heq
      rw [Replica.write_docs_self]
      rfl
    · rw [Replica.write_docs_of_ne heq]
      exact st.held k ((Replica.mem_write_queue.mp hk).resolve_right heq)
  written k hk := by
    by_cases heq : k = key d
    · subst heq
      rw [Function.update_self]
      split <;> simp
    · rw [Function.update_of_ne heq]
      exact st.written k ((Replica.mem_write_queue.mp hk).resolve_right heq)

/-- A conflict replaces the document, and all that was written to it. -/
def settle (st : LocalStore κ π δ υ) (n : Nat) (conflicts : List δ) : LocalStore κ π δ υ where
  replica := st.replica.settle n conflicts
  checkpoint := st.checkpoint
  authors k :=
    if k ∈ st.replica.queue.take n ∧ k ∈ conflicts.map key then [] else st.authors k
  nodup := st.nodup.sublist (List.drop_sublist n st.replica.queue)
  keyed k d hd := by
    by_cases hk : k ∈ st.replica.queue.take n
    · rw [Replica.settle_docs hk] at hd
      unfold Replica.resolved at hd
      cases hf : conflicts.find? fun d => key d = k with
      | none =>
        rw [hf, Option.none_or] at hd
        exact st.keyed k d hd
      | some c =>
        rw [hf, Option.some_or] at hd
        obtain rfl := Option.some.inj hd
        simpa using List.find?_some hf
    · rw [Replica.settle_docs_of_notMem hk] at hd
      exact st.keyed k d hd
  held k hk := by
    rw [Replica.settle_docs_of_notMem (Replica.notMem_take_of_mem_drop st.nodup hk)]
    exact st.held k (List.mem_of_mem_drop hk)
  written k hk := by
    rw [if_neg fun h => Replica.notMem_take_of_mem_drop st.nodup hk h.1]
    exact st.written k (List.mem_of_mem_drop hk)

section
variable {st : LocalStore κ π δ υ} {documents conflicts : List δ} {checkpoint : Option π} {n : Nat}
  {k : κ} {u : υ} {d : δ}

theorem absorb_docs_of_notMem (h : k ∉ (st.taken documents).map key) :
    (st.absorb checkpoint documents).replica.docs k = st.replica.docs k :=
  Cursor.store_of_notMem _ fun d hd heq => h (List.mem_map.mpr ⟨d, hd, heq⟩)

theorem absorb_docs_of_mem (hnodup : (documents.map key).Nodup) (h : d ∈ st.taken documents) :
    (st.absorb checkpoint documents).replica.docs (key d) = some d :=
  Cursor.store_of_mem _ (hnodup.sublist (List.filter_sublist.map key)) h

theorem absorb_authors_of_notMem (h : k ∉ (st.taken documents).map key) :
    (st.absorb checkpoint documents).authors k = st.authors k := if_neg h

theorem Holds.absorb {r : ρ} (h : st.Holds u r d) (hr : key r ∉ (st.taken documents).map key) :
    (st.absorb checkpoint documents).Holds u r d := by
  obtain ⟨d', hd', hcase⟩ := h
  exact ⟨d', (absorb_docs_of_notMem hr).trans hd', by rwa [absorb_authors_of_notMem hr]⟩

theorem write_authors_self : u ∈ (st.write u d).authors (key d) := by
  have hself : (st.write u d).authors (key d) =
      if key d ∈ st.replica.queue then u :: st.authors (key d) else [u] := Function.update_self ..
  rw [hself]
  split <;> simp

theorem write_authors_of_ne (h : k ≠ key d) : (st.write u d).authors k = st.authors k :=
  Function.update_of_ne h ..

theorem settle_cases (st : LocalStore κ π δ υ) (n : Nat) (conflicts : List δ) (k : κ) :
    (∃ c ∈ conflicts, key c = k ∧ (st.settle n conflicts).replica.docs k = some c ∧
      (st.settle n conflicts).authors k = []) ∨
    ((st.settle n conflicts).replica.docs k = st.replica.docs k ∧
      (st.settle n conflicts).authors k = st.authors k) := by
  by_cases hk : k ∈ st.replica.queue.take n
  · cases hf : conflicts.find? fun d => key d = k with
    | some c =>
      have hc := List.mem_of_find?_eq_some hf
      have hkey : key c = k := by simpa using List.find?_some hf
      refine .inl ⟨c, hc, hkey, ?_, if_pos ⟨hk, List.mem_map.mpr ⟨c, hc, hkey⟩⟩⟩
      exact (Replica.settle_docs hk).trans (by rw [Replica.resolved, hf, Option.some_or])
    | none =>
      refine .inr ⟨?_, if_neg fun h => ?_⟩
      · exact (Replica.settle_docs hk).trans (by rw [Replica.resolved, hf, Option.none_or])
      · obtain ⟨c, hc, hkey⟩ := List.mem_map.mp h.2
        exact absurd hkey (by simpa using List.find?_eq_none.mp hf c hc)
  · exact .inr ⟨Replica.settle_docs_of_notMem hk, if_neg fun h => hk h.1⟩

end

-- ---------------------------------------------------------------------------
-- What serves the user goes on doing so
-- ---------------------------------------------------------------------------

section
variable [LinearOrder π] {st : LocalStore κ π δ υ} {pos : ρ → π} {t t' : Table ρ}
  {view view' : ρ → Option δ} {live : δ → Prop} {u : υ} {conflicts : List δ}

theorem Serves.write (h : st.Serves pos t view live u) (d : δ) :
    (st.write u d).Serves pos t view live u where
  seen k x hx hlive := by
    by_cases hk : k = key d
    · subst hk
      exact .inl write_authors_self
    · rw [write_authors_of_ne hk]
      exact h.seen k x ((Replica.write_docs_of_ne hk).symm.trans hx) hlive
  own k hk author hauthor := by
    by_cases heq : k = key d
    · subst heq
      have hself : (st.write u d).authors (key d) =
          if key d ∈ st.replica.queue then u :: st.authors (key d) else [u] :=
        Function.update_self ..
      rw [hself] at hauthor
      split at hauthor
      · rename_i hin
        rcases List.mem_cons.mp hauthor with rfl | hauthor
        · rfl
        · exact h.own _ hin author hauthor
      · exact List.mem_singleton.mp hauthor
    · rw [write_authors_of_ne heq] at hauthor
      exact h.own k ((Replica.mem_write_queue.mp hk).resolve_right heq) author hauthor
  current r hr x hx := by
    rcases h.current r hr x hx with ⟨x', hx', hcase⟩ | hafter
    · left
      by_cases hk : key r = key d
      · rw [Holds, hk]
        exact ⟨d, Replica.write_docs_self, .inr write_authors_self⟩
      · exact ⟨x', (Replica.write_docs_of_ne hk).trans hx', by rwa [write_authors_of_ne hk]⟩
    · exact .inr hafter

/-- A page of the user's rows, read from the store's checkpoint. A row whose
document waits to be pushed passes by: the user's own stands there. -/
theorem Serves.absorb {visible : ρ → Prop} [DecidablePred visible] {render : ρ → δ} (limit : Nat)
    (h : st.Serves pos t view live u) (hinj : ∀ a ∈ t, ∀ b ∈ t, pos a = pos b → a = b)
    (hkey : ∀ r, key (render r) = key r)
    (hview : ∀ r, view r = if visible r then some (render r) else none) :
    (st.absorb (Cursor.advance pos st.checkpoint (Cursor.page pos t visible st.checkpoint limit))
      ((Cursor.page pos t visible st.checkpoint limit).map render)).Serves pos t view live u := by
  have hnodup : (((Cursor.page pos t visible st.checkpoint limit).map render).map key).Nodup := by
    have hkeys : key ∘ render = key := funext hkey
    rw [List.map_map, hkeys]
    exact Cursor.nodup_page
  have htaken : ∀ {k}, k ∈ (st.taken ((Cursor.page pos t visible st.checkpoint limit).map
      render)).map key → ∃ r ∈ Cursor.page pos t visible st.checkpoint limit, key r = k := by
    intro k hk
    obtain ⟨d, hd, rfl⟩ := List.mem_map.mp hk
    obtain ⟨r, hr, rfl⟩ := List.mem_map.mp (mem_taken.mp hd).1
    exact ⟨r, hr, (hkey r).symm⟩
  refine ⟨⟨fun k d hd hlive => ?_, fun k hk author hauthor => ?_⟩, fun r hr d hd => ?_⟩
  · by_cases hk : k ∈ (st.taken ((Cursor.page pos t visible st.checkpoint limit).map
        render)).map key
    · obtain ⟨r, hr, hrk⟩ := htaken hk
      obtain ⟨hmem, hv, -⟩ := Cursor.mem_of_mem_page hr
      exact .inr ⟨r, hmem, hrk, by rw [hview, if_pos hv]; rfl⟩
    · rw [absorb_authors_of_notMem hk]
      exact h.seen k d ((absorb_docs_of_notMem hk).symm.trans hd) hlive
  · have hk : k ∈ st.replica.queue := hk
    rw [absorb_authors_of_notMem (notMem_taken hk)] at hauthor
    exact h.own k hk author hauthor
  · obtain ⟨hv, rfl⟩ := visible_of_view hview hd
    by_cases hpage : r ∈ Cursor.page pos t visible st.checkpoint limit
    · left
      by_cases hwaits : key r ∈ st.replica.queue
      · exact (h.holds hwaits _).absorb (notMem_taken hwaits)
      · refine ⟨render r, ?_, .inl rfl⟩
        rw [← hkey r]
        refine absorb_docs_of_mem hnodup (mem_taken.mpr ⟨List.mem_map_of_mem hpage, ?_⟩)
        rwa [hkey]
    · rcases h.current r hr _ hd with hholds | hafter
      · refine .inl (hholds.absorb fun hk => ?_)
        obtain ⟨x, hx, hxk⟩ := htaken hk
        obtain rfl := Table.eq_of_key (Cursor.mem_of_mem_page hx).1 hr hxk
        exact hpage hx
      · exact .inr ((Cursor.mem_page_or_after hinj hr hv hafter).resolve_left hpage)

/-- A batch's answer, whose conflicts are what the user may see of their rows,
or stand for rows out of sight. -/
theorem Serves.settle (h : st.Serves pos t view live u) (n : Nat)
    (hconflicts : ∀ c ∈ conflicts, (∃ r ∈ t, key r = key c ∧ view r = some c) ∨
      (¬ live c ∧ ∀ r ∈ t, key r = key c → view r = none)) :
    (st.settle n conflicts).Serves pos t view live u where
  seen k d hd hlive := by
    rcases settle_cases st n conflicts k with ⟨c, hc, rfl, hdoc, hauthors⟩ | ⟨hdoc, hauthors⟩
    · obtain rfl := Option.some.inj (hdoc.symm.trans hd)
      rcases hconflicts c hc with ⟨r, hr, hkey, hview⟩ | ⟨hdead, -⟩
      · exact .inr ⟨r, hr, hkey, by rw [hview]; rfl⟩
      · exact absurd hlive hdead
    · rw [hauthors]
      exact h.seen k d (hdoc.symm.trans hd) hlive
  own k hk author hauthor := by
    have hin : k ∈ st.replica.queue := List.mem_of_mem_drop hk
    rcases settle_cases st n conflicts k with ⟨c, hc, rfl, hdoc, hauthors⟩ | ⟨hdoc, hauthors⟩
    · rw [hauthors] at hauthor
      cases hauthor
    · rw [hauthors] at hauthor
      exact h.own k hin author hauthor
  current r hr d hd := by
    rcases h.current r hr d hd with ⟨d', hd', hcase⟩ | hafter
    · left
      rcases settle_cases st n conflicts (key r) with ⟨c, hc, hkey, hdoc, -⟩ | ⟨hdoc, hauthors⟩
      · rcases hconflicts c hc with ⟨r', hr', hkey', hview⟩ | ⟨-, hnone⟩
        · obtain rfl := Table.eq_of_key hr' hr (hkey'.trans hkey)
          exact ⟨c, hdoc, .inl (Option.some.inj (hview.symm.trans hd))⟩
        · exact absurd (hnone r hr hkey.symm) (by simp [hd])
      · exact ⟨d', hdoc.trans hd', by rwa [hauthors]⟩
    · exact .inr hafter

end

end LocalStore
