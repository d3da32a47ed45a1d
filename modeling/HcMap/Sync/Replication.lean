import HcMap.Lib.Replica
import HcMap.Sync.PushApplications

/-!
# Replication

The two push streams of `replication.ts` between one client and the server. A
request is one transaction, begun at `now`, which processes each document at a
clock reading of its own. Its answer reaches the client or is lost, and then
the same documents are pushed again.
-/

namespace HcMap.Sync

instance : Keyed EventDoc Uuid := ⟨EventDoc.id⟩
instance : Keyed ApplicationDoc Uuid := ⟨ApplicationDoc.id⟩

@[simp] theorem key_eventDoc (d : EventDoc) : key d = d.id := rfl
@[simp] theorem key_applicationDoc (d : ApplicationDoc) : key d = d.id := rfl

structure Device where
  db : Database
  events : Replica Uuid EventDoc
  applications : Replica Uuid ApplicationDoc

structure Delivery where
  size : Nat
  now : Time
  clock : Uuid → Time

def items {δ : Type} [Keyed δ Uuid] (r : Replica Uuid δ) (b : Delivery) :
    List (Time × PushItem δ) :=
  (r.batch b.size).map fun w => (b.clock (key w.2), ⟨w.1, w.2⟩)

namespace Device

variable (editor : Session) (d : Device) (b : Delivery)

def sendEvents : Except DbError (Database × List EventDoc) :=
  pushEvents { editor with now := b.now } d.db (items d.events b)

def sendApplications : Except DbError (Database × List ApplicationDoc) :=
  pushApplications { editor with now := b.now } d.db (items d.applications b)

/-- An event batch. A request that raises is answered with an error, and the
handler throws. -/
def deliverEvents (answered : Bool) : Device :=
  match d.sendEvents editor b with
  | .error _ => d
  | .ok (db, conflicts) =>
    { d with db := db, events := if answered then d.events.settle b.size conflicts else d.events }

def deliverApplications (answered : Bool) : Device :=
  match d.sendApplications editor b with
  | .error _ => d
  | .ok (db, conflicts) =>
    { d with
      db := db
      applications :=
        if answered then d.applications.settle b.size conflicts else d.applications }

def Drained : Prop := d.events.queue = [] ∧ d.applications.queue = []

instance : Decidable d.Drained := inferInstanceAs (Decidable (_ ∧ _))

end Device

section
variable {δ : Type} [Keyed δ Uuid] {r : Replica Uuid δ} {b : Delivery} {x : Time × PushItem δ}

theorem mem_items : x ∈ items r b ↔ ∃ w ∈ r.batch b.size, x = (b.clock (key w.2), ⟨w.1, w.2⟩) := by
  simp [items, eq_comm]

theorem items_pairwise (h : (r.batch b.size).Pairwise fun w w' => key w.2 ≠ key w'.2) :
    (items r b).Pairwise fun x y => key x.2.newDocumentState ≠ key y.2.newDocumentState :=
  List.pairwise_map.mpr h

end

end HcMap.Sync
