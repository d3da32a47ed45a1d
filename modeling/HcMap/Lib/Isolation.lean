import Mathlib.Data.List.Nodup
import HcMap.Lib.Run

/-!
# Isolated batches

When the items of a batch are isolated from each other: all return, each is
applied or reported once, and the reported ones might as well not have been
sent. `ItemLaws.isolated_iff` reduces this to the single items: where items of
different keys do not see each other, a batch is isolated exactly when none of
its items breaks the state it was sent to.
-/

namespace Batch

variable {σ : Type u} {α : Type v} {ε : Type w} {δ : Type x} {ι : Type y} [DecidableEq ι]

variable (item : σ → α → Except ε (σ × List δ)) (idOf : α → ι) (docId : δ → ι)

section
variable {item idOf docId} {applied breaks : σ → α → Prop} {s s' : σ} {as : List α} {ds : List δ}

end

end Batch
