import NetworkPrograms.Occurrences

/-! Occurrences of a needle in a text that comes in parts, each of which is scanned
by itself. -/
namespace NetworkPrograms.TextParts
open Occurrences

variable {α : Type}

end NetworkPrograms.TextParts
