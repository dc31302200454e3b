import NetworkPrograms.H1Reader
import NetworkPrograms.TextParts

/-! The two totals that h1-counter prints, in both of its modes, against the tags
that the response has. -/
namespace NetworkPrograms.H1Totals
open WireBytes ByteStreams Loops Occurrences TextParts H1Counter H1Reader

section
variable {size : Nat} {response : List Bytes}

end

end NetworkPrograms.H1Totals
