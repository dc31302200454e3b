import NetworkPrograms.ReadyScans
import NetworkPrograms.RegistryLoop

/-! The order in which the registry serves what pselect has reported: for every
run, the attempts beyond the connection limit included. -/
namespace NetworkPrograms.RegistryScan
open RegistryState RegistryServe RegistryLoop ReadyScans EventMachine

def scanOf (w : World) : Option Scan :=
  match w.phase with
  | .waiting => none
  | .scanning sock callSet => some ⟨sock,callSet⟩
  | .halted => none

/- The descriptor a step accepts from, receives from or has no slot for. -/
def served (t : LoopMove) : Option Nat :=
  match t.event, t.out with
  | .accept _, _ => (scanOf t.pre).map Scan.next
  | .client _ _, _ => (scanOf t.pre).map Scan.next
  | .next, .unknownSocket sock => some sock
  | _, _ => none

section
variable {listenSock : Nat} {others : Finset Nat}

end

end NetworkPrograms.RegistryScan
