import NetworkPrograms.PeerAnswer
import NetworkPrograms.PeerReplies
import NetworkPrograms.PeerTransfer

/-! A download from end to end: the registry answers the SEARCH of a peer, the peer
connects to the address in it, a listener there reads the request and serves the
file, and the network divides all of it as it likes. -/
namespace NetworkPrograms.FileDownload
open WireBytes ByteStreams TextBuffers RegistryState RegistrySearch RegistryServe RegistryTable
open RegistryReplies EventMachine PeerListener GetAction PeerReplies PeerFetch PeerTransfer PeerAnswer

/- The listener at the other end takes the name as it was asked for. -/
theorem listenerActs (g : Growth) {filename : Bytes} (plain : Plain filename)
    (ascii : isAscii filename = true) (short : filename.length ≤ 98) {pieces : List Bytes}
    (delivered : Delivers 2048 pieces (namedRequest .fetch filename)) :
    getAction g .all (pieces.map .piece) = ([],.ok (some (.fetch filename))) := by
  obtain ⟨first,rest,rfl,whole⟩ := deliversCons delivered
  have filled := (List.forall_mem_cons.mp delivered.filled).2
  have text := recvNamed g (t := .withCapacity 100) filled rfl (Nat.zero_le _) plain
    (asciiBelow.mp ascii) whole.symm
  have started : (Text.withCapacity 100).bytes ++ filename = filename := rfl
  rw [started,namedShort (Nat.le_succ_of_le short)] at text
  exact text

end NetworkPrograms.FileDownload
