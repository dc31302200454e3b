import NetworkPrograms.GetAction

/-! handle_conn: one request of a peer and what it is answered. -/
namespace NetworkPrograms.PeerReplies
open WireBytes ByteStreams TextBuffers PeerListener GetAction

/- What a connecting peer receives, and the value handle_conn returns; at most
one of the two parts of it writes. -/
def handleConn (g : Growth) (sharedDir : List Bytes) (openFile : List Bytes → Option (List ReadResult))
    (writes : Nat → Written) (reads : List ReadResult) : Bytes × Except String Unit :=
  match getAction g (writes 0) reads with
  | (sent,.error context) => (sent,.error context)
  | (sent,.ok none) => (sent,.ok ())
  | (sent,.ok (some (.fetch filename))) =>
      let served := handleFetch sharedDir openFile writes filename
      (sent ++ served.wire,served.result)

end NetworkPrograms.PeerReplies
