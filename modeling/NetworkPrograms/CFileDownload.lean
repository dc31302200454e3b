import NetworkPrograms.CPeerCommands
import NetworkPrograms.FileDownload

/-! A FETCH of the C peer from end to end, through the registry and the listener of a
Rust peer. -/
namespace NetworkPrograms.CFileDownload
open WireBytes ByteStreams TextBuffers RegistryState RegistrySearch RegistryServe RegistryTable
open RegistryReplies EventMachine PeerListener PeerReplies PeerTransfer
open CPeerSearch CPeerFetch CPeerCommands FileDownload

/- What the listener receives of the request and the peer of the reply. -/
structure Carried (g : Growth) (f : Fetch) (out : Fetching) (pieces : List Bytes)
    (sharedDir : List Bytes) (openFile : List Bytes → Option (List ReadResult)) : Prop where
  opened : ∃ path, pushComponents sharedDir (components f.lookUp.fileName.bytes) = some path ∧
    openFile path = some (pieces.map .piece)
  carried : ∃ asked received, Delivers 2048 asked out.wire ∧ f.reads = received.map .piece ∧
    Delivers 4096 received (handleConn g sharedDir openFile (fun _ => .all) (asked.map .piece)).1

end NetworkPrograms.CFileDownload
