import NetworkPrograms.PeerListener

/-! The asking side of a peer: search_registry and send_fetch, with every exit
they have. -/
namespace NetworkPrograms.PeerFetch
open WireBytes ByteStreams PeerListener

structure SocketAddr where
  ip : UInt8 × UInt8 × UInt8 × UInt8
  port : Nat
  deriving DecidableEq, Repr

def showSocketAddr (addr : SocketAddr) : String :=
  toString addr.ip.1 ++ "." ++ toString addr.ip.2.1 ++ "." ++ toString addr.ip.2.2.1 ++ "." ++
    toString addr.ip.2.2.2 ++ ":" ++ toString addr.port

def asciiBytes (given : Bytes) : Option Bytes := if isAscii given then some given else none

/- A request that carries a name: its code, the name, a zero byte. -/
def namedRequest (action : ActionType) (name : Bytes) : Bytes := action.code :: (name ++ [0])

/- The ten bytes of an answer; no id says that no peer has the file. -/
def readAnswer : Bytes → Option (UInt32 × SocketAddr)
  | [i0,i1,i2,i3,a0,a1,a2,a3,p0,p1] =>
      if readBe32 i0 i1 i2 i3 = 0 then none
      else some (readBe32 i0 i1 i2 i3,⟨(a0,a1,a2,a3),p0.toNat * 256 + p1.toNat⟩)
  | _ => none

/- `reply` is what arrives from the registry before the stream ends or fails. -/
def searchRegistry (write : Written) (reply : Bytes) (filename : Bytes) :
    Bytes × Except String (Option (UInt32 × SocketAddr)) :=
  let request := namedRequest .search filename
  match write with
  | .failed accepted => (request.take accepted,.error "io error when sending search request")
  | .all =>
      if reply.length < 10 then (request,.error "io error when recieving search result")
      else (request,.ok (readAnswer (reply.take 10)))

/- What the registry, the file system and the serving peer answer. -/
structure FetchWorld where
  searchWrite : Written
  reply : Bytes
  created : Bool
  connected : Bool
  requestWrite : Written
  reads : List ReadResult
  fileWrites : Nat → Written

/- What send_fetch leaves: the bytes on both sockets, path and content of the
file it created or truncated (none when it did not) and the value it returns. -/
structure Fetched where
  registryWire : Bytes
  file : Option (Bytes × Bytes)
  peer : Option SocketAddr
  peerWire : Bytes
  result : Except String Unit

/- The output path: a leading slash makes `push` replace the path. -/
def outputPath (filename : Bytes) : Bytes :=
  if filename.head? = some 47 then filename else 46 :: 47 :: filename

/- The loop behind the first read: what it appends to the file and how it ends. -/
def receiveLoop (fileWrites : Nat → Written) : List ReadResult → (calls : Nat) →
    Bytes × Except String Unit
  | [], _ => ([],.ok ())
  | .failed :: _, _ => ([],.error "io error when fetching file")
  | .piece [] :: _, _ => ([],.ok ())
  | .piece bytes :: rest, calls =>
      match fileWrites calls with
      | .failed accepted => (bytes.take accepted,.error "failed to write output to file")
      | .all =>
          let (file,done) := receiveLoop fileWrites rest (calls + 1)
          (bytes ++ file,done)

/- From the first read on. -/
def receiveFile (fileWrites : Nat → Written) : List ReadResult → Bytes × Except String Unit
  | [] => ([],.error "no data from peer")
  | .failed :: _ => ([],.error "io error when fetching file")
  | .piece [] :: _ => ([],.error "no data from peer")
  | .piece (status :: bytes) :: rest =>
      if status ≠ 0 then ([],.error ("non zero response from peer: " ++ toString status))
      else match fileWrites 0 with
        | .failed accepted => (bytes.take accepted,.error "failed to write output to file")
        | .all =>
            let (file,done) := receiveLoop fileWrites rest 1
            (bytes ++ file,done)

def sendFetch (w : FetchWorld) (filename : Bytes) : Fetched :=
  match asciiBytes filename with
  | none => ⟨[],none,none,[],.error "filename provided contains non ASCII characters"⟩
  | some name =>
      match searchRegistry w.searchWrite w.reply name with
      | (asked,.error context) => ⟨asked,none,none,[],.error context⟩
      | (asked,.ok none) => ⟨asked,none,none,[],.error "File not found"⟩
      | (asked,.ok (some (_,addr))) =>
          if w.created = false then ⟨asked,none,none,[],.error "failed to create output file"⟩
          else if w.connected = false then
            ⟨asked,some (outputPath filename,[]),none,[],.error ("failed to connect to peer: " ++ showSocketAddr addr)⟩
          else match w.requestWrite with
            | .failed accepted =>
                ⟨asked,some (outputPath filename,[]),some addr,(namedRequest .fetch name).take accepted,
                  .error "io error when fetching file"⟩
            | .all =>
                let (file,done) := receiveFile w.fileWrites w.reads
                ⟨asked,some (outputPath filename,file),some addr,namedRequest .fetch name,done⟩

/- The registry names a peer for this file and everything up to the first read
succeeds, as do the writes to the local file. -/
structure Reaches (w : FetchWorld) (filename : Bytes) : Prop where
  ascii : isAscii filename = true
  asked : w.searchWrite = .all
  answered : 10 ≤ w.reply.length
  found : ∃ id addr, readAnswer (w.reply.take 10) = some (id,addr)
  created : w.created = true
  connected : w.connected = true
  requested : w.requestWrite = .all
  stored : ∀ k, w.fileWrites k = .all

theorem sendFetchReads {w : FetchWorld} {filename : Bytes} (reaches : Reaches w filename) :
    (sendFetch w filename).file =
        some (outputPath filename,(receiveFile w.fileWrites w.reads).1) ∧
      (sendFetch w filename).result = (receiveFile w.fileWrites w.reads).2 := by
  obtain ⟨id,addr,found⟩ := reaches.found
  have name : asciiBytes filename = some filename := if_pos reaches.ascii
  have search : searchRegistry w.searchWrite w.reply filename =
      (namedRequest .search filename,.ok (some (id,addr))) := by
    simp only [searchRegistry,reaches.asked,if_neg (Nat.not_lt.mpr reaches.answered),found]
  unfold sendFetch
  rw [name]
  dsimp only
  rw [search]
  dsimp only
  rw [if_neg (by simp [reaches.created]),if_neg (by simp [reaches.connected]),reaches.requested]
  exact ⟨rfl,rfl⟩

theorem receiveRest {fileWrites : Nat → Written} (stored : ∀ k, fileWrites k = .all)
    {pieces : List Bytes} (filled : ∀ piece ∈ pieces, piece ≠ []) (calls : Nat) :
    receiveLoop fileWrites (pieces.map .piece) calls = (pieces.flatten,.ok ()) := by
  induction pieces generalizing calls with
  | nil => rfl
  | cons piece pieces ih =>
    obtain ⟨some_piece,others⟩ := List.forall_mem_cons.mp filled
    cases piece with
    | nil => contradiction
    | cons b bytes => simp only [List.map_cons,receiveLoop,stored,ih others,List.flatten_cons]

/- However the reply is divided, the file is the reply without its status. -/
theorem receiveWhole {fileWrites : Nat → Written} (stored : ∀ k, fileWrites k = .all)
    {room : Nat} {pieces : List Bytes} {reply : Bytes}
    (delivered : Delivers room pieces (ResponseType.success.code :: reply)) :
    receiveFile fileWrites (pieces.map .piece) = (reply,.ok ()) := by
  obtain ⟨first,rest,rfl,rfl⟩ := deliversCons delivered
  have filled := (List.forall_mem_cons.mp delivered.filled).2
  simp only [List.map_cons,receiveFile,ResponseType.code,ne_eq,not_true_eq_false,if_false,stored,
    receiveRest stored filled]

/- Any other reply fails before the first write. -/
theorem receiveOther (fileWrites : Nat → Written) {room : Nat} {pieces : List Bytes} {stream : Bytes}
    (delivered : Delivers room pieces stream) (other : ¬ ∃ content, stream = 0 :: content) :
    ∃ context, receiveFile fileWrites (pieces.map .piece) = ([],.error context) := by
  cases stream with
  | nil =>
    rw [deliversNil delivered]
    exact ⟨_,rfl⟩
  | cons status content =>
    obtain ⟨first,rest,rfl,rfl⟩ := deliversCons delivered
    have refused : status ≠ 0 := fun zero => other ⟨_,congrArg (· :: _) zero⟩
    exact ⟨_,if_pos refused⟩

end NetworkPrograms.PeerFetch
