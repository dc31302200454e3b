import NetworkPrograms.CPeerSearch
import NetworkPrograms.FetchFiles
import NetworkPrograms.GetAction

/-! fetch of the C peer, behind its look-up: the address that two globals hold,
the request in its buffer, and the reply without its first byte. -/
namespace NetworkPrograms.CPeerFetch
open WireBytes ByteStreams TextBuffers PeerListener PeerFetch GetAction CPeerSearch

/- The text of an address is kept as its four bytes, the empty text as none. -/
structure Globals where
  peerIPStrGlobal : Option Bytes
  peerPortGlobal : Nat
  deriving DecidableEq, Repr

/- inet_pton fails on the empty text and leaves the zeros of memset. -/
def Globals.peerAddr (g : Globals) : Bytes × Nat :=
  (g.peerIPStrGlobal.getD (List.replicate 4 0),g.peerPortGlobal)

/- The end of searchForFetch. It returns nothing, whatever it has found. -/
def store (g : Globals) : Looked → Globals
  | .sendFailed => g
  | .recvFailed => g
  | .incomplete => g
  | .answer peerID peerIPv4 peerPort =>
      if peerID ≠ 0 ∧ peerIPv4 ≠ List.replicate 4 0 ∧ peerPort ≠ 0 then ⟨some peerIPv4,peerPort⟩
      else g

def searchForFetch (q : LookUp) (g : Globals) (unread : Bytes) : Option (Globals × Bytes) :=
  (lookUp q unread).map (fun (looked,unread) => (store g looked,unread))

/- `fetchBuffer` starts with whatever the stack held; none is a write outside it. -/
def buildRequest (fetchBuffer fileName : Bytes) : Option Bytes :=
  if fetchBuffer.length < 1 + (fileName.length + 1) then none
  else some ((overwrite (overwrite fetchBuffer 0 [3]) 1 (fileName ++ [0])).take (fileName.length + 2))

/- One FETCH with what it meets. -/
structure Fetch where
  lookUp : LookUp
  created : Bool
  connected : Bool
  fetchBuffer : Bytes
  bufferSize : fetchBuffer.length = 101
  requestWrite : Written
  opened : Bool
  reads : List ReadResult

inductive Ended where
  | noSocket
  | notConnected
  | overflow
  | notSent
  | notOpened
  | notReceived
  | fetched
  deriving DecidableEq, Repr

/- What fetch leaves: the address it called connect with, the bytes it sent to
it, name and content of the file it opened and what it printed last. -/
structure Fetching where
  target : Option (Bytes × Nat)
  wire : Bytes
  file : Option (Bytes × Bytes)
  ended : Ended
  deriving DecidableEq, Repr

def fetchLoop : List ReadResult → (firstChunk : Bool) → Bytes × Ended
  | [], _ => ([],.fetched)
  | .failed :: _, _ => ([],.notReceived)
  | .piece [] :: _, _ => ([],.fetched)
  | .piece bytes :: rest, firstChunk =>
      let (file,ended) := fetchLoop rest false
      (if firstChunk then bytes.drop 1 ++ file else bytes ++ file,ended)

/- From the call of socket on. -/
def fetchFrom (f : Fetch) (peerAddr : Bytes × Nat) : Fetching :=
  if f.created = false then ⟨none,[],none,.noSocket⟩
  else if f.connected = false then ⟨some peerAddr,[],none,.notConnected⟩
  else match buildRequest f.fetchBuffer f.lookUp.fileName.bytes with
    | none => ⟨some peerAddr,[],none,.overflow⟩
    | some request =>
        match f.requestWrite with
        | .failed accepted => ⟨some peerAddr,request.take accepted,none,.notSent⟩
        | .all =>
            if f.opened = false then ⟨some peerAddr,request,none,.notOpened⟩
            else
              let (file,ended) := fetchLoop f.reads true
              ⟨some peerAddr,request,some (f.lookUp.fileName.bytes,file),ended⟩

def fetch (f : Fetch) (g : Globals) (unread : Bytes) : Option (Fetching × Globals × Bytes) :=
  (searchForFetch f.lookUp g unread).map (fun (g,unread) => (fetchFrom f g.peerAddr,g,unread))

theorem fetchLooks {f : Fetch} {g g' : Globals} {unread left : Bytes} {out : Fetching}
    (done : fetch f g unread = some (out,g',left)) :
    ∃ looked, lookUp f.lookUp unread = some (looked,left) ∧
      out = fetchFrom f (store g looked).peerAddr := by
  obtain ⟨⟨stored,left'⟩,searched,same⟩ := Option.map_eq_some_iff.mp done
  cases same
  obtain ⟨⟨looked,left''⟩,looking,same⟩ := Option.map_eq_some_iff.mp searched
  cases same
  exact ⟨looked,looking,rfl⟩

/- The peer calls connect with the address of its globals, whenever it has a socket. -/
theorem fetchTarget (f : Fetch) (peerAddr : Bytes × Nat) :
    (fetchFrom f peerAddr).target = if f.created then some peerAddr else none := by
  unfold fetchFrom
  cases f.created with
  | false => rfl
  | true =>
    simp only [Bool.true_eq_false,if_false,if_true]
    split
    · rfl
    split
    · rfl
    split
    · rfl
    split
    · rfl
    · rfl

theorem buildRequestFits {fetchBuffer : Bytes} (sized : fetchBuffer.length = 101) {fileName : Bytes}
    (fits : fileName.length ≤ 99) :
    buildRequest fetchBuffer fileName = some (namedRequest .fetch fileName) := by
  cases fetchBuffer with
  | nil => simp at sized
  | cons b rest =>
    rw [buildRequest,if_neg (by omega)]
    have front : overwrite (overwrite (b :: rest) 0 [3]) 1 (fileName ++ [0]) =
        namedRequest .fetch fileName ++ rest.drop (fileName.length + 1) := by
      simp [overwrite,namedRequest,ActionType.code,Nat.add_comm 1]
    have size : fileName.length + 2 = (namedRequest .fetch fileName).length := by
      simp [namedRequest]
    rw [front,size,List.take_left]

theorem buildRequestOverflows {fetchBuffer : Bytes} (sized : fetchBuffer.length = 101) {fileName : Bytes}
    (long : 100 ≤ fileName.length) : buildRequest fetchBuffer fileName = none := by
  rw [buildRequest,if_pos (by omega)]

/- The name as the listener spells it, if it takes the request in one piece. -/
theorem collectEnded (g : Growth) {name : Bytes} (plain : Plain name) (t : Text) :
    collect g (name ++ [0]) t = .refused ∨
      ∃ t', collect g (name ++ [0]) t = .ended t' ∧ t'.bytes = t.bytes ++ utf8 name := by
  induction name generalizing t with
  | nil =>
    simp only [List.nil_append,collect]
    split
    · exact .inl rfl
    · exact .inr ⟨t,by simp,by simp⟩
  | cons b name ih =>
    obtain ⟨nonzero,plain⟩ := plainCons.mp plain
    simp only [List.cons_append,collect,if_neg nonzero]
    split
    · exact .inl rfl
    · have onward := ih plain (t.push g b)
      rw [pushBytes,List.append_assoc,← utf8Cons] at onward
      exact onward

/- The request is built inside its buffer, and the listener reads the name out of
it however it arrives. -/
def Carried (g : Growth) (fetchBuffer fileName : Bytes) : Prop :=
  ∃ request, buildRequest fetchBuffer fileName = some request ∧
    ∀ pieces, Delivers 2048 pieces request →
      getAction g .all (pieces.map .piece) = ([],.ok (some (.fetch fileName)))

theorem carriedIff (g : Growth) {fetchBuffer : Bytes} (sized : fetchBuffer.length = 101)
    (fileName : ScannedName) :
    Carried g fetchBuffer fileName.bytes ↔
      fileName.bytes.length ≤ 99 ∧ ∀ b ∈ fileName.bytes, b < 128 := by
  constructor
  · intro carried
    obtain ⟨request,built,taken⟩ := carried
    have fits : fileName.bytes.length ≤ 99 := by
      refine Nat.not_lt.mp (fun long => ?_)
      rw [buildRequestOverflows sized long] at built
      contradiction
    refine ⟨fits,utf8Fixed.mp ?_⟩
    cases Option.some.inj ((buildRequestFits sized fits).symm.trans built)
    have once : Delivers 2048 [namedRequest .fetch fileName.bytes] (namedRequest .fetch fileName.bytes) := by
      refine ⟨by simp [namedRequest],?_,by simp⟩
      intro piece member
      rw [List.mem_singleton.mp member]
      simp only [namedRequest,List.length_cons,List.length_append,List.length_nil]
      omega
    have named : recvLoop g .all [] (fileName.bytes ++ [0]) (.withCapacity 100) =
        ([],.ok (some (.fetch fileName.bytes))) := taken _ once
    unfold recvLoop at named
    rcases collectEnded g fileName.plain (.withCapacity 100) with refused | ⟨t',ended,content⟩
    · rw [refused] at named
      exact absurd (Prod.mk.inj named).1 (List.cons_ne_nil _ _)
    · rw [ended] at named
      have same : t'.bytes = fileName.bytes := by simpa using named
      exact content.symm.trans same
  · intro short
    obtain ⟨fits,ascii⟩ := short
    refine ⟨_,buildRequestFits sized fits,?_⟩
    intro pieces delivered
    have named := getActionNamed g fileName.plain ascii delivered
    rwa [if_pos fits] at named

/- "a", over and over. -/
theorem lettersSolid {n : Nat} {b : UInt8} (letter : b ∈ List.replicate n 97) :
    b ≠ 32 ∧ ¬ (9 ≤ b ∧ b ≤ 13) := by
  rw [List.eq_of_mem_replicate letter]
  decide

theorem letterPlain : Plain [97] := by decide

def letterName : ScannedName :=
  ⟨[97],List.cons_ne_nil _ _,Nat.le_add_left 1 99,letterPlain,fun _ => @lettersSolid 1 _⟩

/- "a" fits with room to spare. -/
theorem carriedShort : Carried doubling (List.replicate 101 0) [97] :=
  (@carriedIff doubling (List.replicate 101 0) List.length_replicate letterName).mpr
    ⟨by decide,by simp [letterName]⟩

/- The longest name that scanf takes: its NUL would be byte 101 of the buffer. -/
def longest : ScannedName :=
  ⟨List.replicate 100 97,by decide,by simp,by decide,fun _ => lettersSolid⟩

theorem carriedLongest : longest.bytes.length = 100 ∧
    buildRequest (List.replicate 101 0) longest.bytes = none ∧
    ¬ Carried doubling (List.replicate 101 0) longest.bytes := by
  have overflows : buildRequest (List.replicate 101 0) longest.bytes = none :=
    buildRequestOverflows List.length_replicate (by simp [longest])
  refine ⟨by simp [longest],overflows,?_⟩
  intro ⟨request,built,_⟩
  rw [overflows] at built
  contradiction

/- From the first recv on: the status is dropped unseen. -/
theorem fetchRest {pieces : List Bytes} (filled : ∀ piece ∈ pieces, piece ≠ []) :
    fetchLoop (pieces.map .piece) false = (pieces.flatten,.fetched) := by
  induction pieces with
  | nil => rfl
  | cons piece pieces ih =>
    obtain ⟨some_piece,others⟩ := List.forall_mem_cons.mp filled
    cases piece with
    | nil => contradiction
    | cons b bytes =>
      simp only [List.map_cons,fetchLoop,ih others,List.flatten_cons,Bool.false_eq_true,if_false]

theorem fetchWhole {room : Nat} {pieces : List Bytes} {stream : Bytes}
    (delivered : Delivers room pieces stream) :
    fetchLoop (pieces.map .piece) true = (stream.drop 1,.fetched) := by
  cases stream with
  | nil =>
    rw [deliversNil delivered]
    rfl
  | cons status content =>
    obtain ⟨first,rest,rfl,rfl⟩ := deliversCons delivered
    have filled := (List.forall_mem_cons.mp delivered.filled).2
    simp only [List.map_cons,fetchLoop,fetchRest filled,if_true,List.drop_succ_cons,List.drop_zero]

/- Everything up to the first recv succeeds. -/
structure Arrives (f : Fetch) : Prop where
  created : f.created = true
  connected : f.connected = true
  fits : f.lookUp.fileName.bytes.length ≤ 99
  requested : f.requestWrite = .all
  opened : f.opened = true

theorem fetchReads {f : Fetch} (arrives : Arrives f) (peerAddr : Bytes × Nat) :
    fetchFrom f peerAddr = ⟨some peerAddr,namedRequest .fetch f.lookUp.fileName.bytes,
      some (f.lookUp.fileName.bytes,(fetchLoop f.reads true).1),(fetchLoop f.reads true).2⟩ := by
  unfold fetchFrom
  rw [if_neg (by simp [arrives.created]),if_neg (by simp [arrives.connected]),
    buildRequestFits f.bufferSize arrives.fits,arrives.requested]
  dsimp only
  rw [if_neg (by simp [arrives.opened])]

/- The C peer and the Rust peer: the same verdict, and the same file with it. -/
def Agree (c : Fetching) (rust : PeerFetch.Fetched) : Prop :=
  (c.ended = .fetched ↔ rust.result = .ok ()) ∧
    (c.ended = .fetched → c.file.map Prod.snd = rust.file.map Prod.snd)

theorem fetchesAgreeIff {f : Fetch} (arrives : Arrives f) (peerAddr : Bytes × Nat) {w : FetchWorld}
    {filename : Bytes} (reaches : Reaches w filename) {stream : Bytes} {pieces rustPieces : List Bytes}
    (reads : f.reads = pieces.map .piece) (rustReads : w.reads = rustPieces.map .piece)
    (delivered : Delivers 4096 pieces stream) (rustDelivered : Delivers 2048 rustPieces stream) :
    Agree (fetchFrom f peerAddr) (sendFetch w filename) ↔ ∃ content, stream = 0 :: content := by
  obtain ⟨file,result⟩ := sendFetchReads reaches
  rw [fetchReads arrives,reads,fetchWhole delivered,Agree,file,result,rustReads]
  by_cases success : ∃ content, stream = 0 :: content
  · obtain ⟨content,rfl⟩ := success
    rw [receiveWhole reaches.stored rustDelivered]
    exact iff_of_true ⟨iff_of_true rfl rfl,fun _ => rfl⟩ ⟨content,rfl⟩
  · obtain ⟨context,failed⟩ := receiveOther w.fileWrites rustDelivered success
    rw [failed]
    refine iff_of_false ?_ success
    intro agree
    have ok := agree.1.mp rfl
    contradiction

/- A look-up that finds 127.0.0.1:5000 and a fetch that meets no failure. -/
def quietLookUp : LookUp where
  fileName := letterName
  write := .all
  reply := [0,0,0,7,127,0,0,1,19,136]
  stack := ⟨List.replicate 4 0,List.replicate 4 0,List.replicate 2 0,rfl,rfl,rfl⟩
  recvs := ⟨.got 4,.got 4,.got 2⟩

def quietFetch (reads : List ReadResult) : Fetch where
  lookUp := quietLookUp
  created := true
  connected := true
  fetchBuffer := List.replicate 101 0
  bufferSize := List.length_replicate
  requestWrite := .all
  opened := true
  reads := reads

theorem quietArrives (reads : List ReadResult) : Arrives (quietFetch reads) :=
  ⟨rfl,rfl,(show 1 ≤ 99 by decide),rfl,rfl⟩

/- "hi" behind a zero status, cut differently on the two ways. -/
theorem fetchesAgreeShort :
    Agree (fetchFrom (quietFetch [.piece [0,104],.piece [105]]) ([127,0,0,1],5000))
      (sendFetch (PeerTransfer.quietWorld [.piece [0],.piece [104,105]]) [97]) :=
  (@fetchesAgreeIff (quietFetch [.piece [0,104],.piece [105]]) (quietArrives _) ([127,0,0,1],5000)
    (PeerTransfer.quietWorld [.piece [0],.piece [104,105]]) [97] (PeerTransfer.quietReaches _) [0,104,105]
    [[0,104],[105]] [[0],[104,105]] rfl rfl ⟨by simp,by simp,rfl⟩ ⟨by simp,by simp,rfl⟩).mpr ⟨_,rfl⟩

/- A refusal in one byte: the C peer calls it a fetched file. -/
theorem fetchesDisagree :
    (fetchFrom (quietFetch [.piece [1]]) ([127,0,0,1],5000)).ended = .fetched ∧
    (fetchFrom (quietFetch [.piece [1]]) ([127,0,0,1],5000)).file = some ([97],[]) ∧
    (∃ context, (sendFetch (PeerTransfer.quietWorld [.piece [1]]) [97]).result = .error context) ∧
    ¬ Agree (fetchFrom (quietFetch [.piece [1]]) ([127,0,0,1],5000))
      (sendFetch (PeerTransfer.quietWorld [.piece [1]]) [97]) := by
  refine ⟨rfl,rfl,⟨_,rfl⟩,fun agree => ?_⟩
  have ok := agree.1.mp rfl
  contradiction

end NetworkPrograms.CPeerFetch
