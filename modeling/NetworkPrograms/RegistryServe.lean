import NetworkPrograms.EventMachine
import NetworkPrograms.RegistryPublish
import NetworkPrograms.RegistryJoin
import NetworkPrograms.RegistrySearch

/-! server_accept, handle_client and the registry as a machine. An event is one
call main makes, with what the operating system answers inside it. -/
namespace NetworkPrograms.RegistryServe
open WireBytes RegistryState RegistryPublish RegistryJoin RegistrySearch EventMachine

/- `closeOk` is whether close returns 0 when the connection limit closes it. -/
inductive AcceptResult where
  | error
  | conn (sock : Nat) (addr : SockAddr) (closeOk : Bool)
  deriving DecidableEq, Repr

/- A recv that returned data: the bytes received and what the array on the
stack held before, of which everything behind the received bytes stays. -/
structure Received where
  data : Bytes
  before : Bytes
  some_data : data ≠ []
  fits : data.length ≤ buffSize
  sized : before.length = buffSize

def Received.buffer (r : Received) : Bytes := r.data ++ r.before.drop r.data.length

/- A message over a zeroed array, for concrete runs. -/
def Received.zeroed (data : Bytes) (some_data : data ≠ []) (fits : data.length ≤ buffSize) :
    Received :=
  ⟨data,List.replicate buffSize 0,some_data,fits,List.length_replicate⟩

inductive RecvResult where
  | error
  | closed
  | data (r : Received)

def occupy (s : Server) (index sock : Nat) (addr : SockAddr) : Server :=
  let c := s.client index
  {s.setClient index {c with active := true, sock := sock, addr := addr} with
    activeClients := s.activeClients + 1}

/- The statements after the limit test: the descriptor joins the set and the
first free slot, if there is one. -/
def seat (s : Server) (sock : Nat) (addr : SockAddr) : Server :=
  let watched : Server := {s with
    allSocks := insert sock s.allSocks
    maxSocket := if s.maxSocket < sock then sock else s.maxSocket}
  match watched.clients.findIdx? (fun c => !c.active) with
  | some index => occupy watched index sock addr
  | none => watched

def serverAccept (s : Server) : AcceptResult → Server
  | .error => s
  | .conn sock addr closeOk =>
      if s.activeClients = s.maxConn - 1 then
        if closeOk then seat s sock addr else s
      else seat s sock addr

/- `active_clients -= 1` on a size_t. -/
def decrement : Nat → Nat
  | 0 => 18446744073709551615
  | n+1 => n

def dropClient (s : Server) (index : Nat) : Server :=
  {s.setClient index (clearClient (s.client index)) with
    allSocks := s.allSocks.erase (s.client index).sock
    activeClients := decrement s.activeClients}

def handleClient (s : Server) (index : Nat) (sends : Nat → Written) :
    RecvResult → Option (Server × List Output)
  | .error => some (dropClient s index,[])
  | .closed => some (dropClient s index,[])
  | .data r =>
      let read := r.data.length
      match r.buffer with
      | [] => none
      | command :: buffer =>
          if command = 0 then handleJoin s index buffer (read - 1)
          else if command = 1 then handlePublish s index buffer (read - 1)
          else if command = 2 then
            (handleSearch s index r.buffer (read - 1) sends).map (fun out => (s,out))
          else some (s,[])

inductive Event where
  | accept (result : AcceptResult)
  | ready (index : Nat) (result : RecvResult) (sends : Nat → Written)

/- main calls handle_client for active slots only. -/
def step (s : Server) : Event → Option (Server × List Output)
  | .accept result => some (serverAccept s result,[])
  | .ready index result sends =>
      if (s.client index).active then handleClient s index sends result else none

/- The bytes a handler put on the wire. -/
def wire (out : List Output) : Bytes := out.flatMap (fun o => match o with
  | .sent _ bytes => bytes
  | .testJoin _ => []
  | .testPublish _ => [])

def registry (listenSock : Nat) : Machine Server Event (List Output) :=
  ⟨initServer listenSock,step⟩

abbrev History := Log Server Event (List Output)

section
variable (s : Server) (index sock other : Nat) (addr : SockAddr)

@[simp] theorem dropListenSock : (dropClient s index).listenSock = s.listenSock := rfl

theorem dropOther (different : index ≠ other) :
    (dropClient s index).client other = s.client other :=
  clientSetOther s index other _ different

theorem dropSelf {s : Server} {index : Nat} (inside : index < s.maxConn) :
    (dropClient s index).client index = clearClient (s.client index) :=
  clientSetSelf inside _

end

theorem receivedLength (r : Received) : r.buffer.length = buffSize := by
  simp only [Received.buffer,List.length_append,List.length_drop,r.sized]
  have := r.fits
  omega

theorem receivedHead (r : Received) {command : UInt8} {payload : Bytes}
    (data : r.data = command :: payload) :
    r.buffer = command :: (payload ++ r.before.drop r.data.length) := by
  simp [Received.buffer,data]

theorem receivedCons (r : Received) :
    ∃ command payload, r.data = command :: payload := by
  cases data : r.data with
  | nil => exact absurd data r.some_data
  | cons command payload => exact ⟨command,payload,rfl⟩

/- What an accept does: nothing, or the descriptor is watched and the first
free slot, when there is one, takes the connection. -/
inductive Seated (s : Server) (sock : Nat) (addr : SockAddr) : Server → Prop where
  | full (watched : Server)
      (none_free : ∀ index < s.maxConn, (s.client index).active = true)
      (same : watched = {s with
        allSocks := insert sock s.allSocks
        maxSocket := if s.maxSocket < sock then sock else s.maxSocket}) :
      Seated s sock addr watched
  | taken (watched : Server) (index : Nat) (inside : index < s.maxConn)
      (free : (s.client index).active = false)
      (lowest : ∀ other < index, (s.client other).active = true)
      (same : watched = {s with
        allSocks := insert sock s.allSocks
        maxSocket := if s.maxSocket < sock then sock else s.maxSocket}) :
      Seated s sock addr (occupy watched index sock addr)

theorem seated (s : Server) (sock : Nat) (addr : SockAddr) :
    Seated s sock addr (seat s sock addr) := by
  unfold seat
  dsimp only
  split
  · rename_i index found
    obtain ⟨bound,free,lowest⟩ := List.findIdx?_eq_some_iff_getElem.mp found
    refine .taken _ index (s.sized ▸ bound) ?_ ?_ rfl
    · simpa [Server.client,bound] using free
    · intro other below
      have earlier := lowest other below
      have inside : other < s.clients.length := Nat.lt_trans below bound
      simpa [Server.client,inside] using earlier
  · rename_i missing
    refine .full _ ?_ rfl
    intro index inside
    have occupied := List.findIdx?_eq_none_iff.mp missing _ (clientMember inside)
    simpa using occupied

/- With or without a free slot, the descriptor is watched. -/
theorem seatWatches (s : Server) (sock : Nat) (addr : SockAddr) :
    (seat s sock addr).allSocks = insert sock s.allSocks ∧
      (seat s sock addr).maxSocket = (if s.maxSocket < sock then sock else s.maxSocket) ∧
      (seat s sock addr).listenSock = s.listenSock ∧
      (seat s sock addr).maxConn = s.maxConn := by
  unfold seat
  dsimp only
  split
  · exact ⟨rfl,rfl,rfl,rfl⟩
  · exact ⟨rfl,rfl,rfl,rfl⟩

/- With a free slot the connection gets one, and the other slots are kept. -/
theorem seatSlots (s : Server) (sock : Nat) (addr : SockAddr)
    (room : ∃ index < s.maxConn, (s.client index).active = false) :
    (seat s sock addr).activeClients = s.activeClients + 1 ∧
      ∃ index, (s.client index).active = false ∧
        (seat s sock addr).client index =
          {s.client index with active := true, sock := sock, addr := addr} ∧
        ∀ other, index ≠ other → (seat s sock addr).client other = s.client other := by
  have shape := seated s sock addr
  generalize seat s sock addr = next at shape
  cases shape with
  | full watched none_free same =>
    obtain ⟨index,inside,free⟩ := room
    rw [none_free index inside] at free
    contradiction
  | taken watched index inside free lowest same =>
    subst same
    exact ⟨rfl,index,free,clientSetSelf inside _,fun other different =>
      clientSetOther _ index other _ different⟩

theorem acceptCases (s : Server) (result : AcceptResult) :
    serverAccept s result = s ∨
      ∃ sock addr closeOk, result = .conn sock addr closeOk ∧
        (s.activeClients = s.maxConn - 1 → closeOk = true) ∧
        serverAccept s result = seat s sock addr := by
  cases result with
  | error => exact .inl rfl
  | conn sock addr closeOk =>
    simp only [serverAccept]
    split
    · rename_i limit
      cases closeOk with
      | false => exact .inl rfl
      | true => exact .inr ⟨sock,addr,true,rfl,fun _ => rfl,rfl⟩
    · rename_i below
      exact .inr ⟨sock,addr,closeOk,rfl,fun limit => absurd limit below,rfl⟩

/- Everything a step can do to the table: the two ways an accept ends, the end
of a connection, an accepted JOIN, an accepted PUBLISH, or nothing. -/
inductive Change (s : Server) : Event → List Output → Server → Prop where
  | none {e out} (sock : Nat) (quiet : OnlySends sock out) : Change s e out s
  | seat (sock : Nat) (addr : SockAddr) (closeOk : Bool)
      (limit : s.activeClients = s.maxConn - 1 → closeOk = true) :
      Change s (.accept (.conn sock addr closeOk)) [] (seat s sock addr)
  | drop (index : Nat) (result : RecvResult) (sends : Nat → Written)
      (active : (s.client index).active = true)
      (ended : result = .error ∨ result = .closed) :
      Change s (.ready index result sends) [] (dropClient s index)
  | join (index : Nat) (r : Received) (sends : Nat → Written) (n : UInt32)
      (active : (s.client index).active = true)
      (data : r.data = 0 :: be32 n) (written : joinLoop n s.clients = true) :
      Change s (.ready index (.data r) sends) [.testJoin n] (joined s index n)
  | publish (index : Nat) (r : Received) (sends : Nat → Written) (payload : Bytes)
      (names : List Bytes) (active : (s.client index).active = true)
      (data : r.data = 1 :: payload)
      (accepted : Accepted s index (payload ++ r.before.drop r.data.length) payload.length names) :
      Change s (.ready index (.data r) sends) [.testPublish names] (published s index names)

theorem handleChange {s s' : Server} {index : Nat} {sends : Nat → Written} {r : Received}
    {out : List Output} (active : (s.client index).active = true)
    (h : handleClient s index sends (.data r) = some (s',out)) :
    Change s (.ready index (.data r) sends) out s' := by
  obtain ⟨command,payload,data⟩ := receivedCons r
  simp only [handleClient,receivedHead r data] at h
  split at h
  · rename_i zero
    subst zero
    rcases joinCases h with ⟨rfl,rfl⟩ | ⟨n,tail,four,shape,written,rfl,rfl⟩
    · exact .none 0 nofun
    · rw [data,List.length_cons,Nat.add_sub_cancel] at four
      have payloadWord : payload = be32 n := by
        have cut := congrArg (List.take 4) shape
        rw [List.take_append_of_le_length (by omega),List.take_of_length_le (by omega)] at cut
        exact cut
      exact .join index r sends n active (by rw [data,payloadWord]) written
  split at h
  · rename_i one
    subst one
    rw [show r.data.length - 1 = payload.length by simp [data]] at h
    rcases publishCases h with ⟨rfl,rfl⟩ | ⟨names,accepted,rfl,rfl⟩
    · exact .none 0 nofun
    · exact .publish index r sends payload names active data accepted
  split at h
  · obtain ⟨found,searched,same⟩ := Option.map_eq_some_iff.mp h
    cases same
    exact .none _ (searchSends searched)
  · cases h
    exact .none 0 nofun

theorem stepChange {s s' : Server} {e : Event} {out : List Output}
    (moved : step s e = some (s',out)) : Change s e out s' := by
  cases e with
  | accept result =>
    cases moved
    rcases acceptCases s result with same | ⟨sock,addr,closeOk,rfl,limit,same⟩
    · rw [same]
      exact .none 0 nofun
    · rw [same]
      exact .seat sock addr closeOk limit
  | ready index result sends =>
    simp only [step] at moved
    split at moved
    · rename_i active
      cases result with
      | error =>
        cases moved
        exact .drop index .error sends active (.inl rfl)
      | closed =>
        cases moved
        exact .drop index .closed sends active (.inr rfl)
      | data r => exact handleChange active moved
    · contradiction

end NetworkPrograms.RegistryServe
