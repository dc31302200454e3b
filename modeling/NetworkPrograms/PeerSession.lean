import NetworkPrograms.RegistryFraming
import NetworkPrograms.RegistryMembership

/-! A peer at its prompt and the registry it is connected to, as one machine:
what the peer believes of its membership and what its slot says of it, with
other clients at work in between and messages handled whole and in order. -/
namespace NetworkPrograms.PeerSession
open WireBytes PeerListener PeerPublish PeerFetch
open RegistryState RegistryPublish RegistryJoin RegistryServe RegistryTable RegistryHistory
open RegistryMembership RegistryFraming EventMachine

/- What the listener of send_register turns out to be. -/
inductive Listening where
  | unbound
  | noAddress
  | inet6
  | inet (ip : UInt32) (port : UInt16)
  deriving DecidableEq, Repr

def registerRequest (id ip : UInt32) (port : UInt16) : Bytes :=
  ActionType.register.code :: (be32 id ++ be32 ip ++ be16 port)

def sendJoin (id : UInt32) : Written → Bytes × Except String Unit
  | .all => (joinRequest id,.ok ())
  | .failed accepted => ((joinRequest id).take accepted,.error "failed to send join to registry")

def sendRegister (id : UInt32) (listening : Listening) (write : Written) :
    Bytes × Except String Unit :=
  match listening with
  | .unbound => ([],.error "failed to create tcp listener")
  | .noAddress => ([],.error "failed to retrieve local address for tcp listener")
  | .inet6 => ([],.error "tcp listener is listening on IPv6 address")
  | .inet ip port => match write with
      | .all => (registerRequest id ip port,.ok ())
      | .failed accepted =>
          ((registerRequest id ip port).take accepted,.error "failed to send register to registry")

/- One line of input, with what the calls it leads to answer. -/
inductive Command where
  | empty
  | join (write : Written)
  | register (listening : Listening) (write : Written)
  | publish (dirContents : Option (List (Option DirEntry))) (write : Written)
  | search (filename : Option Bytes) (write : Written)
  | fetch (filename : Option Bytes) (write : Written)
  | help
  | quit
  | unknown

/- `awaiting` is set while search_registry waits for its ten bytes. -/
structure Peer where
  id : UInt32
  joinedRegistry : Bool
  awaiting : Bool
  running : Bool
  deriving DecidableEq, Repr

/- The part of search and fetch up to the read of the answer. -/
def askRegistry (p : Peer) (filename : Option Bytes) (write : Written) : Peer × Bytes :=
  if !p.joinedRegistry then (p,[])
  else match filename with
    | none => (p,[])
    | some filename =>
        match asciiBytes filename with
        | none => (p,[])
        | some name =>
            ({p with awaiting := write = .all},(searchRegistry write [] name).1)

/- One turn of the loop of main, with the bytes it writes to the registry. -/
def mainCommand (p : Peer) : Command → Option (Peer × Bytes)
  | .empty => some (p,[])
  | .join write =>
      match sendJoin p.id write with
      | (bytes,.error _) => some (p,bytes)
      | (bytes,.ok ()) => some ({p with joinedRegistry := true},bytes)
  | .register listening write =>
      match sendRegister p.id listening write with
      | (bytes,.error _) => some (p,bytes)
      | (bytes,.ok ()) => some ({p with joinedRegistry := true},bytes)
  | .publish dirContents write =>
      if !p.joinedRegistry then some (p,[])
      else (sendPublish dirContents write).map (fun (bytes,_) => (p,bytes))
  | .search filename write => some (askRegistry p filename write)
  | .fetch filename write => some (askRegistry p filename write)
  | .help => some (p,[])
  | .quit => some ({p with running := false},[])
  | .unknown => some (p,[])

/- The peer's connection, as the registry has it. -/
inductive Connection where
  | pending
  | slot (index : Nat)
  | ended
  deriving DecidableEq, Repr

/- `sent` holds the messages written and not yet handled, oldest first, and
`replies` the bytes the registry has sent and the peer has not read. -/
structure Session where
  peer : Peer
  sent : List Bytes
  replies : Bytes
  connection : Connection
  server : Server

inductive SessionEvent where
  | command (c : Command)
  | answered
  | readFailed
  | accepted (sock : Nat) (addr : SockAddr) (closeOk : Bool)
  | handled (r : Received) (sends : Nat → Written)
  | dropped (result : RecvResult) (sends : Nat → Written)
  | elsewhere (e : Event)

/- Where server_accept puts a connection. -/
def seatOf (s : Server) (closeOk : Bool) : Connection :=
  if s.activeClients = s.maxConn - 1 ∧ closeOk = false then .ended
  else match s.clients.findIdx? (fun c => !c.active) with
    | some index => .slot index
    | none => .ended

/- An event on the peer's own slot, which is no event of other clients. -/
def ownEvent : Connection → Event → Bool
  | .slot own, .ready index _ _ => own = index
  | .slot _, .accept _ => false
  | .pending, _ => false
  | .ended, _ => false

def endsRecv : RecvResult → Bool
  | .error => true
  | .closed => true
  | .data _ => false

def posted (bytes : Bytes) : List Bytes := if bytes = [] then [] else [bytes]

def sessionStep (s : Session) : SessionEvent → Option (Session × List Output)
  | .command c =>
      if s.peer.awaiting || !s.peer.running then none
      else (mainCommand s.peer c).map (fun (peer,bytes) =>
        ({s with peer := peer, sent := s.sent ++ posted bytes},[]))
  | .answered =>
      if s.peer.awaiting && 10 ≤ s.replies.length then
        some ({s with peer := {s.peer with awaiting := false}, replies := s.replies.drop 10},[])
      else none
  | .readFailed =>
      if s.peer.awaiting then some ({s with peer := {s.peer with awaiting := false}},[]) else none
  | .accepted sock addr closeOk =>
      if s.connection = .pending then
        some ({s with
          connection := seatOf s.server closeOk
          server := serverAccept s.server (.conn sock addr closeOk)},[])
      else none
  | .handled r sends =>
      match s.connection, s.sent with
      | .slot index, oldest :: rest =>
          if r.data = oldest then
            (step s.server (.ready index (.data r) sends)).map (fun (server,out) =>
              ({s with sent := rest, replies := s.replies ++ wire out, server := server},out))
          else none
      | _, _ => none
  | .dropped result sends =>
      match s.connection with
      | .slot index =>
          if endsRecv result then
            (step s.server (.ready index result sends)).map (fun (server,out) =>
              ({s with connection := .ended, server := server},out))
          else none
      | _ => none
  | .elsewhere e =>
      if ownEvent s.connection e then none
      else (step s.server e).map (fun (server,out) => ({s with server := server},out))

def session (listenSock : Nat) (id : UInt32) : Machine Session SessionEvent (List Output) :=
  ⟨⟨⟨id,false,false,true⟩,[],[],.pending,initServer listenSock⟩,sessionStep⟩

abbrev SessionHistory := Log Session SessionEvent (List Output)

/- Everything one event can do. -/
inductive Moved (s : Session) : SessionEvent → List Output → Session → Prop where
  | command (c : Command) (peer : Peer) (bytes : Bytes)
      (acted : mainCommand s.peer c = some (peer,bytes)) :
      Moved s (.command c) [] {s with peer := peer, sent := s.sent ++ posted bytes}
  | answered : Moved s .answered []
      {s with peer := {s.peer with awaiting := false}, replies := s.replies.drop 10}
  | readFailed : Moved s .readFailed [] {s with peer := {s.peer with awaiting := false}}
  | accepted (sock : Nat) (addr : SockAddr) (closeOk : Bool) (pending : s.connection = .pending) :
      Moved s (.accepted sock addr closeOk) [] {s with
        connection := seatOf s.server closeOk
        server := serverAccept s.server (.conn sock addr closeOk)}
  | handled (index : Nat) (r : Received) (sends : Nat → Written) (rest : List Bytes)
      (server : Server) (out : List Output) (seated : s.connection = .slot index)
      (oldest : s.sent = r.data :: rest)
      (stepped : step s.server (.ready index (.data r) sends) = some (server,out)) :
      Moved s (.handled r sends) out
        {s with sent := rest, replies := s.replies ++ wire out, server := server}
  | dropped (index : Nat) (result : RecvResult) (sends : Nat → Written) (server : Server)
      (out : List Output) (seated : s.connection = .slot index)
      (stepped : step s.server (.ready index result sends) = some (server,out)) :
      Moved s (.dropped result sends) out {s with connection := .ended, server := server}
  | elsewhere (e : Event) (server : Server) (out : List Output)
      (stepped : step s.server e = some (server,out)) :
      Moved s (.elsewhere e) out {s with server := server}

theorem sessionMoved {s s' : Session} {e : SessionEvent} {out : List Output}
    (moved : sessionStep s e = some (s',out)) : Moved s e out s' := by
  cases e with
  | command c =>
    simp only [sessionStep] at moved
    split at moved
    · contradiction
    · obtain ⟨⟨peer,bytes⟩,acted,same⟩ := Option.map_eq_some_iff.mp moved
      cases same
      exact .command c peer bytes acted
  | answered =>
    simp only [sessionStep] at moved
    split at moved
    · cases moved
      exact .answered
    · contradiction
  | readFailed =>
    simp only [sessionStep] at moved
    split at moved
    · cases moved
      exact .readFailed
    · contradiction
  | accepted sock addr closeOk =>
    simp only [sessionStep] at moved
    split at moved
    · rename_i pending
      cases moved
      exact .accepted sock addr closeOk pending
    · contradiction
  | handled r sends =>
    simp only [sessionStep] at moved
    split at moved
    · rename_i index oldest rest seated queued
      split at moved
      · rename_i whole
        obtain ⟨⟨server,out⟩,stepped,same⟩ := Option.map_eq_some_iff.mp moved
        cases same
        exact .handled index r sends rest server out seated (whole ▸ queued) stepped
      · contradiction
    · contradiction
  | dropped result sends =>
    simp only [sessionStep] at moved
    split at moved
    · rename_i index seated
      split at moved
      · obtain ⟨⟨server,out⟩,stepped,same⟩ := Option.map_eq_some_iff.mp moved
        cases same
        exact .dropped index result sends server out seated stepped
      · contradiction
    · contradiction
  | elsewhere e =>
    simp only [sessionStep] at moved
    split at moved
    · contradiction
    · obtain ⟨⟨server,out⟩,stepped,same⟩ := Option.map_eq_some_iff.mp moved
      cases same
      exact .elsewhere e server out stepped

/- Whatever the peer does, the registry takes steps of its own machine. -/
theorem sessionRefines (listenSock : Nat) (id : UInt32) :
    Refinement (session listenSock id) (registry listenSock) Session.server := by
  refine ⟨rfl,?_⟩
  intro s e s' out moved
  cases sessionMoved moved with
  | command c peer bytes acted => exact .inl rfl
  | answered => exact .inl rfl
  | readFailed => exact .inl rfl
  | accepted sock addr closeOk pending => exact .inr ⟨.accept (.conn sock addr closeOk),[],rfl⟩
  | handled index r sends rest server out seated oldest stepped => exact .inr ⟨.ready index (.data r) sends,out,stepped⟩
  | dropped index result sends server out seated stepped => exact .inr ⟨.ready index result sends,out,stepped⟩
  | elsewhere e server out stepped => exact .inr ⟨e,out,stepped⟩

theorem sessionTable {listenSock : Nat} {id : UInt32} {log : SessionHistory} {s : Session}
    (run : Run (session listenSock id) log s) : TableOk s.server := by
  obtain ⟨log',reached⟩ := (sessionRefines listenSock id).carries run
  exact tableOk reached

/- The step in which the registry handles a JOIN of the peer. -/
def HandlesJoin (id : UInt32) (t : Transition Session SessionEvent (List Output)) : Prop :=
  ∃ r sends, t.event = .handled r sends ∧ r.data = joinRequest id

/- The first active slot, the one handle_join compares with, carries `id`. -/
def FirstCarries (id : UInt32) (s : Server) : Prop := ∃ c, firstActive s = some c ∧ c.id = id

def joinCommand : SessionEvent := .command (.join .all)

/- What holds of a session and its log: a completed join command has raised the
flag and its JOIN is on the way or handled, and as long as the slot has no type
every JOIN handled was one that the registry refuses. -/
structure Agreed (id : UInt32) (log : SessionHistory) (s : Session) : Prop where
  named : s.peer.id = id
  unheard : s.connection = .pending → ∀ t ∈ log, ¬ HandlesJoin id t
  asked : (∃ t ∈ log, t.event = joinCommand) → s.peer.joinedRegistry = true ∧
    (joinRequest id ∈ s.sent ∨ ∃ t ∈ log, HandlesJoin id t)
  refused : ∀ index, s.connection = .slot index → (s.server.client index).type = .unknown →
    ∀ t ∈ log, HandlesJoin id t → FirstCarries id t.pre.server

/- A type, once set, stays: neither a JOIN nor the end of a connection unsets it. -/
theorem typeKept {s s' : Server} {e : Event} {out : List Output}
    (stepped : step s e = some (s',out)) {index : Nat}
    (unset : (s'.client index).type = .unknown) : (s.client index).type = .unknown := by
  have kept := typeStep (slotStep stepped index)
  dsimp only at kept
  rw [unset] at kept
  split at kept
  · contradiction
  · exact kept.symm

theorem askKeeps (p : Peer) (filename : Option Bytes) (write : Written) :
    (askRegistry p filename write).1.id = p.id ∧
      (askRegistry p filename write).1.joinedRegistry = p.joinedRegistry := by
  unfold askRegistry
  split
  · exact ⟨rfl,rfl⟩
  split
  · exact ⟨rfl,rfl⟩
  split
  · exact ⟨rfl,rfl⟩
  · exact ⟨rfl,rfl⟩

/- A command leaves the id alone and never lowers the flag. -/
theorem commandKeeps {p peer : Peer} {c : Command} {bytes : Bytes}
    (acted : mainCommand p c = some (peer,bytes)) :
    peer.id = p.id ∧ (p.joinedRegistry = true → peer.joinedRegistry = true) := by
  have asks := askKeeps p
  unfold mainCommand at acted
  split at acted
  · cases acted
    exact ⟨rfl,id⟩
  · split at acted <;> cases acted
    · exact ⟨rfl,id⟩
    · exact ⟨rfl,fun _ => rfl⟩
  · split at acted <;> cases acted
    · exact ⟨rfl,id⟩
    · exact ⟨rfl,fun _ => rfl⟩
  · split at acted
    · cases acted
      exact ⟨rfl,id⟩
    · obtain ⟨pair,-,same⟩ := Option.map_eq_some_iff.mp acted
      cases same
      exact ⟨rfl,id⟩
  · rename_i filename write
    have same := congrArg Prod.fst (Option.some.inj acted)
    dsimp only at same
    exact ⟨same ▸ (asks filename write).1,fun flag => same ▸ (asks filename write).2.trans flag⟩
  · rename_i filename write
    have same := congrArg Prod.fst (Option.some.inj acted)
    dsimp only at same
    exact ⟨same ▸ (asks filename write).1,fun flag => same ▸ (asks filename write).2.trans flag⟩
  · cases acted
    exact ⟨rfl,id⟩
  · cases acted
    exact ⟨rfl,id⟩
  · cases acted
    exact ⟨rfl,id⟩

theorem joinPosts (p : Peer) :
    mainCommand p (.join .all) = some ({p with joinedRegistry := true},joinRequest p.id) := rfl

theorem agreedCommand {id : UInt32} {log : SessionHistory} {s : Session} {c : Command} {peer : Peer}
    {bytes : Bytes} (acted : mainCommand s.peer c = some (peer,bytes)) (agreed : Agreed id log s)
    {t : Transition Session SessionEvent (List Output)} (event : t.event = .command c) :
    Agreed id (t :: log) {s with peer := peer, sent := s.sent ++ posted bytes} := by
  have quiet : ¬ HandlesJoin id t := by
    intro ⟨r,sends,handled,_⟩
    rw [event] at handled
    contradiction
  obtain ⟨sameId,flagKept⟩ := commandKeeps acted
  refine ⟨sameId.trans agreed.named,?_,?_,?_⟩
  · intro pending
    exact List.forall_mem_cons.mpr ⟨quiet,agreed.unheard pending⟩
  · intro ⟨u,member,joins⟩
    rcases List.mem_cons.mp member with rfl | older
    · have same : c = .join .all := SessionEvent.command.inj (event.symm.trans joins)
      subst same
      cases Option.some.inj ((joinPosts s.peer).symm.trans acted)
      refine ⟨rfl,.inl (List.mem_append.mpr (.inr ?_))⟩
      rw [agreed.named]
      exact .head _
    · obtain ⟨flag,way⟩ := agreed.asked ⟨u,older,joins⟩
      refine ⟨flagKept flag,?_⟩
      rcases way with waiting | ⟨v,past,handles⟩
      · exact .inl (List.mem_append.mpr (.inl waiting))
      · exact .inr ⟨v,.tail _ past,handles⟩
  · intro index seated unset u member handles
    rcases List.mem_cons.mp member with rfl | older
    · exact absurd handles quiet
    · exact agreed.refused index seated unset u older handles

/- The registry steps and the peer's side of the session stays as it is. -/
theorem agreedServer {id : UInt32} {log : SessionHistory} {s s' : Session}
    {t : Transition Session SessionEvent (List Output)} (agreed : Agreed id log s)
    (quiet : ¬ HandlesJoin id t) (still : t.event ≠ joinCommand)
    (peer : s'.peer.id = s.peer.id ∧ s'.peer.joinedRegistry = s.peer.joinedRegistry)
    (sent : s'.sent = s.sent) (pending : s'.connection = .pending → s.connection = .pending)
    (seated : ∀ index, s'.connection = .slot index → (s'.server.client index).type = .unknown →
      (s.connection = .slot index ∧ (s.server.client index).type = .unknown) ∨
        s.connection = .pending) : Agreed id (t :: log) s' := by
  refine ⟨peer.1.trans agreed.named,?_,?_,?_⟩
  · intro before
    exact List.forall_mem_cons.mpr ⟨quiet,agreed.unheard (pending before)⟩
  · intro ⟨u,member,joins⟩
    rcases List.mem_cons.mp member with rfl | older
    · exact absurd joins still
    · obtain ⟨flag,way⟩ := agreed.asked ⟨u,older,joins⟩
      refine ⟨peer.2.trans flag,?_⟩
      rcases way with waiting | ⟨v,past,handles⟩
      · exact .inl (sent ▸ waiting)
      · exact .inr ⟨v,.tail _ past,handles⟩
  · intro index here unset u member handles
    rcases List.mem_cons.mp member with rfl | older
    · exact absurd handles quiet
    · rcases seated index here unset with ⟨was,before⟩ | fresh
      · exact agreed.refused index was before u older handles
      · exact absurd handles (agreed.unheard fresh u older)

/- A JOIN that leaves the type unset was compared with its own id. -/
theorem joinRefused {s s' : Server} {index : Nat} {r : Received} {sends : Nat → Written}
    {out : List Output} {id : UInt32}
    (stepped : step s (.ready index (.data r) sends) = some (s',out))
    (data : r.data = joinRequest id) (unset : (s'.client index).type = .unknown) :
    FirstCarries id s := by
  have active := (dataActive stepped).1
  obtain ⟨first,found⟩ : ∃ first, firstActive s = some first := by
    refine Option.isSome_iff_exists.mp (List.find?_isSome.mpr ?_)
    exact ⟨_,clientMember (activeInside active),active⟩
  rw [stepJoin active data sends,joinAsFirst s index id found] at stepped
  split at stepped
  · rename_i same
    exact ⟨first,found,same⟩
  · cases stepped
    rw [joined,clientSetSelf (activeInside active)] at unset
    contradiction

theorem agreedHandled {id : UInt32} {log : SessionHistory} {s : Session} {index : Nat} {r : Received}
    {sends : Nat → Written} {rest : List Bytes} {server : Server} {out : List Output}
    (agreed : Agreed id log s) (seated : s.connection = .slot index)
    (oldest : s.sent = r.data :: rest)
    (stepped : step s.server (.ready index (.data r) sends) = some (server,out))
    {t : Transition Session SessionEvent (List Output)} (event : t.event = .handled r sends)
    (pre : t.pre = s) :
    Agreed id (t :: log)
      {s with sent := rest, replies := s.replies ++ wire out, server := server} := by
  refine ⟨agreed.named,?_,?_,?_⟩
  · intro pending
    exact absurd (seated.symm.trans pending) (by simp)
  · intro ⟨u,member,joins⟩
    rcases List.mem_cons.mp member with rfl | older
    · exact absurd (event.symm.trans joins) (by simp [joinCommand])
    · obtain ⟨flag,way⟩ := agreed.asked ⟨u,older,joins⟩
      refine ⟨flag,?_⟩
      rcases way with waiting | ⟨v,past,handles⟩
      · rw [oldest] at waiting
        rcases List.mem_cons.mp waiting with now | later
        · exact .inr ⟨t,.head _,r,sends,event,now.symm⟩
        · exact .inl later
      · exact .inr ⟨v,.tail _ past,handles⟩
  · intro other here unset u member handles
    cases seated.symm.trans here
    rcases List.mem_cons.mp member with rfl | older
    · obtain ⟨r',sends',same,data⟩ := handles
      cases event.symm.trans same
      rw [pre]
      exact joinRefused stepped data unset
    · exact agreed.refused index seated (typeKept stepped unset) u older handles

theorem agreedStep {id : UInt32} {log : SessionHistory} {s s' : Session} {e : SessionEvent}
    {out : List Output} (agreed : Agreed id log s) (moved : sessionStep s e = some (s',out)) :
    Agreed id (⟨s,e,out,s'⟩ :: log) s' := by
  have silent : ∀ {e : SessionEvent} {s' : Session} {out : List Output},
      (∀ r sends, e ≠ .handled r sends) → ¬ HandlesJoin id ⟨s,e,out,s'⟩ :=
    fun other ⟨r,sends,handled,_⟩ => other r sends handled
  cases sessionMoved moved with
  | command c peer bytes acted => exact agreedCommand acted agreed rfl
  | answered =>
    exact agreedServer agreed (silent (by simp)) (by simp [joinCommand]) ⟨rfl,rfl⟩ rfl (fun h => h)
      (fun index here unset => .inl ⟨here,unset⟩)
  | readFailed =>
    exact agreedServer agreed (silent (by simp)) (by simp [joinCommand]) ⟨rfl,rfl⟩ rfl (fun h => h)
      (fun index here unset => .inl ⟨here,unset⟩)
  | accepted sock addr closeOk pending =>
    exact agreedServer agreed (silent (by simp)) (by simp [joinCommand]) ⟨rfl,rfl⟩ rfl
      (fun _ => pending) (fun index here unset => .inr pending)
  | handled index r sends rest server out seated oldest stepped =>
    exact agreedHandled agreed seated oldest stepped rfl rfl
  | dropped index result sends server out seated stepped =>
    exact agreedServer agreed (silent (by simp)) (by simp [joinCommand]) ⟨rfl,rfl⟩ rfl
      (fun pending => absurd pending (by simp)) (fun index here unset => absurd here (by simp))
  | elsewhere e server out stepped =>
    exact agreedServer agreed (silent (by simp)) (by simp [joinCommand]) ⟨rfl,rfl⟩ rfl (fun h => h)
      (fun index here unset => .inl ⟨here,typeKept stepped unset⟩)

theorem agreedStart (listenSock : Nat) (id : UInt32) :
    Agreed id [] (session listenSock id).init := by
  refine ⟨rfl,?_,?_,?_⟩
  · intro pending t member
    contradiction
  · intro ⟨t,member,joins⟩
    contradiction
  · intro index seated unset t member
    contradiction

theorem agreedRun {listenSock : Nat} {id : UInt32} {log : SessionHistory} {s : Session}
    (run : Run (session listenSock id) log s) : Agreed id log s := by
  refine history (P := Agreed id) (agreedStart listenSock id) ?_ run
  intro log s e s' out past agreed moved
  exact agreedStep agreed moved

theorem sessionAgrees {listenSock : Nat} {id : UInt32} {log : SessionHistory} {s : Session}
    (run : Run (session listenSock id) log s) {index : Nat} (seated : s.connection = .slot index)
    (drained : s.sent = []) (asked : ∃ t ∈ log, t.event = joinCommand) :
    s.peer.joinedRegistry = true ∧ (∃ t ∈ log, HandlesJoin id t) ∧
      ((s.server.client index).type ≠ .unknown ∨
        ∀ t ∈ log, HandlesJoin id t → FirstCarries id t.pre.server) := by
  have agreed := agreedRun run
  obtain ⟨flag,way⟩ := agreed.asked asked
  refine ⟨flag,?_,?_⟩
  · rcases way with waiting | handled
    · rw [drained] at waiting
      contradiction
    · exact handled
  · by_cases unset : (s.server.client index).type = .unknown
    · exact .inr (agreed.refused index seated unset)
    · exact .inl unset

/- Peer 7 connects to an empty registry and joins. -/
theorem sessionAgreesJoined : ∃ log s, Run (session 3 7) log s ∧ s.sent = [] ∧
    s.peer.joinedRegistry = true ∧ (s.server.client 0).type ≠ .unknown := by
  obtain ⟨log,s,done,seated,drained,asked,other⟩ : ∃ log s,
      execute (session 3 7)
        [.accepted 4 (.inet ⟨2130706433,5000⟩) true,joinCommand,
          .handled (.zeroed [0,0,0,0,7] (by decide) (by decide)) (fun _ => .all)] []
        (session 3 7).init = some (log,s) ∧ s.connection = .slot 0 ∧ s.sent = [] ∧
        (∃ t ∈ log, t.event = joinCommand) ∧
        (∃ t ∈ log, HandlesJoin 7 t ∧ (firstActive t.pre.server).map (fun c => c.id) = some 0) :=
    ⟨_,_,rfl,rfl,rfl,⟨_,.tail _ (.head _),rfl⟩,_,.head _,⟨_,_,rfl,rfl⟩,rfl⟩
  have run := executedRun .start done
  obtain ⟨flag,-,agrees⟩ := sessionAgrees run seated drained asked
  refine ⟨log,s,run,drained,flag,?_⟩
  rcases agrees with set | refused
  · exact set
  · obtain ⟨t,member,handles,zero⟩ := other
    obtain ⟨c,found,seven⟩ := refused t member handles
    rw [found,Option.map_some,seven] at zero
    contradiction

/- The peer's flag and its slot agree once nothing is on the way. -/
def FlagTrue (s : Session) : Prop :=
  ∀ index, s.connection = .slot index → s.sent = [] → s.peer.joinedRegistry = true →
    (s.server.client index).type ≠ .unknown

/- A JOIN under an id that the first client already has is refused without an
answer, and a REGISTER is a command that the registry does not know. -/
theorem sessionDisagrees :
    (∃ log s, Run (session 3 7) log s ∧ (∃ t ∈ log, t.event = joinCommand) ∧ ¬ FlagTrue s) ∧
    (∃ log s, Run (session 3 7) log s ∧
      (∃ t ∈ log, t.event = .command (.register (.inet 0 40000) .all)) ∧ ¬ FlagTrue s) := by
  constructor
  · obtain ⟨log,s,done,seated,drained,flag,unset,asked⟩ : ∃ log s,
        execute (session 3 7)
          [.elsewhere (.accept (.conn 4 (.inet ⟨2130706433,5000⟩) true)),.elsewhere (joinOf 0 7),
            .accepted 5 (.inet ⟨2130706433,5001⟩) true,joinCommand,
            .handled (.zeroed [0,0,0,0,7] (by decide) (by decide)) (fun _ => .all)] []
          (session 3 7).init = some (log,s) ∧ s.connection = .slot 1 ∧ s.sent = [] ∧
          s.peer.joinedRegistry = true ∧ (s.server.client 1).type = .unknown ∧
          (∃ t ∈ log, t.event = joinCommand) :=
      ⟨_,_,rfl,rfl,rfl,rfl,rfl,_,.tail _ (.head _),rfl⟩
    exact ⟨log,s,executedRun .start done,asked,fun agrees => agrees 1 seated drained flag unset⟩
  · obtain ⟨log,s,done,seated,drained,flag,unset,asked⟩ : ∃ log s,
        execute (session 3 7)
          [.accepted 4 (.inet ⟨2130706433,5000⟩) true,.command (.register (.inet 0 40000) .all),
            .handled (.zeroed (registerRequest 7 0 40000) (by decide) (by decide)) (fun _ => .all)] []
          (session 3 7).init = some (log,s) ∧ s.connection = .slot 0 ∧ s.sent = [] ∧
          s.peer.joinedRegistry = true ∧ (s.server.client 0).type = .unknown ∧
          (∃ t ∈ log, t.event = .command (.register (.inet 0 40000) .all)) :=
      ⟨_,_,rfl,rfl,rfl,rfl,rfl,_,.tail _ (.head _),rfl⟩
    exact ⟨log,s,executedRun .start done,asked,fun agrees => agrees 0 seated drained flag unset⟩

end NetworkPrograms.PeerSession
