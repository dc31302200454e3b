import Mathlib.Data.Finset.Basic
import NetworkPrograms.WireBytes

/-! The registry's client table and server record. A stored name is the block
that was allocated for it, with exactly the bytes copied into it; a NULL list is
`none`. Log lines and the output stream are left out. -/
namespace NetworkPrograms.RegistryState
open WireBytes (Bytes)

def buffSize : Nat := 2048

inductive ClientState where
  | unknown
  | joined
  | registered
  deriving DecidableEq, Repr

structure SockAddrIn where
  sinAddr : UInt32
  sinPort : UInt16
  deriving DecidableEq, Repr

/- The families the registry tells apart; a zeroed record is AF_UNSPEC. -/
inductive SockAddr where
  | unspec
  | inet (v4 : SockAddrIn)
  | inet6
  deriving DecidableEq, Repr

structure Client where
  active : Bool
  id : UInt32
  type : ClientState
  sock : Nat
  addr : SockAddr
  filesLen : Nat
  files : Option (List Bytes)
  deriving DecidableEq, Repr

/- What calloc and the loop after it in main leave in every slot. -/
def Client.zero : Client := ⟨false,0,.unknown,0,.unspec,0,none⟩

/- The names a loop over `file_index < files_len` visits. -/
def Client.names (c : Client) : List Bytes := (c.files.getD []).take c.filesLen

structure Server where
  maxConn : Nat
  maxFiles : Nat
  activeClients : Nat
  clients : List Client
  listenSock : Nat
  allSocks : Finset Nat
  maxSocket : Nat
  sized : clients.length = maxConn
  deriving DecidableEq

def Server.client (s : Server) (index : Nat) : Client := s.clients.getD index Client.zero

def Server.setClient (s : Server) (index : Nat) (c : Client) : Server :=
  {s with clients := s.clients.set index c, sized := by simp [s.sized]}

/- The server of main once `bind_and_listen` has returned a socket. -/
def initServer (listenSock : Nat) : Server where
  maxConn := 50
  maxFiles := 10
  activeClients := 0
  clients := List.replicate 50 Client.zero
  listenSock := listenSock
  allSocks := {listenSock}
  maxSocket := listenSock
  sized := by simp

/- Frees the blocks `files[0..files_len)` and the list; `files_len` is kept. -/
def clearClientFiles (c : Client) : Client := {c with files := none}

/- `type` and `addr` keep the values of the connection that ends. -/
def clearClient (c : Client) : Client :=
  {clearClientFiles c with active := false, id := 0, sock := 0, filesLen := 0}

/- What a handler lets an observer see: bytes on a socket and, of the text on
stdout, the lines it prints when it accepts a JOIN or a PUBLISH. -/
inductive Output where
  | sent (sock : Nat) (bytes : Bytes)
  | testJoin (id : UInt32)
  | testPublish (files : List Bytes)
  deriving DecidableEq, Repr

section
variable (s : Server) (index other : Nat) (c : Client)

@[simp] theorem setMaxFiles : (s.setClient index c).maxFiles = s.maxFiles := rfl
@[simp] theorem setListenSock : (s.setClient index c).listenSock = s.listenSock := rfl
@[simp] theorem setAllSocks : (s.setClient index c).allSocks = s.allSocks := rfl
@[simp] theorem setClients : (s.setClient index c).clients = s.clients.set index c := rfl

theorem clientSet :
    (s.setClient index c).client other =
      if index = other ∧ index < s.maxConn then c else s.client other := by
  rw [← s.sized]
  simp only [Server.client,setClients,List.getD_eq_getElem?_getD,List.getElem?_set]
  by_cases same : index = other
  · subst same
    by_cases inside : index < s.clients.length <;> simp [inside]
  · simp [same]

theorem clientSetOther (different : index ≠ other) :
    (s.setClient index c).client other = s.client other := by
  simp [clientSet,different]

end

theorem clientInside {s : Server} {index : Nat} (inside : index < s.maxConn) :
    s.clients[index]? = some (s.client index) := by
  have bound : index < s.clients.length := s.sized ▸ inside
  simp [Server.client,bound]

theorem activeInside {s : Server} {index : Nat} (active : (s.client index).active = true) :
    index < s.maxConn := by
  by_cases inside : index < s.clients.length
  · exact s.sized ▸ inside
  · simp [Server.client,inside,Client.zero] at active

theorem clientSetSelf {s : Server} {index : Nat} (inside : index < s.maxConn) (c : Client) :
    (s.setClient index c).client index = c := by
  simp [clientSet,inside]

theorem clientMember {s : Server} {index : Nat} (inside : index < s.maxConn) :
    s.client index ∈ s.clients := List.mem_of_getElem? (clientInside inside)

theorem memberClient {s : Server} {c : Client} (member : c ∈ s.clients) :
    ∃ index < s.maxConn, s.client index = c := by
  obtain ⟨index,inside,rfl⟩ := List.getElem_of_mem member
  exact ⟨index,s.sized ▸ inside,by simp [Server.client,inside]⟩

theorem initClient (listenSock index : Nat) : (initServer listenSock).client index = Client.zero := by
  simp only [Server.client,initServer,List.getD_eq_getElem?_getD,List.getElem?_replicate]
  split <;> rfl

end NetworkPrograms.RegistryState
