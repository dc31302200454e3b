import Mathlib.Data.Fintype.EquivFin
import NetworkPrograms.RegistryTable

/-! The main loop over pselect: the descriptor set, the slot table and the open
descriptors of the process move in separate statements and have to agree. The
operating system answers inside an event; what is assumed of it is in the guards
(accept returns a descriptor that is not open, pselect reports a subset of a set
of open descriptors) and in `recvFds` and `acceptFds` (close makes a descriptor
not open, whatever it returns). -/
namespace NetworkPrograms.RegistryLoop
open RegistryState RegistryServe RegistryTable EventMachine
open WireBytes (Written)

/- Where main is: before pselect, in the scan at `sock`, or out of the loop. -/
inductive Phase where
  | waiting
  | scanning (sock : Nat) (callSet : Finset Nat)
  | halted

structure World where
  srv : Server
  openFds : Finset Nat
  phase : Phase

inductive LoopEvent where
  | pselect (ready : Option (Finset Nat))
  | next
  | accept (result : AcceptResult)
  | client (result : RecvResult) (sends : Nat → Written)

inductive Report where
  | quiet
  | handled (out : List Output)
  | unknownSocket (sock : Nat)

/- The search of main for the slot of a descriptor. -/
def findClient (s : Server) (sock : Nat) : Option Nat :=
  s.clients.findIdx? (fun c => c.active && c.sock == sock)

def acceptFds (s : Server) (fds : Finset Nat) : AcceptResult → Option (Finset Nat)
  | .error => some fds
  | .conn sock _ _ =>
      if sock ∈ fds then none
      else if s.activeClients = s.maxConn - 1 then some ((insert sock fds).erase sock)
      else some (insert sock fds)

def recvFds (fds : Finset Nat) (sock : Nat) : RecvResult → Finset Nat
  | .error => fds.erase sock
  | .closed => fds.erase sock
  | .data _ => fds

def loopStep (w : World) : LoopEvent → Option (World × Report)
  | .pselect ready =>
      match w.phase with
      | .waiting =>
          match ready with
          | none => some ({w with phase := .halted},.quiet)
          | some callSet =>
              if callSet ⊆ w.srv.allSocks ∧ w.srv.allSocks ⊆ w.openFds then
                some ({w with phase := .scanning 3 callSet},.quiet)
              else none
      | _ => none
  | .next =>
      match w.phase with
      | .scanning sock callSet =>
          if w.srv.maxSocket < sock then some ({w with phase := .waiting},.quiet)
          else if sock ∉ callSet then some ({w with phase := .scanning (sock + 1) callSet},.quiet)
          else if sock = w.srv.listenSock then none
          else match findClient w.srv sock with
            | none => some ({w with phase := .scanning (sock + 1) callSet},.unknownSocket sock)
            | some _ => none
      | _ => none
  | .accept result =>
      match w.phase with
      | .scanning sock callSet =>
          if sock ≤ w.srv.maxSocket ∧ sock ∈ callSet ∧ sock = w.srv.listenSock then
            (acceptFds w.srv w.openFds result).map (fun fds =>
              (⟨serverAccept w.srv result,fds,.scanning (sock + 1) callSet⟩,.quiet))
          else none
      | _ => none
  | .client result sends =>
      match w.phase with
      | .scanning sock callSet =>
          if sock ≤ w.srv.maxSocket ∧ sock ∈ callSet ∧ sock ≠ w.srv.listenSock then
            match findClient w.srv sock with
            | none => none
            | some index => (handleClient w.srv index sends result).map (fun (srv,out) =>
                (⟨srv,recvFds w.openFds sock result,.scanning (sock + 1) callSet⟩,.handled out))
          else none
      | _ => none

/- `others` are the descriptors the process holds besides its sockets. -/
def mainLoop (listenSock : Nat) (others : Finset Nat) : Machine World LoopEvent Report :=
  ⟨⟨initServer listenSock,insert listenSock others,.waiting⟩,loopStep⟩

abbrev LoopHistory := Log World LoopEvent Report
abbrev LoopMove := Transition World LoopEvent Report

/- Everything one step of the loop can do. -/
inductive Moved (w : World) : LoopEvent → Report → World → Prop where
  | halted (waiting : w.phase = .waiting) :
      Moved w (.pselect none) .quiet {w with phase := .halted}
  | woken (callSet : Finset Nat) (waiting : w.phase = .waiting)
      (watched : callSet ⊆ w.srv.allSocks) (allOpen : w.srv.allSocks ⊆ w.openFds) :
      Moved w (.pselect (some callSet)) .quiet {w with phase := .scanning 3 callSet}
  | scanned (sock : Nat) (callSet : Finset Nat) (scanning : w.phase = .scanning sock callSet)
      (beyond : w.srv.maxSocket < sock) : Moved w .next .quiet {w with phase := .waiting}
  | passed (sock : Nat) (callSet : Finset Nat) (scanning : w.phase = .scanning sock callSet)
      (unset : sock ∉ callSet) :
      Moved w .next .quiet {w with phase := .scanning (sock + 1) callSet}
  | lost (sock : Nat) (callSet : Finset Nat) (scanning : w.phase = .scanning sock callSet)
      (ready : sock ∈ callSet) (other : sock ≠ w.srv.listenSock)
      (missing : findClient w.srv sock = none) :
      Moved w .next (.unknownSocket sock) {w with phase := .scanning (sock + 1) callSet}
  | accepted (sock : Nat) (callSet : Finset Nat) (result : AcceptResult) (fds : Finset Nat)
      (scanning : w.phase = .scanning sock callSet)
      (opened : acceptFds w.srv w.openFds result = some fds) :
      Moved w (.accept result) .quiet
        ⟨serverAccept w.srv result,fds,.scanning (sock + 1) callSet⟩
  | served (sock : Nat) (callSet : Finset Nat) (index : Nat) (result : RecvResult)
      (sends : Nat → Written) (srv : Server) (out : List Output)
      (scanning : w.phase = .scanning sock callSet) (found : findClient w.srv sock = some index)
      (handled : handleClient w.srv index sends result = some (srv,out)) :
      Moved w (.client result sends) (.handled out)
        ⟨srv,recvFds w.openFds sock result,.scanning (sock + 1) callSet⟩

theorem loopMoved {w w' : World} {e : LoopEvent} {out : Report}
    (moved : loopStep w e = some (w',out)) : Moved w e out w' := by
  cases e with
  | pselect ready =>
    simp only [loopStep] at moved
    split at moved
    · rename_i waiting
      cases ready with
      | none =>
        cases moved
        exact .halted waiting
      | some callSet =>
        dsimp only at moved
        split at moved
        · rename_i fine
          cases moved
          exact .woken callSet waiting fine.1 fine.2
        · contradiction
    · contradiction
  | next =>
    simp only [loopStep] at moved
    split at moved
    · rename_i sock callSet scanning
      split at moved
      · rename_i beyond
        cases moved
        exact .scanned sock callSet scanning beyond
      split at moved
      · rename_i unset
        cases moved
        exact .passed sock callSet scanning unset
      rename_i ready
      split at moved
      · contradiction
      rename_i other
      split at moved
      · rename_i missing
        cases moved
        exact .lost sock callSet scanning (Decidable.not_not.mp ready) other missing
      · contradiction
    · contradiction
  | accept result =>
    simp only [loopStep] at moved
    split at moved
    · rename_i sock callSet scanning
      split at moved
      · obtain ⟨fds,opened,same⟩ := Option.map_eq_some_iff.mp moved
        cases same
        exact .accepted sock callSet result fds scanning opened
      · contradiction
    · contradiction
  | client result sends =>
    simp only [loopStep] at moved
    split at moved
    · rename_i sock callSet scanning
      split at moved
      · split at moved
        · contradiction
        · rename_i index found
          obtain ⟨pair,handled,same⟩ := Option.map_eq_some_iff.mp moved
          cases same
          exact .served sock callSet index result sends pair.1 pair.2 scanning found handled
      · contradiction
    · contradiction

theorem findClientSome {s : Server} {sock index : Nat} (found : findClient s sock = some index) :
    (s.client index).active = true ∧ (s.client index).sock = sock := by
  obtain ⟨bound,matched,-⟩ := List.findIdx?_eq_some_iff_getElem.mp found
  simpa [Server.client,bound] using matched

theorem findClientNone {s : Server} {sock : Nat} (missing : findClient s sock = none) {index : Nat}
    (active : (s.client index).active = true) : (s.client index).sock ≠ sock := by
  have other := List.findIdx?_eq_none_iff.mp missing _ (clientMember (activeInside active))
  simpa [active] using other

/- The loop drives the registry: its runs are runs of the registry's events. -/
theorem loopRefines (listenSock : Nat) (others : Finset Nat) :
    Refinement (mainLoop listenSock others) (registry listenSock) World.srv := by
  refine ⟨rfl,?_⟩
  intro w e w' out moved
  cases loopMoved moved with
  | halted waiting => exact .inl rfl
  | woken callSet waiting watched allOpen => exact .inl rfl
  | scanned sock callSet scanning beyond => exact .inl rfl
  | passed sock callSet scanning unset => exact .inl rfl
  | lost sock callSet scanning ready other missing => exact .inl rfl
  | accepted sock callSet result fds scanning opened =>
    exact .inr ⟨.accept result,[],rfl⟩
  | served sock callSet index result sends srv out scanning found handled =>
    refine .inr ⟨.ready index result sends,out,?_⟩
    simp only [registry,step,(findClientSome found).1,if_true,handled]

theorem loopTable {listenSock : Nat} {others : Finset Nat} {log : LoopHistory} {w : World}
    (run : Run (mainLoop listenSock others) log w) : TableOk w.srv := by
  obtain ⟨log',reached⟩ := (loopRefines listenSock others).carries run
  exact tableOk reached

/- The table, the watched set and the open descriptors agree. -/
structure SocksOk (s : Server) (fds : Finset Nat) : Prop where
  watched : ∀ fd, fd ∈ s.allSocks ↔ fd = s.listenSock ∨
    ∃ index, (s.client index).active = true ∧ (s.client index).sock = fd
  opened : s.allSocks ⊆ fds
  distinct : ∀ i j, i ≠ j → (s.client i).active = true → (s.client j).active = true →
    (s.client i).sock ≠ (s.client j).sock
  highest : ∀ fd ∈ s.allSocks, fd ≤ s.maxSocket

def Apart (s : Server) : Prop :=
  ∀ index, (s.client index).active = true → (s.client index).sock ≠ s.listenSock

theorem activeWatched {s : Server} {fds : Finset Nat} (ok : SocksOk s fds) {index : Nat}
    (active : (s.client index).active = true) : (s.client index).sock ∈ s.allSocks :=
  (ok.watched _).mpr (.inr ⟨index,active,rfl⟩)

theorem listenWatched {s : Server} {fds : Finset Nat} (ok : SocksOk s fds) :
    s.listenSock ∈ s.allSocks := (ok.watched _).mpr (.inl rfl)

/- A step that moves no descriptor keeps them in agreement. -/
theorem setSocks {s : Server} {fds : Finset Nat} {index : Nat} {c : Client} (ok : SocksOk s fds)
    (apart : Apart s) (active : c.active = (s.client index).active)
    (sock : c.sock = (s.client index).sock) :
    SocksOk (s.setClient index c) fds ∧ Apart (s.setClient index c) := by
  have slots : ∀ other, ((s.setClient index c).client other).active = (s.client other).active ∧
      ((s.setClient index c).client other).sock = (s.client other).sock := by
    intro other
    rw [clientSet]
    split
    · rename_i here
      rw [← here.1]
      exact ⟨active,sock⟩
    · exact ⟨rfl,rfl⟩
  refine ⟨⟨?_,ok.opened,?_,ok.highest⟩,?_⟩
  · intro fd
    simp only [setAllSocks,setListenSock,slots,ok.watched fd]
  · intro i j different activeI activeJ
    rw [(slots i).2,(slots j).2]
    exact ok.distinct i j different ((slots i).1 ▸ activeI) ((slots j).1 ▸ activeJ)
  · intro other alive
    rw [(slots other).2]
    exact apart other ((slots other).1 ▸ alive)

/- A slot that is active after a connection was seated is the seated one, or it
was active before and kept its socket. -/
theorem seatOwner {s : Server} {sock : Nat} {addr : SockAddr} {index : Nat}
    (here : (seat s sock addr).client index =
      {s.client index with active := true, sock := sock, addr := addr})
    (there : ∀ other, index ≠ other → (seat s sock addr).client other = s.client other)
    {other : Nat} (active : ((seat s sock addr).client other).active = true) :
    (index = other ∧ ((seat s sock addr).client other).sock = sock) ∨
      ((s.client other).active = true ∧
        ((seat s sock addr).client other).sock = (s.client other).sock) := by
  rcases Nat.decEq index other with different | rfl
  · rw [there other different] at active
    exact .inr ⟨active,by rw [there other different]⟩
  · exact .inl ⟨rfl,by rw [here]⟩

theorem seatSocks {s : Server} {fds : Finset Nat} (ok : SocksOk s fds) (apart : Apart s)
    {sock : Nat} (addr : SockAddr) (unopened : sock ∉ fds)
    (room : ∃ index < s.maxConn, (s.client index).active = false) :
    SocksOk (seat s sock addr) (insert sock fds) ∧ Apart (seat s sock addr) := by
  have unwatched : sock ∉ s.allSocks := fun member => unopened (ok.opened member)
  have unlisten : sock ≠ s.listenSock := fun same => unwatched (same ▸ listenWatched ok)
  have unused : ∀ index, (s.client index).active = true → (s.client index).sock ≠ sock :=
    fun index active same => unwatched (same ▸ activeWatched ok active)
  obtain ⟨-,index,free,here,there⟩ := seatSlots s sock addr room
  obtain ⟨all,max,listen,-⟩ := seatWatches s sock addr
  refine ⟨⟨?_,?_,?_,?_⟩,?_⟩
  · intro fd
    rw [all,listen,Finset.mem_insert,ok.watched fd]
    constructor
    · rintro (rfl | rfl | ⟨other,active,rfl⟩)
      · exact .inr ⟨index,by rw [here],by rw [here]⟩
      · exact .inl rfl
      · have different : index ≠ other := fun same => by rw [same,active] at free; contradiction
        exact .inr ⟨other,by rw [there other different,active],by rw [there other different]⟩
    · rintro (rfl | ⟨other,active,rfl⟩)
      · exact .inr (.inl rfl)
      · rcases seatOwner here there active with ⟨-,now⟩ | ⟨before,now⟩
        · exact .inl now
        · exact .inr (.inr ⟨other,before,now.symm⟩)
  · rw [all]
    exact Finset.insert_subset_insert sock ok.opened
  · intro i j different activeI activeJ
    rcases seatOwner here there activeI with ⟨rfl,nowI⟩ | ⟨beforeI,nowI⟩
    · rcases seatOwner here there activeJ with ⟨same,-⟩ | ⟨beforeJ,nowJ⟩
      · exact absurd same different
      · rw [nowI,nowJ]
        exact (unused j beforeJ).symm
    · rcases seatOwner here there activeJ with ⟨-,nowJ⟩ | ⟨beforeJ,nowJ⟩
      · rw [nowI,nowJ]
        exact unused i beforeI
      · rw [nowI,nowJ]
        exact ok.distinct i j different beforeI beforeJ
  · intro fd member
    rw [all] at member
    rw [max]
    rcases Finset.mem_insert.mp member with rfl | old
    · split <;> omega
    · have bound := ok.highest fd old
      split <;> omega
  · intro other active
    rw [listen]
    rcases seatOwner here there active with ⟨-,now⟩ | ⟨before,now⟩
    · rw [now]
      exact unlisten
    · rw [now]
      exact apart other before

theorem dropSocks {s : Server} {fds : Finset Nat} (ok : SocksOk s fds) (apart : Apart s)
    {index : Nat} (active : (s.client index).active = true) :
    SocksOk (dropClient s index) (fds.erase (s.client index).sock) ∧ Apart (dropClient s index) := by
  have slot : ∀ other, ((dropClient s index).client other).active = true → index ≠ other ∧
      (s.client other).active = true ∧ (dropClient s index).client other = s.client other := by
    intro other alive
    rcases Nat.decEq index other with different | rfl
    · have same := dropOther s index other different
      exact ⟨different,same ▸ alive,same⟩
    · rw [dropSelf (activeInside active)] at alive
      contradiction
  have all : (dropClient s index).allSocks = s.allSocks.erase (s.client index).sock := rfl
  refine ⟨⟨?_,?_,?_,?_⟩,?_⟩
  · intro fd
    rw [all,dropListenSock,Finset.mem_erase,ok.watched fd]
    constructor
    · rintro ⟨kept,rfl | ⟨other,alive,rfl⟩⟩
      · exact .inl rfl
      · have different : index ≠ other := fun same => kept (same ▸ rfl)
        have same := dropOther s index other different
        exact .inr ⟨other,same ▸ alive,by rw [same]⟩
    · rintro (rfl | ⟨other,alive,rfl⟩)
      · exact ⟨(apart index active).symm,.inl rfl⟩
      · obtain ⟨different,before,same⟩ := slot other alive
        rw [same]
        exact ⟨ok.distinct other index different.symm before active,.inr ⟨other,before,rfl⟩⟩
  · rw [all]
    exact Finset.erase_subset_erase _ ok.opened
  · intro i j different activeI activeJ
    obtain ⟨-,beforeI,sameI⟩ := slot i activeI
    obtain ⟨-,beforeJ,sameJ⟩ := slot j activeJ
    rw [sameI,sameJ]
    exact ok.distinct i j different beforeI beforeJ
  · intro fd member
    exact ok.highest fd (Finset.mem_of_mem_erase (all ▸ member))
  · intro other alive
    obtain ⟨-,before,same⟩ := slot other alive
    rw [same]
    exact apart other before

/- What holds in every state of a run of the loop. -/
structure Consistent (w : World) : Prop where
  socks : SocksOk w.srv w.openFds
  found : ∀ sock callSet, w.phase = .scanning sock callSet → ∀ fd ∈ callSet, sock ≤ fd →
    fd ≠ w.srv.listenSock → (findClient w.srv fd).isSome = true

/- The inductive form. A ready descriptor that the scan has still to come to is
watched: a slot is closed at its own descriptor only. -/
structure LoopOk (w : World) : Prop where
  socks : SocksOk w.srv w.openFds
  apart : Apart w.srv
  remaining : ∀ sock callSet, w.phase = .scanning sock callSet → ∀ fd ∈ callSet, sock ≤ fd →
    fd ∈ w.srv.allSocks
  room : w.srv.activeClients < w.srv.maxConn

/- The accept that reaches the limit: close succeeds and the descriptor is
watched and seated all the same. -/
def OverLimit (t : LoopMove) : Prop :=
  t.pre.srv.activeClients = t.pre.srv.maxConn - 1 ∧
    ∃ sock addr, t.event = .accept (.conn sock addr true)

theorem loopConsistent {w : World} (ok : LoopOk w) : Consistent w := by
  refine ⟨ok.socks,?_⟩
  intro sock callSet scanning fd ready ahead other
  cases located : findClient w.srv fd with
  | some index => rfl
  | none =>
    rcases (ok.socks.watched fd).mp (ok.remaining sock callSet scanning fd ready ahead) with
      same | ⟨index,active,same⟩
    · exact absurd same other
    · exact absurd same (findClientNone located active)

theorem startOk (listenSock : Nat) (others : Finset Nat) :
    LoopOk (mainLoop listenSock others).init := by
  have idle : ∀ index, ((mainLoop listenSock others).init.srv.client index).active = false :=
    fun index => congrArg Client.active (initClient listenSock index)
  refine ⟨⟨?_,?_,?_,?_⟩,?_,nofun,Nat.zero_lt_succ 49⟩
  · intro fd
    have only : fd ∈ (mainLoop listenSock others).init.srv.allSocks ↔ fd = listenSock :=
      Finset.mem_singleton
    rw [only]
    simp only [idle,Bool.false_eq_true,false_and,exists_false,or_false]
    rfl
  · exact Finset.singleton_subset_iff.mpr (Finset.mem_insert_self _ _)
  · intro i j different active
    rw [idle] at active
    contradiction
  · intro fd member
    exact Nat.le_of_eq (Finset.mem_singleton.mp member)
  · intro index active
    rw [idle] at active
    contradiction

theorem freeSlot {s : Server} (ok : TableOk s) (room : s.activeClients < s.maxConn) :
    ∃ index < s.maxConn, (s.client index).active = false := by
  cases found : s.clients.findIdx? (fun c => !c.active) with
  | some index =>
    obtain ⟨bound,free,-⟩ := List.findIdx?_eq_some_iff_getElem.mp found
    exact ⟨index,s.sized ▸ bound,by simpa [Server.client,bound] using free⟩
  | none =>
    have full : activeCount s = s.clients.length := by
      refine List.countP_eq_length.mpr ?_
      intro c member
      simpa using List.findIdx?_eq_none_iff.mp found c member
    rw [ok.count,full,s.sized] at room
    omega

/- The scan goes on at the next descriptor. -/
theorem scanOn {w : World} {sock : Nat} {callSet : Finset Nat} (ok : LoopOk w)
    (scanning : w.phase = .scanning sock callSet) :
    LoopOk {w with phase := .scanning (sock + 1) callSet} := by
  refine ⟨ok.socks,ok.apart,?_,ok.room⟩
  intro cursor ready same fd member ahead
  cases same
  exact ok.remaining sock callSet scanning fd member (Nat.le_of_succ_le ahead)

theorem acceptOk {w : World} {sock : Nat} {callSet fds : Finset Nat} {result : AcceptResult}
    (table : TableOk w.srv) (ok : LoopOk w) (scanning : w.phase = .scanning sock callSet)
    (opened : acceptFds w.srv w.openFds result = some fds)
    (below : w.srv.activeClients = w.srv.maxConn - 1 → ∀ fd addr, result ≠ .conn fd addr true) :
    LoopOk ⟨serverAccept w.srv result,fds,.scanning (sock + 1) callSet⟩ := by
  have onward := scanOn ok scanning
  cases result with
  | error =>
    cases opened
    exact onward
  | conn fd addr closeOk =>
    simp only [acceptFds] at opened
    split at opened
    · contradiction
    rename_i unopened
    split at opened
    · rename_i limit
      cases closeOk with
      | true => exact absurd rfl (below limit fd addr)
      | false =>
        cases opened
        rw [Finset.erase_insert unopened]
        simp only [serverAccept,if_pos limit]
        exact onward
    · rename_i under
      cases opened
      simp only [serverAccept,if_neg under]
      have room := ok.room
      obtain ⟨socks,apart⟩ := seatSocks ok.socks ok.apart addr unopened (freeSlot table room)
      have more := (seatSlots w.srv fd addr (freeSlot table room)).1
      obtain ⟨all,-,-,limit⟩ := seatWatches w.srv fd addr
      refine ⟨socks,apart,?_,?_⟩
      · intro cursor ready same other member ahead
        cases same
        have before := ok.remaining sock callSet scanning other member (Nat.le_of_succ_le ahead)
        change other ∈ (seat w.srv fd addr).allSocks
        rw [all]
        exact Finset.mem_insert_of_mem before
      · change (seat w.srv fd addr).activeClients < (seat w.srv fd addr).maxConn
        omega

theorem clientOk {w : World} {sock index : Nat} {callSet : Finset Nat} {result : RecvResult}
    {sends : Nat → Written} {srv : Server} {out : List Output} (table : TableOk w.srv)
    (ok : LoopOk w) (scanning : w.phase = .scanning sock callSet)
    (found : findClient w.srv sock = some index)
    (handled : handleClient w.srv index sends result = some (srv,out)) :
    LoopOk ⟨srv,recvFds w.openFds sock result,.scanning (sock + 1) callSet⟩ := by
  obtain ⟨active,here⟩ := findClientSome found
  have onward := scanOn ok scanning
  have dropped : LoopOk ⟨dropClient w.srv index,w.openFds.erase sock,.scanning (sock + 1) callSet⟩ := by
    obtain ⟨socks,apart⟩ := dropSocks ok.socks ok.apart active
    rw [here] at socks
    refine ⟨socks,apart,?_,?_⟩
    · intro cursor ready same fd member ahead
      cases same
      have before := ok.remaining sock callSet scanning fd member (Nat.le_of_succ_le ahead)
      change fd ∈ w.srv.allSocks.erase (w.srv.client index).sock
      rw [here]
      exact Finset.mem_erase.mpr ⟨Nat.ne_of_gt ahead,before⟩
    · have counted := (dropOk table active).count
      have freed := countFreed (c := clearClient (w.srv.client index)) active rfl
      have room := ok.room
      have before := table.count
      change (dropClient w.srv index).activeClients < w.srv.maxConn
      have kept : activeCount (dropClient w.srv index) =
        activeCount (w.srv.setClient index (clearClient (w.srv.client index))) := rfl
      omega
  cases result with
  | error =>
    cases handled
    exact dropped
  | closed =>
    cases handled
    exact dropped
  | data r =>
    cases handleChange active handled with
    | none quietSock quiet => exact onward
    | drop _ _ _ _ ended => simp at ended
    | join _ _ _ n _ data written =>
      obtain ⟨socks,apart⟩ := setSocks (c := {w.srv.client index with id := n, type := .joined})
        ok.socks ok.apart rfl rfl
      exact ⟨socks,apart,onward.remaining,ok.room⟩
    | publish _ _ _ payload names _ data accepted =>
      obtain ⟨socks,apart⟩ := setSocks (c := {clearClientFiles (w.srv.client index) with
        filesLen := names.length, files := some names}) ok.socks ok.apart rfl rfl
      exact ⟨socks,apart,onward.remaining,ok.room⟩

theorem loopStepOk {w w' : World} {e : LoopEvent} {out : Report} (table : TableOk w.srv)
    (ok : LoopOk w) (moved : Moved w e out w') (fine : ¬ OverLimit ⟨w,e,out,w'⟩) :
    LoopOk w' ∧ ∀ sock, out ≠ .unknownSocket sock := by
  cases moved with
  | halted waiting => exact ⟨⟨ok.socks,ok.apart,nofun,ok.room⟩,nofun⟩
  | woken callSet waiting watched allOpen =>
    refine ⟨⟨ok.socks,ok.apart,?_,ok.room⟩,nofun⟩
    intro cursor ready same fd member ahead
    cases same
    exact watched member
  | scanned sock callSet scanning beyond => exact ⟨⟨ok.socks,ok.apart,nofun,ok.room⟩,nofun⟩
  | passed sock callSet scanning unset => exact ⟨scanOn ok scanning,nofun⟩
  | lost sock callSet scanning ready other missing =>
    have located := (loopConsistent ok).found sock callSet scanning sock ready (Nat.le_refl _) other
    rw [missing] at located
    contradiction
  | accepted sock callSet result fds scanning opened =>
    refine ⟨acceptOk table ok scanning opened ?_,nofun⟩
    intro limit fd addr same
    exact fine ⟨limit,fd,addr,by rw [same]⟩
  | served sock callSet index result sends srv out scanning found handled =>
    exact ⟨clientOk table ok scanning found handled,nofun⟩

theorem overLimitBreaks {t : LoopMove} (moved : loopStep t.pre t.event = some (t.post,t.out))
    (exceeds : OverLimit t) : ¬ Consistent t.post := by
  obtain ⟨pre,event,out,post⟩ := t
  obtain ⟨limit,fd,addr,rfl⟩ := exceeds
  dsimp only at moved limit ⊢
  cases loopMoved moved with
  | accepted sock callSet result fds scanning opened =>
    intro consistent
    simp only [acceptFds] at opened
    split at opened
    · contradiction
    cases opened
    have watched : fd ∈ (seat pre.srv fd addr).allSocks := by
      rw [(seatWatches pre.srv fd addr).1]
      exact Finset.mem_insert_self _ _
    have stillOpen := consistent.socks.opened
    simp only [serverAccept,if_pos limit,if_true] at stillOpen
    exact absurd rfl (Finset.mem_erase.mp (stillOpen watched)).1

theorem loopOkRun {listenSock : Nat} {others : Finset Nat} {log : LoopHistory} {w : World}
    (run : Run (mainLoop listenSock others) log w) (fine : ∀ t ∈ log, ¬ OverLimit t) :
    LoopOk w ∧ ∀ t ∈ log, Consistent t.post ∧ ∀ sock, t.out ≠ .unknownSocket sock := by
  induction run with
  | start => exact ⟨startOk listenSock others,nofun⟩
  | @next log w e w' out past moved ih =>
    obtain ⟨ok,earlier⟩ := ih (fun t member => fine t (List.mem_cons_of_mem _ member))
    obtain ⟨now,known⟩ :=
      loopStepOk (loopTable past) ok (loopMoved moved) (fine _ List.mem_cons_self)
    refine ⟨now,?_⟩
    intro t member
    rcases List.mem_cons.mp member with rfl | member
    · exact ⟨loopConsistent now,known⟩
    · exact earlier t member

theorem socketsAgreeIff {listenSock : Nat} {others : Finset Nat} {log : LoopHistory} {w : World}
    (run : Run (mainLoop listenSock others) log w) :
    (Consistent w ∧ ∀ t ∈ log, Consistent t.post ∧ ∀ sock, t.out ≠ .unknownSocket sock) ↔
      ∀ t ∈ log, ¬ OverLimit t := by
  constructor
  · intro consistent t member exceeds
    exact overLimitBreaks (logged run member).2 exceeds (consistent.2 t member).1
  · intro fine
    obtain ⟨ok,earlier⟩ := loopOkRun run fine
    exact ⟨loopConsistent ok,earlier⟩

/- One connection, accepted under the limit: every state agrees. -/
theorem socketsAgreeOnce : ∃ log w, Run (mainLoop 3 {0,1,2}) log w ∧
    (w.srv.client 0).sock = 4 ∧ Consistent w := by
  obtain ⟨log,w,done,seated,events⟩ : ∃ log w,
      execute (mainLoop 3 {0,1,2}) [.pselect (some {3}),
        .accept (.conn 4 (.inet ⟨2130706433,5000⟩) true)] [] (mainLoop 3 {0,1,2}).init =
        some (log,w) ∧ (w.srv.client 0).sock = 4 ∧
        log.map (fun t => t.pre.srv.activeClients) = [0,0] := ⟨_,_,rfl,rfl,rfl⟩
  have run := executedRun .start done
  have fine : ∀ t ∈ log, ¬ OverLimit t := by
    intro t member exceeds
    have none_yet : t.pre.srv.activeClients ∈ log.map (fun t => t.pre.srv.activeClients) :=
      List.mem_map_of_mem member
    rw [events] at none_yet
    obtain ⟨older,before⟩ := (logged run member).1
    have limit := exceeds.1
    rw [(loopTable before).connLimit] at limit
    simp [limit] at none_yet
  exact ⟨log,w,run,seated,((socketsAgreeIff run).mpr fine).1⟩

/- The rest of a scan that has no ready descriptor left. -/
theorem drain {listenSock : Nat} {others : Finset Nat} {log : LoopHistory} {w : World}
    (run : Run (mainLoop listenSock others) log w) {sock : Nat} {callSet : Finset Nat}
    (scanning : w.phase = .scanning sock callSet) (behind : ∀ fd ∈ callSet, fd < sock) :
    ∃ log', Run (mainLoop listenSock others) log' {w with phase := .waiting} := by
  obtain ⟨left,measure⟩ : ∃ left, w.srv.maxSocket + 1 - sock = left := ⟨_,rfl⟩
  induction left generalizing log w sock with
  | zero =>
    have beyond : w.srv.maxSocket < sock := by omega
    have moved : (mainLoop listenSock others).step w .next =
        some ({w with phase := .waiting},.quiet) := by
      simp [mainLoop,loopStep,scanning,beyond]
    exact ⟨_,.next run moved⟩
  | succ left ih =>
    have inside : ¬ w.srv.maxSocket < sock := by omega
    have unset : sock ∉ callSet := fun member => Nat.lt_irrefl _ (behind sock member)
    have moved : (mainLoop listenSock others).step w .next =
        some ({w with phase := .scanning (sock + 1) callSet},.quiet) := by
      simp [mainLoop,loopStep,scanning,inside,unset]
    have shorter : w.srv.maxSocket + 1 - (sock + 1) = left := by omega
    exact ih (w := {w with phase := .scanning (sock + 1) callSet}) (.next run moved) rfl
      (fun fd member => Nat.lt_succ_of_lt (behind fd member)) shorter

/- A waiting loop with k clients that never ran into the limit. -/
def Filled (k : Nat) (w : World) : Prop :=
  (∃ log, Run (mainLoop 3 ∅) log w) ∧ w.phase = .waiting ∧ w.srv.listenSock = 3 ∧
    w.srv.activeClients = k ∧ LoopOk w

/- The listening socket becomes ready and one connection is accepted. -/
theorem connects {w : World} {k : Nat} (filled : Filled k w) {fd : Nat} (unopened : fd ∉ w.openFds)
    (addr : SockAddr) : ∃ fds, acceptFds w.srv w.openFds (.conn fd addr true) = some fds ∧
      ∃ log, Run (mainLoop 3 ∅) log ⟨serverAccept w.srv (.conn fd addr true),fds,.scanning 4 {3}⟩ := by
  obtain ⟨⟨log,run⟩,waiting,listen,count,ok⟩ := filled
  have watched : 3 ∈ w.srv.allSocks := listen ▸ listenWatched ok.socks
  have woken : (mainLoop 3 ∅).step w (.pselect (some {3})) =
      some ({w with phase := .scanning 3 {3}},.quiet) := by
    simp [mainLoop,loopStep,waiting,watched,ok.socks.opened]
  obtain ⟨fds,opened⟩ : ∃ fds, acceptFds w.srv w.openFds (.conn fd addr true) = some fds := by
    simp only [acceptFds,if_neg unopened]
    split
    · exact ⟨_,rfl⟩
    · exact ⟨_,rfl⟩
  have highest := ok.socks.highest 3 watched
  have accepted : (mainLoop 3 ∅).step {w with phase := .scanning 3 {3}} (.accept (.conn fd addr true)) =
      some (⟨serverAccept w.srv (.conn fd addr true),fds,.scanning 4 {3}⟩,.quiet) := by
    simp [mainLoop,loopStep,listen,highest,opened]
  exact ⟨fds,opened,_,.next (.next run woken) accepted⟩

theorem fillOne {w : World} {k : Nat} (filled : Filled k w) (below : k < 49) :
    ∃ w', Filled (k + 1) w' := by
  obtain ⟨fd,unopened⟩ := Infinite.exists_notMem_finset w.openFds
  obtain ⟨fds,opened,log,run⟩ := connects filled unopened .unspec
  obtain ⟨⟨before,reached⟩,waiting,listen,count,ok⟩ := filled
  have table := loopTable reached
  have limit := table.connLimit
  have under : ¬ w.srv.activeClients = w.srv.maxConn - 1 := by omega
  have watched : 3 ∈ w.srv.allSocks := listen ▸ listenWatched ok.socks
  have scanning : LoopOk {w with phase := .scanning 3 {3}} := by
    refine (loopStepOk table ok (.woken {3} waiting (by simpa) ok.socks.opened) ?_).1
    intro exceeds
    obtain ⟨-,fd',addr,same⟩ := exceeds
    contradiction
  have accepted := acceptOk (w := {w with phase := .scanning 3 {3}}) table scanning rfl opened
    (fun same => absurd same under)
  have counted : (seat w.srv fd .unspec).activeClients = k + 1 :=
    (seatSlots w.srv fd .unspec (freeSlot table ok.room)).1.trans (congrArg (· + 1) count)
  obtain ⟨log',drained⟩ := drain run rfl (by simp)
  refine ⟨_,⟨log',drained⟩,rfl,?_,?_,accepted.socks,accepted.apart,nofun,accepted.room⟩
  · simp only [serverAccept,if_neg under,(seatWatches w.srv fd .unspec).2.2.1,listen]
  · simp only [serverAccept,if_neg under,counted]

theorem fill (k : Nat) (most : k ≤ 49) : ∃ w, Filled k w := by
  induction k with
  | zero => exact ⟨_,⟨[],.start⟩,rfl,rfl,rfl,startOk 3 ∅⟩
  | succ k ih =>
    obtain ⟨w,filled⟩ := ih (Nat.le_of_succ_le most)
    exact fillOne filled most

/- Fifty connections, none of which ends: the last one is closed and yet watched
and seated, so that the next pselect is given a descriptor that is not open. -/
theorem socketsDisagree : ∃ log w, Run (mainLoop 3 ∅) log w ∧
    (∃ fd ∈ w.srv.allSocks, fd ∉ w.openFds) ∧ ¬ Consistent w := by
  obtain ⟨w,filled⟩ := fill 49 (Nat.le_refl _)
  obtain ⟨fd,unopened⟩ := Infinite.exists_notMem_finset w.openFds
  obtain ⟨fds,opened,log,run⟩ := connects filled unopened (.inet ⟨2130706433,5000⟩)
  obtain ⟨⟨before,reached⟩,waiting,listen,count,ok⟩ := filled
  have limit : w.srv.activeClients = w.srv.maxConn - 1 := by rw [(loopTable reached).connLimit,count]
  have shut : fd ∉ fds := by
    simp only [acceptFds,if_neg unopened,if_pos limit,Option.some.injEq] at opened
    rw [← opened]
    exact fun member => absurd rfl (Finset.mem_erase.mp member).1
  have watched : fd ∈ (serverAccept w.srv (.conn fd (.inet ⟨2130706433,5000⟩) true)).allSocks := by
    simp only [serverAccept,if_pos limit,if_true,(seatWatches w.srv fd _).1]
    exact Finset.mem_insert_self _ _
  exact ⟨log,_,run,⟨fd,watched,shut⟩,fun consistent => shut (consistent.socks.opened watched)⟩

end NetworkPrograms.RegistryLoop
