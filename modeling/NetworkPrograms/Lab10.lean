import NetworkPrograms.ReadyScans
import NetworkPrograms.WireBytes

/-! The select server of lab_10: one set of sockets, its largest number and a scan
that accepts and receives. Descriptors of the process are numbers that accept
finds closed and close makes so. -/
namespace NetworkPrograms.Lab10
open WireBytes (Bytes)
open ReadyScans EventMachine

inductive Phase where
  | waiting
  | scanning (scan : Scan)
  | returned

inductive RecvResult where
  | error
  | closed
  | data (bytes : Bytes)
  deriving DecidableEq, Repr

structure Server where
  listenSock : Nat
  allSockets : Finset Nat
  maxSocket : Nat
  openFds : Finset Nat
  phase : Phase

inductive Event where
  | select (ready : Option (Finset Nat))
  | next
  | accept (clientSock : Option Nat)
  | recv (result : RecvResult)

inductive Output where
  | quiet
  | closing (sock : Nat)
  | client (sock : Nat) (bytes : Bytes)
  deriving DecidableEq, Repr

/- FD_SET and the update of max_socket behind an accept. -/
def watch (w : Server) (clientSock : Nat) : Server :=
  {w with
    allSockets := insert clientSock w.allSockets
    maxSocket := if w.maxSocket < clientSock then clientSock else w.maxSocket
    openFds := insert clientSock w.openFds}

/- close and FD_CLR -/
def hangUp (w : Server) (sock : Nat) : Server :=
  {w with allSockets := w.allSockets.erase sock, openFds := w.openFds.erase sock}

/- The body of the scan at a ready descriptor, up to what the call returns. -/
def serve (w : Server) (sock : Nat) : Event → Option (Server × Output)
  | .accept clientSock =>
      if sock = w.listenSock then
        match clientSock with
        | none => some (w,.quiet)
        | some clientSock => if clientSock ∈ w.openFds then none else some (watch w clientSock,.quiet)
      else none
  | .recv result =>
      if sock = w.listenSock then none
      else match result with
        | .error => some (hangUp w sock,.closing sock)
        | .closed => some (hangUp w sock,.closing sock)
        | .data bytes => some (w,.client sock bytes)
  | _ => none

def step (w : Server) : Event → Option (Server × Output)
  | .select ready =>
      match w.phase, ready with
      | .waiting, none => some ({w with phase := .returned},.quiet)
      | .waiting, some callSet =>
          if callSet ⊆ w.allSockets ∧ w.allSockets ⊆ w.openFds then
            some ({w with phase := .scanning ⟨3,callSet⟩},.quiet)
          else none
      | _, _ => none
  | .next =>
      match w.phase with
      | .scanning ⟨sock,callSet⟩ =>
          if w.maxSocket < sock then some ({w with phase := .waiting},.quiet)
          else if sock ∉ callSet then some ({w with phase := .scanning ⟨sock + 1,callSet⟩},.quiet)
          else none
      | _ => none
  | e =>
      match w.phase with
      | .scanning ⟨sock,callSet⟩ =>
          if sock ≤ w.maxSocket ∧ sock ∈ callSet then
            (serve w sock e).map (fun (w,out) => ({w with phase := .scanning ⟨sock + 1,callSet⟩},out))
          else none
      | _ => none

/- `others` are the descriptors the process holds besides its sockets. -/
def server (listenSock : Nat) (others : Finset Nat) : Machine Server Event Output :=
  ⟨⟨listenSock,{listenSock},listenSock,insert listenSock others,.waiting⟩,step⟩

abbrev History := Log Server Event Output

/- Everything a step can do. -/
inductive Moved (w : Server) : Event → Output → Server → Prop where
  | returned (waiting : w.phase = .waiting) : Moved w (.select none) .quiet {w with phase := .returned}
  | woken (callSet : Finset Nat) (waiting : w.phase = .waiting) (watched : callSet ⊆ w.allSockets) :
      Moved w (.select (some callSet)) .quiet {w with phase := .scanning ⟨3,callSet⟩}
  | scanned (sock : Nat) (callSet : Finset Nat) (scanning : w.phase = .scanning ⟨sock,callSet⟩)
      (beyond : w.maxSocket < sock) : Moved w .next .quiet {w with phase := .waiting}
  | passed (sock : Nat) (callSet : Finset Nat) (scanning : w.phase = .scanning ⟨sock,callSet⟩)
      (unset : sock ∉ callSet) : Moved w .next .quiet {w with phase := .scanning ⟨sock + 1,callSet⟩}
  | refused (callSet : Finset Nat) (scanning : w.phase = .scanning ⟨w.listenSock,callSet⟩)
      (set : w.listenSock ∈ callSet) :
      Moved w (.accept none) .quiet {w with phase := .scanning ⟨w.listenSock + 1,callSet⟩}
  | accepted (clientSock : Nat) (callSet : Finset Nat)
      (scanning : w.phase = .scanning ⟨w.listenSock,callSet⟩) (set : w.listenSock ∈ callSet)
      (unopened : clientSock ∉ w.openFds) :
      Moved w (.accept (some clientSock)) .quiet
        {watch w clientSock with phase := .scanning ⟨w.listenSock + 1,callSet⟩}
  | ended (sock : Nat) (callSet : Finset Nat) (result : RecvResult)
      (scanning : w.phase = .scanning ⟨sock,callSet⟩) (set : sock ∈ callSet) (other : sock ≠ w.listenSock)
      (last : result = .error ∨ result = .closed) :
      Moved w (.recv result) (.closing sock) {hangUp w sock with phase := .scanning ⟨sock + 1,callSet⟩}
  | received (sock : Nat) (callSet : Finset Nat) (bytes : Bytes)
      (scanning : w.phase = .scanning ⟨sock,callSet⟩) (set : sock ∈ callSet) (other : sock ≠ w.listenSock) :
      Moved w (.recv (.data bytes)) (.client sock bytes) {w with phase := .scanning ⟨sock + 1,callSet⟩}

theorem stepMoved {w w' : Server} {e : Event} {out : Output} (moved : step w e = some (w',out)) :
    Moved w e out w' := by
  cases e with
  | select ready =>
    simp only [step] at moved
    split at moved
    · rename_i waiting
      cases moved
      exact .returned waiting
    · rename_i callSet waiting
      split at moved
      · rename_i fine
        cases moved
        exact .woken callSet waiting fine.1
      · contradiction
    · contradiction
  | next =>
    simp only [step] at moved
    split at moved
    · rename_i sock callSet scanning
      split at moved
      · rename_i beyond
        cases moved
        exact .scanned sock callSet scanning beyond
      split at moved
      · rename_i unset
        cases moved
        exact .passed sock callSet scanning unset
      · contradiction
    · contradiction
  | accept clientSock =>
    simp only [step] at moved
    split at moved
    · rename_i sock callSet scanning
      split at moved
      · rename_i here
        obtain ⟨⟨after,text⟩,served,same⟩ := Option.map_eq_some_iff.mp moved
        cases same
        simp only [serve] at served
        split at served
        · rename_i listens
          subst listens
          cases clientSock with
          | none =>
            cases served
            exact .refused callSet scanning here.2
          | some clientSock =>
            dsimp only at served
            split at served
            · contradiction
            · rename_i unopened
              cases served
              exact .accepted clientSock callSet scanning here.2 unopened
        · contradiction
      · contradiction
    · contradiction
  | recv result =>
    simp only [step] at moved
    split at moved
    · rename_i sock callSet scanning
      split at moved
      · rename_i here
        obtain ⟨⟨after,text⟩,served,same⟩ := Option.map_eq_some_iff.mp moved
        cases same
        simp only [serve] at served
        split at served
        · contradiction
        rename_i other
        cases result with
        | error =>
          cases served
          exact .ended sock callSet .error scanning here.2 other (.inl rfl)
        | closed =>
          cases served
          exact .ended sock callSet .closed scanning here.2 other (.inr rfl)
        | data bytes =>
          cases served
          exact .received sock callSet bytes scanning here.2 other
      · contradiction
    · contradiction

/- The connections that have been accepted and not yet been closed, by the log. -/
def connected : History → Finset Nat
  | [] => ∅
  | t :: older => match t.event, t.out with
      | .accept (some clientSock), _ => insert clientSock (connected older)
      | .recv _, .closing sock => (connected older).erase sock
      | _, _ => connected older

section
variable {listenSock : Nat} {others conns : Finset Nat} {w w' : Server}

def scanOf (w : Server) : Option Scan :=
  match w.phase with
  | .waiting => none
  | .scanning scan => some scan
  | .returned => none

/- The descriptor of a call of accept or recv. -/
def served (t : Transition Server Event Output) : Option Nat :=
  match t.event with
  | .accept _ => (scanOf t.pre).map Scan.next
  | .recv _ => (scanOf t.pre).map Scan.next
  | _ => none

end

/- A client connects, sends a byte and leaves. -/
def visit : List Event :=
  [.select (some {3}),.accept (some 4),.next,.next,.select (some {3,4}),.accept (some 5),.recv (.data [9]),
    .next,.next,.select (some {4}),.next,.recv .closed]

end NetworkPrograms.Lab10
