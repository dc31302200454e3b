import Mathlib.Algebra.BigOperators.Intervals
import NetworkPrograms.EventMachine
import NetworkPrograms.SocketClient

/-! The bytes command of socket-client-rs and the bytes server of socket-server-rs
as one system: both programs, the bytes on the way in each direction, and every
order of their steps. The kernel copies what a write offers piece by piece, as
far as it has room, and the write returns how much that was. -/
namespace NetworkPrograms.EchoService
open WireBytes (Bytes)
open EventMachine Loops PartialSends SocketClient

structure Args where
  repeatTimes : Option Nat
  repeatInf : Bool
  bufSize : UInt64
  noRead : Bool

/- What a run depends on besides the order of its steps: what get_message makes in
each round, whether additions are checked, the server's buf_size and the room the
kernel has for the bytes on the way. -/
structure Setting where
  args : Args
  checked : Bool
  messages : Nat → Option Slice
  serverBuf : Nat
  upRoom : Nat
  downRoom : Nat

/- Whether `handle` goes on with this round. -/
def more (args : Args) (round : Nat) : Bool :=
  match args.repeatTimes with
  | some nTimes => decide (round < nTimes)
  | none => if args.repeatInf then true else decide (round < 1)

inductive Client where
  | starting (round : Nat)
  | writing (round : Nat) (message : Slice) (s : Writing) (copied : Nat)
  | reading (round : Nat) (message : Slice) (totalRead : Nat)
  | ended (outcome : Outcome)

inductive Server where
  | waiting
  | holding (bytes : Bytes) (copied : Nat)
  | disconnected
  deriving DecidableEq

structure World where
  client : Client
  server : Server
  up : Bytes
  down : Bytes

inductive ReadResult where
  | error
  | closed
  | bytes (n : Nat)
  deriving DecidableEq

inductive Event where
  | getMessage
  | copy (n : Nat)
  | wrote (ok : Bool)
  | read (result : ReadResult)
  | serverRead (result : ReadResult)
  | serverCopy (n : Nat)
  | serverWrote (ok : Bool)
  deriving DecidableEq

/- `missing` bytes of a window, `lost` bytes of the server's buffer were offered
and not taken. -/
inductive Output where
  | quiet
  | sent (round : Nat) (bytes : Bytes)
  | wrote (missing : Nat)
  | got (round : Nat) (bytes : Bytes)
  | lost (bytes : Bytes)
  deriving DecidableEq

/- `&bytes[start_index..end_index]` -/
def offered (bytes : Bytes) (s : Writing) : Bytes := (bytes.drop s.startIndex).take (s.endIndex - s.startIndex)

def startWriting (bytes : Bytes) (chunkSize : Nat) : Writing :=
  ⟨0,0,if bytes.length < chunkSize then bytes.length else chunkSize,0,[]⟩

/- A write returns once something is copied, at once if nothing is offered, and
with an error only if nothing is copied. -/
def returns (ok : Bool) (copied : Nat) (offer : Bytes) : Bool :=
  if ok then decide (0 < copied) || offer.isEmpty else decide (copied = 0)

def sendOf (ok : Bool) (copied : Nat) : Send :=
  if ok then .room (max copied 1) (Nat.lt_of_lt_of_le Nat.one_pos (Nat.le_max_right _ _)) else .failed

def afterWrite (args : Args) (round : Nat) (message : Slice) : Turn Writing Wrote → Client
  | .next s => .writing round message s 0
  | .leave ⟨.ok,_⟩ => if args.noRead then .starting (round + 1) else .reading round message 0
  | .leave ⟨outcome,_⟩ => .ended outcome

def afterRead (round : Nat) (message : Slice) (totalRead : Nat) : Client :=
  if message.bytes.length ≤ totalRead then .starting (round + 1) else .reading round message totalRead

def hasEnded : Client → Bool
  | .ended _ => true
  | _ => false

def clientStep (c : Setting) (w : World) : Event → Option (World × Output)
  | .getMessage =>
      match w.client with
      | .starting round =>
          if more c.args round then
            match c.messages round with
            | none => some ({w with client := .ended .error},.quiet)
            | some message =>
                some ({w with
                  client := .writing round message (startWriting message.bytes c.args.bufSize.toNat) 0},.quiet)
          else some ({w with client := .ended .ok},.quiet)
      | _ => none
  | .copy n =>
      match w.client with
      | .writing round message s copied =>
          let offer := offered message.bytes s
          if 0 < n ∧ copied + n ≤ offer.length ∧ w.up.length + n ≤ c.upRoom then
            let bytes := (offer.drop copied).take n
            some ({w with client := .writing round message s (copied + n), up := w.up ++ bytes},.sent round bytes)
          else none
      | _ => none
  | .wrote ok =>
      match w.client with
      | .writing round message s copied =>
          let offer := offered message.bytes s
          if returns ok copied offer then
            let turn := writeTurn c.checked (fun _ => sendOf ok copied) message.bytes c.args.bufSize.toNat s
            some ({w with client := afterWrite c.args round message turn},.wrote (offer.length - copied))
          else none
      | _ => none
  | .read result =>
      match w.client with
      | .reading round message totalRead =>
          match result with
          | .error => some ({w with client := .ended .error},.quiet)
          | .closed =>
              if (w.server = .disconnected ∧ w.down = []) ∨ c.args.bufSize = 0 then
                some ({w with client := .starting (round + 1)},.quiet)
              else none
          | .bytes n =>
              if 0 < n ∧ n ≤ c.args.bufSize.toNat ∧ n ≤ w.down.length then
                some ({w with client := afterRead round message (totalRead + n), down := w.down.drop n},
                  .got round (w.down.take n))
              else none
      | _ => none
  | _ => none

def serverStep (c : Setting) (w : World) : Event → Option (World × Output)
  | .serverRead result =>
      match w.server with
      | .waiting =>
          match result with
          | .error => some (w,.quiet)
          | .closed =>
              if (hasEnded w.client = true ∧ w.up = []) ∨ c.serverBuf = 0 then
                some ({w with server := .disconnected},.quiet)
              else none
          | .bytes n =>
              if 0 < n ∧ n ≤ c.serverBuf ∧ n ≤ w.up.length then
                some ({w with server := .holding (w.up.take n) 0, up := w.up.drop n},.quiet)
              else none
      | _ => none
  | .serverCopy n =>
      match w.server with
      | .holding bytes copied =>
          if 0 < n ∧ copied + n ≤ bytes.length ∧ w.down.length + n ≤ c.downRoom then
            some ({w with server := .holding bytes (copied + n), down := w.down ++ (bytes.drop copied).take n},.quiet)
          else none
      | _ => none
  | .serverWrote ok =>
      match w.server with
      | .holding bytes copied =>
          if returns ok copied bytes then some ({w with server := .waiting},.lost (bytes.drop copied))
          else none
      | _ => none
  | _ => none

def step (c : Setting) (w : World) (e : Event) : Option (World × Output) :=
  (clientStep c w e).or (serverStep c w e)

abbrev History := Log World Event Output

/- What the client has written to the stream, and read from it, in a round. -/
def sentIn (round : Nat) : History → Bytes
  | [] => []
  | t :: older => match t.out with
      | .sent other bytes => if other = round then sentIn round older ++ bytes else sentIn round older
      | _ => sentIn round older

def gotIn (round : Nat) : History → Bytes
  | [] => []
  | t :: older => match t.out with
      | .got other bytes => if other = round then gotIn round older ++ bytes else gotIn round older
      | _ => gotIn round older

/- Everything a step can do. -/
inductive Moved (c : Setting) (w : World) : Event → Output → World → Prop where
  | finished (round : Nat) (starting : w.client = .starting round) (last : more c.args round = false) :
      Moved c w .getMessage .quiet {w with client := .ended .ok}
  | unmade (round : Nat) (starting : w.client = .starting round) (again : more c.args round = true)
      (missing : c.messages round = none) :
      Moved c w .getMessage .quiet {w with client := .ended .error}
  | begun (round : Nat) (message : Slice) (starting : w.client = .starting round)
      (again : more c.args round = true) (made : c.messages round = some message) :
      Moved c w .getMessage .quiet
        {w with client := .writing round message (startWriting message.bytes c.args.bufSize.toNat) 0}
  | copied (round : Nat) (message : Slice) (s : Writing) (before n : Nat)
      (writing : w.client = .writing round message s before) (some_byte : 0 < n)
      (inside : before + n ≤ (offered message.bytes s).length) (room : w.up.length + n ≤ c.upRoom) :
      Moved c w (.copy n) (.sent round (((offered message.bytes s).drop before).take n))
        {w with
          client := .writing round message s (before + n)
          up := w.up ++ ((offered message.bytes s).drop before).take n}
  | wrote (round : Nat) (message : Slice) (s : Writing) (before : Nat) (ok : Bool)
      (writing : w.client = .writing round message s before)
      (returned : returns ok before (offered message.bytes s) = true) :
      Moved c w (.wrote ok) (.wrote ((offered message.bytes s).length - before))
        {w with
          client := afterWrite c.args round message
            (writeTurn c.checked (fun _ => sendOf ok before) message.bytes c.args.bufSize.toNat s)}
  | broken (round : Nat) (message : Slice) (totalRead : Nat)
      (reading : w.client = .reading round message totalRead) :
      Moved c w (.read .error) .quiet {w with client := .ended .error}
  | closed (round : Nat) (message : Slice) (totalRead : Nat)
      (reading : w.client = .reading round message totalRead)
      (gone : (w.server = .disconnected ∧ w.down = []) ∨ c.args.bufSize = 0) :
      Moved c w (.read .closed) .quiet {w with client := .starting (round + 1)}
  | got (round : Nat) (message : Slice) (totalRead n : Nat)
      (reading : w.client = .reading round message totalRead) (some_byte : 0 < n)
      (fits : n ≤ c.args.bufSize.toNat) (there : n ≤ w.down.length) :
      Moved c w (.read (.bytes n)) (.got round (w.down.take n))
        {w with client := afterRead round message (totalRead + n), down := w.down.drop n}
  | serverBroken (waiting : w.server = .waiting) : Moved c w (.serverRead .error) .quiet w
  | serverClosed (waiting : w.server = .waiting)
      (gone : (hasEnded w.client = true ∧ w.up = []) ∨ c.serverBuf = 0) :
      Moved c w (.serverRead .closed) .quiet {w with server := .disconnected}
  | serverGot (n : Nat) (waiting : w.server = .waiting) (some_byte : 0 < n) (fits : n ≤ c.serverBuf)
      (there : n ≤ w.up.length) :
      Moved c w (.serverRead (.bytes n)) .quiet {w with server := .holding (w.up.take n) 0, up := w.up.drop n}
  | serverCopied (bytes : Bytes) (before n : Nat) (holding : w.server = .holding bytes before)
      (some_byte : 0 < n) (inside : before + n ≤ bytes.length) (room : w.down.length + n ≤ c.downRoom) :
      Moved c w (.serverCopy n) .quiet
        {w with server := .holding bytes (before + n), down := w.down ++ (bytes.drop before).take n}
  | serverWrote (bytes : Bytes) (before : Nat) (ok : Bool) (holding : w.server = .holding bytes before)
      (returned : returns ok before bytes = true) :
      Moved c w (.serverWrote ok) (.lost (bytes.drop before)) {w with server := .waiting}

theorem clientMoved {c : Setting} {w w' : World} {e : Event} {out : Output}
    (moved : clientStep c w e = some (w',out)) : Moved c w e out w' := by
  cases e with
  | getMessage =>
    simp only [clientStep] at moved
    split at moved
    · rename_i round starting
      split at moved
      · rename_i again
        split at moved
        · rename_i missing
          cases moved
          exact .unmade round starting again missing
        · rename_i message made
          cases moved
          exact .begun round message starting again made
      · rename_i last
        cases moved
        exact .finished round starting (Bool.not_eq_true _ ▸ last)
    · contradiction
  | copy n =>
    simp only [clientStep] at moved
    split at moved
    · rename_i round message s before writing
      split at moved
      · rename_i fine
        cases moved
        exact .copied round message s before n writing fine.1 fine.2.1 fine.2.2
      · contradiction
    · contradiction
  | wrote ok =>
    simp only [clientStep] at moved
    split at moved
    · rename_i round message s before writing
      split at moved
      · rename_i returned
        cases moved
        exact .wrote round message s before ok writing returned
      · contradiction
    · contradiction
  | read result =>
    simp only [clientStep] at moved
    split at moved
    · rename_i round message totalRead reading
      cases result with
      | error =>
        cases moved
        exact .broken round message totalRead reading
      | closed =>
        dsimp only at moved
        split at moved
        · rename_i gone
          cases moved
          exact .closed round message totalRead reading gone
        · contradiction
      | bytes n =>
        dsimp only at moved
        split at moved
        · rename_i fine
          cases moved
          exact .got round message totalRead n reading fine.1 fine.2.1 fine.2.2
        · contradiction
    · contradiction
  | serverRead result => contradiction
  | serverCopy n => contradiction
  | serverWrote ok => contradiction

theorem serverMoved {c : Setting} {w w' : World} {e : Event} {out : Output}
    (moved : serverStep c w e = some (w',out)) : Moved c w e out w' := by
  cases e with
  | serverRead result =>
    simp only [serverStep] at moved
    split at moved
    · rename_i waiting
      cases result with
      | error =>
        cases moved
        exact .serverBroken waiting
      | closed =>
        dsimp only at moved
        split at moved
        · rename_i gone
          cases moved
          exact .serverClosed waiting gone
        · contradiction
      | bytes n =>
        dsimp only at moved
        split at moved
        · rename_i fine
          cases moved
          exact .serverGot n waiting fine.1 fine.2.1 fine.2.2
        · contradiction
    · contradiction
  | serverCopy n =>
    simp only [serverStep] at moved
    split at moved
    · rename_i bytes before holding
      split at moved
      · rename_i fine
        cases moved
        exact .serverCopied bytes before n holding fine.1 fine.2.1 fine.2.2
      · contradiction
    · contradiction
  | serverWrote ok =>
    simp only [serverStep] at moved
    split at moved
    · rename_i bytes before holding
      split at moved
      · rename_i returned
        cases moved
        exact .serverWrote bytes before ok holding returned
      · contradiction
    · contradiction
  | getMessage => contradiction
  | copy n => contradiction
  | wrote ok => contradiction
  | read result => contradiction

theorem stepMoved {c : Setting} {w w' : World} {e : Event} {out : Output}
    (moved : step c w e = some (w',out)) : Moved c w e out w' := by
  rcases Option.or_eq_some_iff.mp moved with client | ⟨_,server⟩
  · exact clientMoved client
  · exact serverMoved server

/- The bytes on the way: to the client, in the server's buffer, to the server. -/
def inHand : Server → Bytes
  | .holding bytes copied => bytes.drop copied
  | _ => []

section
variable {c : Setting} {log : History} {w : World}

end

def succeeds : Event → Bool
  | .wrote ok => ok
  | .read result => decide (result ≠ .error)
  | .serverRead result => decide (result ≠ .error)
  | _ => true

def takesAll : Output → Bool
  | .wrote missing => decide (missing = 0)
  | .lost bytes => bytes.isEmpty
  | _ => true

def fine (e : Event) (out : Output) : Bool := succeeds e && takesAll out

/- A stream has reported an error, or a write has taken a part of what it was offered. -/
def Marred (log : History) : Prop := ∃ t ∈ log, fine t.event t.out = false

/- The server has written all that it has read. -/
def Lossless (log : History) : Prop := ∀ t ∈ log, ∀ bytes, t.out = .lost bytes → bytes = []

/- Some bytes of a list in their order, and all of them if the server loses none. -/
structure Kept (log : History) (some_bytes all : Bytes) : Prop where
  order : some_bytes.Sublist all
  whole : Lossless log → some_bytes = all

/- Rounds before this one are over and later ones have not begun. -/
structure Past (c : Setting) (log : History) (round : Nat) : Prop where
  earlier : ∀ j < round, ∃ message, c.messages j = some message ∧ more c.args j = true ∧
    message.bytes ≠ [] ∧ sentIn j log = message.bytes ∧ gotIn j log = message.bytes
  later : ∀ j, round < j → sentIn j log = [] ∧ gotIn j log = []

def Placing (c : Setting) (log : History) (message : Slice) (s : Writing) : Prop :=
  Whole message.bytes c.args.bufSize.toNat s ∨ (Lost c.args.bufSize.toNat s ∧ Marred log)

theorem Marred.later {log : History} {t : Transition World Event Output} (marred : Marred log) :
    Marred (t :: log) := by
  obtain ⟨old,member,spoilt⟩ := marred
  exact ⟨old,List.mem_cons_of_mem t member,spoilt⟩

theorem Lossless.before {log : History} {t : Transition World Event Output} (lossless : Lossless (t :: log)) :
    Lossless log := fun old member => lossless old (List.mem_cons_of_mem t member)

/- A step that concerns this round only, or none. -/
theorem Past.step {c : Setting} {log : History} {round : Nat} {t : Transition World Event Output}
    (past : Past c log round)
    (here : ∀ j, j ≠ round → sentIn j (t :: log) = sentIn j log ∧ gotIn j (t :: log) = gotIn j log) :
    Past c (t :: log) round := by
  refine ⟨fun j before => ?_,fun j after => ?_⟩
  · obtain ⟨message,made,again,some_byte,sent,got⟩ := past.earlier j before
    obtain ⟨sameSent,sameGot⟩ := here j (Nat.ne_of_lt before)
    exact ⟨message,made,again,some_byte,sameSent.trans sent,sameGot.trans got⟩
  · obtain ⟨sameSent,sameGot⟩ := here j (Nat.ne_of_gt after)
    rw [sameSent,sameGot]
    exact past.later j after

section
variable {checked : Bool} {writes : Nat → Send} {bytes : Bytes} {chunkSize : Nat} {s : Writing}

end

section
variable {c : Setting} {log : History} {w : World} {onWay : Bytes} {round : Nat} {message : Slice} {s : Writing}
  {copied : Nat}

theorem Kept.later {t : Transition World Event Output} {some_bytes all : Bytes} (kept : Kept log some_bytes all) :
    Kept (t :: log) some_bytes all :=
  ⟨kept.order,fun lossless => kept.whole lossless.before⟩

theorem Kept.more {t : Transition World Event Output} {some_bytes all : Bytes} (kept : Kept log some_bytes all)
    (bytes : Bytes) : Kept (t :: log) (some_bytes ++ bytes) (all ++ bytes) :=
  ⟨kept.order.append (List.Sublist.refl bytes),fun lossless => congrArg (· ++ bytes) (kept.whole lossless.before)⟩

theorem Placing.later {t : Transition World Event Output} (placing : Placing c log message s) :
    Placing c (t :: log) message s :=
  placing.imp id (fun lost => ⟨lost.1,lost.2.later⟩)

end

section
variable {c : Setting} {log : History} {w : World}

/- Each message that is due has some byte, and as many as the kernel has room for
in both directions, and one in the hand of the server, at most. -/
structure Fits (c : Setting) : Prop where
  up : 0 < c.upRoom
  down : 0 < c.downRoom
  messages : ∀ round, more c.args round = true → ∃ message, c.messages round = some message ∧
    message.bytes ≠ [] ∧ message.bytes.length ≤ c.upRoom + c.downRoom + 1

theorem Placing.whole {message : Slice} {s : Writing} (placing : Placing c log message s)
    (clean : ¬ Marred log) : Whole message.bytes c.args.bufSize.toNat s := by
  rcases placing with whole | ⟨_,marred⟩
  · exact whole
  · exact absurd marred clean

section
variable {round copied totalRead : Nat} {message : Slice} {s : Writing}

end

end

end NetworkPrograms.EchoService
