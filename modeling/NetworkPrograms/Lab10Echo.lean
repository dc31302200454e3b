import NetworkPrograms.EventMachine
import NetworkPrograms.WireBytes

/-! echo.c of lab_10: pselect watches the descriptor of the standard input, fgets reads
through the buffer of stdio in front of it. What lies in that buffer pselect does not
see. -/
namespace NetworkPrograms.Lab10Echo
open WireBytes EventMachine

/- fgets(input,255,stdin) stores at most 254 bytes. -/
def lineMost : Nat := 254

/- Where the program stands: in pselect, in fgets with the bytes stored so far, or at
its end, with what fgets had stored when it failed. -/
inductive Phase where
  | selecting
  | reading (line : Bytes)
  | ended (line : Bytes)
  deriving DecidableEq, Repr

/- `kernel` has arrived and has not been read, `stdio` has been read and not been
stored by an fgets; `given` are the lines printed. -/
structure World where
  phase : Phase
  stdio : Bytes
  kernel : Bytes
  closed : Bool
  given : List Bytes
  deriving DecidableEq, Repr

inductive Event where
  | arrive (bytes : Bytes)
  | close
  | ready
  | timedOut
  | interrupted
  | read (n : Nat)
  | readEnd
  | readFailed
  deriving DecidableEq, Repr

/- What an fgets does with the buffer of stdio: the line, the buffer behind it, and
whether the line is done. -/
def absorb : (line stdio : Bytes) → Bytes × Bytes × Bool
  | line, [] => (line,[],decide (lineMost ≤ line.length))
  | line, b :: stdio =>
      if lineMost ≤ line.length then (line,b :: stdio,true)
      else if b = 10 then (line ++ [b],stdio,true)
      else absorb (line ++ [b]) stdio

/- fgets goes on with these bytes in the buffer. -/
def takeUp (w : World) (line stdio : Bytes) : World :=
  match absorb line stdio with
  | (line,stdio,true) => {w with phase := .selecting, stdio := stdio, given := w.given ++ [line]}
  | (line,stdio,false) => {w with phase := .reading line, stdio := stdio}

def step (w : World) : Event → Option (World × Unit)
  | .arrive bytes => if w.closed then none else some ({w with kernel := w.kernel ++ bytes},())
  | .close => some ({w with closed := true},())
  | .ready =>
      if w.phase = .selecting ∧ (w.kernel ≠ [] ∨ w.closed = true) then some (takeUp w [] w.stdio,())
      else none
  | .timedOut =>
      if w.phase = .selecting ∧ w.kernel = [] ∧ w.closed = false then
        some ({w with phase := .ended []},())
      else none
  | .interrupted => if w.phase = .selecting then some ({w with phase := .ended []},()) else none
  | .read n =>
      match w.phase with
      | .reading line =>
          if 0 < n ∧ n ≤ w.kernel.length then
            some (takeUp {w with kernel := w.kernel.drop n} line (w.stdio ++ w.kernel.take n),())
          else none
      | _ => none
  | .readEnd =>
      match w.phase with
      | .reading line =>
          if w.kernel = [] ∧ w.closed = true then
            -- fgets returns what it has, and NULL if that is nothing
            if line = [] then some ({w with phase := .ended []},())
            else some ({w with phase := .selecting, given := w.given ++ [line]},())
          else none
      | _ => none
  | .readFailed =>
      match w.phase with
      | .reading line => some ({w with phase := .ended line},())
      | _ => none

abbrev History := Log World Event Unit

def inHand : Phase → Bytes
  | .selecting => []
  | .reading line => line
  | .ended line => line

/- Everything that is in the program or on its way to it, in order. -/
def held (w : World) : Bytes := w.given.flatten ++ (inHand w.phase ++ (w.stdio ++ w.kernel))

def came : Event → Bytes
  | .arrive bytes => bytes
  | _ => []

end NetworkPrograms.Lab10Echo
