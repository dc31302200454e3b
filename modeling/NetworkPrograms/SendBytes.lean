import NetworkPrograms.Loops
import NetworkPrograms.PartialSends

/-! send_bytes of registry.c, which it has from h1-counter.c: a buffer handed to
the socket in as many sends as it takes. -/
namespace NetworkPrograms.SendBytes
open WireBytes Loops PartialSends

/- `total_sent`, the sends made so far and what the socket has taken. -/
structure Sending where
  calls : Nat
  totalSent : Nat
  wire : Bytes

structure Returned where
  code : Int
  wire : Bytes
  deriving DecidableEq, Repr

/- One turn of `while (total_sent < length)`; `buff` is as long as `length` says. -/
def sendTurn (sends : Nat → Send) (buff : Bytes) (s : Sending) : Turn Sending Returned :=
  if s.totalSent < buff.length then
    let offered := buff.drop s.totalSent
    let sent := (sends s.calls).result offered.length
    if sent < 0 then .leave ⟨-1,s.wire⟩
    else .next ⟨s.calls + 1,s.totalSent + sent.toNat,s.wire ++ offered.take sent.toNat⟩
  else .leave ⟨0,s.wire⟩

def sendLoop (sends : Nat → Send) (buff : Bytes) : Returned → Prop :=
  Returns (sendTurn sends buff) ⟨0,0,[]⟩

def Registry.sendBytes (sends : Nat → Send) (buff : Bytes) : Returned → Prop := sendLoop sends buff

def H1Counter.sendBytes (sends : Nat → Send) (bytes : Bytes) : Returned → Prop := sendLoop sends bytes

/- Behind any number of turns: the sends that were called have not failed, and the
socket has taken what they took, from the front of the buffer. -/
structure Underway (sends : Nat → Send) (buff : Bytes) (s : Sending) : Prop where
  called : ∀ j < s.calls, Called sends buff.length j ∧ sends j ≠ .failed
  total : s.totalSent = sentBefore sends buff.length s.calls
  wire : s.wire = buff.take s.totalSent

theorem turnCalls {sends : Nat → Send} {buff : Bytes} {s : Sending} (underway : Underway sends buff s)
    (left : s.totalSent < buff.length) : Called sends buff.length s.calls :=
  ⟨fun j before => (underway.called j before).2,underway.total ▸ left⟩

theorem sendKept {sends : Nat → Send} {buff : Bytes} {s s' : Sending} (underway : Underway sends buff s)
    (moved : sendTurn sends buff s = .next s') :
    Underway sends buff s' ∧ buff.length - s'.totalSent < buff.length - s.totalSent := by
  unfold sendTurn at moved
  split at moved
  · rename_i left
    dsimp only at moved
    split at moved
    · contradiction
    rename_i positive
    have called := turnCalls underway left
    have fine : sends s.calls ≠ .failed := mt resultNegative.mpr positive
    have offered : (buff.drop s.totalSent).length = buff.length - s.totalSent := List.length_drop
    rw [resultFine fine,offered,Int.toNat_natCast] at moved
    have some_byte := takenSome fine (Nat.sub_pos_of_lt left)
    cases moved
    refine ⟨⟨?_,?_,?_⟩,?_⟩
    · exact Nat.forall_lt_succ_right.mpr ⟨underway.called,called,fine⟩
    · rw [sentBefore,← underway.total]
    · rw [underway.wire,← List.take_add]
    · dsimp only
      omega
  · contradiction

/- Everything send_bytes can come to. -/
inductive Came (sends : Nat → Send) (buff : Bytes) : Returned → Prop where
  | sent (fine : ¬ FailsFirst sends buff.length) : Came sends buff ⟨0,buff⟩
  | failed {k} (called : Called sends buff.length k) (failed : sends k = .failed) :
      Came sends buff ⟨-1,buff.take (sentBefore sends buff.length k)⟩

theorem sendLeft {sends : Nat → Send} {buff : Bytes} {s : Sending} {r : Returned}
    (underway : Underway sends buff s) (left : sendTurn sends buff s = .leave r) : Came sends buff r := by
  unfold sendTurn at left
  split at left
  · rename_i more
    dsimp only at left
    split at left
    · rename_i negative
      have called := turnCalls underway more
      have failed := resultNegative.mp negative
      cases left
      rw [underway.wire,underway.total]
      exact .failed called failed
    · contradiction
  · rename_i whole
    cases left
    have all : sentBefore sends buff.length s.calls = buff.length :=
      Nat.le_antisymm (sentWithin _ _ _) (underway.total ▸ Nat.le_of_not_lt whole)
    rw [underway.wire,List.take_of_length_le (Nat.le_of_not_lt whole)]
    exact .sent (wholeFine (fun j before => (underway.called j before).2) all)

theorem sendLoopCame (sends : Nat → Send) (buff : Bytes) :
    ∃ r, sendLoop sends buff r ∧ Came sends buff r :=
  returns (fun s => buff.length - s.totalSent) (fun _ _ => sendKept) (fun _ _ => sendLeft)
    ⟨nofun,rfl,rfl⟩

/- What a caller of send_bytes may rely on. -/
structure HandsOver (sends : Nat → Send) (buff : Bytes) (sendBytes : Returned → Prop) : Prop where
  ends : ∃ r, sendBytes r
  codes : ∀ r, sendBytes r → r.code = 0 ∨ r.code = -1
  whole : ∀ r, sendBytes r → (r.code = 0 ↔ r.wire = buff)
  failed : ∀ r, sendBytes r → (r.code = -1 ↔ FailsFirst sends buff.length)
  part : ∀ r, sendBytes r → r.code = -1 → r.wire <+: buff ∧ r.wire ≠ buff

theorem cameExact {sends : Nat → Send} {buff : Bytes} {r : Returned} (came : Came sends buff r) :
    (r.code = 0 ∧ r.wire = buff ∧ ¬ FailsFirst sends buff.length) ∨
    (r.code = -1 ∧ FailsFirst sends buff.length ∧ r.wire <+: buff ∧ r.wire ≠ buff) := by
  cases came with
  | sent fine => exact .inl ⟨rfl,rfl,fine⟩
  | @failed k called failed =>
    refine .inr ⟨rfl,⟨k,called,failed⟩,List.take_prefix _ _,?_⟩
    intro same
    have size := congrArg List.length same
    have missing := called.left
    rw [List.length_take] at size
    omega

theorem sendLoopExact (sends : Nat → Send) (buff : Bytes) :
    HandsOver sends buff (sendLoop sends buff) := by
  obtain ⟨r,done,came⟩ := sendLoopCame sends buff
  rcases cameExact came with ⟨zero,whole,fine⟩ | ⟨minus,fails,part,proper⟩
  · exact ⟨⟨r,done⟩,returnsOnly done (.inl zero),returnsOnly done (iff_of_true zero whole),
      returnsOnly done (iff_of_false (by omega) fine),
      returnsOnly done (fun minus => absurd minus (by omega))⟩
  · exact ⟨⟨r,done⟩,returnsOnly done (.inr minus),returnsOnly done (iff_of_false (by omega) proper),
      returnsOnly done (iff_of_true minus fails),returnsOnly done (fun _ => ⟨part,proper⟩)⟩

theorem sendBytesExact (sends : Nat → Send) (buff : Bytes) :
    HandsOver sends buff (Registry.sendBytes sends buff) ∧
      HandsOver sends buff (H1Counter.sendBytes sends buff) :=
  ⟨sendLoopExact sends buff,sendLoopExact sends buff⟩

/- Seen from outside it is all of the buffer, or an error after a part of it. -/
theorem sendBytesWritten {sends : Nat → Send} {buff : Bytes} {r : Returned}
    (done : Registry.sendBytes sends buff r) :
    ∃ write, r.wire = onWire buff write ∧ (r.code = 0 ↔ write = .all) := by
  have exact_loop := sendLoopExact sends buff
  rcases exact_loop.codes r done with zero | minus
  · exact ⟨.all,(exact_loop.whole r done).mp zero,iff_of_true zero rfl⟩
  · obtain ⟨part,_⟩ := exact_loop.part r done minus
    refine ⟨.failed r.wire.length,List.prefix_iff_eq_take.mp part,iff_of_false (by omega) nofun⟩

end NetworkPrograms.SendBytes
