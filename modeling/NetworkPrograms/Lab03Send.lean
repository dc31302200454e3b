import NetworkPrograms.Loops
import NetworkPrograms.PartialSends

/-! send_bytes of lab_03, the same in server.c and client.c. What is to move the
pointer on, `*p += sent`, adds to the first byte of the buffer instead. -/
namespace NetworkPrograms.Lab03Send
open WireBytes Loops PartialSends

/- `*p += sent` on a uint8_t. -/
def bump (sent : Nat) : Bytes → Bytes
  | [] => []
  | b :: rest => (b + UInt8.ofNat sent) :: rest

structure Sending where
  calls : Nat
  bytes : Bytes
  length : Nat
  wire : Bytes

structure Returned where
  code : Int
  wire : Bytes
  bytes : Bytes
  deriving DecidableEq, Repr

/- One turn of `while (length > 0)`. -/
def sendTurn (sends : Nat → Send) (s : Sending) : Turn Sending Returned :=
  if 0 < s.length then
    let offered := s.bytes.take s.length
    let sent := (sends s.calls).result s.length
    if sent ≤ 0 then .leave ⟨-1,s.wire,s.bytes⟩
    else .next ⟨s.calls + 1,bump sent.toNat s.bytes,s.length - sent.toNat,s.wire ++ offered.take sent.toNat⟩
  else .leave ⟨0,s.wire,s.bytes⟩

def sendLoop (sends : Nat → Send) (bytes : Bytes) : Returned → Prop :=
  Returns (sendTurn sends) ⟨0,bytes,bytes.length,[]⟩

def Server.sendBytes (sends : Nat → Send) (bytes : Bytes) : Returned → Prop := sendLoop sends bytes

def Client.sendBytes (sends : Nat → Send) (bytes : Bytes) : Returned → Prop := sendLoop sends bytes

/- What the buffer and the socket are to hold when send_bytes returns. -/
structure Faithful (bytes : Bytes) (r : Returned) : Prop where
  sent : r.code = 0 → r.wire = bytes ∧ r.bytes = bytes
  failed : r.code = -1 → r.wire <+: bytes

/- The bytes that send number `k` is to take are those at the start of the buffer,
but for the first one, which is greater by what has been sent. -/
def Repeats (sends : Nat → Send) (bytes : Bytes) (k : Nat) : Prop :=
  ∀ i < (sends k).taken (bytes.length - sentBefore sends bytes.length k),
    bytes[sentBefore sends bytes.length k + i]? = (bump (sentBefore sends bytes.length k) bytes)[i]?

@[simp] theorem bumpLength (sent : Nat) (bytes : Bytes) : (bump sent bytes).length = bytes.length := by
  cases bytes with
  | nil => rfl
  | cons b rest => rfl

@[simp] theorem bumpZero (bytes : Bytes) : bump 0 bytes = bytes := by
  cases bytes with
  | nil => rfl
  | cons b rest => simp [bump]

theorem bumpTwice (first second : Nat) (bytes : Bytes) :
    bump second (bump first bytes) = bump (first + second) bytes := by
  cases bytes with
  | nil => rfl
  | cons b rest => simp [bump,UInt8.ofNat_add,UInt8.add_assoc]

/- Byte by byte or as a whole. -/
theorem repeatsIff {bytes other : Bytes} {offset n : Nat} :
    (∀ i < n, bytes[offset + i]? = other[i]?) ↔ other.take n = (bytes.drop offset).take n := by
  constructor
  · intro same
    refine List.ext_getElem? (fun i => ?_)
    rw [List.getElem?_take,List.getElem?_take,List.getElem?_drop]
    split
    · rename_i inside
      exact (same i inside).symm
    · rfl
  · intro same i inside
    have there := congrArg (fun part => part[i]?) same
    simpa [List.getElem?_take,inside] using there.symm

theorem bumpSame (bytes : Bytes) : bump bytes.length bytes = bytes ↔ bytes.length % 256 = 0 := by
  cases bytes with
  | nil => exact iff_of_true rfl rfl
  | cons b rest =>
    have byte : b + UInt8.ofNat (b :: rest).length = b ↔ (b :: rest).length % 256 = 0 := by
      rw [← UInt8.toNat_inj,UInt8.toNat_add,UInt8.toNat_ofNat']
      have small := b.toNat_lt
      omega
    rw [← byte,bump,List.cons.injEq]
    exact and_iff_left rfl

/- Behind any number of turns. What has been sent is right as long as every send
found the right bytes at the start of the buffer. -/
structure Underway (sends : Nat → Send) (bytes : Bytes) (s : Sending) : Prop where
  called : ∀ j < s.calls, Called sends bytes.length j ∧ sends j ≠ .failed
  held : s.bytes = bump (sentBefore sends bytes.length s.calls) bytes
  left : s.length = bytes.length - sentBefore sends bytes.length s.calls
  sized : s.wire.length = sentBefore sends bytes.length s.calls
  sound : s.wire = bytes.take (sentBefore sends bytes.length s.calls) ↔
    ∀ j < s.calls, Repeats sends bytes j

theorem turnCalls {sends : Nat → Send} {bytes : Bytes} {s : Sending} (underway : Underway sends bytes s)
    (left : 0 < s.length) : Called sends bytes.length s.calls := by
  refine ⟨fun j before => (underway.called j before).2,?_⟩
  have rest := underway.left
  omega

theorem sendKept {sends : Nat → Send} {bytes : Bytes} {s s' : Sending} (underway : Underway sends bytes s)
    (moved : sendTurn sends s = .next s') : Underway sends bytes s' ∧ s'.length < s.length := by
  unfold sendTurn at moved
  split at moved
  · rename_i left
    dsimp only at moved
    split at moved
    · contradiction
    rename_i positive
    have called := turnCalls underway left
    have fine : sends s.calls ≠ .failed := by
      intro failed
      rw [failed] at positive
      exact positive (Int.le_of_lt (Int.negSucc_lt_zero 0))
    rw [resultFine fine,Int.toNat_natCast] at moved
    have some_byte := takenSome fine left
    have most := takenMost s.length (sends s.calls)
    have rest := underway.left
    have within := sentWithin sends bytes.length s.calls
    have onward : sentBefore sends bytes.length (s.calls + 1) =
        sentBefore sends bytes.length s.calls + (sends s.calls).taken s.length := by
      rw [sentBefore,rest]
    have offered : (s.bytes.take s.length).take ((sends s.calls).taken s.length) =
        (bump (sentBefore sends bytes.length s.calls) bytes).take ((sends s.calls).taken s.length) := by
      rw [List.take_take,Nat.min_eq_left most,underway.held]
    cases moved
    refine ⟨⟨?_,?_,?_,?_,?_⟩,?_⟩
    · exact Nat.forall_lt_succ_right.mpr ⟨underway.called,called,fine⟩
    · dsimp only
      rw [underway.held,bumpTwice,onward]
    · dsimp only
      omega
    · dsimp only
      rw [List.length_append,offered,underway.sized,onward,List.length_take,bumpLength]
      omega
    · dsimp only
      rw [Nat.forall_lt_succ_right,← underway.sound,onward,List.take_add,offered]
      have here : Repeats sends bytes s.calls ↔
          (bump (sentBefore sends bytes.length s.calls) bytes).take ((sends s.calls).taken s.length) =
            (bytes.drop (sentBefore sends bytes.length s.calls)).take ((sends s.calls).taken s.length) := by
        rw [← repeatsIff,Repeats,rest]
      rw [here]
      constructor
      · intro same
        refine List.append_inj same ?_
        rw [underway.sized,List.length_take,Nat.min_eq_left within]
      · intro same
        rw [same.1,same.2]
    · dsimp only
      omega
  · contradiction

/- Everything send_bytes can come to, with what the sends were that it called. -/
inductive Came (sends : Nat → Send) (bytes : Bytes) : Returned → Prop where
  | sent {k wire} (called : ∀ j < k, Called sends bytes.length j ∧ sends j ≠ .failed)
      (all : sentBefore sends bytes.length k = bytes.length)
      (sound : wire = bytes ↔ ∀ j < k, Repeats sends bytes j) :
      Came sends bytes ⟨0,wire,bump bytes.length bytes⟩
  | failed {k wire held} (called : Called sends bytes.length k) (failed : sends k = .failed)
      (sound : wire <+: bytes ↔ ∀ j < k, Repeats sends bytes j) : Came sends bytes ⟨-1,wire,held⟩

theorem sendLeft {sends : Nat → Send} {bytes : Bytes} {s : Sending} {r : Returned}
    (underway : Underway sends bytes s) (left : sendTurn sends s = .leave r) : Came sends bytes r := by
  unfold sendTurn at left
  split at left
  · rename_i more
    dsimp only at left
    split at left
    · rename_i negative
      have called := turnCalls underway more
      cases left
      refine .failed called ?_ ?_
      · refine Classical.byContradiction (fun fine => ?_)
        have some_byte := takenSome fine more
        rw [resultFine fine] at negative
        omega
      · rw [← underway.sound,List.prefix_iff_eq_take,underway.sized]
    · contradiction
  · rename_i whole
    have all : sentBefore sends bytes.length s.calls = bytes.length := by
      have within := sentWithin sends bytes.length s.calls
      have rest := underway.left
      omega
    cases left
    rw [underway.held,all]
    refine .sent underway.called all ?_
    rw [← underway.sound,all,List.take_length]

theorem sendLoopCame (sends : Nat → Send) (bytes : Bytes) :
    ∃ r, sendLoop sends bytes r ∧ Came sends bytes r :=
  returns Sending.length (fun _ _ => sendKept) (fun _ _ => sendLeft)
    ⟨nofun,(bumpZero bytes).symm,rfl,rfl,iff_of_true rfl nofun⟩

/- The bytes of a buffer that lab_03 hands over as they are: each send finds them
at the start, and the first byte comes out even. -/
structure Fits (sends : Nat → Send) (bytes : Bytes) : Prop where
  repeats : ∀ k, Called sends bytes.length k → sends k ≠ .failed → Repeats sends bytes k
  even : ¬ FailsFirst sends bytes.length → bytes.length % 256 = 0

/- The sends that succeed are those below the last one. -/
theorem repeatsBelow {sends : Nat → Send} {bytes : Bytes} {k : Nat}
    (called : ∀ j < k, Called sends bytes.length j ∧ sends j ≠ .failed)
    (done : sentBefore sends bytes.length k = bytes.length ∨ sends k = .failed) :
    (∀ j < k, Repeats sends bytes j) ↔
      ∀ j, Called sends bytes.length j → sends j ≠ .failed → Repeats sends bytes j := by
  constructor
  · exact fun below j called fine => below j (calledBelow done called fine)
  · exact fun all j before => all j (called j before).1 (called j before).2

theorem cameFaithful {sends : Nat → Send} {bytes : Bytes} {r : Returned} (came : Came sends bytes r) :
    Faithful bytes r ↔ Fits sends bytes := by
  cases came with
  | @sent k wire called all sound =>
    have fine : ¬ FailsFirst sends bytes.length := wholeFine (fun j before => (called j before).2) all
    rw [repeatsBelow called (.inl all)] at sound
    constructor
    · intro faithful
      obtain ⟨whole,kept⟩ := faithful.sent rfl
      exact ⟨sound.mp whole,fun _ => (bumpSame bytes).mp kept⟩
    · intro fits
      refine ⟨fun _ => ⟨sound.mpr fits.repeats,(bumpSame bytes).mpr (fits.even fine)⟩,?_⟩
      intro code
      contradiction
  | @failed k wire held called failed sound =>
    have below : ∀ j < k, Called sends bytes.length j ∧ sends j ≠ .failed :=
      fun j before => ⟨calledEarlier called before,called.earlier j before⟩
    rw [repeatsBelow below (.inr failed)] at sound
    constructor
    · intro faithful
      exact ⟨sound.mp (faithful.failed rfl),fun fine => absurd ⟨k,called,failed⟩ fine⟩
    · intro fits
      refine ⟨?_,fun _ => sound.mpr fits.repeats⟩
      intro code
      contradiction

theorem sendLoopIff (sends : Nat → Send) (bytes : Bytes) :
    ∃ r, sendLoop sends bytes r ∧ (∀ r', sendLoop sends bytes r' → r' = r) ∧
      (Faithful bytes r ↔ Fits sends bytes) := by
  obtain ⟨r,done,came⟩ := sendLoopCame sends bytes
  exact ⟨r,done,returnsOnly done rfl,cameFaithful came⟩

theorem sendBytesFaithfulIff (sends : Nat → Send) (bytes : Bytes) :
    (∃ r, Server.sendBytes sends bytes r ∧ (∀ r', Server.sendBytes sends bytes r' → r' = r) ∧
      (Faithful bytes r ↔ Fits sends bytes)) ∧
    (∃ r, Client.sendBytes sends bytes r ∧ (∀ r', Client.sendBytes sends bytes r' → r' = r) ∧
      (Faithful bytes r ↔ Fits sends bytes)) :=
  ⟨sendLoopIff sends bytes,sendLoopIff sends bytes⟩

/- A reply of 8 bytes: taken at once it is sent as it is and comes back changed,
taken in halves the first half is sent twice. -/
theorem sendBytesChanges :
    (Server.sendBytes (fun _ => .room 8 (by decide)) [0,0,0,0,0,0,0,12]
        ⟨0,[0,0,0,0,0,0,0,12],[8,0,0,0,0,0,0,12]⟩ ∧
      ¬ Faithful [0,0,0,0,0,0,0,12] ⟨0,[0,0,0,0,0,0,0,12],[8,0,0,0,0,0,0,12]⟩) ∧
    (Server.sendBytes (fun _ => .room 4 (by decide)) [0,0,0,0,0,0,0,12]
        ⟨0,[0,0,0,0,4,0,0,0],[8,0,0,0,0,0,0,12]⟩ ∧
      ¬ Faithful [0,0,0,0,0,0,0,12] ⟨0,[0,0,0,0,4,0,0,0],[8,0,0,0,0,0,0,12]⟩) := by
  refine ⟨⟨.later rfl (.now rfl),?_⟩,⟨.later rfl (.later rfl (.now rfl)),?_⟩⟩
  · intro faithful
    exact absurd (faithful.sent rfl).2 (by decide)
  · intro faithful
    exact absurd (faithful.sent rfl).1 (by decide)

end NetworkPrograms.Lab03Send
