import NetworkPrograms.ByteStreams
import NetworkPrograms.H1Counter
import NetworkPrograms.Loops

/-! main of h1-counter.c from its buffer size on: parse_ul, and the loop that
receives the response and counts the tags, in both of its modes. -/
namespace NetworkPrograms.H1Reader
open WireBytes ByteStreams Loops H1Counter

/- The two values of errno that parse_ul looks for, and the others. -/
inductive Errno where
  | erange
  | einval
  | other
  deriving DecidableEq, Repr

def isSpace (b : UInt8) : Bool := b = 32 ∨ (9 ≤ b ∧ b ≤ 13)

/- The value of a digit, or 36, which no base has. -/
def digit (b : UInt8) : Nat :=
  if 48 ≤ b ∧ b ≤ 57 then b.toNat - 48
  else if 97 ≤ b ∧ b ≤ 122 then b.toNat - 87
  else if 65 ≤ b ∧ b ≤ 90 then b.toNat - 55
  else 36

def scanDigits (base : Nat) : Bytes → (n : Nat) → Nat × Bytes
  | [], n => (n,[])
  | b :: rest, n => if digit b < base then scanDigits base rest (n * base + digit b) else (n,b :: rest)

def scanSign : Bytes → Bool × Bytes
  | [] => (false,[])
  | b :: rest => if b = 45 then (true,rest) else if b = 43 then (false,rest) else (false,b :: rest)

/- Base 0: "0x" before a digit is for 16 and "0" for 8. -/
def scanBase (text : Bytes) : Nat × Bytes :=
  match text with
  | zero :: x :: b :: rest =>
      if zero = 48 ∧ (x = 120 ∨ x = 88) ∧ digit b < 16 then (16,b :: rest)
      else if zero = 48 then (8,text)
      else (10,text)
  | zero :: _ => if zero = 48 then (8,text) else (10,text)
  | [] => (10,text)

/- strtoul with base 0: the value, what endptr is left at and whether errno is set
to ERANGE. Without a digit nothing is read. -/
def strtoul (str : Bytes) : UInt64 × Bytes × Bool :=
  let (negative,text) := scanSign (str.dropWhile isSpace)
  let (base,digits) := scanBase text
  let (n,rest) := scanDigits base digits 0
  if rest.length = digits.length then (0,str,false)
  else if 18446744073709551616 ≤ n then (18446744073709551615,rest,true)
  else (if negative then 0 - UInt64.ofNat n else UInt64.ofNat n,rest,false)

/- `errno` is what it was before the call. -/
def parseUl (errno : Errno) (str : Bytes) : Option UInt64 :=
  match strtoul str with
  | (value,rest,range) =>
      let errno := if range then .erange else errno
      if rest ≠ [] then none
      else if (value = 18446744073709551615 ∧ errno = .erange) ∨ errno = .einval then none
      else some value

/- The variables of the loop; `filling` says that it is in the inner one. The
response is what is still to be received, and ends where recv returns 0 or -1. -/
structure Reading where
  filling : Bool
  response : List Bytes
  buffer : Bytes
  fillRead : Nat
  totalRead : UInt64
  needleCount : UInt64

structure Printed where
  needleCount : UInt64
  totalRead : UInt64
  deriving DecidableEq, Repr

def countTags (buffer : Bytes) (fillRead : Nat) : UInt64 :=
  UInt64.ofNat (countOccurances (buffer.take fillRead) tag)

def endMainLoop (fillBuffer : Bool) (s : Reading) : Printed :=
  if fillBuffer ∧ 0 < s.fillRead then ⟨s.needleCount + countTags s.buffer s.fillRead,s.totalRead⟩
  else ⟨s.needleCount,s.totalRead⟩

/- One turn of the inner loop if it is in it, else of the outer one. -/
def readTurn (fillBuffer : Bool) (bufferLen : Nat) (s : Reading) : Turn Reading Printed :=
  if s.filling then
    if s.fillRead ≠ bufferLen then
      let (read,response) := readUpTo (bufferLen - s.fillRead) s.response
      if read = [] then .leave (endMainLoop fillBuffer s)
      else .next {s with
        response := response
        buffer := overwrite s.buffer s.fillRead read
        fillRead := s.fillRead + read.length
        totalRead := s.totalRead + UInt64.ofNat read.length}
    else .next {s with
      filling := false
      needleCount := s.needleCount + countTags s.buffer s.fillRead}
  else if fillBuffer then .next {s with filling := true, fillRead := 0}
  else
    let (read,response) := readUpTo bufferLen s.response
    if read = [] then .leave (endMainLoop fillBuffer s)
    else .next {s with
      response := response
      buffer := overwrite s.buffer 0 read
      fillRead := read.length
      totalRead := s.totalRead + UInt64.ofNat read.length
      needleCount := s.needleCount + countTags (overwrite s.buffer 0 read) read.length}

/- The buffer holds whatever malloc has given it. -/
def mainLoop (fillBuffer : Bool) (bufferSize : UInt64) (buffer : Bytes) (response : List Bytes) :
    Printed → Prop :=
  Returns (readTurn fillBuffer bufferSize.toNat) ⟨false,response,buffer,0,0,0⟩

/- The kinds of turn there are, in the inner loop and outside of it. -/
inductive Turned (fillBuffer : Bool) (bufferLen : Nat) (s : Reading) : Turn Reading Printed → Prop where
  | fills (inner : s.filling = true) (more : s.fillRead ≠ bufferLen)
      (some_byte : (readUpTo (bufferLen - s.fillRead) s.response).1 ≠ []) :
      Turned fillBuffer bufferLen s (.next {s with
        response := (readUpTo (bufferLen - s.fillRead) s.response).2
        buffer := overwrite s.buffer s.fillRead (readUpTo (bufferLen - s.fillRead) s.response).1
        fillRead := s.fillRead + (readUpTo (bufferLen - s.fillRead) s.response).1.length
        totalRead := s.totalRead + UInt64.ofNat (readUpTo (bufferLen - s.fillRead) s.response).1.length})
  | ends (inner : s.filling = true) (more : s.fillRead ≠ bufferLen)
      (ended : (readUpTo (bufferLen - s.fillRead) s.response).1 = []) :
      Turned fillBuffer bufferLen s (.leave (endMainLoop fillBuffer s))
  | counts (inner : s.filling = true) (full : s.fillRead = bufferLen) :
      Turned fillBuffer bufferLen s (.next {s with
        filling := false
        needleCount := s.needleCount + countTags s.buffer s.fillRead})
  | begins (outer : s.filling = false) (fill : fillBuffer = true) :
      Turned fillBuffer bufferLen s (.next {s with filling := true, fillRead := 0})
  | reads (outer : s.filling = false) (part : fillBuffer = false)
      (some_byte : (readUpTo bufferLen s.response).1 ≠ []) {buffer fillRead totalRead needleCount} :
      Turned fillBuffer bufferLen s (.next
        ⟨s.filling,(readUpTo bufferLen s.response).2,buffer,fillRead,totalRead,needleCount⟩)
  | stops (outer : s.filling = false) (part : fillBuffer = false) :
      Turned fillBuffer bufferLen s (.leave (endMainLoop fillBuffer s))

theorem readTurned (fillBuffer : Bool) (bufferLen : Nat) (s : Reading) :
    Turned fillBuffer bufferLen s (readTurn fillBuffer bufferLen s) := by
  unfold readTurn
  split
  · rename_i inner
    split
    · rename_i more
      dsimp only
      split
      · rename_i ended
        exact .ends inner more ended
      · rename_i some_byte
        exact .fills inner more some_byte
    · rename_i full
      exact .counts inner (Decidable.not_not.mp full)
  · rename_i outer
    have outside := Bool.eq_false_of_not_eq_true outer
    split
    · rename_i fill
      exact .begins outside fill
    · rename_i part
      dsimp only
      split
      · exact .stops outside (Bool.eq_false_of_not_eq_true part)
      · rename_i some_byte
        exact .reads outside (Bool.eq_false_of_not_eq_true part) some_byte

/- Turns left at most, if each recv brings one byte and ends the filling. -/
def turnsLeft (bufferLen : Nat) (s : Reading) : Nat :=
  3 * s.response.flatten.length +
    if s.filling then (if s.fillRead = bufferLen then 2 else 0) else 1

theorem readLower {room : Nat} {response : List Bytes} (some_byte : (readUpTo room response).1 ≠ []) :
    (readUpTo room response).2.flatten.length < response.flatten.length := by
  have ahead := congrArg List.length (readAhead room response)
  have positive := List.length_pos_iff.mpr some_byte
  rw [List.length_append] at ahead
  omega

/- A turn that goes on has received something, or brings the next recv closer;
only a buffer without room keeps the inner loop from calling it. -/
theorem turnLower {fillBuffer : Bool} {bufferLen : Nat} (calls : fillBuffer = false ∨ bufferLen ≠ 0)
    {s s' : Reading} (moved : readTurn fillBuffer bufferLen s = .next s') :
    turnsLeft bufferLen s' < turnsLeft bufferLen s := by
  have turned : Turned fillBuffer bufferLen s (.next s') := moved ▸ readTurned fillBuffer bufferLen s
  unfold turnsLeft
  cases turned with
  | fills inner more some_byte =>
    have lower := readLower some_byte
    dsimp only
    rw [if_pos inner]
    split
    · omega
    · omega
  | counts inner full =>
    dsimp only
    rw [if_pos inner,if_pos full]
    exact Nat.lt_succ_self _
  | begins outer fill =>
    have room : bufferLen ≠ 0 := calls.resolve_left (by simp [fill])
    dsimp only
    rw [outer,if_pos rfl,if_neg (Ne.symm room)]
    exact Nat.lt_succ_self _
  | reads outer part some_byte =>
    have lower := readLower some_byte
    dsimp only
    rw [outer,if_neg Bool.false_ne_true,if_neg Bool.false_ne_true]
    omega

theorem mainLoopEnds {fillBuffer : Bool} {bufferSize : UInt64}
    (calls : fillBuffer = false ∨ bufferSize.toNat ≠ 0) (buffer : Bytes) (response : List Bytes) :
    ∃ printed, mainLoop fillBuffer bufferSize buffer response printed := by
  obtain ⟨printed,done,_⟩ := @returns _ _ _ (fun _ => True) (fun _ => True)
    (turnsLeft bufferSize.toNat) (fun _ _ _ moved => ⟨trivial,turnLower calls moved⟩)
    (fun _ _ _ _ => trivial) ⟨false,response,buffer,0,0,0⟩ trivial
  exact ⟨printed,done⟩

/- Without room in the buffer the inner loop is over before it begins. -/
theorem mainLoopForever (buffer : Bytes) (response : List Bytes) (printed : Printed) :
    ¬ mainLoop true 0 buffer response printed := by
  have kept : ∀ s : Reading, (s.filling = true → s.fillRead = 0) →
      ∃ s', readTurn true 0 s = .next s' ∧ (s'.filling = true → s'.fillRead = 0) := by
    intro s empty
    cases filling : s.filling with
    | true =>
      refine ⟨{s with filling := false, needleCount := s.needleCount + countTags s.buffer s.fillRead},?_,?_⟩
      · rw [readTurn,if_pos filling,if_neg (not_not_intro (empty filling))]
      · intro inner
        contradiction
    | false =>
      refine ⟨{s with filling := true, fillRead := 0},?_,fun _ => rfl⟩
      rw [readTurn,if_neg (by simp [filling]),if_pos rfl]
  have start : ∀ s : Reading, s.filling = false → s.filling = true → s.fillRead = 0 := by
    intro s outside inner
    rw [outside] at inner
    contradiction
  exact forever kept (start _ rfl) printed

theorem mainLoopEndsIff (errno : Errno) (str : Bytes) :
    ∀ bufferSize, parseUl errno str = some bufferSize →
      ∀ (fillBuffer : Bool) (buffer : Bytes) (response : List Bytes),
        (∃ printed, mainLoop fillBuffer bufferSize buffer response printed) ↔
          fillBuffer = false ∨ bufferSize ≠ 0 := by
  intro bufferSize _ fillBuffer buffer response
  constructor
  · intro ⟨printed,done⟩
    cases mode : fillBuffer with
    | false => exact .inl rfl
    | true =>
      refine .inr (fun zero => ?_)
      rw [mode,zero] at done
      exact mainLoopForever buffer response printed done
  · intro calls
    refine mainLoopEnds (calls.imp_right (fun some_room zero => some_room ?_)) buffer response
    exact UInt64.toNat_inj.mp zero

/- "4" -/
theorem mainLoopEndsFour : ∃ printed, mainLoop true 4 [0,0,0,0] [[60,104],[49,62,97]] printed :=
  (mainLoopEndsIff .other [52] 4 (by decide) true [0,0,0,0] [[60,104],[49,62,97]]).mpr (.inr (by decide))

/- "0" is accepted, and not even the end of the response is noticed. -/
theorem mainLoopStuck : parseUl .other [48] = some 0 ∧ ¬ ∃ printed, mainLoop true 0 [] [] printed :=
  ⟨by decide,fun ⟨printed,done⟩ => mainLoopForever [] [] printed done⟩

/- What the tags of these blocks come to, block by block. -/
def tagsIn (parts : List Bytes) : Nat := (parts.map (fun block => countOccurances block tag)).sum

/- What the inner loop has put into the buffer so far. -/
def Reading.part (s : Reading) : Bytes := if s.filling then s.buffer.take s.fillRead else []

/- The response is the blocks that have been counted, the part of the next one and
what is still to come. -/
structure Filled (size : Nat) (stream : Bytes) (counted : List Bytes) (s : Reading) : Prop where
  sized : ∀ block ∈ counted, block.length = size
  arrived : stream = counted.flatten ++ (s.part ++ s.response.flatten)
  tags : s.needleCount = UInt64.ofNat (tagsIn counted)
  bytes : s.totalRead = UInt64.ofNat (counted.flatten ++ s.part).length
  room : s.buffer.length = size
  within : s.filling = true → s.fillRead ≤ size
  filled : ∀ piece ∈ s.response, piece ≠ []

end NetworkPrograms.H1Reader
