import NetworkPrograms.ByteStreams

/-! The adding service of lab_03: server.c and client.c over one connection. Both
ends read into the start of their buffer on every recv, so that a message counts
as received once its bytes have come but is put together only if it came whole. -/
namespace NetworkPrograms.Lab03
open WireBytes ByteStreams

def bufSize : Nat := 256

/- `while (total_read < wanted)`: the buffer, `total_read` and what is left to
receive; the list ends where recv has nothing more to return. -/
def recvLoop (wanted : Nat) : (pieces : List Bytes) → (recvBuffer : Bytes) → (totalRead : Nat) →
    Bytes × Nat × List Bytes
  | [], recvBuffer, totalRead => (recvBuffer,totalRead,[])
  | piece :: pieces, recvBuffer, totalRead =>
      if totalRead < wanted then
        recvLoop wanted pieces (overwrite recvBuffer 0 piece) (totalRead + piece.length)
      else (recvBuffer,totalRead,piece :: pieces)

/- '+' is the only operation; the others give 0. -/
def operate (lhs : UInt32) (opt : UInt8) (rhs : UInt32) : UInt64 :=
  if opt = 43 then lhs.toUInt64 + rhs.toUInt64 else 0

def answer : (recvBuffer : Bytes) → Option Bytes
  | l0 :: l1 :: l2 :: l3 :: opt :: r0 :: r1 :: r2 :: r3 :: _ =>
      some (be64 (operate (readBe32 l0 l1 l2 l3) opt (readBe32 r0 r1 r2 r3)))
  | _ => none

/- One turn of the server's inner loop; without a reply it closes the connection.
The buffer is kept from one request to the next. -/
def serve (recvBuffer : Bytes) (pieces : List Bytes) : Bytes × Option Bytes :=
  match recvLoop 9 pieces recvBuffer 0 with
  | (recvBuffer,totalRead,_) =>
      if totalRead < 9 then (recvBuffer,none)
      else if 9 < totalRead then (recvBuffer,none)
      else (recvBuffer,answer recvBuffer)

def request (lhs rhs : UInt32) : Bytes := be32 lhs ++ 43 :: be32 rhs

def readResult : (recvBuffer : Bytes) → Option UInt64
  | a :: b :: c :: d :: e :: f :: g :: h :: _ => some (readBe64 a b c d e f g h)
  | _ => none

/- The client's side of a reply, over a buffer it has zeroed. -/
def receive (pieces : List Bytes) : Option UInt64 :=
  match recvLoop 8 pieces (List.replicate bufSize 0) 0 with
  | (recvBuffer,totalRead,_) => if totalRead ≠ 8 then none else readResult recvBuffer

/- One request, with the ways TCP divides it and its reply. -/
structure Round where
  lhs : UInt32
  rhs : UInt32
  request : Division 9
  reply : Division 8

def Round.divided (q : Round) : Division 9 × Division 8 := (q.request,q.reply)

structure Printed where
  lhs : UInt32
  rhs : UInt32
  serverResult : UInt64
  deriving DecidableEq, Repr

/- What the client prints, request by request. A server that has closed leaves
the client in its receiving loop. -/
def session : List Round → (serverBuffer : Bytes) → List (Option Printed)
  | [], _ => []
  | q :: rest, serverBuffer =>
      match serve serverBuffer (cut q.request.lengths (request q.lhs q.rhs)) with
      | (_,none) => []
      | (serverBuffer,some reply) =>
          (receive (cut q.reply.lengths reply)).map (fun result => ⟨q.lhs,q.rhs,result⟩) ::
            session rest serverBuffer

/- Operands and sum as numbers, for every request. -/
def PrintsSums (rounds : List Round) (printed : List (Option Printed)) : Prop :=
  printed.map (fun p => p.map (fun p => (p.lhs,p.rhs,p.serverResult.toNat))) =
    rounds.map (fun q => some (q.lhs,q.rhs,q.lhs.toNat + q.rhs.toNat))

@[simp] theorem requestLength (lhs rhs : UInt32) : (request lhs rhs).length = 9 := rfl

theorem sumExact (lhs rhs : UInt32) :
    (lhs.toUInt64 + rhs.toUInt64).toNat = lhs.toNat + rhs.toNat := by
  have left := lhs.toNat_lt
  have right := rhs.toNat_lt
  rw [UInt64.toNat_add,UInt32.toNat_toUInt64,UInt32.toNat_toUInt64]
  exact Nat.mod_eq_of_lt (by omega)

/- A message in non-empty pieces is received to its end, each piece over the
start of the buffer. -/
theorem recvWhole {wanted : Nat} {pieces : List Bytes} (filled : ∀ piece ∈ pieces, piece ≠ [])
    (recvBuffer : Bytes) {totalRead : Nat} (whole : totalRead + pieces.flatten.length = wanted) :
    recvLoop wanted pieces recvBuffer totalRead = (overlay pieces recvBuffer,wanted,[]) := by
  induction pieces generalizing recvBuffer totalRead with
  | nil =>
    have done : totalRead = wanted := whole
    rw [recvLoop,done]
    rfl
  | cons piece pieces ih =>
    obtain ⟨here,later⟩ := List.forall_mem_cons.mp filled
    have positive := List.length_pos_iff.mpr here
    rw [List.flatten_cons,List.length_append] at whole
    rw [recvLoop,if_pos (by omega),ih later _ (by omega)]
    rfl

section
variable {size : Nat} (d : Division size) {raw : Bytes} (sized : raw.length = size)
include sized

theorem cutReceived (recvBuffer : Bytes) :
    recvLoop size (cut d.lengths raw) recvBuffer 0 =
      (overlay (cut d.lengths raw) recvBuffer,size,[]) := by
  have delivered := d.delivers sized
  exact recvWhole delivered.filled recvBuffer (by rw [delivered.whole,Nat.zero_add,sized])

theorem cutShort (divided : ¬ d.undivided) :
    ∀ piece ∈ cut d.lengths raw, piece.length < size := by
  intro piece member
  have lengths := cutLengths (d.whole.trans sized.symm)
  refine d.shorter divided ?_
  rw [← lengths]
  exact List.mem_map.mpr ⟨piece,member,rfl⟩

theorem cutUndivided (undivided : d.undivided) : cut d.lengths raw = [raw] := by
  rw [undivided,cut,cut,← sized,List.take_length]

end

theorem answerRequest (lhs rhs : UInt32) (rest : Bytes) :
    answer (request lhs rhs ++ rest) = some (be64 (lhs.toUInt64 + rhs.toUInt64)) := by
  simp only [request,be32,List.cons_append,List.nil_append,answer,readBe32Word,operate,if_true]

theorem serveCut (d : Division 9) (lhs rhs : UInt32) (buffer : Bytes) :
    serve buffer (cut d.lengths (request lhs rhs)) =
      (overlay (cut d.lengths (request lhs rhs)) buffer,
        answer (overlay (cut d.lengths (request lhs rhs)) buffer)) := by
  rw [serve,cutReceived d (requestLength lhs rhs)]
  rfl

theorem serveUndivided {d : Division 9} (undivided : d.undivided) (lhs rhs : UInt32) (buffer : Bytes) :
    serve buffer (cut d.lengths (request lhs rhs)) =
      (request lhs rhs ++ buffer.drop 9,some (be64 (lhs.toUInt64 + rhs.toUInt64))) := by
  have placed : overlay (cut d.lengths (request lhs rhs)) buffer =
      request lhs rhs ++ buffer.drop 9 := by
    rw [cutUndivided d (requestLength lhs rhs) undivided]
    simp [overlay,overwrite]
  rw [serveCut,placed,answerRequest]

theorem receiveCut (d : Division 8) {reply : Bytes} (sized : reply.length = 8) :
    receive (cut d.lengths reply) =
      readResult (overlay (cut d.lengths reply) (List.replicate bufSize 0)) := by
  rw [receive,cutReceived d sized]
  rfl

theorem receiveUndivided {d : Division 8} (undivided : d.undivided) (result : UInt64) :
    receive (cut d.lengths (be64 result)) = some result := by
  rw [receiveCut d (be64Length result),cutUndivided d (be64Length result) undivided]
  simp only [overlay,overwrite,List.take_zero,List.nil_append,be64,List.cons_append,readResult,
    readBe64Word]

/- A buffer long enough for the nine bytes, and its last one among them. -/
theorem answerLow {buffer : Bytes} {low : UInt8} (last : buffer[8]? = some low) (two : 2 ≤ low.toNat) :
    ∃ result, answer buffer = some (be64 result) ∧ result.toNat ≠ 1 := by
  match buffer, last with
  | l0 :: l1 :: l2 :: l3 :: opt :: r0 :: r1 :: r2 :: r3 :: rest, last =>
    have same : r3 = low := by simpa using last
    subst same
    refine ⟨_,rfl,?_⟩
    unfold operate
    split
    · have rhs := readBe32Low r0 r1 r2 r3
      rw [sumExact]
      omega
    · simp

/- A divided reply leaves the last of its eight bytes zero. -/
theorem receiveDivided {d : Division 8} (divided : ¬ d.undivided) {reply : Bytes}
    (sized : reply.length = 8) :
    ∃ result, receive (cut d.lengths reply) = some result ∧ result.toNat % 256 = 0 := by
  rw [receiveCut d sized]
  have short := cutShort d sized divided
  have last : (overlay (cut d.lengths reply) (List.replicate bufSize 0))[7]? = some 0 := by
    rw [overlayBeyond (fun piece member => by have := short piece member; omega)]
    rfl
  generalize overlay (cut d.lengths reply) (List.replicate bufSize 0) = buffer at last
  match buffer, last with
  | a :: b :: c :: d :: e :: f :: g :: h :: rest, last =>
    have zero : h = 0 := by simpa using last
    exact ⟨_,rfl,by rw [readBe64Low,zero]; rfl⟩

/- With 1 + 0 asked and a 2 left behind at the end of the last request, a
division of the request or of the reply shows. -/
theorem dividedRound {d : Division 9 × Division 8}
    (divided : ¬ (d.1.undivided ∧ d.2.undivided)) (rest : Bytes) :
    ∃ buffer reply result,
      serve (request 0 2 ++ rest) (cut d.1.lengths (request 1 0)) = (buffer,some reply) ∧
      receive (cut d.2.lengths reply) = some result ∧ result.toNat ≠ 1 := by
  obtain ⟨buffer,sum,served,wrong⟩ : ∃ buffer sum,
      serve (request 0 2 ++ rest) (cut d.1.lengths (request 1 0)) = (buffer,some (be64 sum)) ∧
        (d.2.undivided → sum.toNat ≠ 1) := by
    by_cases first : d.1.undivided
    · exact ⟨_,_,serveUndivided first 1 0 _,fun second => absurd ⟨first,second⟩ divided⟩
    · have short := cutShort d.1 (requestLength 1 0) first
      have last : (overlay (cut d.1.lengths (request 1 0)) (request 0 2 ++ rest))[8]? = some 2 := by
        rw [overlayBeyond (fun piece member => by have := short piece member; omega)]
        rfl
      obtain ⟨sum,answered,wrong⟩ := answerLow last (by decide)
      exact ⟨_,sum,by rw [serveCut,answered],fun _ => wrong⟩
  by_cases second : d.2.undivided
  · exact ⟨buffer,be64 sum,sum,served,receiveUndivided second sum,wrong second⟩
  · obtain ⟨result,received,zero⟩ := receiveDivided second (be64Length sum)
    exact ⟨buffer,be64 sum,result,served,received,by omega⟩

def Undivided (d : Division 9 × Division 8) : Prop := d.1.undivided ∧ d.2.undivided

theorem undividedSums {rounds : List Round} (undivided : ∀ q ∈ rounds, Undivided q.divided)
    (serverBuffer : Bytes) : PrintsSums rounds (session rounds serverBuffer) := by
  induction rounds generalizing serverBuffer with
  | nil => rfl
  | cons q rounds ih =>
    obtain ⟨⟨first,second⟩,others⟩ := List.forall_mem_cons.mp undivided
    have served := serveUndivided first q.lhs q.rhs serverBuffer
    have rest := ih others (request q.lhs q.rhs ++ serverBuffer.drop 9)
    simp only [PrintsSums,session] at rest ⊢
    simp only [Round.divided] at second served
    rw [served]
    simp only [receiveUndivided second,Option.map_some,List.map_cons,sumExact,rest]

/- Behind undivided rounds the buffer shows the last request, so that the first
divided one can be made to fail. -/
theorem dividedFails {divisions : List (Division 9 × Division 8)}
    (divided : ¬ ∀ d ∈ divisions, Undivided d) (rest : Bytes) :
    ∃ rounds lhs rhs, rounds.map Round.divided = divisions ∧
      ¬ PrintsSums rounds (session rounds (request lhs rhs ++ rest)) := by
  induction divisions with
  | nil => exact absurd nofun divided
  | cons d divisions ih =>
    by_cases here : Undivided d
    · have later : ¬ ∀ d ∈ divisions, Undivided d :=
        fun all => divided (List.forall_mem_cons.mpr ⟨here,all⟩)
      obtain ⟨rounds,lhs,rhs,shape,fails⟩ := ih later
      refine ⟨⟨lhs,rhs,d.1,d.2⟩ :: rounds,0,0,by rw [List.map_cons,shape]; rfl,fun prints => fails ?_⟩
      have served := serveUndivided here.1 lhs rhs (request 0 0 ++ rest)
      simp only [PrintsSums,session] at prints ⊢
      rw [served] at prints
      exact (List.cons.inj prints).2
    · obtain ⟨buffer,reply,result,served,received,wrong⟩ := dividedRound here rest
      refine ⟨⟨1,0,d.1,d.2⟩ :: divisions.map (fun d => ⟨0,0,d.1,d.2⟩),0,2,?_,fun prints => ?_⟩
      · simp [Round.divided,Function.comp_def]
      · simp only [PrintsSums,session] at prints
        rw [served] at prints
        have head := (List.cons.inj prints).1
        simp only [received,Option.map_some,Option.some.injEq,Prod.mk.injEq,true_and] at head
        exact wrong head

theorem printsSumsIff (divisions : List (Division 9 × Division 8)) :
    (∀ rounds serverBuffer, rounds.map Round.divided = divisions → serverBuffer.length = bufSize →
      PrintsSums rounds (session rounds serverBuffer)) ↔
    ∀ d ∈ divisions, d.1.undivided ∧ d.2.undivided := by
  constructor
  · intro prints
    refine Classical.byContradiction (fun divided => ?_)
    obtain ⟨rounds,lhs,rhs,shape,fails⟩ := dividedFails divided (List.replicate 247 0)
    refine fails (prints rounds _ shape ?_)
    rw [List.length_append,List.length_replicate]
    rfl
  · intro undivided rounds serverBuffer shape sized
    refine undividedSums (fun q member => undivided q.divided ?_) serverBuffer
    rw [← shape]
    exact List.mem_map.mpr ⟨q,member,rfl⟩

/- The request 3 + 4 arrives in two pieces, its reply in one. -/
def splitRound : Round :=
  ⟨3,4,⟨[4,5],by decide,rfl⟩,⟨[8],by decide,rfl⟩⟩

theorem splitRoundWrong :
    session [splitRound] (List.replicate bufSize 0) = [some ⟨3,4,0⟩] ∧
      ¬ PrintsSums [splitRound] (session [splitRound] (List.replicate bufSize 0)) := by
  have printed : session [splitRound] (List.replicate bufSize 0) = [some ⟨3,4,0⟩] := by rfl
  refine ⟨printed,fun sums => ?_⟩
  rw [printed] at sums
  have sum := (Option.some.inj (List.cons.inj sums).1)
  exact absurd (Prod.mk.inj (Prod.mk.inj sum).2).2 (by decide)

end NetworkPrograms.Lab03
