import NetworkPrograms.ByteStreams

/-! The look-up of the C peer, as search and searchForFetch share it: three recvs
into three variables, whose results are added up. `unread` are the bytes of the
registry that have not been received; they outlive a command. -/
namespace NetworkPrograms.CPeerSearch
open WireBytes ByteStreams

/- What scanf stores for "%100s". -/
structure ScannedName where
  bytes : Bytes
  some_byte : bytes ≠ []
  most : bytes.length ≤ 100
  plain : Plain bytes
  solid : ∀ b ∈ bytes, b ≠ 32 ∧ ¬ (9 ≤ b ∧ b ≤ 13)

/- One recv: -1, or the number of bytes that it returned. -/
inductive Recv where
  | error
  | got (n : Nat)
  deriving DecidableEq, Repr

/- A recv of at most `size` bytes over a variable: what the variable holds then,
the result and the bytes still unread. The kernel never returns more than there is. -/
def recv (size : Nat) (field unread : Bytes) : Recv → Option (Bytes × Int × Bytes)
  | .error => some (field,-1,unread)
  | .got n =>
      if n ≤ size ∧ n ≤ unread.length then
        some (overwrite field 0 (unread.take n),n,unread.drop n)
      else none

/- The three variables, which start with whatever the stack holds. -/
structure Stack where
  peerID : Bytes
  peerIPv4 : Bytes
  peerPort : Bytes
  idSize : peerID.length = 4
  ipSize : peerIPv4.length = 4
  portSize : peerPort.length = 2

structure Recvs where
  first : Recv
  second : Recv
  third : Recv
  deriving DecidableEq, Repr

/- One look-up with what it meets: the outcome of send, the reply of the registry
to it and the recvs. -/
structure LookUp where
  fileName : ScannedName
  write : Written
  reply : Bytes
  stack : Stack
  recvs : Recvs

/- ntohl and ntohs of a value in network order. -/
def ntoh (bytes : Bytes) : Nat := bytes.foldl (fun n b => n * 256 + b.toNat) 0

inductive Looked where
  | sendFailed
  | recvFailed
  | incomplete
  | answer (peerID : Nat) (peerIPv4 : Bytes) (peerPort : Nat)
  deriving DecidableEq, Repr

def request (q : LookUp) : Bytes := 2 :: (q.fileName.bytes ++ [0])

/- `bytesReceived` is signed and sizeof is not, so that a negative sum counts as
a large one. -/
def receive (q : LookUp) (unread : Bytes) : Option (Looked × Bytes) :=
  match recv 4 q.stack.peerID unread q.recvs.first with
  | none => none
  | some (peerID,first,unread) =>
      if first ≤ 0 then some (.recvFailed,unread)
      else match recv 4 q.stack.peerIPv4 unread q.recvs.second with
        | none => none
        | some (peerIPv4,second,unread) =>
            match recv 2 q.stack.peerPort unread q.recvs.third with
            | none => none
            | some (peerPort,third,unread) =>
                if (first + second + third) % 18446744073709551616 < 10 then
                  some (.incomplete,unread)
                else some (.answer (ntoh peerID) peerIPv4 (ntoh peerPort),unread)

/- The registry answers a request that it received. -/
def lookUp (q : LookUp) (unread : Bytes) : Option (Looked × Bytes) :=
  match q.write with
  | .failed _ => some (.sendFailed,unread)
  | .all => receive q (unread ++ q.reply)

inductive Report where
  | sendFailed
  | recvFailed
  | incomplete
  | notIndexed
  | found (peerID : Nat) (peerIPv4 : Bytes) (peerPort : Nat)
  deriving DecidableEq, Repr

/- What search prints. -/
def report : Looked → Report
  | .sendFailed => .sendFailed
  | .recvFailed => .recvFailed
  | .incomplete => .incomplete
  | .answer peerID peerIPv4 peerPort =>
      if peerID = 0 ∧ peerIPv4 = List.replicate 4 0 ∧ peerPort = 0 then .notIndexed
      else .found peerID peerIPv4 peerPort

def search (q : LookUp) (unread : Bytes) : Option (Report × Bytes) :=
  (lookUp q unread).map (fun (looked,unread) => (report looked,unread))

/- No byte comes with the first recv, and search gives up. -/
def Silent (r : Recvs) : Prop := r.first = .error ∨ r.first = .got 0
instance (r) : Decidable (Silent r) := inferInstanceAs (Decidable (_ ∨ _))

/- One byte and two errors: the sum is -1. -/
def Wrapped (r : Recvs) : Prop := r = ⟨.got 1,.error,.error⟩
instance (r) : Decidable (Wrapped r) := inferInstanceAs (Decidable (_ = _))

/- Every recv fills its variable. -/
def Whole (r : Recvs) : Prop := r = ⟨.got 4,.got 4,.got 2⟩
instance (r) : Decidable (Whole r) := inferInstanceAs (Decidable (_ = _))

/- The address in ten bytes. -/
def answered (bytes : Bytes) : Looked :=
  .answer (ntoh (bytes.take 4)) ((bytes.drop 4).take 4) (ntoh ((bytes.drop 8).take 2))

/- How many bytes a recv takes out of the stream, and what it returns. -/
def Recv.taken : Recv → Nat
  | .error => 0
  | .got n => n

def Recv.result : Recv → Int
  | .error => -1
  | .got n => n

@[simp] theorem takenGot (n : Nat) : (Recv.got n).taken = n := rfl
@[simp] theorem takenError : Recv.error.taken = 0 := rfl
@[simp] theorem resultGot (n : Nat) : (Recv.got n).result = n := rfl
@[simp] theorem resultError : Recv.error.result = -1 := rfl

structure Got (size : Nat) (field unread : Bytes) (r : Recv) (field' : Bytes) (n : Int)
    (unread' : Bytes) : Prop where
  result : n = r.result
  kept : unread' = unread.drop r.taken
  small : r.taken ≤ size
  there : r.taken ≤ unread.length
  filled : r = .got size → field.length = size → field' = unread.take size

theorem recvGot {size : Nat} {field unread field' unread' : Bytes} {r : Recv} {n : Int}
    (received : recv size field unread r = some (field',n,unread')) :
    Got size field unread r field' n unread' := by
  cases r with
  | error =>
    cases received
    exact ⟨rfl,rfl,Nat.zero_le _,Nat.zero_le _,nofun⟩
  | got n =>
    simp only [recv] at received
    split at received
    · rename_i fine
      cases received
      refine ⟨rfl,rfl,fine.1,fine.2,?_⟩
      intro all sized
      cases all
      exact overwriteWhole (by rw [List.length_take,Nat.min_eq_left fine.2,sized])
    · contradiction

/- How many bytes the recvs of a look-up take; behind a silent one there are none. -/
def Recvs.taken (r : Recvs) : Nat :=
  if Silent r then 0 else r.first.taken + r.second.taken + r.third.taken

/- Everything the recvs of a look-up can come to. -/
inductive Received (r : Recvs) (stream : Bytes) : Looked → Prop where
  | silent (silent : Silent r) (nothing : r.taken = 0) : Received r stream .recvFailed
  | short (heard : ¬ Silent r) (missing : ¬ Whole r) (proper : ¬ Wrapped r) (some_byte : 0 < r.taken)
      (few : r.taken < 10) : Received r stream .incomplete
  | wrapped (wrapped : Wrapped r) (one : r.taken = 1) (peerID : Nat) (peerIPv4 : Bytes)
      (peerPort : Nat) : Received r stream (.answer peerID peerIPv4 peerPort)
  | whole (whole : Whole r) (ten : r.taken = 10) : Received r stream (answered stream)

theorem resultSign (r : Recv) :
    (r.result ≤ 0 ∧ (r = .error ∨ r = .got 0) ∧ r.taken = 0) ∨ ∃ n, r = .got (n + 1) := by
  cases r with
  | error => exact .inl ⟨by decide,.inl rfl,rfl⟩
  | got n =>
    cases n with
    | zero => exact .inl ⟨Int.le_refl 0,.inr rfl,rfl⟩
    | succ n => exact .inr ⟨n,rfl⟩

/- A sum that does not count as short: all ten bytes, or -1. -/
theorem sumEnough {n : Nat} {second third : Recv} (first : n + 1 ≤ 4) (middle : second.taken ≤ 4)
    (last : third.taken ≤ 2)
    (enough : ¬ ((Recv.got (n + 1)).result + second.result + third.result) % 18446744073709551616 < 10) :
    (n = 3 ∧ second = .got 4 ∧ third = .got 2) ∨ (n = 0 ∧ second = .error ∧ third = .error) := by
  cases second with
  | error =>
    cases third with
    | error =>
      simp only [resultGot,resultError] at enough
      exact .inr ⟨by omega,rfl,rfl⟩
    | got k =>
      simp only [resultGot,resultError,takenGot] at enough last
      omega
  | got m =>
    cases third with
    | error =>
      simp only [resultGot,resultError,takenGot] at enough middle
      omega
    | got k =>
      simp only [resultGot,takenGot] at enough middle last
      have exact_sizes : n = 3 ∧ m = 4 ∧ k = 2 := by omega
      obtain ⟨rfl,rfl,rfl⟩ := exact_sizes
      exact .inl ⟨rfl,rfl,rfl⟩

theorem sumShort {n : Nat} {second third : Recv} (first : n + 1 ≤ 4) (middle : second.taken ≤ 4)
    (last : third.taken ≤ 2)
    (short : ((Recv.got (n + 1)).result + second.result + third.result) % 18446744073709551616 < 10) :
    (n + 1) + second.taken + third.taken < 10 := by
  cases second with
  | error =>
    rw [takenError]
    omega
  | got m =>
    cases third with
    | error =>
      simp only [takenGot,takenError] at middle ⊢
      omega
    | got k =>
      simp only [resultGot,takenGot] at short middle last ⊢
      omega

theorem received {q : LookUp} {stream left : Bytes} {looked : Looked}
    (done : receive q stream = some (looked,left)) :
    (q.recvs.taken ≤ stream.length ∧ left = stream.drop q.recvs.taken) ∧
      Received q.recvs stream looked := by
  obtain ⟨fileName,write,reply,stack,⟨r1,r2,r3⟩⟩ := q
  simp only [receive] at done
  split at done
  · contradiction
  rename_i peerID first rest one
  have ids := recvGot one
  rcases resultSign r1 with ⟨nothing,which,untaken⟩ | ⟨n,rfl⟩
  · rw [if_pos (ids.result ▸ nothing)] at done
    cases done
    have silent : Silent ⟨r1,r2,r3⟩ := which
    have zero : Recvs.taken ⟨r1,r2,r3⟩ = 0 := if_pos silent
    rw [ids.kept,untaken,zero]
    exact ⟨⟨Nat.zero_le _,rfl⟩,.silent silent zero⟩
  rw [if_neg (by rw [ids.result]; simp only [resultGot]; omega)] at done
  split at done
  · contradiction
  rename_i peerIPv4 second rest' two
  have ips := recvGot two
  split at done
  · contradiction
  rename_i peerPort third rest'' three
  have ports := recvGot three
  have heard : ¬ Silent ⟨.got (n + 1),r2,r3⟩ := by simp [Silent]
  have sum : Recvs.taken ⟨.got (n + 1),r2,r3⟩ = (n + 1) + r2.taken + r3.taken := if_neg heard
  have gone : rest'' = stream.drop ((n + 1) + r2.taken + r3.taken) := by
    rw [ports.kept,ips.kept,ids.kept,List.drop_drop,List.drop_drop,takenGot,Nat.add_assoc (n + 1)]
  have there := ports.there
  have first_there := ids.there
  have second_there := ips.there
  rw [ips.kept,ids.kept,List.length_drop,List.length_drop] at there
  rw [ids.kept,List.length_drop] at second_there
  simp only [takenGot] at there first_there second_there
  rw [ids.result,ips.result,ports.result] at done
  have bounds : Recvs.taken ⟨.got (n + 1),r2,r3⟩ ≤ stream.length ∧
      rest'' = stream.drop (Recvs.taken ⟨.got (n + 1),r2,r3⟩) := by
    rw [sum]
    exact ⟨by omega,gone⟩
  split at done
  · rename_i short
    have few := sumShort ids.small ips.small ports.small short
    rw [← sum] at few
    have some_byte : 0 < Recvs.taken ⟨.got (n + 1),r2,r3⟩ := by
      rw [sum]
      omega
    cases done
    refine ⟨bounds,.short heard ?_ ?_ some_byte few⟩
    · intro whole
      cases whole
      exact absurd short (by decide)
    · intro wrapped
      cases wrapped
      exact absurd short (by decide)
  · rename_i enough
    cases done
    refine ⟨bounds,?_⟩
    rcases sumEnough ids.small ips.small ports.small enough with ⟨rfl,rfl,rfl⟩ | ⟨rfl,rfl,rfl⟩
    · rw [ids.filled rfl stack.idSize,ips.filled rfl stack.ipSize,ports.filled rfl stack.portSize,
        ips.kept,ids.kept,List.drop_drop]
      exact .whole rfl rfl
    · exact .wrapped rfl rfl _ _ _

theorem wholeTaken {r : Recvs} (whole : Whole r) : r.taken = 10 := by
  rw [show r = _ from whole]
  rfl

/- Ten bytes are received in one way only, and then they are the answer. -/
theorem wholeIff {r : Recvs} {stream : Bytes} {looked : Looked} (outcome : Received r stream looked) :
    Whole r ↔ r.taken = 10 := by
  refine ⟨wholeTaken,fun ten => ?_⟩
  cases outcome with
  | silent silent nothing => omega
  | short heard missing proper some_byte few => omega
  | wrapped wrapped one peerID peerIPv4 peerPort => omega
  | whole whole ten => exact whole

theorem wholeAnswered {r : Recvs} {stream : Bytes} {looked : Looked} (outcome : Received r stream looked)
    (whole : Whole r) : looked = answered stream := by
  have ten := wholeTaken whole
  cases outcome with
  | silent silent nothing => omega
  | short heard missing proper some_byte few => omega
  | wrapped wrapped one peerID peerIPv4 peerPort => omega
  | whole whole ten => rfl

theorem ntohFold (n : Nat) (bytes : Bytes) :
    bytes.foldl (fun n b => n * 256 + b.toNat) n = 0 ↔ n = 0 ∧ bytes = List.replicate bytes.length 0 := by
  induction bytes generalizing n with
  | nil => simp
  | cons b bytes ih =>
    have zero : b.toNat = 0 ↔ b = 0 := by rw [← UInt8.toNat_zero,UInt8.toNat_inj]
    rw [List.foldl_cons,ih,List.length_cons,List.replicate_succ,List.cons.injEq,← zero]
    constructor
    · intro ⟨sum,rest⟩
      exact ⟨by omega,by omega,rest⟩
    · intro ⟨first,second,rest⟩
      exact ⟨by omega,rest⟩

theorem ntohZero (bytes : Bytes) : ntoh bytes = 0 ↔ bytes = List.replicate bytes.length 0 := by
  rw [ntoh,ntohFold]
  exact and_iff_right rfl

/- What a search is meant to print of its reply. -/
def reported (reply : Bytes) : Report :=
  if reply = List.replicate 10 0 then .notIndexed
  else .found (ntoh (reply.take 4)) ((reply.drop 4).take 4) (ntoh ((reply.drop 8).take 2))

theorem zeroFields {reply : Bytes} (sized : reply.length = 10) :
    (ntoh (reply.take 4) = 0 ∧ (reply.drop 4).take 4 = List.replicate 4 0 ∧
      ntoh ((reply.drop 8).take 2) = 0) ↔ reply = List.replicate 10 0 := by
  constructor
  · intro ⟨id,ip,port⟩
    have first : reply.take 4 = List.replicate 4 0 := by
      have zeros := (ntohZero _).mp id
      rwa [List.length_take,sized] at zeros
    have last : (reply.drop 8).take 2 = List.replicate 2 0 := by
      have zeros := (ntohZero _).mp port
      rwa [List.length_take,List.length_drop,sized] at zeros
    have whole : reply = reply.take 4 ++ ((reply.drop 4).take 4 ++ (reply.drop 8).take 2) := by
      have cut : (reply.drop 8).take 2 = reply.drop 8 := by
        have two : (reply.drop 8).length = 2 := by rw [List.length_drop,sized]
        exact List.take_of_length_le (Nat.le_of_eq two)
      have middle : (reply.drop 4).drop 4 = reply.drop 8 := by rw [List.drop_drop]
      rw [cut,← middle,List.take_append_drop,List.take_append_drop]
    rw [whole,first,ip,last]
    rfl
  · intro zeros
    subst zeros
    exact ⟨rfl,rfl,rfl⟩

theorem reportedSame {reply : Bytes} (sized : reply.length = 10) :
    report (answered reply) = reported reply := by
  have zero := zeroFields sized
  simp only [answered,report,reported,zero]

/- A search has received its own reply and prints it, or it has not received all
of it and says so; bytes of an earlier reply it leaves alone. -/
def Exact (unread : Bytes) (q : LookUp) (printed : Report) (left : Bytes) : Prop :=
  (unread = [] ∧ left = [] ∧ printed = reported q.reply) ∨
  ((printed = .recvFailed ∨ printed = .incomplete) ∧ left ≠ [] ∧
    (unread = [] ∨ left = unread ++ q.reply))

/- A search that prints an answer has to be right about it. -/
theorem exactAnswer {unread left : Bytes} {q : LookUp} {printed : Report}
    (heard : printed ≠ .recvFailed) (complete : printed ≠ .incomplete) :
    Exact unread q printed left ↔ unread = [] ∧ left = [] ∧ printed = reported q.reply := by
  rw [Exact,or_iff_left]
  intro ⟨failed,_⟩
  rcases failed with silent | short
  · exact heard silent
  · exact complete short

theorem answerPrinted (peerID : Nat) (peerIPv4 : Bytes) (peerPort : Nat) :
    report (.answer peerID peerIPv4 peerPort) ≠ .recvFailed ∧
      report (.answer peerID peerIPv4 peerPort) ≠ .incomplete := by
  rw [report]
  split
  · exact ⟨nofun,nofun⟩
  · exact ⟨nofun,nofun⟩

theorem searchLooks {q : LookUp} {unread left : Bytes} {printed : Report}
    (done : search q unread = some (printed,left)) :
    ∃ looked, lookUp q unread = some (looked,left) ∧ printed = report looked := by
  obtain ⟨⟨looked,left'⟩,looking,same⟩ := Option.map_eq_some_iff.mp done
  cases same
  exact ⟨looked,looking,rfl⟩

theorem searchExactIff {q : LookUp} {unread left : Bytes} {printed : Report}
    (done : search q unread = some (printed,left)) (sent : q.write = .all)
    (sized : q.reply.length = 10) :
    Exact unread q printed left ↔ Silent q.recvs ∨ (unread = [] ∧ ¬ Wrapped q.recvs) := by
  obtain ⟨looked,looking,rfl⟩ := searchLooks done
  simp only [lookUp,sent] at looking
  obtain ⟨⟨there,gone⟩,outcome⟩ := received looking
  have stream : (unread ++ q.reply).length = unread.length + 10 := by rw [List.length_append,sized]
  have size : left.length = unread.length + 10 - q.recvs.taken := by
    rw [gone,List.length_drop,stream]
  cases outcome with
  | silent silent nothing =>
    refine iff_of_true (.inr ⟨.inl rfl,?_,.inr ?_⟩) (.inl silent)
    · rw [← List.length_pos_iff,size]
      omega
    · rw [gone,nothing,List.drop_zero]
  | short heard missing proper some_byte few =>
    constructor
    · intro fine
      refine .inr ⟨?_,proper⟩
      rcases fine with ⟨nothing,_⟩ | ⟨_,_,nothing | all⟩
      · exact nothing
      · exact nothing
      · rw [all,stream] at size
        omega
    · intro fine
      refine .inr ⟨.inr rfl,?_,.inl (fine.resolve_left heard).1⟩
      rw [← List.length_pos_iff,size]
      omega
  | wrapped wrapped one peerID peerIPv4 peerPort =>
    have answer := answerPrinted peerID peerIPv4 peerPort
    rw [exactAnswer answer.1 answer.2]
    refine iff_of_false ?_ ?_
    · intro ⟨_,nothing,_⟩
      rw [nothing,one,List.length_nil] at size
      omega
    · intro fine
      rcases fine with silent | ⟨_,proper⟩
      · rw [show q.recvs = _ from wrapped] at silent
        exact absurd silent (by decide)
      · exact proper wrapped
  | whole whole ten =>
    have heard : ¬ Silent q.recvs := by
      rw [show q.recvs = _ from whole]
      decide
    have proper : ¬ Wrapped q.recvs := by
      rw [show q.recvs = _ from whole]
      decide
    have answer := answerPrinted (ntoh ((unread ++ q.reply).take 4))
      (((unread ++ q.reply).drop 4).take 4) (ntoh (((unread ++ q.reply).drop 8).take 2))
    rw [answered,exactAnswer answer.1 answer.2]
    constructor
    · exact fun fine => .inr ⟨fine.1,proper⟩
    · intro fine
      obtain ⟨nothing,_⟩ := fine.resolve_left heard
      subst nothing
      rw [ten,List.length_nil] at size
      exact ⟨rfl,List.length_eq_zero_iff.mp size,reportedSame sized⟩

end NetworkPrograms.CPeerSearch
