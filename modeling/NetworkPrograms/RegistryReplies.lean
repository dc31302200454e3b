import NetworkPrograms.RegistryHistory

/-! How many records a SEARCH is answered with, for one message and for all the
requests of a connection. -/
namespace NetworkPrograms.RegistryReplies
open WireBytes RegistryState RegistryPublish RegistryJoin RegistrySearch RegistryServe
open RegistryTable RegistryHistory EventMachine

/- The zero records sent before the answer: one for each byte above 127 and one
for a last byte that is not NUL, which for an empty payload is the command. -/
def complaints (command : UInt8) (payload : Bytes) : Nat :=
  badBytes payload + (decide (payload.getLastD command ≠ 0)).toNat

theorem endByte (command : UInt8) (payload junk : Bytes) :
    (command :: (payload ++ junk))[payload.length]? = some (payload.getLastD command) := by
  induction payload generalizing command with
  | nil => rfl
  | cons b payload ih =>
    rw [List.getLastD_cons]
    exact ih b

theorem searchReplies {s : Server} (ok : TableOk s) {index : Nat} {command : UInt8}
    {payload junk : Bytes} {sends : Nat → Written} (sent : ∀ k, sends k = .all)
    (gate : (s.client index).type ≠ .unknown) (short : payload.length < 100)
    (full : (command :: (payload ++ junk)).length = buffSize) :
    handleSearch s index (command :: (payload ++ junk)) payload.length sends =
      some (List.replicate (complaints command payload) (.sent (s.client index).sock emptyResponse) ++
        [.sent (s.client index).sock
          (searchResponse (s.clients.find? (Matches (payload ++ junk))))]) := by
  have long : 1193 ≤ (payload ++ junk).length := by
    simp only [List.length_cons,buffSize] at full
    omega
  have found := searchTable ok long
  unfold handleSearch
  rw [if_neg gate,if_neg (by omega),endByte]
  simp only [List.drop_succ_cons,List.drop_zero,List.take_left,checkAsciiSent sent,
    complainSent sent,found,sent,onWire,List.replicate_append_replicate,complaints]

theorem stepSearch {s : Server} (ok : TableOk s) {index : Nat} {r : Received} {payload : Bytes}
    {sends : Nat → Written} (active : (s.client index).active = true)
    (gate : (s.client index).type ≠ .unknown) (data : r.data = 2 :: payload)
    (sent : ∀ k, sends k = .all) (short : payload.length < 100) :
    step s (.ready index (.data r) sends) =
      some (s,List.replicate (complaints 2 payload) (.sent (s.client index).sock emptyResponse) ++
        [.sent (s.client index).sock
          (searchResponse (s.clients.find? (Matches (r.buffer.drop 1))))]) := by
  have full := receivedLength r
  rw [receivedHead r data] at full
  have replies := searchReplies ok sent gate short full
  have length : r.data.length - 1 = payload.length := by simp [data]
  simp only [step,active,if_true,handleClient,receivedHead r data,length]
  rw [if_neg (by decide),if_neg (by decide),replies]
  rfl

theorem stepSearchLong {s : Server} {index : Nat} {r : Received} {payload : Bytes}
    {sends : Nat → Written} (active : (s.client index).active = true)
    (data : r.data = 2 :: payload) (long : 100 ≤ payload.length) :
    step s (.ready index (.data r) sends) = some (s,[]) := by
  have length : r.data.length - 1 = payload.length := by simp [data]
  simp only [step,active,if_true,handleClient,receivedHead r data,length]
  rw [if_neg (by decide),if_neg (by decide)]
  unfold handleSearch
  rw [if_pos long]
  split
  · rfl
  · rfl

/- The payloads a peer's search command builds, and a few more: names may be
empty and may hold zero bytes before the last one. -/
def WellFormed (payload : Bytes) : Prop :=
  payload.length ≤ 99 ∧ (∀ b ∈ payload, b < 128) ∧ payload.getLast? = some 0

instance (payload) : Decidable (WellFormed payload) :=
  decidable_of_iff (payload.length ≤ 99 ∧ isAscii payload = true ∧ payload.getLast? = some 0)
    (by rw [asciiBelow,WellFormed])

theorem complaintsNone (payload : Bytes) :
    complaints 2 payload = 0 ↔ (∀ b ∈ payload, b < 128) ∧ payload.getLast? = some 0 := by
  have bytes : badBytes payload = 0 ↔ ∀ b ∈ payload, b < 128 := by
    simp [badBytes,List.countP_eq_zero,UInt8.not_le]
  have last : (decide (payload.getLastD 2 ≠ 0)).toNat = 0 ↔ payload.getLast? = some 0 := by
    rw [List.getLastD_eq_getLast?]
    cases payload.getLast? with
    | none => simp
    | some b => simp
  rw [complaints,Nat.add_eq_zero_iff,bytes,last]

def AnsweredOnce (s : Server) (index : Nat) (r : Received) (sends : Nat → Written) : Prop :=
  ∃ record : Bytes, record.length = 10 ∧
    step s (.ready index (.data r) sends) = some (s,[.sent (s.client index).sock record])

theorem onceIff {s : Server} (ok : TableOk s) {index : Nat} {r : Received} {payload : Bytes}
    {sends : Nat → Written} (active : (s.client index).active = true)
    (gate : (s.client index).type ≠ .unknown) (data : r.data = 2 :: payload)
    (sent : ∀ k, sends k = .all) : AnsweredOnce s index r sends ↔ WellFormed payload := by
  rcases Nat.lt_or_ge payload.length 100 with short | long
  · have moved := stepSearch ok active gate data sent short
    have none_bad := complaintsNone payload
    constructor
    · intro once
      obtain ⟨record,-,same⟩ := once
      rw [moved] at same
      have outputs := congrArg List.length (Prod.mk.inj (Option.some.inj same)).2
      simp only [List.length_append,List.length_replicate,List.length_singleton] at outputs
      exact ⟨by omega,none_bad.mp (by omega)⟩
    · intro formed
      rw [none_bad.mpr formed.2] at moved
      exact ⟨_,searchResponseLength _,moved⟩
  · constructor
    · intro once
      obtain ⟨record,-,same⟩ := once
      rw [stepSearchLong active data long] at same
      simp at same
    · intro formed
      have := formed.1
      omega

/- One SEARCH that got past the gate, with the state it was handled in. -/
structure Request where
  state : Server
  received : Received
  sends : Nat → Written

def requestAt (index : Nat) (t : Step) : Option Request :=
  match t.event with
  | .ready other (.data r) sends =>
      if other = index ∧ r.data.head? = some 2 ∧ (t.pre.client index).type ≠ .unknown then
        some ⟨t.pre,r,sends⟩
      else none
  | _ => none

def handledAt (index : Nat) (t : Step) : Bool :=
  match t.event with
  | .ready other _ _ => other = index
  | .accept _ => false

/- The requests of the connection on slot `index`, oldest first. -/
def requestsOn (index : Nat) : History → List Request
  | [] => []
  | t :: older =>
      if opening (activeAt index) t then []
      else requestsOn index older ++ (requestAt index t).toList

/- The bytes sent on that connection, oldest first. -/
def bytesOn (index : Nat) : History → Bytes
  | [] => []
  | t :: older =>
      if opening (activeAt index) t then []
      else bytesOn index older ++ (if handledAt index t then wire t.out else [])

/- The record handle_search builds for a request at its end. -/
def answer (q : Request) : Bytes :=
  match searchClients q.state.clients (q.received.buffer.drop 1) with
  | none => []
  | some found => searchResponse found

def GoodRequest (q : Request) : Prop :=
  WellFormed q.received.data.tail ∧ ∀ k, q.sends k = .all

theorem answerTable {q : Request} (ok : TableOk q.state) :
    answer q = searchResponse (q.state.clients.find? (Matches (q.received.buffer.drop 1))) := by
  have long : 1193 ≤ (q.received.buffer.drop 1).length := by
    rw [List.length_drop,receivedLength]
    decide
  rw [answer,searchTable ok long]

/- Only a SEARCH that passes the gate puts bytes on the wire. -/
theorem quietUnlessSearch {s s' : Server} {index : Nat} {r : Received} {sends : Nat → Written}
    {out : List Output} (h : handleClient s index sends (.data r) = some (s',out))
    (other : ¬ (r.data.head? = some 2 ∧ (s.client index).type ≠ .unknown)) : wire out = [] := by
  obtain ⟨command,payload,data⟩ := receivedCons r
  simp only [handleClient,receivedHead r data] at h
  split at h
  · rcases joinCases h with ⟨-,rfl⟩ | ⟨n,tail,-,-,-,-,rfl⟩ <;> rfl
  split at h
  · rcases publishCases h with ⟨-,rfl⟩ | ⟨names,-,-,rfl⟩ <;> rfl
  split at h
  · rename_i two
    have closed : (s.client index).type = .unknown := by
      simpa [data,two] using other
    unfold handleSearch at h
    rw [if_pos closed] at h
    cases h
    rfl
  · cases h
    rfl

theorem requestSource {index : Nat} {t : Step} {q : Request} (here : requestAt index t = some q) :
    ∃ r sends payload, t.event = .ready index (.data r) sends ∧ r.data = 2 :: payload ∧
      (t.pre.client index).type ≠ .unknown ∧ q = ⟨t.pre,r,sends⟩ := by
  unfold requestAt at here
  split at here
  · rename_i other r sends event
    split at here
    · rename_i asked
      obtain ⟨rfl,head,gate⟩ := asked
      obtain ⟨payload,data⟩ := List.head?_eq_some_iff.mp head
      exact ⟨r,sends,payload,event,data,gate,(Option.some.inj here).symm⟩
    · contradiction
  · contradiction

theorem askedBytes {s s' : Server} {e : Event} {out : List Output} {index : Nat} {q : Request}
    (ok : TableOk s) (moved : step s e = some (s',out))
    (here : requestAt index ⟨s,e,out,s'⟩ = some q) (good : GoodRequest q) :
    handledAt index ⟨s,e,out,s'⟩ = true ∧ wire out = answer q ∧ (answer q).length = 10 := by
  obtain ⟨r,sends,payload,event,data,gate,rfl⟩ := requestSource here
  dsimp only at event gate
  subst event
  obtain ⟨formed,sent⟩ := good
  simp only [data,List.tail_cons] at formed
  have active : (s.client index).active = true := by
    by_contra dead
    simp [step,dead] at moved
  have clean := (complaintsNone payload).mpr formed.2
  have short := formed.1
  have answered := answerTable (q := ⟨s,r,sends⟩) ok
  dsimp only at answered ⊢
  rw [stepSearch ok active gate data sent (by omega),clean] at moved
  cases moved
  rw [answered]
  exact ⟨by simp [handledAt],by simp [wire],searchResponseLength _⟩

theorem quietBytes {s s' : Server} {e : Event} {out : List Output} {index : Nat}
    (moved : step s e = some (s',out)) (here : requestAt index ⟨s,e,out,s'⟩ = none)
    (handled : handledAt index ⟨s,e,out,s'⟩ = true) : wire out = [] := by
  cases e with
  | accept result => exact nomatch handled
  | ready other result sends =>
    have same : other = index := by simpa [handledAt] using handled
    subst same
    simp only [step] at moved
    split at moved
    · cases result with
      | error =>
        cases moved
        rfl
      | closed =>
        cases moved
        rfl
      | data r =>
        refine quietUnlessSearch moved (fun asked => ?_)
        simp [requestAt,asked] at here
    · contradiction

theorem bytesAnswer {listenSock : Nat} {log : History} {s : Server}
    (run : Run (registry listenSock) log s) (index : Nat)
    (good : ∀ q ∈ requestsOn index log, GoodRequest q) :
    bytesOn index log = ((requestsOn index log).map answer).flatten ∧
      ∀ q ∈ requestsOn index log, (answer q).length = 10 := by
  induction run with
  | start => exact ⟨rfl,nofun⟩
  | @next log s e s' out past moved ih =>
    simp only [requestsOn,bytesOn] at good ⊢
    cases fresh : opening (activeAt index) ⟨s,e,out,s'⟩ with
    | true => exact ⟨rfl,nofun⟩
    | false =>
      simp only [fresh,Bool.false_eq_true,if_false] at good ⊢
      cases here : requestAt index ⟨s,e,out,s'⟩ with
      | none =>
        simp only [here,Option.toList_none,List.append_nil] at good ⊢
        obtain ⟨bytes,lengths⟩ := ih good
        refine ⟨?_,lengths⟩
        split
        · rename_i handled
          rw [quietBytes moved here handled,List.append_nil,bytes]
        · rw [List.append_nil,bytes]
      | some q =>
        simp only [here,Option.toList_some,List.mem_append,List.mem_singleton] at good ⊢
        obtain ⟨bytes,lengths⟩ := ih (fun q' member => good q' (.inl member))
        obtain ⟨handled,sent,length⟩ := askedBytes (tableOk past) moved here (good q (.inr rfl))
        refine ⟨?_,?_⟩
        · simp [handled,bytes,sent]
        · intro q' member
          rcases member with old | rfl
          · exact lengths q' old
          · exact length

theorem answeredOnceIff {listenSock : Nat} {log : History} {s : Server}
    (run : Run (registry listenSock) log s) (index : Nat) :
    (∀ r payload sends, (s.client index).active = true → (s.client index).type ≠ .unknown →
      r.data = 2 :: payload → (∀ k, sends k = .all) →
      (AnsweredOnce s index r sends ↔ WellFormed payload)) ∧
    ((∀ q ∈ requestsOn index log, GoodRequest q) →
      records 10 (bytesOn index log) = (requestsOn index log).map answer) := by
  refine ⟨fun r payload sends active gate data sent => onceIff (tableOk run) active gate data sent,?_⟩
  intro good
  obtain ⟨bytes,lengths⟩ := bytesAnswer run index good
  rw [bytes]
  refine recordsFlatten (by decide) (fun block member => ?_)
  obtain ⟨q,asked,rfl⟩ := List.mem_map.mp member
  exact lengths q asked

/- One client has joined. -/
def joinedOnce : List Event :=
  [.accept (.conn 4 (.inet ⟨2130706433,5000⟩) true),
    .ready 0 (.data (.zeroed [0,0,0,0,7] (by decide) (by decide))) (fun _ => .all)]

/- Its search for an empty name is one well-formed request. -/
theorem answeredOnceEmptyName : ∃ log s, Run (registry 3) log s ∧
    (requestsOn 0 log).length = 1 ∧ records 10 (bytesOn 0 log) = (requestsOn 0 log).map answer ∧
    AnsweredOnce s 0 (.zeroed [2,0] (by decide) (by decide)) (fun _ => .all) := by
  obtain ⟨log,s,q,done,active,gate,one,asked,sent⟩ : ∃ log s q,
      execute (registry 3) (joinedOnce ++
        [.ready 0 (.data (.zeroed [2,0] (by decide) (by decide))) (fun _ => .all)]) []
        (registry 3).init = some (log,s) ∧ (s.client 0).active = true ∧
        (s.client 0).type = .joined ∧ requestsOn 0 log = [q] ∧ q.received.data = [2,0] ∧
        ∀ k, q.sends k = .all :=
    ⟨_,_,_,rfl,rfl,rfl,rfl,rfl,fun _ => rfl⟩
  have run := executedRun .start done
  have both := answeredOnceIff run 0
  refine ⟨log,s,run,by rw [one]; rfl,both.2 (fun other member => ?_),?_⟩
  · rw [one] at member
    cases List.mem_singleton.mp member
    refine ⟨?_,sent⟩
    rw [asked]
    decide
  · exact (both.1 _ [0] _ active (by simp [gate]) rfl (fun _ => rfl)).mpr (by decide)

/- A byte above 127 costs a record of its own, and the answer follows it. -/
theorem answeredTwice : ∃ log s, Run (registry 3) log s ∧ (s.client 0).active = true ∧
    (s.client 0).type ≠ .unknown ∧
    step s (.ready 0 (.data (.zeroed [2,128,0] (by decide) (by decide))) (fun _ => .all)) =
      some (s,[.sent 4 emptyResponse,.sent 4 emptyResponse]) ∧
    ¬ AnsweredOnce s 0 (.zeroed [2,128,0] (by decide) (by decide)) (fun _ => .all) := by
  obtain ⟨log,s,done,active,gate,sock,moved⟩ : ∃ log s,
      execute (registry 3) joinedOnce [] (registry 3).init = some (log,s) ∧
        (s.client 0).active = true ∧ (s.client 0).type = .joined ∧ (s.client 0).sock = 4 ∧
        step s (.ready 0 (.data (.zeroed [2,128,0] (by decide) (by decide))) (fun _ => .all)) =
          some (s,[.sent 4 emptyResponse,.sent 4 emptyResponse]) := ⟨_,_,rfl,rfl,rfl,rfl,rfl⟩
  refine ⟨log,s,executedRun .start done,active,by simp [gate],moved,?_⟩
  intro once
  obtain ⟨record,-,same⟩ := once
  rw [moved] at same
  simp at same

end NetworkPrograms.RegistryReplies
