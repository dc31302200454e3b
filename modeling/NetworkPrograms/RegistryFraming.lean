import NetworkPrograms.PeerFetch
import NetworkPrograms.PeerPublish
import NetworkPrograms.RegistryBuffer

/-! How the requests of one connection arrive. The registry takes one recv for
one request; this is what it costs, and what it is enough to ask for. -/
namespace NetworkPrograms.RegistryFraming
open WireBytes ByteStreams PeerListener PeerPublish PeerFetch
open RegistryState RegistryPublish RegistryJoin RegistrySearch RegistryServe RegistryTable RegistryReplies
open RegistryBuffer EventMachine

/- send_join. -/
def joinRequest (id : UInt32) : Bytes := ActionType.join.code :: be32 id

inductive PeerRequest where
  | join (id : UInt32)
  | publish (names : List Bytes)
  | search (name : Bytes)
  deriving DecidableEq, Repr

def PeerRequest.encode : PeerRequest → Bytes
  | .join id => joinRequest id
  | .publish names => publishRequest names
  | .search name => namedRequest .search name

/- Names of ASCII characters other than NUL, and room for the request in the
array it is received into. -/
def PeerRequest.Proper (q : PeerRequest) : Prop :=
  q.encode.length ≤ buffSize ∧ match q with
    | .join _ => True
    | .publish names => ∀ name ∈ names, AsciiName name
    | .search name => AsciiName name

theorem publishCount {names : List Bytes} (fits : (publishRequest names).length ≤ buffSize) :
    (UInt32.ofNat names.length).toNat = names.length := by
  have some_bytes := countNames names
  simp only [publishRequest,List.length_cons,List.length_append,be32Length,encodeLength,buffSize] at fits
  rw [UInt32.toNat_ofNat']
  exact Nat.mod_eq_of_lt (by omega)

/- The count comes first, so the shorter list would have to be as long. -/
theorem publishUnique {xs ys : List Bytes} (left : (publishRequest xs).length ≤ buffSize)
    (right : (publishRequest ys).length ≤ buffSize) (plain : ∀ name ∈ xs, Plain name)
    (plain' : ∀ name ∈ ys, Plain name) (start : publishRequest xs <+: publishRequest ys) :
    xs = ys := by
  obtain ⟨tail,same⟩ := (List.cons_prefix_cons.mp start).2
  rw [List.append_assoc] at same
  obtain ⟨count,names⟩ := List.append_inj same rfl
  have equal := congrArg UInt32.toNat (be32Injective count)
  rw [publishCount left,publishCount right] at equal
  have first : decodeNames xs.length (encodeNames ys) = some (xs,tail) :=
    decodeExact.mpr ⟨names.symm,rfl,plain⟩
  have second : decodeNames ys.length (encodeNames ys) = some (ys,[]) :=
    decodeExact.mpr ⟨(List.append_nil _).symm,rfl,plain'⟩
  rw [equal,second] at first
  exact (Prod.mk.inj (Option.some.inj first)).1.symm

theorem searchUnique {x y : Bytes} (plain : Plain x) (plain' : Plain y)
    (start : namedRequest .search x <+: namedRequest .search y) : x = y := by
  obtain ⟨tail,same⟩ := (List.cons_prefix_cons.mp start).2
  rw [List.append_assoc] at same
  have first : splitName (y ++ [0]) = some (x,tail) := splitExact.mpr ⟨same.symm,plain⟩
  have second : splitName (y ++ [0]) = some (y,[]) := splitExact.mpr ⟨rfl,plain'⟩
  rw [second] at first
  exact (Prod.mk.inj (Option.some.inj first)).1.symm

theorem encodeFree {p q : PeerRequest} (left : p.Proper) (right : q.Proper)
    (start : p.encode <+: q.encode) : p.encode = q.encode := by
  cases p with
  | join id =>
    cases q with
    | join id' => exact start.eq_of_length rfl
    | publish names => exact absurd (List.cons_prefix_cons.mp start).1 (by decide)
    | search name => exact absurd (List.cons_prefix_cons.mp start).1 (by decide)
  | publish names =>
    cases q with
    | join id => exact absurd (List.cons_prefix_cons.mp start).1 (by decide)
    | publish names' =>
      have same := publishUnique left.1 right.1 (fun name member => asciiPlain (left.2 name member))
        (fun name member => asciiPlain (right.2 name member)) start
      rw [same]
    | search name => exact absurd (List.cons_prefix_cons.mp start).1 (by decide)
  | search name =>
    cases q with
    | join id => exact absurd (List.cons_prefix_cons.mp start).1 (by decide)
    | publish names => exact absurd (List.cons_prefix_cons.mp start).1 (by decide)
    | search name' =>
      have same := searchUnique (asciiPlain left.2) (asciiPlain right.2) start
      rw [same]

/- A recv result that is one request, whole. -/
def OneRequest (data : Bytes) : Prop := ∃ q : PeerRequest, q.Proper ∧ data = q.encode

theorem requestsFree : PrefixFree OneRequest := by
  constructor
  · intro data one
    obtain ⟨q,-,rfl⟩ := one
    cases q <;> exact List.cons_ne_nil _ _
  · intro x y first second start
    obtain ⟨p,left,rfl⟩ := first
    obtain ⟨q,right,rfl⟩ := second
    exact encodeFree left right start

/- The recv results of slot `index`, one after the other; `sends` gives the
outcomes of the send_bytes calls for each of them. -/
def deliver (index : Nat) (sends : Nat → Nat → Written) :
    List Received → Server → (recvs : Nat) → Option (Server × List Output)
  | [], s, _ => some (s,[])
  | r :: rest, s, recvs =>
      match step s (.ready index (.data r) (sends recvs)) with
      | none => none
      | some (s',out) =>
          (deliver index sends rest s' (recvs + 1)).map (fun (last,later) => (last,out ++ later))

theorem dataActive {s s' : Server} {index : Nat} {r : Received} {sends : Nat → Written}
    {out : List Output} (moved : step s (.ready index (.data r) sends) = some (s',out)) :
    (s.client index).active = true ∧ (s'.client index).active = true := by
  have active : (s.client index).active = true := by
    simp only [step] at moved
    split at moved
    · assumption
    · contradiction
  refine ⟨active,?_⟩
  cases stepChange moved with
  | none sock quiet => exact active
  | drop index result sends active ended => rcases ended with h | h <;> contradiction
  | join index r sends n active data written =>
    rw [joined,clientSetSelf (activeInside active)]
    exact active
  | publish index r sends payload names active data accepted =>
    rw [published,clientSetSelf (activeInside active)]
    exact active

theorem deliverTotal {s : Server} (ok : TableOk s) {index : Nat}
    (active : (s.client index).active = true) (sends : Nat → Nat → Written) (rs : List Received)
    (recvs : Nat) : ∃ result, deliver index sends rs s recvs = some result := by
  induction rs generalizing s recvs with
  | nil => exact ⟨_,rfl⟩
  | cons r rest ih =>
    obtain ⟨⟨s',out⟩,moved⟩ := stepTotal ok active (.data r) (sends recvs)
    obtain ⟨result,later⟩ := ih (changeOk ok (stepChange moved)) (dataActive moved).2 (recvs + 1)
    exact ⟨_,by rw [deliver,moved]; dsimp only; rw [later]; rfl⟩

/- A request ends in its own NUL, so it is never an open search. -/
theorem requestClosed {data payload : Bytes} {s : Server} {index : Nat} (one : OneRequest data)
    (open_search : OpenSearch s index data payload) : False := by
  obtain ⟨q,-,rfl⟩ := one
  obtain ⟨shape,-,-,plain⟩ := open_search
  cases q with
  | join id => exact absurd (List.cons.inj shape).1 (by decide)
  | publish names => exact absurd (List.cons.inj shape).1 (by decide)
  | search name =>
    have ended := (List.cons.inj shape).2
    exact plain 0 (by rw [← ended]; simp) rfl

theorem deliverSame {s : Server} (ok : TableOk s) (index : Nat) (sends : Nat → Nat → Written)
    {rs rs' : List Received} (ones : ∀ r ∈ rs, OneRequest r.data)
    (same : rs.map Received.data = rs'.map Received.data) (recvs : Nat) :
    deliver index sends rs s recvs = deliver index sends rs' s recvs := by
  induction rs generalizing rs' s recvs with
  | nil =>
    cases List.map_eq_nil_iff.mp same.symm
    rfl
  | cons r rest ih =>
    cases rs' with
    | nil => contradiction
    | cons r' rest' =>
      obtain ⟨one,ones⟩ := List.forall_mem_cons.mp ones
      obtain ⟨first,later⟩ := List.cons.inj same
      have here : step s (.ready index (.data r) (sends recvs)) =
          step s (.ready index (.data r') (sends recvs)) := by
        cases active : (s.client index).active with
        | false => simp [step,active]
        | true =>
          have closed : ∀ payload, OpenSearch s index r.data payload → Settled s payload :=
            fun payload open_search => absurd open_search (requestClosed one)
          exact settledIndependent ok active closed r r' _ rfl first.symm
      simp only [deliver,← here]
      cases moved : step s (.ready index (.data r) (sends recvs)) with
      | none => rfl
      | some next =>
        dsimp only
        rw [ih (changeOk ok (stepChange moved)) ones later]

/- The division changes nothing: the same state and the same outputs as when
each request is received alone, over any array. -/
def Indifferent (s : Server) (index : Nat) (requests : List PeerRequest) (rs : List Received) : Prop :=
  ∀ (alone : List Received) (sends : Nat → Nat → Written),
    alone.map Received.data = requests.map PeerRequest.encode →
    ∃ result, deliver index sends alone s 0 = some result ∧ deliver index sends rs s 0 = some result

theorem framedIndifferent {listenSock : Nat} {log : History} {s : Server}
    (run : Run (registry listenSock) log s) {index : Nat}
    (active : (s.client index).active = true) {requests : List PeerRequest}
    (proper : ∀ q ∈ requests, q.Proper) {rs : List Received}
    (whole : (rs.map Received.data).flatten = (requests.map PeerRequest.encode).flatten)
    (framed : ∀ r ∈ rs, OneRequest r.data) : Indifferent s index requests rs := by
  have ok := tableOk run
  intro alone sends each
  have cut : rs.map Received.data = requests.map PeerRequest.encode := by
    refine requestsFree.unique (fun data member => ?_) (fun data member => ?_) whole
    · obtain ⟨r,inside,rfl⟩ := List.mem_map.mp member
      exact framed r inside
    · obtain ⟨q,inside,rfl⟩ := List.mem_map.mp member
      exact ⟨q,proper q inside,rfl⟩
  obtain ⟨result,delivered⟩ := deliverTotal ok active sends rs 0
  refine ⟨result,?_,delivered⟩
  rw [← delivered]
  exact (deliverSame ok index sends framed (cut.trans each.symm) 0).symm

/- A connection that has sent nothing yet. -/
def connectedOnce : List Event := [.accept (.conn 4 (.inet ⟨2130706433,5000⟩) true)]

theorem joinProper (id : UInt32) : (PeerRequest.join id).Proper :=
  ⟨by simp [PeerRequest.encode,joinRequest,buffSize],trivial⟩

theorem framedJoins : ∃ log s, Run (registry 3) log s ∧
    Indifferent s 0 [.join 7,.join 8]
      [.zeroed [0,0,0,0,7] (by decide) (by decide),.zeroed [0,0,0,0,8] (by decide) (by decide)] := by
  obtain ⟨log,s,done,active⟩ : ∃ log s,
      execute (registry 3) connectedOnce [] (registry 3).init = some (log,s) ∧
        (s.client 0).active = true := ⟨_,_,rfl,rfl⟩
  have run := executedRun .start done
  refine ⟨log,s,run,framedIndifferent run active ?_ rfl ?_⟩
  · intro q member
    simp only [List.mem_cons,List.not_mem_nil,or_false] at member
    rcases member with rfl | rfl
    · exact joinProper 7
    · exact joinProper 8
  · intro r member
    simp only [List.mem_cons,List.not_mem_nil,or_false] at member
    rcases member with rfl | rfl
    · exact ⟨.join 7,joinProper 7,rfl⟩
    · exact ⟨.join 8,joinProper 8,rfl⟩

/- Received alone, the requests leave another output than in this division. -/
theorem differentOutputs {s next next' : Server} {index : Nat} {requests : List PeerRequest}
    {rs alone : List Received} {sends : Nat → Nat → Written} {out out' : List Output}
    (each : alone.map Received.data = requests.map PeerRequest.encode)
    (single : deliver index sends alone s 0 = some (next,out))
    (divided : deliver index sends rs s 0 = some (next',out')) (differ : out ≠ out') :
    ¬ Indifferent s index requests rs := by
  intro same
  obtain ⟨result,first,second⟩ := same alone sends each
  rw [single] at first
  rw [divided] at second
  exact differ (Prod.mk.inj (Option.some.inj (first.trans second.symm))).2

/- A JOIN cut in two is lost, and so is one that arrives together with the next. -/
theorem splitJoinLost : ∃ log s, Run (registry 3) log s ∧ (s.client 0).active = true ∧
    (PeerRequest.join 7).Proper ∧ (PeerRequest.join 8).Proper ∧
    (∃ rs : List Received, (rs.map Received.data).flatten =
        ([PeerRequest.join 7].map PeerRequest.encode).flatten ∧
      ¬ Indifferent s 0 [.join 7] rs) ∧
    (∃ rs : List Received, (rs.map Received.data).flatten =
        ([PeerRequest.join 7,.join 8].map PeerRequest.encode).flatten ∧
      ¬ Indifferent s 0 [.join 7,.join 8] rs) := by
  obtain ⟨log,s,done,active,next,next',alone,split,both,merged⟩ : ∃ log s,
      execute (registry 3) connectedOnce [] (registry 3).init = some (log,s) ∧
        (s.client 0).active = true ∧ ∃ next next',
        deliver 0 (fun _ _ => .all)
          [.zeroed [0,0,0,0,7] (by decide) (by decide)] s 0 = some (next,[.testJoin 7]) ∧
        deliver 0 (fun _ _ => .all) [.zeroed [0,0,0] (by decide) (by decide),
          .zeroed [0,7] (by decide) (by decide)] s 0 = some (s,[]) ∧
        deliver 0 (fun _ _ => .all) [.zeroed [0,0,0,0,7] (by decide) (by decide),
          .zeroed [0,0,0,0,8] (by decide) (by decide)] s 0 = some (next',[.testJoin 7,.testJoin 8]) ∧
        deliver 0 (fun _ _ => .all)
          [.zeroed [0,0,0,0,7,0,0,0,0,8] (by decide) (by decide)] s 0 = some (s,[]) :=
    ⟨_,_,rfl,rfl,_,_,rfl,rfl,rfl,rfl⟩
  refine ⟨log,s,executedRun .start done,active,joinProper 7,joinProper 8,?_,?_⟩
  · exact ⟨_,rfl,differentOutputs rfl alone split (by simp)⟩
  · exact ⟨_,rfl,differentOutputs rfl both merged (by simp)⟩

end NetworkPrograms.RegistryFraming
