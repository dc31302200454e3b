import NetworkPrograms.PeerFetch
import NetworkPrograms.RegistryLookup

/-! A SEARCH from end to end: what a Rust peer makes of the record the registry
sends. The peer takes id 0 for "not found", and a client may have joined with it. -/
namespace NetworkPrograms.PeerAnswer
open WireBytes RegistryState RegistrySearch RegistryServe RegistryTable RegistryReplies
open RegistryLookup PeerFetch EventMachine

def socketAddr (v4 : SockAddrIn) : SocketAddr :=
  ⟨(UInt8.ofNat (v4.sinAddr.toNat / 16777216),UInt8.ofNat (v4.sinAddr.toNat / 65536),
    UInt8.ofNat (v4.sinAddr.toNat / 256),UInt8.ofNat v4.sinAddr.toNat),v4.sinPort.toNat⟩

/- The peer names the client the registry found, and no client if it found none. -/
def Relays (found : Option Client) (result : Except String (Option (UInt32 × SocketAddr))) : Prop :=
  ∃ answer, result = .ok answer ∧
    (∀ c v4, found = some c → c.addr = .inet v4 → v4.sinPort ≠ 0 →
      answer = some (c.id,socketAddr v4)) ∧
    (answer = none ↔ found = none)

theorem portRead (port : UInt16) :
    (UInt8.ofNat (port.toNat / 256)).toNat * 256 + (UInt8.ofNat port.toNat).toNat = port.toNat := by
  have bound := port.toNat_lt
  simp only [UInt8.toNat_ofNat']
  omega

theorem readEmpty : readAnswer emptyResponse = none := by decide

theorem readInet {c : Client} {v4 : SockAddrIn} (addr : c.addr = .inet v4) :
    readAnswer (clientResponse c) = if c.id = 0 then none else some (c.id,socketAddr v4) := by
  simp only [clientResponse,addr,be32,be16,List.cons_append,List.nil_append,readAnswer,
    readBe32Word,portRead,socketAddr]

theorem readFound (c : Client) :
    readAnswer (clientResponse c) = none ↔ ¬ (c.id ≠ 0 ∧ isInet c.addr = true) := by
  cases addr : c.addr with
  | inet v4 => simp [readInet addr,isInet]
  | inet6 => simp [clientResponse,addr,isInet,readEmpty]
  | unspec => simp [clientResponse,addr,isInet,readEmpty]

theorem relaysIff (found : Option Client) :
    Relays found (.ok (readAnswer (searchResponse found))) ↔
      ∀ c, found = some c → c.id ≠ 0 ∧ isInet c.addr = true := by
  cases found with
  | none => simp [Relays,searchResponse,readEmpty]
  | some c =>
    simp only [Relays,searchResponse,Option.some.injEq,forall_eq',reduceCtorEq,iff_false]
    constructor
    · intro ⟨answer,same,_,reported⟩
      rw [← Except.ok.inj same,readFound] at reported
      exact Decidable.not_not.mp reported
    · intro named
      refine ⟨_,rfl,?_,fun missing => (readFound c).mp missing named⟩
      intro other v4 same addr _
      subst same
      rw [readInet addr,if_neg named.1]

/- A peer that reads one record of ten bytes has read all of it. -/
theorem searchReads (found : Option Client) (filename : Bytes) :
    (searchRegistry .all (searchResponse found) filename).2 =
      .ok (readAnswer (searchResponse found)) := by
  have whole : ¬ (searchResponse found).length < 10 := by simp
  simp only [searchRegistry,if_neg whole]
  rw [List.take_of_length_le (by simp)]

theorem peerRelaysIff {listenSock : Nat} {log : History} {s : Server}
    (run : Run (registry listenSock) log s) {index : Nat} {r : Received} {filename : Bytes}
    {sends : Nat → Written} {found : Option Client}
    (active : (s.client index).active = true) (gate : (s.client index).type ≠ .unknown)
    (data : r.data = namedRequest .search filename) (formed : WellFormed (filename ++ [0]))
    (sent : ∀ k, sends k = .all)
    (search : searchClients s.clients (r.buffer.drop 1) = some found) :
    ∃ out, step s (.ready index (.data r) sends) = some (s,out) ∧
      (Relays found (searchRegistry .all (wire out) filename).2 ↔
        ∀ c, found = some c → c.id ≠ 0 ∧ isInet c.addr = true) := by
  have ok := tableOk run
  have short := formed.1
  have moved := stepSearch ok active gate data sent (by omega)
  have long : 1193 ≤ (r.buffer.drop 1).length := by
    rw [List.length_drop,receivedLength]
    decide
  rw [searchTable ok long] at search
  rw [(complaintsNone _).mpr formed.2,Option.some.inj search] at moved
  have bytes : wire [Output.sent (s.client index).sock (searchResponse found)] =
      searchResponse found := by simp [wire]
  refine ⟨_,moved,?_⟩
  rw [List.replicate_zero,List.nil_append,bytes,searchReads,relaysIff]

/- Clients 7 and 8 have joined; 8 searches for "a", which 7 has published. -/
theorem peerRelaysSeven : ∃ log s, Run (registry 3) log s ∧ ∃ out found,
    step s (.ready 1 (.data (.zeroed [2,97,0] (by decide) (by decide))) (fun _ => .all)) =
      some (s,out) ∧
    found.map (fun c => c.id) = some 7 ∧ Relays found (searchRegistry .all (wire out) [97]).2 := by
  obtain ⟨log,s,found,done,active,gate,search,seven,inet⟩ : ∃ log s found,
      execute (registry 3) publishedPrefix [] (registry 3).init = some (log,s) ∧
        (s.client 1).active = true ∧ (s.client 1).type = .joined ∧
        searchClients s.clients
          ((Received.zeroed [2,97,0] (by decide) (by decide)).buffer.drop 1) = some (some found) ∧
        found.id = 7 ∧ isInet found.addr = true := ⟨_,_,_,rfl,rfl,rfl,rfl,rfl,rfl⟩
  have run := executedRun .start done
  have asked : (Received.zeroed [2,97,0] (by decide) (by decide)).data = namedRequest .search [97] := rfl
  obtain ⟨out,moved,relays⟩ := peerRelaysIff run active (by simp [gate]) asked (by decide)
    (fun _ => rfl) search
  refine ⟨log,s,run,out,some found,moved,by rw [← seven]; rfl,relays.mpr (fun c same => ?_)⟩
  cases same
  exact ⟨by simp [seven],inet⟩

/- Client 7 joins, then another with id 0, which publishes "a": client 7 is told
that nobody has it. -/
theorem peerMissesZero : ∃ log s, Run (registry 3) log s ∧ (s.client 0).active = true ∧
    (s.client 0).type ≠ .unknown ∧ WellFormed ([97] ++ [0]) ∧ ∃ out c,
      step s (.ready 0 (.data (.zeroed (namedRequest .search [97]) (by decide) (by decide)))
        (fun _ => .all)) = some (s,out) ∧
      searchClients s.clients
        ((Received.zeroed [2,97,0] (by decide) (by decide)).buffer.drop 1) = some (some c) ∧
      c.id = 0 ∧ c.addr = .inet ⟨2130706433,5001⟩ ∧
      (searchRegistry .all (wire out) [97]).2 = .ok none ∧
      ¬ Relays (some c) (searchRegistry .all (wire out) [97]).2 := by
  obtain ⟨log,s,out,c,done,active,gate,moved,search,zero,addr,answer⟩ : ∃ log s out c,
      execute (registry 3) (joinedOnce ++
        [.accept (.conn 5 (.inet ⟨2130706433,5001⟩) true),
          .ready 1 (.data (.zeroed [0,0,0,0,0] (by decide) (by decide))) (fun _ => .all),
          .ready 1 (.data (.zeroed [1,0,0,0,1,97,0] (by decide) (by decide))) (fun _ => .all)]) []
        (registry 3).init = some (log,s) ∧
        (s.client 0).active = true ∧ (s.client 0).type = .joined ∧
        step s (.ready 0 (.data (.zeroed [2,97,0] (by decide) (by decide))) (fun _ => .all)) =
          some (s,out) ∧
        searchClients s.clients
          ((Received.zeroed [2,97,0] (by decide) (by decide)).buffer.drop 1) = some (some c) ∧
        c.id = 0 ∧ c.addr = .inet ⟨2130706433,5001⟩ ∧
        (searchRegistry .all (wire out) [97]).2 = .ok none :=
    ⟨_,_,_,_,rfl,rfl,rfl,rfl,rfl,rfl,rfl,rfl⟩
  refine ⟨log,s,executedRun .start done,active,by simp [gate],by decide,out,c,moved,search,zero,addr,
    answer,?_⟩
  intro ⟨told,same,_,reported⟩
  rw [answer] at same
  cases Except.ok.inj same
  exact absurd (reported.mp rfl) (by simp)

end NetworkPrograms.PeerAnswer
