import Mathlib.Data.List.Find
import NetworkPrograms.RegistryReplies

/-! Which client a SEARCH names, and which published names can be found. -/
namespace NetworkPrograms.RegistryLookup
open WireBytes RegistryState RegistryPublish RegistryJoin RegistrySearch RegistryServe
open RegistryTable RegistryHistory RegistryReplies EventMachine

/- A slot that stores the name itself, and one that stores a prefix of it. -/
def Stores (f : Bytes) (c : Client) : Bool := c.active && c.names.contains f

/- The client a search for `f` is meant to find: the lowest slot storing it. -/
def holder (s : Server) (f : Bytes) : Option Client := s.clients.find? (Stores f)

/- The client it does find: the lowest slot storing a prefix of it. -/
def prefixHolder (s : Server) (f : Bytes) : Option Client := s.clients.find? (Matches f)

theorem storesMatches {f : Bytes} {c : Client} (stores : Stores f c = true) :
    Matches f c = true := by
  simp only [Stores,Bool.and_eq_true,List.contains_iff_mem] at stores
  exact matchesIff.mpr ⟨stores.1,f,stores.2,List.prefix_refl f⟩

theorem findTerminated {s : Server} (ok : TableOk s) (f junk : Bytes) :
    s.clients.find? (Matches (f ++ 0 :: junk)) = prefixHolder s f := by
  refine List.find?_congr (fun c member => ?_)
  obtain ⟨index,-,rfl⟩ := memberClient member
  refine Bool.eq_iff_iff.mpr (matchesIff.trans (Iff.trans ?_ matchesIff.symm))
  refine and_congr_right (fun active => exists_congr (fun name => and_congr_right (fun stored => ?_)))
  exact plainPrefix (asciiPlain (namesAscii ok stored).1)

/- The bytes of a message behind its command: the name, the NUL, and what the
array held before. -/
theorem searchedText {r : Received} {f : Bytes} (data : r.data = 2 :: (f ++ [0])) :
    r.buffer.drop 1 = f ++ 0 :: r.before.drop r.data.length := by
  simp [receivedHead r data]

theorem nameFormed {f : Bytes} (ascii : AsciiName f) (short : f.length ≤ 98) :
    WellFormed (f ++ [0]) := by
  refine ⟨by simp; omega,?_,by simp⟩
  intro b member
  rcases List.mem_append.mp member with inside | last
  · exact (ascii b inside).2
  · rw [List.mem_singleton.mp last]
    decide

/- A search for a name is answered with the record of the lowest slot that
stores a prefix of the name. -/
theorem stepName {s : Server} (ok : TableOk s) {index : Nat} {r : Received} {f : Bytes}
    {sends : Nat → Written} (active : (s.client index).active = true)
    (gate : (s.client index).type ≠ .unknown) (ascii : AsciiName f) (short : f.length ≤ 98)
    (data : r.data = 2 :: (f ++ [0])) (sent : ∀ k, sends k = .all) :
    step s (.ready index (.data r) sends) =
      some (s,[.sent (s.client index).sock (searchResponse (prefixHolder s f))]) := by
  have formed := nameFormed ascii short
  have length := formed.1
  rw [stepSearch ok active gate data sent (by omega),(complaintsNone _).mpr formed.2,
    searchedText data,findTerminated ok]
  rfl

def FindsHolder (s : Server) (index : Nat) (f : Bytes) (r : Received) (sends : Nat → Written) :
    Prop :=
  step s (.ready index (.data r) sends) =
    some (s,[.sent (s.client index).sock (searchResponse (holder s f))])

/- No slot shadows `f`: the lowest slot that stores a prefix of it stores it
whole, or shows the very id, address and port that are due. -/
def Unshadowed (s : Server) (f : Bytes) : Prop :=
  ∀ c, prefixHolder s f = some c → f ∈ c.names ∨ clientResponse c = searchResponse (holder s f)

theorem holderFirst {s : Server} {f : Bytes} {c : Client} (first : prefixHolder s f = some c)
    (stored : f ∈ c.names) : holder s f = some c := by
  obtain ⟨matched,below,above,split,unmatched⟩ := List.find?_eq_some_iff_append.mp first
  have active := (matchesIff.mp matched).1
  refine List.find?_eq_some_iff_append.mpr ⟨?_,below,above,split,?_⟩
  · simp [Stores,active,stored]
  · intro other member
    have missed := unmatched other member
    cases stores : Stores f other with
    | false => rfl
    | true => simp [storesMatches stores] at missed

theorem holderNone {s : Server} {f : Bytes} (missing : prefixHolder s f = none) :
    holder s f = none := by
  refine List.find?_eq_none.mpr (fun c member stores => ?_)
  exact List.find?_eq_none.mp missing c member (storesMatches stores)

theorem responseUnshadowed (s : Server) (f : Bytes) :
    searchResponse (prefixHolder s f) = searchResponse (holder s f) ↔ Unshadowed s f := by
  cases first : prefixHolder s f with
  | none => simp [Unshadowed,first,holderNone first]
  | some c =>
    simp only [Unshadowed,first,Option.some.injEq,forall_eq']
    constructor
    · exact fun same => .inr same
    · intro shown
      rcases shown with stored | same
      · rw [holderFirst first stored]
      · exact same

theorem findsHolderIff {listenSock : Nat} {log : History} {s : Server}
    (run : Run (registry listenSock) log s) {index : Nat} {r : Received} {f : Bytes}
    {sends : Nat → Written} (active : (s.client index).active = true)
    (gate : (s.client index).type ≠ .unknown) (ascii : AsciiName f) (short : f.length ≤ 98)
    (data : r.data = 2 :: (f ++ [0])) (sent : ∀ k, sends k = .all) :
    FindsHolder s index f r sends ↔ Unshadowed s f := by
  have moved := stepName (tableOk run) active gate ascii short data sent
  rw [← responseUnshadowed,FindsHolder,moved]
  simp

def isInet : SockAddr → Bool
  | .inet _ => true
  | .inet6 => false
  | .unspec => false

def allInet (s : Server) : Bool := s.clients.all (fun c => !c.active || isInet c.addr)

/- Two clients have joined, and the first publishes "a". -/
def publishedPrefix : List Event :=
  joinedOnce ++
    [.accept (.conn 5 (.inet ⟨2130706433,5001⟩) true),
      .ready 1 (.data (.zeroed [0,0,0,0,8] (by decide) (by decide))) (fun _ => .all),
      .ready 0 (.data (.zeroed [1,0,0,0,1,97,0] (by decide) (by decide))) (fun _ => .all)]

theorem findsHolderWhole : ∃ log s, Run (registry 3) log s ∧
    FindsHolder s 1 [97] (.zeroed [2,97,0] (by decide) (by decide)) (fun _ => .all) := by
  obtain ⟨log,s,done,active,gate,first⟩ : ∃ log s,
      execute (registry 3) publishedPrefix [] (registry 3).init = some (log,s) ∧
        (s.client 1).active = true ∧ (s.client 1).type = .joined ∧
        ∃ c, prefixHolder s [97] = some c ∧ c.names = [[97]] :=
    ⟨_,_,rfl,rfl,rfl,_,rfl,rfl⟩
  have run := executedRun .start done
  obtain ⟨c,first,names⟩ := first
  have unshadowed : Unshadowed s [97] := by
    intro other same
    rw [first] at same
    cases same
    exact .inl (by simp [names])
  exact ⟨log,s,run,(findsHolderIff run active (by simp [gate]) (by decide) (by decide) rfl
    (fun _ => rfl)).mpr unshadowed⟩

/- No slot stores "ab", and the search for it returns the client that stores "a". -/
theorem findsPrefixHolder : ∃ log s, Run (registry 3) log s ∧ (s.client 1).active = true ∧
    (s.client 1).type ≠ .unknown ∧ allInet s = true ∧ holder s [97,98] = none ∧
    step s (.ready 1 (.data (.zeroed [2,97,98,0] (by decide) (by decide))) (fun _ => .all)) =
      some (s,[.sent 5 [0,0,0,7,127,0,0,1,19,136]]) ∧
    ¬ FindsHolder s 1 [97,98] (.zeroed [2,97,98,0] (by decide) (by decide)) (fun _ => .all) := by
  obtain ⟨log,s,done,active,gate,inet,missing,sock,moved⟩ : ∃ log s,
      execute (registry 3) publishedPrefix [] (registry 3).init = some (log,s) ∧
        (s.client 1).active = true ∧ (s.client 1).type = .joined ∧ allInet s = true ∧
        holder s [97,98] = none ∧ (s.client 1).sock = 5 ∧
        step s (.ready 1 (.data (.zeroed [2,97,98,0] (by decide) (by decide))) (fun _ => .all)) =
          some (s,[.sent 5 [0,0,0,7,127,0,0,1,19,136]]) :=
    ⟨_,_,rfl,rfl,rfl,rfl,rfl,rfl,rfl⟩
  refine ⟨log,s,executedRun .start done,active,by simp [gate],inet,missing,moved,?_⟩
  intro finds
  rw [FindsHolder,moved,sock,missing] at finds
  have bytes := (Output.sent.inj (List.cons.inj (Prod.mk.inj (Option.some.inj finds)).2).1).2
  exact absurd bytes (by decide)

end NetworkPrograms.RegistryLookup
