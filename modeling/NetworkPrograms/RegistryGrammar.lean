import NetworkPrograms.RegistryHistory

/-! Exactly which payloads handle_publish accepts, what it then changes, and
which memory it looks at: its reads and the subtractions from `len`, in order. -/
namespace NetworkPrograms.RegistryGrammar
open WireBytes RegistryState RegistryPublish RegistryHistory

/- A count, as many names as it says, and anything behind them. -/
structure Grammar (maxFiles : Nat) (b : Bytes) (names : List Bytes) : Prop where
  count : names.length ≤ maxFiles
  ascii : ∀ name ∈ names, AsciiName name
  shape : ∃ n : UInt32, n.toNat = names.length ∧ ∃ rest, b = be32 n ++ encodeNames names ++ rest

/- One access: a read of the payload at a position, or `len -= amount`. -/
inductive Access where
  | read (position : Nat)
  | subtract (len amount : Nat)
  deriving DecidableEq, Repr

def Inside (size : Nat) : Access → Prop
  | .read position => position < size
  | .subtract len amount => amount ≤ len

/- `start` is the position of `p` in the payload. -/
def scanAccesses : (p : Bytes) → (left start : Nat) → List Access
  | _, 0, _ => []
  | [], _+1, start => [.read start]
  | b :: p, left+1, start =>
      .read start ::
        if b = 0 then []
        else if 128 ≤ b then []
        else scanAccesses p left (start+1)

def strncpyAccesses : (p : Bytes) → (n start : Nat) → List Access
  | _, 0, _ => []
  | [], _+1, start => [.read start]
  | b :: p, n+1, start => .read start :: if b = 0 then [] else strncpyAccesses p n (start+1)

def loopAccesses : (count : Nat) → (p : Bytes) → (len start : Nat) → List Access
  | 0, _, _, _ => []
  | count+1, p, len, start =>
      scanAccesses p len start ++ match scanName p len 0 with
        | .found strLen =>
            strncpyAccesses p strLen start ++ .subtract len (strLen+1) ::
              loopAccesses count (p.drop (strLen+1)) (len - (strLen+1)) (start + (strLen+1))
        | .invalid => []
        | .unterminated => []
        | .fault => []

/- The accesses of handle_publish, along the branches it takes. -/
def publishAccesses (s : Server) (index : Nat) (buffer : Bytes) (len : Nat) : List Access :=
  if (s.client index).type = .unknown then []
  else if 1199 ≤ len then []
  else if len < 4 then []
  else [.read 0,.read 1,.read 2,.read 3] ++ match buffer with
    | a :: b :: c :: d :: p =>
        if s.maxFiles < (readBe32 a b c d).toNat then []
        else .subtract len 4 :: loopAccesses (readBe32 a b c d).toNat p (len - 4) 4
    | _ => []

theorem scanInside (p : Bytes) (left start : Nat) :
    ∀ access ∈ scanAccesses p left start, Inside (start + left) access := by
  induction p generalizing left start with
  | nil =>
    cases left with
    | zero => simp [scanAccesses]
    | succ left => simp [scanAccesses,Inside]
  | cons b p ih =>
    cases left with
    | zero => simp [scanAccesses]
    | succ left =>
      have onward := ih left (start+1)
      rw [Nat.add_assoc,Nat.add_comm 1 left] at onward
      intro access member
      rcases List.mem_cons.mp member with rfl | later
      · simp [Inside]
      · split at later
        · contradiction
        · split at later
          · contradiction
          · exact onward access later

theorem strncpyInside (p : Bytes) (n start : Nat) :
    ∀ access ∈ strncpyAccesses p n start, Inside (start + n) access := by
  induction p generalizing n start with
  | nil =>
    cases n with
    | zero => simp [strncpyAccesses]
    | succ n => simp [strncpyAccesses,Inside]
  | cons b p ih =>
    cases n with
    | zero => simp [strncpyAccesses]
    | succ n =>
      have onward := ih n (start+1)
      rw [Nat.add_assoc,Nat.add_comm 1 n] at onward
      intro access member
      rcases List.mem_cons.mp member with rfl | later
      · simp [Inside]
      · split at later
        · contradiction
        · exact onward access later

theorem insideMono {small large : Nat} (le : small ≤ large) {access : Access}
    (inside : Inside small access) : Inside large access := by
  cases access with
  | read position => exact Nat.lt_of_lt_of_le inside le
  | subtract len amount => exact inside

/- A name that was found ends before `len`, so `start + len` does not move. -/
theorem loopInside (count : Nat) (p : Bytes) (len start : Nat) :
    ∀ access ∈ loopAccesses count p len start, Inside (start + len) access := by
  induction count generalizing p len start with
  | zero => simp [loopAccesses]
  | succ count ih =>
    intro access member
    simp only [loopAccesses] at member
    rcases List.mem_append.mp member with scanned | later
    · exact scanInside p len start access scanned
    · split at later <;> try contradiction
      rename_i strLen found
      obtain ⟨name,tail,-,length,short,-⟩ := scanSound found
      rcases List.mem_append.mp later with copied | later
      · exact insideMono (by omega) (strncpyInside p strLen start access copied)
      · rcases List.mem_cons.mp later with rfl | rest
        · simp only [Inside]
          omega
        · have inside := ih _ _ _ access rest
          rw [show start + (strLen+1) + (len - (strLen+1)) = start + len by omega] at inside
          exact inside

theorem publishInside (s : Server) (index : Nat) (buffer : Bytes) (len : Nat) :
    ∀ access ∈ publishAccesses s index buffer len, Inside len access := by
  intro access member
  unfold publishAccesses at member
  split at member
  · contradiction
  split at member
  · contradiction
  split at member
  · contradiction
  rename_i enough
  rcases List.mem_append.mp member with word | later
  · simp only [List.mem_cons,List.not_mem_nil,or_false] at word
    rcases word with rfl | rfl | rfl | rfl <;> simp only [Inside] <;> omega
  · split at later
    · split at later
      · contradiction
      · rcases List.mem_cons.mp later with rfl | rest
        · simp only [Inside]
          omega
        · have inside := loopInside _ _ _ _ access rest
          rw [show 4 + (len - 4) = len by omega] at inside
          exact inside
    · contradiction

theorem grammarAccepted {s : Server} {index : Nat} {b : Bytes} {names : List Bytes}
    (gate : (s.client index).type ≠ .unknown) (enough : 4 ≤ b.length) (short : b.length ≤ 1198)
    (parsed : Grammar s.maxFiles b names) (junk : Bytes) :
    Accepted s index (b ++ junk) b.length names := by
  obtain ⟨count,ascii,n,value,rest,rfl⟩ := parsed
  refine ⟨gate,enough,short,count,ascii,?_,n,value,rest ++ junk,by simp⟩
  simp [encodeLength]

theorem acceptedGrammar {s : Server} {index : Nat} {b junk : Bytes} {names : List Bytes}
    (accepted : Accepted s index (b ++ junk) b.length names) : Grammar s.maxFiles b names :=
  ⟨accepted.count,accepted.ascii,acceptedPayload accepted⟩

/- With memory behind the payload or none, the same two outcomes. -/
theorem publishParsed {s : Server} {index : Nat} {b : Bytes} {names : List Bytes}
    (gate : (s.client index).type ≠ .unknown) (enough : 4 ≤ b.length) (short : b.length ≤ 1198)
    (parsed : Grammar s.maxFiles b names) (junk : Bytes) :
    handlePublish s index (b ++ junk) b.length =
      some (published s index names,[.testPublish names]) :=
  publishAccepts (grammarAccepted gate enough short parsed junk)

theorem publishRefused {s : Server} {index : Nat} {b : Bytes}
    (foreign : ¬ (4 ≤ b.length ∧ b.length ≤ 1198 ∧ ∃ names, Grammar s.maxFiles b names))
    (junk : Bytes) : handlePublish s index (b ++ junk) b.length = some (s,[]) := by
  obtain ⟨⟨s',out⟩,handled⟩ := publishTotal s index (show b.length ≤ (b ++ junk).length by simp)
  rcases publishCases handled with ⟨rfl,rfl⟩ | ⟨names,accepted,-,-⟩
  · exact handled
  · exact absurd ⟨accepted.enough,accepted.short,names,acceptedGrammar accepted⟩ foreign

/- What stands behind the payload makes no difference, and need not be there. -/
theorem publishBehind (s : Server) (index : Nat) (b junk : Bytes) :
    handlePublish s index (b ++ junk) b.length = handlePublish s index b b.length := by
  by_cases unknown : (s.client index).type = .unknown
  · simp only [handlePublish,if_pos unknown]
  · by_cases accepts : 4 ≤ b.length ∧ b.length ≤ 1198 ∧ ∃ names, Grammar s.maxFiles b names
    · obtain ⟨enough,short,names,parsed⟩ := accepts
      have alone := publishParsed unknown enough short parsed []
      rw [List.append_nil] at alone
      rw [publishParsed unknown enough short parsed junk,alone]
    · have alone : handlePublish s index (b ++ []) b.length = some (s,[]) := publishRefused accepts []
      rw [List.append_nil] at alone
      rw [publishRefused accepts junk,alone]

/- The list and its length in one slot, and nothing else anywhere. -/
structure OnlyFiles (s s' : Server) (index : Nat) (names : List Bytes) : Prop where
  slot : s'.client index = {s.client index with filesLen := names.length, files := some names}
  others : ∀ other, other ≠ index → s'.client other = s.client other
  maxConn : s'.maxConn = s.maxConn
  maxFiles : s'.maxFiles = s.maxFiles
  activeClients : s'.activeClients = s.activeClients
  listenSock : s'.listenSock = s.listenSock
  allSocks : s'.allSocks = s.allSocks
  maxSocket : s'.maxSocket = s.maxSocket

theorem publishedOnly {s : Server} {index : Nat} (inside : index < s.maxConn) (names : List Bytes) :
    OnlyFiles s (published s index names) index names :=
  ⟨clientSetSelf inside _,fun _ different => clientSetOther s index _ _ (Ne.symm different),
    rfl,rfl,rfl,rfl,rfl,rfl⟩

/- The handler accepts by printing the names it stored. -/
def Accepts (s : Server) (index : Nat) (buffer : Bytes) (len : Nat) : Prop :=
  ∃ s' names, handlePublish s index buffer len = some (s',[.testPublish names])

theorem publishGrammar {s : Server} {index : Nat} (inside : index < s.maxConn)
    (gate : (s.client index).type ≠ .unknown) (b junk : Bytes) :
    (Accepts s index (b ++ junk) b.length ↔
      4 ≤ b.length ∧ b.length ≤ 1198 ∧ ∃ names, Grammar s.maxFiles b names) ∧
    (∀ names, Accepts s index (b ++ junk) b.length → Grammar s.maxFiles b names →
      ∃ s', handlePublish s index (b ++ junk) b.length = some (s',[.testPublish names]) ∧
        OnlyFiles s s' index names) ∧
    (¬ Accepts s index (b ++ junk) b.length →
      handlePublish s index (b ++ junk) b.length = some (s,[])) ∧
    (∀ access ∈ publishAccesses s index (b ++ junk) b.length, Inside b.length access) := by
  have exact : Accepts s index (b ++ junk) b.length ↔
      4 ≤ b.length ∧ b.length ≤ 1198 ∧ ∃ names, Grammar s.maxFiles b names := by
    constructor
    · intro ⟨s',names,handled⟩
      rcases publishCases handled with ⟨-,quiet⟩ | ⟨stored,accepted,-,-⟩
      · contradiction
      · exact ⟨accepted.enough,accepted.short,stored,acceptedGrammar accepted⟩
    · intro ⟨enough,short,names,parsed⟩
      exact ⟨_,names,publishParsed gate enough short parsed junk⟩
  refine ⟨exact,?_,?_,publishInside s index _ _⟩
  · intro names accepts parsed
    obtain ⟨enough,short,-⟩ := exact.mp accepts
    exact ⟨_,publishParsed gate enough short parsed junk,publishedOnly inside names⟩
  · intro refuses
    exact publishRefused (fun parsed => refuses (exact.mpr parsed)) junk

/- A client of a fresh table that has joined, and the payload with the one name "a". -/
theorem publishGrammarOne : ∃ s : Server, (s.client 0).type = .joined ∧
    Accepts s 0 ([0,0,0,1,97,0] ++ [7]) 6 := by
  have inside : 0 < (initServer 3).maxConn := Nat.succ_pos 49
  have slot := clientSetSelf inside {Client.zero with active := true, type := .joined}
  have room : 0 < ((initServer 3).setClient 0
    {Client.zero with active := true, type := .joined}).maxConn := inside
  refine ⟨(initServer 3).setClient 0 {Client.zero with active := true, type := .joined},
    by rw [slot],?_⟩
  have parsed : Grammar 10 [0,0,0,1,97,0] [[97]] :=
    ⟨by decide,by decide,1,rfl,[],rfl⟩
  exact (publishGrammar room (by rw [slot]; decide) [0,0,0,1,97,0] [7]).1.mpr
    ⟨by decide,by decide,[[97]],parsed⟩

end NetworkPrograms.RegistryGrammar
