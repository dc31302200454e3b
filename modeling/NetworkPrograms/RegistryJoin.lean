import NetworkPrograms.RegistryState

/-! handle_join. The loop leaves at the first active slot in either branch, so
that slot alone decides whether the sender takes the id it asks for. -/
namespace NetworkPrograms.RegistryJoin
open WireBytes RegistryState

/- Whether the loop reaches the branch that writes the sender's slot. -/
def joinLoop (receivedId : UInt32) : List Client → Bool
  | [] => false
  | c :: rest =>
      if !c.active then joinLoop receivedId rest
      else if c.id = receivedId then false
      else true

def joined (s : Server) (index : Nat) (receivedId : UInt32) : Server :=
  s.setClient index {s.client index with id := receivedId, type := .joined}

def joinAs (s : Server) (index : Nat) (receivedId : UInt32) : Server × List Output :=
  if joinLoop receivedId s.clients then (joined s index receivedId,[.testJoin receivedId])
  else (s,[])

def handleJoin (s : Server) (index : Nat) (buffer : Bytes) (len : Nat) :
    Option (Server × List Output) :=
  if len ≠ 4 then some (s,[])
  else match buffer with
    | a :: b :: c :: d :: _ => some (joinAs s index (readBe32 a b c d))
    | _ => none

def firstActive (s : Server) : Option Client := s.clients.find? (fun c => c.active)

theorem joinLoopFirst (receivedId : UInt32) (clients : List Client) :
    joinLoop receivedId clients = true ↔
      ∃ c, clients.find? (fun c => c.active) = some c ∧ c.id ≠ receivedId := by
  induction clients with
  | nil => simp [joinLoop]
  | cons c rest ih =>
    cases active : c.active with
    | false => simp [joinLoop,active,ih]
    | true => simp [joinLoop,active]

theorem joinAsFirst (s : Server) (index : Nat) (receivedId : UInt32) {first : Client}
    (found : firstActive s = some first) :
    joinAs s index receivedId =
      if first.id = receivedId then (s,[])
      else (joined s index receivedId,[.testJoin receivedId]) := by
  have decided := joinLoopFirst receivedId s.clients
  rw [show s.clients.find? (fun c => c.active) = some first from found] at decided
  unfold joinAs
  by_cases same : first.id = receivedId
  · have refused : ¬ joinLoop receivedId s.clients = true := by simp [decided,same]
    rw [if_neg refused,if_pos same]
  · have written : joinLoop receivedId s.clients = true := by simp [decided,same]
    rw [if_pos written,if_neg same]

theorem joinAsCases (s : Server) (index : Nat) (receivedId : UInt32) :
    joinAs s index receivedId = (s,[]) ∨
      (joinLoop receivedId s.clients = true ∧
        joinAs s index receivedId = (joined s index receivedId,[.testJoin receivedId])) := by
  unfold joinAs
  split
  · rename_i written
    exact .inr ⟨written,rfl⟩
  · exact .inl rfl

theorem joinCases {s s' : Server} {index len : Nat} {buffer : Bytes} {out : List Output}
    (h : handleJoin s index buffer len = some (s',out)) :
    (s' = s ∧ out = []) ∨
      ∃ n tail, len = 4 ∧ buffer = be32 n ++ tail ∧ joinLoop n s.clients = true ∧
        s' = joined s index n ∧ out = [.testJoin n] := by
  unfold handleJoin at h
  split at h
  · cases h
    exact .inl ⟨rfl,rfl⟩
  rename_i four
  split at h
  · rename_i a b c d tail
    rcases joinAsCases s index (readBe32 a b c d) with same | ⟨written,same⟩
    · rw [same] at h
      cases h
      exact .inl ⟨rfl,rfl⟩
    · rw [same] at h
      cases h
      refine .inr ⟨_,tail,by omega,?_,written,rfl,rfl⟩
      rw [be32Read]
      rfl
  · contradiction

theorem joinWord (s : Server) (index : Nat) (n : UInt32) (tail : Bytes) :
    handleJoin s index (be32 n ++ tail) 4 = some (joinAs s index n) := by
  unfold handleJoin
  rw [if_neg (by simp)]
  simp only [be32,List.cons_append,readBe32Word]

theorem joinTotal (s : Server) (index : Nat) {buffer : Bytes} {len : Nat}
    (inside : len ≤ buffer.length) : ∃ r, handleJoin s index buffer len = some r := by
  unfold handleJoin
  split
  · exact ⟨_,rfl⟩
  rename_i four
  obtain ⟨a,b,c,d,rest,rfl⟩ := wordAhead (show 4 ≤ buffer.length by omega)
  exact ⟨_,rfl⟩

end NetworkPrograms.RegistryJoin
