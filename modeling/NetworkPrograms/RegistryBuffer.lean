import NetworkPrograms.RegistryGrammar
import NetworkPrograms.RegistryLookup

/-! What a step owes to the bytes it received and what to the rest of the array
they were received into. JOIN and PUBLISH look at nothing else; a SEARCH that is
not terminated is compared with whatever the array held. -/
namespace NetworkPrograms.RegistryBuffer
open WireBytes RegistryState RegistryPublish RegistryJoin RegistrySearch RegistryServe
open RegistryTable RegistryReplies RegistryLookup RegistryGrammar EventMachine

/- Two receptions of the same bytes over arrays that held different ones. -/
def Independent (s : Server) (index : Nat) (data : Bytes) : Prop :=
  ∀ (r r' : Received) (sends : Nat → Written), r.data = data → r'.data = data →
    step s (.ready index (.data r) sends) = step s (.ready index (.data r') sends)

/- No stored name that begins with these bytes is kept by a client whose record
differs from the record due for the bytes alone. -/
def Settled (s : Server) (payload : Bytes) : Prop :=
  ∀ c ∈ s.clients, c.active = true → ∀ name ∈ c.names, payload <+: name →
    searchResponse (prefixHolder s name) = searchResponse (prefixHolder s payload)

/- A SEARCH that the handler carries out although nothing terminates it. -/
def OpenSearch (s : Server) (index : Nat) (data payload : Bytes) : Prop :=
  data = 2 :: payload ∧ (s.client index).type ≠ .unknown ∧ payload.length < 100 ∧ Plain payload

theorem joinBehind (s : Server) (index : Nat) (b junk : Bytes) :
    handleJoin s index (b ++ junk) b.length = handleJoin s index b b.length := by
  unfold handleJoin
  split
  · rfl
  · rename_i four
    obtain ⟨w,x,y,z,rest,rfl⟩ := wordAhead (show 4 ≤ b.length by omega)
    rfl

/- The record sent is all that a search takes from behind its payload. -/
theorem searchBehind {s : Server} (ok : TableOk s) (index : Nat) {command : UInt8}
    {payload junk junk' : Bytes} (sends : Nat → Written)
    (full : 1193 ≤ (payload ++ junk).length) (full' : 1193 ≤ (payload ++ junk').length)
    (same : (s.client index).type ≠ .unknown → payload.length < 100 →
      searchResponse (s.clients.find? (Matches (payload ++ junk))) =
        searchResponse (s.clients.find? (Matches (payload ++ junk')))) :
    handleSearch s index (command :: (payload ++ junk)) payload.length sends =
      handleSearch s index (command :: (payload ++ junk')) payload.length sends := by
  unfold handleSearch
  split
  · rfl
  rename_i gate
  split
  · rfl
  rename_i short
  simp only [List.drop_succ_cons,List.drop_zero,List.take_left,endByte,searchTable ok full,
    searchTable ok full',same gate (by omega)]

/- The first zero byte of a text, if it has one. -/
theorem plainOrEnded (text : Bytes) :
    Plain text ∨ ∃ front back, text = front ++ 0 :: back ∧ Plain front := by
  cases split : splitName text with
  | some parts => exact .inr ⟨parts.1,parts.2,splitExact.mp split⟩
  | none =>
    refine .inl ?_
    induction text with
    | nil => exact nofun
    | cons b text ih =>
      simp only [splitName] at split
      split at split
      · contradiction
      · rename_i nonzero
        exact plainCons.mpr ⟨nonzero,ih (Option.map_eq_none_iff.mp split)⟩

theorem matchesExtension {payload junk : Bytes} {c : Client} :
    Matches (payload ++ junk) c = true ↔
      Matches payload c = true ∨
        (c.active = true ∧ ∃ name ∈ c.names, payload <+: name ∧ name <+: payload ++ junk) := by
  simp only [matchesIff]
  constructor
  · intro ⟨active,name,stored,start⟩
    rcases List.prefix_or_prefix_of_prefix start (List.prefix_append payload junk) with within | beyond
    · exact .inl ⟨active,name,stored,within⟩
    · exact .inr ⟨active,name,stored,beyond,start⟩
  · intro found
    rcases found with ⟨active,name,stored,within⟩ | ⟨active,name,stored,-,start⟩
    · exact ⟨active,name,stored,within.trans (List.prefix_append payload junk)⟩
    · exact ⟨active,name,stored,start⟩

/- The names of the active slots that begin with the payload and with which the
text behind it goes on. -/
def reaching (s : Server) (payload text : Bytes) : List Bytes :=
  ((s.clients.filter (fun c => c.active)).flatMap (fun c => c.names)).filter
    (fun name => payload.isPrefixOf name && name.isPrefixOf text)

theorem reachingMember {s : Server} {payload text name : Bytes} :
    name ∈ reaching s payload text ↔
      (∃ c ∈ s.clients, c.active = true ∧ name ∈ c.names) ∧ payload <+: name ∧ name <+: text := by
  simp only [reaching,List.mem_filter,List.mem_flatMap,Bool.and_eq_true,List.isPrefixOf_iff_prefix,
    and_assoc]

/- Among names that a text goes on with there is one that all others start. -/
theorem longestReaching {names : List Bytes} {text : Bytes} (some_name : names ≠ [])
    (starts : ∀ name ∈ names, name <+: text) :
    ∃ longest ∈ names, ∀ name ∈ names, name <+: longest := by
  induction names with
  | nil => contradiction
  | cons name names ih =>
    obtain ⟨here,starts⟩ := List.forall_mem_cons.mp starts
    cases names with
    | nil => exact ⟨name,.head _,fun other member => by rw [List.mem_singleton.mp member]⟩
    | cons next names =>
      obtain ⟨longest,member,all⟩ := ih (List.cons_ne_nil _ _) starts
      rcases List.prefix_or_prefix_of_prefix here (starts longest member) with shorter | longer
      · exact ⟨longest,.tail _ member,List.forall_mem_cons.mpr ⟨shorter,all⟩⟩
      · refine ⟨name,.head _,List.forall_mem_cons.mpr ⟨List.prefix_refl name,?_⟩⟩
        exact fun other member => (all other member).trans longer

/- Whatever follows an unterminated payload, the answer is the one due for the
payload or for a stored name that begins with it. -/
theorem answerReached (s : Server) (payload junk : Bytes) :
    s.clients.find? (Matches (payload ++ junk)) = prefixHolder s payload ∨
      ∃ c ∈ s.clients, c.active = true ∧ ∃ name ∈ c.names, payload <+: name ∧
        s.clients.find? (Matches (payload ++ junk)) = prefixHolder s name := by
  cases reached : reaching s payload (payload ++ junk) with
  | nil =>
    refine .inl (List.find?_congr (fun c member => Bool.eq_iff_iff.mpr ?_))
    rw [matchesExtension]
    constructor
    · intro found
      rcases found with within | ⟨active,name,stored,beyond,start⟩
      · exact within
      · have listed := reachingMember.mpr ⟨⟨c,member,active,stored⟩,beyond,start⟩
        rw [reached] at listed
        contradiction
    · exact .inl
  | cons first rest =>
    have some_name : reaching s payload (payload ++ junk) ≠ [] := by simp [reached]
    obtain ⟨longest,member,all⟩ :=
      longestReaching some_name (fun name member => (reachingMember.mp member).2.2)
    obtain ⟨⟨c,slot,active,stored⟩,beyond,start⟩ := reachingMember.mp member
    refine .inr ⟨c,slot,active,longest,stored,beyond,List.find?_congr (fun other inside => ?_)⟩
    refine Bool.eq_iff_iff.mpr ?_
    rw [matchesIff,matchesIff]
    constructor
    · intro ⟨live,name,kept,reaches⟩
      refine ⟨live,name,kept,?_⟩
      rcases List.prefix_or_prefix_of_prefix reaches (List.prefix_append payload junk) with within | past
      · exact within.trans beyond
      · exact all name (reachingMember.mpr ⟨⟨other,inside,live,kept⟩,past,reaches⟩)
    · intro ⟨live,name,kept,within⟩
      exact ⟨live,name,kept,within.trans start⟩

theorem settledAnswer {s : Server} {payload : Bytes} (settled : Settled s payload) (junk : Bytes) :
    searchResponse (s.clients.find? (Matches (payload ++ junk))) =
      searchResponse (prefixHolder s payload) := by
  rcases answerReached s payload junk with same | ⟨c,slot,active,name,stored,beyond,same⟩
  · rw [same]
  · rw [same]
    exact settled c slot active name stored beyond

theorem settledIndependent {s : Server} (ok : TableOk s) {index : Nat}
    (active : (s.client index).active = true) {data : Bytes}
    (settled : ∀ payload, OpenSearch s index data payload → Settled s payload) :
    Independent s index data := by
  intro r r' sends first second
  obtain ⟨command,payload,shape⟩ := receivedCons r
  have shape' : r'.data = command :: payload := second.trans (first.symm.trans shape)
  have full := receivedLength r
  have full' := receivedLength r'
  rw [receivedHead r shape,List.length_cons,buffSize] at full
  rw [receivedHead r' shape',List.length_cons,buffSize] at full'
  have length : r.data.length - 1 = payload.length := by simp [shape]
  have length' : r'.data.length - 1 = payload.length := by simp [shape']
  simp only [step,active,if_true,handleClient,receivedHead r shape,receivedHead r' shape',length,
    length']
  split
  · rw [joinBehind,joinBehind s index payload (r'.before.drop r'.data.length)]
  split
  · rw [publishBehind,publishBehind s index payload (r'.before.drop r'.data.length)]
  split
  · rename_i search
    subst search
    have answers : (s.client index).type ≠ .unknown → payload.length < 100 →
        searchResponse (s.clients.find? (Matches (payload ++ r.before.drop r.data.length))) =
          searchResponse (s.clients.find? (Matches (payload ++ r'.before.drop r'.data.length))) := by
      intro gate short
      rcases plainOrEnded payload with plain | ⟨front,back,rfl,-⟩
      · have known := settled payload ⟨first.symm.trans shape,gate,short,plain⟩
        rw [settledAnswer known,settledAnswer known]
      · rw [List.append_assoc,List.append_assoc,List.cons_append,List.cons_append,findTerminated ok,
          findTerminated ok]
    rw [searchBehind ok index sends (Nat.le_trans (by decide) (Nat.le_of_succ_le_succ full.ge))
      (Nat.le_trans (by decide) (Nat.le_of_succ_le_succ full'.ge)) answers]
  · rfl

end NetworkPrograms.RegistryBuffer
