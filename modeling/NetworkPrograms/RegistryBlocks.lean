import NetworkPrograms.RegistryLookup

/-! Which bytes of the stored blocks a search reads. A block is as long as its
name and has no room for a terminator, so the loop that looks for one stays
inside only while it finds a difference. -/
namespace NetworkPrograms.RegistryBlocks
open WireBytes RegistryState RegistryPublish RegistrySearch RegistryServe
open RegistryTable RegistryReplies RegistryLookup EventMachine

/- The values of `index` at which the loop reads the block; it goes on only
behind a byte that is in the block. -/
def compareReads : (stored find : Bytes) → (index : Nat) → List Nat
  | [], _, index => [index]
  | b :: stored, find, index =>
      index :: if b = 0 then []
        else match find with
          | [] => []
          | f :: find =>
              if f = 0 then []
              else if f ≠ b then []
              else compareReads stored find (index+1)

/- Every block and index that one call of search_client_files reads. -/
def fileReads : (files : List Bytes) → (find : Bytes) → List (Bytes × Nat)
  | [], _ => []
  | file :: files, find =>
      (compareReads file find 0).map (fun index => (file,index)) ++
        match compareLoop file find with
        | .reachedEnd => []
        | .stopped => fileReads files find
        | .invalid => fileReads files find
        | .fault => []

/- And those that the loop of handle_search reads through it. -/
def searchReads : List Client → (find : Bytes) → List (Bytes × Nat)
  | [], _ => []
  | c :: rest, find =>
      if !c.active then searchReads rest find
      else fileReads c.names find ++ match searchClientFiles c.names find with
        | some false => searchReads rest find
        | some true => []
        | none => []

def InBlock (read : Bytes × Nat) : Prop := read.2 < read.1.length

theorem compareInside {stored : Bytes} (plain : Plain stored) (find : Bytes) (start : Nat) :
    (∀ index ∈ compareReads stored find start, index < start + stored.length) ↔
      ¬ stored <+: find := by
  induction stored generalizing find start with
  | nil => simp [compareReads]
  | cons b stored ih =>
    obtain ⟨nonzero,plain⟩ := plainCons.mp plain
    cases find with
    | nil => simp [compareReads,nonzero]
    | cons f find =>
      have onward := ih plain find (start+1)
      rw [show start + 1 + stored.length = start + (b :: stored).length by
        rw [List.length_cons]; omega] at onward
      simp only [compareReads,if_neg nonzero,List.cons_prefix_cons]
      split
      · rename_i zero
        have differ : b ≠ f := fun same => nonzero (same.trans zero)
        simp [differ]
      split
      · rename_i differ
        simp [Ne.symm differ]
      · rename_i same
        have equal : f = b := Decidable.not_not.mp same
        rw [List.forall_mem_cons,onward]
        simp [equal]

theorem blockInside {stored : Bytes} (plain : Plain stored) (find : Bytes) :
    (∀ read ∈ (compareReads stored find 0).map (fun index => (stored,index)), InBlock read) ↔
      ¬ stored <+: find := by
  rw [← compareInside plain find 0]
  simp [InBlock]

theorem filesInside {files : List Bytes} {find : Bytes}
    (readable : ∀ name ∈ files, Plain name ∧ name.length ≤ find.length) :
    (∀ read ∈ fileReads files find, InBlock read) ↔ searchClientFiles files find = some false := by
  induction files with
  | nil => simp [fileReads,searchClientFiles]
  | cons file files ih =>
    obtain ⟨⟨plain,inside⟩,readable⟩ := List.forall_mem_cons.mp readable
    have here := blockInside plain find
    have reached := compareEnd plain find
    simp only [fileReads,searchClientFiles,List.forall_mem_append,here]
    cases compared : compareLoop file find with
    | reachedEnd => simp [reached.mp compared]
    | stopped =>
      have missed : ¬ file <+: find := fun start => by simp [reached.mpr start] at compared
      simpa [missed] using ih readable
    | invalid =>
      have missed : ¬ file <+: find := fun start => by simp [reached.mpr start] at compared
      simpa [missed] using ih readable
    | fault => exact absurd compared (compareNoFault inside)

/- A search that returns a client has read behind the end of a block, and one
that returns none has not. -/
theorem clientsInside {clients : List Client} {find : Bytes}
    (readable : ∀ c ∈ clients, Readable find c) :
    (∀ read ∈ searchReads clients find, InBlock read) ↔ searchClients clients find = some none := by
  induction clients with
  | nil => simp [searchReads,searchClients]
  | cons c rest ih =>
    obtain ⟨here,readable⟩ := List.forall_mem_cons.mp readable
    have files := filesInside here
    have decided := searchFilesExact here
    cases active : c.active with
    | false => simpa [searchReads,searchClients,active] using ih readable
    | true =>
      simp only [searchReads,searchClients,active,Bool.not_true,Bool.false_eq_true,if_false,
        List.forall_mem_append,files]
      cases any : c.names.any (fun name => name.isPrefixOf find) with
      | false => simpa [decided,any] using ih readable
      | true => simp [decided,any]

theorem searchInside {listenSock : Nat} {log : History} {s : Server}
    (run : Run (registry listenSock) log s) (f : Bytes) {junk : Bytes}
    (long : 1193 ≤ (f ++ 0 :: junk).length) :
    (∀ read ∈ searchReads s.clients (f ++ 0 :: junk), InBlock read) ↔ prefixHolder s f = none := by
  have ok := tableOk run
  rw [clientsInside (readableTable ok long),searchTable ok long,findTerminated ok]
  simp

theorem blockReadsIff {listenSock : Nat} {log : History} {s : Server}
    (run : Run (registry listenSock) log s) {index : Nat} {name : Bytes}
    (stored : name ∈ (s.client index).names) (f junk : Bytes) :
    ((∀ index ∈ compareReads name (f ++ 0 :: junk) 0, index < name.length) ↔ ¬ name <+: f) ∧
      0 ∉ name := by
  have plain := asciiPlain (namesAscii (tableOk run) stored).1
  have inside := compareInside plain (f ++ 0 :: junk) 0
  rw [Nat.zero_add,plainPrefix plain] at inside
  exact ⟨inside,fun zero => plain 0 zero rfl⟩

/- A client has published "ab"; a search for "b" stops at the first byte. -/
theorem blockReadsOther : ∃ log s, Run (registry 3) log s ∧ [97,98] ∈ (s.client 0).names ∧
    ∀ index ∈ compareReads [97,98] ([98] ++ 0 :: []) 0, index < 2 := by
  obtain ⟨log,s,done,names⟩ : ∃ log s,
      execute (registry 3) (joinedOnce ++
        [.ready 0 (.data (.zeroed [1,0,0,0,1,97,98,0] (by decide) (by decide))) (fun _ => .all)])
        [] (registry 3).init = some (log,s) ∧ (s.client 0).names = [[97,98]] := ⟨_,_,rfl,rfl⟩
  have run := executedRun .start done
  have stored : [97,98] ∈ (s.client 0).names := by rw [names]; exact .head _
  exact ⟨log,s,run,stored,(blockReadsIff run stored [98] []).1.mpr (by decide)⟩

/- The search for "ab" itself reads index 2 of a block of two bytes. -/
theorem blockReadBehind : ∃ log s, Run (registry 3) log s ∧ (s.client 0).active = true ∧
    [97,98] ∈ (s.client 0).names ∧ 2 ∈ compareReads [97,98] ([97,98] ++ 0 :: []) 0 ∧
    ¬ (∀ index ∈ compareReads [97,98] ([97,98] ++ 0 :: []) 0, index < ([97,98] : Bytes).length) ∧
    (0 : UInt8) ∉ ([97,98] : Bytes) := by
  obtain ⟨log,s,done,active,names⟩ : ∃ log s,
      execute (registry 3) (joinedOnce ++
        [.ready 0 (.data (.zeroed [1,0,0,0,1,97,98,0] (by decide) (by decide))) (fun _ => .all)])
        [] (registry 3).init = some (log,s) ∧ (s.client 0).active = true ∧
        (s.client 0).names = [[97,98]] := ⟨_,_,rfl,rfl,rfl⟩
  have behind : 2 ∈ compareReads [97,98] ([97,98] ++ 0 :: []) 0 := by decide
  refine ⟨log,s,executedRun .start done,active,by rw [names]; exact .head _,behind,?_,by decide⟩
  intro inside
  exact absurd (inside 2 behind) (by decide)

end NetworkPrograms.RegistryBlocks
