import NetworkPrograms.CPeerPublish
import NetworkPrograms.RegistryReplies

/-! A PUBLISH on its way from a peer to the registry: what the peers encode is
what the registry stores, and where the two limits disagree. -/
namespace NetworkPrograms.PublishDelivery
open WireBytes PeerListener PeerPublish CPeerPublish
open RegistryState RegistryPublish RegistryServe RegistryTable RegistryHistory RegistryReplies EventMachine

theorem stepPublish {s : Server} {index : Nat} {r : Received} {payload : Bytes}
    (active : (s.client index).active = true) (data : r.data = 1 :: payload)
    (sends : Nat → Written) :
    step s (.ready index (.data r) sends) =
      handlePublish s index (payload ++ r.before.drop r.data.length) payload.length := by
  have command : ¬ (1 : UInt8) = 0 := by decide
  simp only [step,active,if_true,handleClient,receivedHead r data,if_neg command]
  rw [show r.data.length - 1 = payload.length by rw [data]; rfl]

theorem countWord {names : List Bytes} (few : names.length ≤ 10) :
    (UInt32.ofNat names.length).toNat = names.length := by
  rw [UInt32.toNat_ofNat']
  exact Nat.mod_eq_of_lt (by omega)

theorem asciiName {name : Bytes} (known : Plain name ∧ ∀ b ∈ name, b < 128) : AsciiName name :=
  fun b member => ⟨known.1 b member,known.2 b member⟩

/- A request for at most ten names is accepted while it stays under the limit
of handle_publish, ... -/
theorem requestAccepted {s : Server} (ok : TableOk s) {index : Nat} {r : Received}
    {names : List Bytes} (active : (s.client index).active = true)
    (gate : (s.client index).type ≠ .unknown) (ascii : ∀ name ∈ names, AsciiName name)
    (few : names.length ≤ 10) (short : sizeNames names ≤ 1194)
    (data : r.data = publishRequest names) (sends : Nat → Written) :
    step s (.ready index (.data r) sends) =
      some (published s index names,[.testPublish names]) := by
  have size : (be32 (UInt32.ofNat names.length) ++ encodeNames names).length =
      4 + sizeNames names := by
    rw [List.length_append,be32Length,encodeLength]
  rw [stepPublish active data sends]
  refine publishAccepts ⟨gate,by omega,by omega,ok.fileLimit ▸ few,ascii,by omega,_,countWord few,?_⟩
  exact ⟨_,rfl⟩

/- ... and refused from 1195 bytes of names on, whatever they are. -/
theorem requestRefused {s : Server} {index : Nat} {r : Received} {names : List Bytes}
    (active : (s.client index).active = true) (gate : (s.client index).type ≠ .unknown)
    (long : 1195 ≤ sizeNames names) (data : r.data = publishRequest names)
    (sends : Nat → Written) : step s (.ready index (.data r) sends) = some (s,[]) := by
  have size : (be32 (UInt32.ofNat names.length) ++ encodeNames names).length =
      4 + sizeNames names := by
    rw [List.length_append,be32Length,encodeLength]
  rw [stepPublish active data sends]
  unfold handlePublish
  rw [if_neg gate,if_pos (by omega)]

/- What either send_publish of the Rust peers writes is stored, except when the
names fill its buffer to the last byte. -/
theorem rustStoredIff {listenSock : Nat} {log : History} {s : Server}
    (run : Run (registry listenSock) log s) {index : Nat} {r : Received}
    {entries : List (Option DirEntry)} (sends : Nat → Written)
    (active : (s.client index).active = true) (gate : (s.client index).type ≠ .unknown)
    (sent : sendPublish (some entries) .all = some (r.data,.ok ()) ∨
      sendPublishFlag (some entries) .all = some (r.data,true))
    (few : (written entries).length ≤ 10) :
    r.data = publishRequest (written entries) ∧
      (step s (.ready index (.data r) sends) =
          some (published s index (written entries),[.testPublish (written entries)]) ↔
        ∀ taken, taken <+: entries.filterMap eligible → sizeNames taken ≠ 1195) := by
  have data : r.data = publishRequest (written entries) := by
    rcases sent with wrote | wrote
    · rw [sendPublishWrites] at wrote
      exact (congrArg Prod.fst (Option.some.inj wrote)).symm
    · rw [sendPublishFlagWrites] at wrote
      exact (congrArg Prod.fst (Option.some.inj wrote)).symm
  refine ⟨data,?_⟩
  have most : sizeNames (written entries) ≤ 1195 := fitSize 1195 _
  have full : sizeNames (written entries) = 1195 ↔
      ∃ taken, taken <+: entries.filterMap eligible ∧ sizeNames taken = 1195 := fitFull
  have ascii : ∀ name ∈ written entries, AsciiName name :=
    fun name member => asciiName (writtenAscii member)
  constructor
  · intro stored taken start size
    have refused := requestRefused active gate (full.mpr ⟨taken,start,size⟩).ge data sends
    rw [refused] at stored
    simp at stored
  · intro partial_room
    have short : sizeNames (written entries) ≠ 1195 := by
      intro size
      obtain ⟨taken,start,same⟩ := full.mp size
      exact partial_room taken start same
    exact requestAccepted (tableOk run) active gate ascii few (by omega) data sends

/- A regular file whose name is one letter, repeated. -/
def fileNamed (letter : UInt8) (nonzero : letter ≠ 0) (more : Nat) : Option DirEntry :=
  some ⟨some true,some ⟨List.replicate (more + 1) letter,by simp,
    fun _ member => List.eq_of_mem_replicate member ▸ nonzero⟩⟩

theorem fileNamedEligible {letter : UInt8} (nonzero : letter ≠ 0) (ascii : letter < 128) (more : Nat) :
    eligible (fileNamed letter nonzero more) = some (List.replicate (more + 1) letter) := by
  have every : isAscii (List.replicate (more + 1) letter) = true :=
    asciiBelow.mpr (fun _ member => List.eq_of_mem_replicate member ▸ ascii)
  simp only [eligible,fileNamed,Bool.not_true,Bool.false_eq_true,if_false,if_pos every]

/- A directory with one file, "aaa". -/
theorem rustStoredShort : ∃ log s, Run (registry 3) log s ∧
    step s (.ready 0 (.data (.zeroed [1,0,0,0,1,97,97,97,0] (by decide) (by decide))) (fun _ => .all)) =
      some (published s 0 [[97,97,97]],[.testPublish [[97,97,97]]]) := by
  obtain ⟨log,s,done,active,gate⟩ : ∃ log s,
      execute (registry 3) joinedOnce [] (registry 3).init = some (log,s) ∧
        (s.client 0).active = true ∧ (s.client 0).type = .joined := ⟨_,_,rfl,rfl,rfl⟩
  have sent : sendPublish (some [fileNamed 97 (by decide) 2]) .all =
      some ((Received.zeroed [1,0,0,0,1,97,97,97,0] (by decide) (by decide)).data,.ok ()) := by
    rw [sendPublishWrites]
    rfl
  have run := executedRun .start done
  have stored := (rustStoredIff run (fun _ => .all) active (by simp [gate]) (.inl sent) (by decide)).2
  refine ⟨log,s,run,stored.mpr ?_⟩
  intro taken start size
  obtain ⟨more,whole⟩ := start
  have small : sizeNames (taken ++ more) = 4 := by rw [whole]; rfl
  rw [sizeAppend] at small
  omega

/- Five names of 238 bytes fill the buffer of send_publish exactly. -/
def fullDirectory : List (Option DirEntry) :=
  [fileNamed 97 (by decide) 237,fileNamed 98 (by decide) 237,fileNamed 99 (by decide) 237,
    fileNamed 100 (by decide) 237,fileNamed 101 (by decide) 237]

theorem fullWritten : written fullDirectory =
    [List.replicate 238 97,List.replicate 238 98,List.replicate 238 99,List.replicate 238 100,
      List.replicate 238 101] := by
  have listed : fullDirectory.filterMap eligible =
      [List.replicate 238 97,List.replicate 238 98,List.replicate 238 99,List.replicate 238 100,
        List.replicate 238 101] := by
    simp only [fullDirectory,List.filterMap_cons,List.filterMap_nil,
      fileNamedEligible (by decide : (97 : UInt8) ≠ 0) (by decide),
      fileNamedEligible (by decide : (98 : UInt8) ≠ 0) (by decide),
      fileNamedEligible (by decide : (99 : UInt8) ≠ 0) (by decide),
      fileNamedEligible (by decide : (100 : UInt8) ≠ 0) (by decide),
      fileNamedEligible (by decide : (101 : UInt8) ≠ 0) (by decide)]
  simp only [written,listed,fit,List.length_replicate]
  simp

/- They are sent in a message of 1200 bytes, and the registry refuses it. -/
theorem rustRefusedFull : ∃ log s r, Run (registry 3) log s ∧ (s.client 0).type = .joined ∧
    sendPublish (some fullDirectory) .all = some (Received.data r,.ok ()) ∧
    r.data.length = 1200 ∧ (written fullDirectory).length = 5 ∧
    step s (.ready 0 (.data r) (fun _ => .all)) = some (s,[]) := by
  obtain ⟨log,s,done,active,gate⟩ : ∃ log s,
      execute (registry 3) joinedOnce [] (registry 3).init = some (log,s) ∧
        (s.client 0).active = true ∧ (s.client 0).type = .joined := ⟨_,_,rfl,rfl,rfl⟩
  have size : sizeNames (written fullDirectory) = 1195 := by
    simp only [fullWritten,sizeCons,sizeNil,List.length_replicate]
  have length : (publishRequest (written fullDirectory)).length = 1200 := by
    simp only [publishRequest,List.length_cons,List.length_append,be32Length,encodeLength,size]
  refine ⟨log,s,.zeroed (publishRequest (written fullDirectory)) (List.cons_ne_nil _ _)
    (by rw [length]; decide),executedRun .start done,gate,sendPublishWrites _,length,?_,?_⟩
  · rw [fullWritten]
    rfl
  · exact requestRefused active (by simp [gate]) size.ge rfl _

/- What publish of the C peer sends is stored: its bound is the stricter one. -/
theorem cPeerStored {listenSock : Nat} {log : History} {s : Server}
    (run : Run (registry listenSock) log s) {index : Nat} {stat : Bytes → Option Bool}
    {entries : List FileName} {before : Bytes} (active : (s.client index).active = true)
    (gate : (s.client index).type ≠ .unknown) (sized : before.length = 1200)
    (ascii : ∀ ent ∈ entries, stat (filePath ent) = some true → ∀ b ∈ ent.bytes, b < 128)
    (few : (copied stat entries).length ≤ 10) :
    publish stat before (some entries) = some (some (publishRequest (copied stat entries))) ∧
      (copied stat entries <+: regular stat entries ∧ 5 + sizeNames (copied stat entries) < 1200 ∧
        ∀ taken, taken <+: regular stat entries → 5 + sizeNames taken < 1200 →
          taken <+: copied stat entries) ∧
      ∀ (r : Received) (sends : Nat → Written), r.data = publishRequest (copied stat entries) →
        step s (.ready index (.data r) sends) =
          some (published s index (copied stat entries),[.testPublish (copied stat entries)]) := by
  have most : sizeNames (copied stat entries) ≤ 1194 := fitSize 1194 _
  refine ⟨publishWrites stat entries sized,⟨fitPrefix 1194 _,by omega,?_⟩,?_⟩
  · intro taken start fits
    exact fitLongest start (by omega)
  · intro r sends data
    exact requestAccepted (tableOk run) active gate (fun name member => asciiName (copiedAscii ascii member))
      few most data sends

def dotEntry : FileName := ⟨[46],by decide,by decide⟩
def letterEntry : FileName := ⟨[97],by decide,by decide⟩
def endsInA (path : Bytes) : Option Bool := some (path.getLast? == some 97)

/- A directory with "." and "a", of which only the second is a regular file. -/
theorem cPeerStoredShort : ∃ log s, Run (registry 3) log s ∧
    step s (.ready 0 (.data (.zeroed [1,0,0,0,1,97,0] (by decide) (by decide))) (fun _ => .all)) =
      some (published s 0 [[97]],[.testPublish [[97]]]) := by
  obtain ⟨log,s,done,active,gate⟩ : ∃ log s,
      execute (registry 3) joinedOnce [] (registry 3).init = some (log,s) ∧
        (s.client 0).active = true ∧ (s.client 0).type = .joined := ⟨_,_,rfl,rfl,rfl⟩
  have run := executedRun .start done
  have stored := (@cPeerStored 3 log s run 0 endsInA [dotEntry,letterEntry] (List.replicate 1200 0)
    active (by simp [gate]) List.length_replicate (by simp [dotEntry,letterEntry]) (by decide)).2.2
  exact ⟨log,s,run,stored (.zeroed [1,0,0,0,1,97,0] (by decide) (by decide)) _ rfl⟩

end NetworkPrograms.PublishDelivery
