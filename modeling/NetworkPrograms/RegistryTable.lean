import NetworkPrograms.RegistryServe

/-! The representation invariant of the client table, kept by every event, and
what follows from it at once: no handler reads outside its memory. -/
namespace NetworkPrograms.RegistryTable
open WireBytes RegistryState RegistryPublish RegistryJoin RegistrySearch RegistryServe EventMachine

structure SlotOk (maxFiles : Nat) (c : Client) : Prop where
  cleared : c.active = false → c.id = 0 ∧ c.sock = 0 ∧ c.filesLen = 0 ∧ c.files = none
  counted : c.filesLen = (c.files.getD []).length
  few : c.filesLen ≤ maxFiles
  ascii : ∀ name ∈ c.files.getD [], AsciiName name
  small : sizeNames (c.files.getD []) ≤ 1194

def activeCount (s : Server) : Nat := s.clients.countP (fun c => c.active)

structure TableOk (s : Server) : Prop where
  slots : ∀ index, SlotOk s.maxFiles (s.client index)
  count : s.activeClients = activeCount s
  connLimit : s.maxConn = 50
  fileLimit : s.maxFiles = 10

theorem zeroOk (maxFiles : Nat) : SlotOk maxFiles Client.zero :=
  ⟨fun _ => ⟨rfl,rfl,rfl,rfl⟩,rfl,Nat.zero_le _,by simp [Client.zero],by simp [Client.zero]⟩

theorem clearedOk (maxFiles : Nat) (c : Client) : SlotOk maxFiles (clearClient c) :=
  ⟨fun _ => ⟨rfl,rfl,rfl,rfl⟩,rfl,Nat.zero_le _,by simp [clearClient,clearClientFiles],
    by simp [clearClient,clearClientFiles]⟩

theorem namesFiles {maxFiles : Nat} {c : Client} (ok : SlotOk maxFiles c) :
    c.names = c.files.getD [] := by
  simp [Client.names,ok.counted]

/- The three ways a slot is rewritten, as the active counter sees them. -/
theorem countKept {s : Server} {index : Nat} {c : Client}
    (same : c.active = (s.client index).active) :
    activeCount (s.setClient index c) = activeCount s := by
  by_cases inside : index < s.clients.length
  · have old : s.clients[index] = s.client index := by simp [Server.client,inside]
    simp only [activeCount,setClients,List.countP_set inside,old,same]
    cases active : (s.client index).active with
    | false => simp
    | true =>
      have positive : 0 < s.clients.countP (fun c => c.active) :=
        List.countP_pos_iff.mpr ⟨_,List.getElem_mem inside,by rw [old,active]⟩
      simp only [if_true]
      omega
  · simp [activeCount,List.set_eq_of_length_le (Nat.le_of_not_lt inside)]

theorem countTaken {s : Server} {index : Nat} {c : Client} (inside : index < s.maxConn)
    (free : (s.client index).active = false) (active : c.active = true) :
    activeCount (s.setClient index c) = activeCount s + 1 := by
  have bound : index < s.clients.length := s.sized ▸ inside
  have old : s.clients[index] = s.client index := by simp [Server.client,bound]
  simp [activeCount,List.countP_set bound,old,free,active]

theorem countFreed {s : Server} {index : Nat} {c : Client}
    (active : (s.client index).active = true) (free : c.active = false) :
    activeCount (s.setClient index c) + 1 = activeCount s := by
  have bound : index < s.clients.length := s.sized ▸ activeInside active
  have old : s.clients[index] = s.client index := by simp [Server.client,bound]
  have positive : 0 < s.clients.countP (fun c => c.active) :=
    List.countP_pos_iff.mpr ⟨_,List.getElem_mem bound,by rw [old,active]⟩
  simp only [activeCount,setClients,List.countP_set bound,old,active,free,if_true]
  simp only [Bool.false_eq_true,if_false]
  omega

theorem slotsSet {s : Server} {index : Nat} {c : Client} (ok : TableOk s)
    (here : SlotOk s.maxFiles c) (other : Nat) :
    SlotOk s.maxFiles ((s.setClient index c).client other) := by
  rw [clientSet]
  split
  · exact here
  · exact ok.slots other

theorem initOk (listenSock : Nat) : TableOk (initServer listenSock) := by
  refine ⟨?_,?_,rfl,rfl⟩
  · intro index
    rw [initClient]
    exact zeroOk _
  · simp [activeCount,initServer,Client.zero]

theorem watchedOk {s watched : Server} (ok : TableOk s) {sock maxSocket : Nat}
    (same : watched = {s with allSocks := insert sock s.allSocks, maxSocket := maxSocket}) :
    TableOk watched := by
  subst same
  exact ⟨ok.slots,ok.count,ok.connLimit,ok.fileLimit⟩

theorem occupyOk {s : Server} (ok : TableOk s) {index : Nat} (inside : index < s.maxConn)
    (free : (s.client index).active = false) (sock : Nat) (addr : SockAddr) :
    TableOk (occupy s index sock addr) := by
  have old := ok.slots index
  have here : SlotOk s.maxFiles
      {s.client index with active := true, sock := sock, addr := addr} :=
    ⟨nofun,old.counted,old.few,old.ascii,old.small⟩
  refine ⟨slotsSet ok here,?_,ok.connLimit,ok.fileLimit⟩
  have count := countTaken (c := {s.client index with active := true, sock := sock, addr := addr})
    inside free rfl
  exact (congrArg (· + 1) ok.count).trans count.symm

theorem seatOk {s : Server} (ok : TableOk s) (sock : Nat) (addr : SockAddr) :
    TableOk (seat s sock addr) := by
  have shape := seated s sock addr
  generalize seat s sock addr = next at shape
  cases shape with
  | full watched none_free same => exact watchedOk ok same
  | taken watched index inside free lowest same =>
    have watchedTable := watchedOk ok same
    subst same
    exact occupyOk watchedTable inside free sock addr

theorem dropOk {s : Server} (ok : TableOk s) {index : Nat}
    (active : (s.client index).active = true) : TableOk (dropClient s index) := by
  refine ⟨slotsSet ok (clearedOk _ _),?_,ok.connLimit,ok.fileLimit⟩
  have freed := countFreed (c := clearClient (s.client index)) active rfl
  change decrement s.activeClients = activeCount (s.setClient index (clearClient (s.client index)))
  rw [ok.count,← freed]
  rfl

theorem joinedOk {s : Server} (ok : TableOk s) {index : Nat}
    (active : (s.client index).active = true) (n : UInt32) : TableOk (joined s index n) := by
  have old := ok.slots index
  have here : SlotOk s.maxFiles {s.client index with id := n, type := .joined} :=
    ⟨fun h => by simp [active] at h,old.counted,old.few,old.ascii,old.small⟩
  have kept : activeCount (joined s index n) = activeCount s := by
    unfold joined
    exact countKept rfl
  exact ⟨slotsSet ok here,ok.count.trans kept.symm,ok.connLimit,ok.fileLimit⟩

theorem publishedOk {s : Server} (ok : TableOk s) {index len : Nat} {buffer : Bytes}
    {names : List Bytes} (active : (s.client index).active = true)
    (accepted : Accepted s index buffer len names) : TableOk (published s index names) := by
  have enough := accepted.fits
  have short := accepted.short
  have here : SlotOk s.maxFiles
      {clearClientFiles (s.client index) with filesLen := names.length, files := some names} := by
    refine ⟨fun h => ?_,rfl,accepted.count,accepted.ascii,?_⟩
    · simp [clearClientFiles,active] at h
    · simp only [Option.getD_some]
      omega
  have kept : activeCount (published s index names) = activeCount s := by
    unfold published
    exact countKept rfl
  exact ⟨slotsSet ok here,ok.count.trans kept.symm,ok.connLimit,ok.fileLimit⟩

theorem changeOk {s s' : Server} {e : Event} {out : List Output} (ok : TableOk s)
    (change : Change s e out s') : TableOk s' := by
  cases change with
  | none sock quiet => exact ok
  | seat sock addr closeOk limit => exact seatOk ok sock addr
  | drop index result sends active ended => exact dropOk ok active
  | join index r sends n active data written => exact joinedOk ok active n
  | publish index r sends payload names active data accepted =>
    exact publishedOk ok active accepted

theorem tableOk {listenSock : Nat} {log : History} {s : Server}
    (run : Run (registry listenSock) log s) : TableOk s :=
  invariant (m := registry listenSock) (initOk listenSock)
    (fun s e s' out ok (moved : step s e = some (s',out)) => changeOk ok (stepChange moved)) run

theorem activeAtMost {s : Server} (ok : TableOk s) : s.activeClients ≤ s.maxConn := by
  rw [ok.count,← s.sized]
  exact List.countP_le_length

theorem namesAscii {s : Server} (ok : TableOk s) {index : Nat} {name : Bytes}
    (stored : name ∈ (s.client index).names) : AsciiName name ∧ name.length ≤ 1193 := by
  have slot := ok.slots index
  rw [namesFiles slot] at stored
  have size := memberSize stored
  have small := slot.small
  exact ⟨slot.ascii name stored,by omega⟩

theorem readableTable {s : Server} (ok : TableOk s) {find : Bytes} (long : 1193 ≤ find.length) :
    ∀ c ∈ s.clients, Readable find c := by
  intro c member name stored
  obtain ⟨index,-,rfl⟩ := memberClient member
  obtain ⟨ascii,short⟩ := namesAscii ok stored
  exact ⟨asciiPlain ascii,by omega⟩

theorem searchTable {s : Server} (ok : TableOk s) {find : Bytes} (long : 1193 ≤ find.length) :
    searchClients s.clients find = some (s.clients.find? (Matches find)) :=
  searchExact (readableTable ok long)

theorem searchTotal {s : Server} (ok : TableOk s) (index : Nat) {recvBuffer : Bytes} {len : Nat}
    (sized : recvBuffer.length = buffSize) (sends : Nat → Written) :
    ∃ out, handleSearch s index recvBuffer len sends = some out := by
  have long : 1193 ≤ (recvBuffer.drop 1).length := by
    rw [List.length_drop,sized]
    decide
  unfold handleSearch
  split
  · exact ⟨_,rfl⟩
  split
  · exact ⟨_,rfl⟩
  rename_i short
  have inside : len < recvBuffer.length := by
    rw [sized,buffSize]
    omega
  rw [List.getElem?_eq_getElem inside,searchTable ok long]
  split
  · exact ⟨_,rfl⟩
  · dsimp only
    split
    · exact ⟨_,rfl⟩
    · exact ⟨_,rfl⟩

/- Every event main can deliver is handled: no payload makes a handler read
outside the receive buffer. -/
theorem handleTotal {s : Server} (ok : TableOk s) (index : Nat) (sends : Nat → Written)
    (result : RecvResult) : ∃ r, handleClient s index sends result = some r := by
  cases result with
  | error => exact ⟨_,rfl⟩
  | closed => exact ⟨_,rfl⟩
  | data r =>
    obtain ⟨command,payload,data⟩ := receivedCons r
    have full := receivedLength r
    have inside : r.data.length - 1 ≤ (payload ++ r.before.drop r.data.length).length := by
      simp [data]
    simp only [handleClient,receivedHead r data]
    split
    · exact joinTotal s index inside
    split
    · exact publishTotal s index inside
    split
    · rw [receivedHead r data] at full
      obtain ⟨out,searched⟩ := searchTotal ok index full sends
      exact ⟨_,by rw [searched]; rfl⟩
    · exact ⟨_,rfl⟩

theorem stepTotal {s : Server} (ok : TableOk s) {index : Nat}
    (active : (s.client index).active = true) (result : RecvResult) (sends : Nat → Written) :
    ∃ r, step s (.ready index result sends) = some r := by
  simpa [step,active] using handleTotal ok index sends result

/- An event that ends a connection; only these lower `active_clients`. -/
def endsConnection : Event → Bool
  | .accept _ => false
  | .ready _ .error _ => true
  | .ready _ .closed _ => true
  | .ready _ (.data _) _ => false

theorem activePositive {s : Server} (ok : TableOk s) {index : Nat}
    (active : (s.client index).active = true) : 0 < s.activeClients := by
  rw [ok.count]
  exact List.countP_pos_iff.mpr ⟨_,clientMember (activeInside active),active⟩

theorem endsPositive {s s' : Server} {e : Event} {out : List Output} (ok : TableOk s)
    (moved : step s e = some (s',out)) (ends : endsConnection e = true) : 0 < s.activeClients := by
  cases e with
  | accept result => contradiction
  | ready index result sends =>
    simp only [step] at moved
    split at moved
    · rename_i active
      exact activePositive ok active
    · contradiction

theorem tableRepresented {listenSock : Nat} {log : History} {s : Server}
    (run : Run (registry listenSock) log s) :
    (s.activeClients = s.clients.countP (fun c => c.active) ∧ s.activeClients ≤ s.maxConn ∧
      ∀ t ∈ log, endsConnection t.event = true → 0 < t.pre.activeClients) ∧
    ∀ index < s.maxConn,
      ((s.client index).active = false → (s.client index).id = 0 ∧ (s.client index).sock = 0 ∧
        (s.client index).filesLen = 0 ∧ (s.client index).files = none) ∧
      ((s.client index).active = true →
        (s.client index).filesLen = ((s.client index).files.getD []).length ∧
        (s.client index).filesLen ≤ s.maxFiles ∧
        (∀ name ∈ (s.client index).files.getD [], ∀ b ∈ name, 1 ≤ b ∧ b ≤ 127) ∧
        sizeNames ((s.client index).files.getD []) ≤ 1194) := by
  have ok := tableOk run
  refine ⟨⟨ok.count,activeAtMost ok,?_⟩,?_⟩
  · intro t member ends
    obtain ⟨⟨older,reached⟩,moved⟩ := logged run member
    exact endsPositive (tableOk reached) moved ends
  · intro index inside
    have slot := ok.slots index
    refine ⟨slot.cleared,fun active => ⟨slot.counted,slot.few,?_,slot.small⟩⟩
    intro name stored b member
    obtain ⟨nonzero,low⟩ := slot.ascii name stored b member
    have positive : b.toNat ≠ 0 := fun zero => nonzero (UInt8.toNat_inj.mp zero)
    have below := UInt8.lt_iff_toNat_lt.mp low
    simp only [UInt8.reduceToNat] at below
    exact ⟨UInt8.le_iff_toNat_le.mpr (by simp only [UInt8.reduceToNat]; omega),
      UInt8.le_iff_toNat_le.mpr (by simp only [UInt8.reduceToNat]; omega)⟩

/- A client joins, publishes "ab" and leaves; another has connected meanwhile. -/
theorem tableRepresentedLeft : ∃ log s, Run (registry 3) log s ∧ log.length = 5 ∧
    s.activeClients = 1 ∧ (s.client 0).files = none ∧ s.activeClients ≤ s.maxConn := by
  obtain ⟨log,s,done,steps,one,inside,free⟩ : ∃ log s,
      execute (registry 3)
        [.accept (.conn 4 (.inet ⟨2130706433,5000⟩) true),
          .ready 0 (.data (.zeroed [0,0,0,0,7] (by decide) (by decide))) (fun _ => .all),
          .ready 0 (.data (.zeroed [1,0,0,0,1,97,98,0] (by decide) (by decide))) (fun _ => .all),
          .accept (.conn 5 (.inet ⟨2130706433,5001⟩) true),
          .ready 0 .closed (fun _ => .all)] [] (registry 3).init = some (log,s) ∧
        log.length = 5 ∧ s.activeClients = 1 ∧ 0 < s.maxConn ∧ (s.client 0).active = false :=
    ⟨_,_,rfl,rfl,rfl,Nat.succ_pos 49,rfl⟩
  have run := executedRun .start done
  have represented := tableRepresented run
  exact ⟨log,s,run,steps,one,((represented.2 0 inside).1 free).2.2.2,represented.1.2.1⟩

end NetworkPrograms.RegistryTable
