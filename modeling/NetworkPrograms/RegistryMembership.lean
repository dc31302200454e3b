import NetworkPrograms.RegistryReplies

/-! Who is a member: the gate in front of PUBLISH and SEARCH, and the ids JOIN
hands out, over runs in which slots are reused. -/
namespace NetworkPrograms.RegistryMembership
open WireBytes RegistryState RegistryPublish RegistryJoin RegistrySearch RegistryServe
open RegistryTable RegistryHistory RegistryReplies EventMachine

/- Whether any connection of the run had a JOIN accepted on this slot. -/
def everJoined (index : Nat) (log : History) : Bool :=
  log.any (fun t => (acceptedJoin index t).isSome)

theorem typeStep {index : Nat} {t : Step} (step : SlotStep index t) :
    (t.post.client index).type =
      if (acceptedJoin index t).isSome then .joined else (t.pre.client index).type := by
  cases step with
  | kept same noJoin noPublish => simp [same,noJoin]
  | opened sock addr closeOk event free seat noJoin noPublish => simp [seat,noJoin]
  | closed active cleared noJoin noPublish => simp [cleared,noJoin,clearClient,clearClientFiles]
  | joined n active written join noPublish => simp [written,join]
  | published names active gate written noJoin publish => simp [written,noJoin,clearClientFiles]

/- The type field remembers every connection the slot has had. -/
theorem typeRemembers {listenSock : Nat} {log : History} {s : Server}
    (run : Run (registry listenSock) log s) (index : Nat) :
    (s.client index).type = if everJoined index log then .joined else .unknown := by
  induction run with
  | start => simp [registry,initClient,Client.zero,everJoined]
  | @next log s e s' out past moved ih =>
    have step := typeStep (slotStep moved index)
    dsimp only at step
    rw [step,ih]
    cases now : (acceptedJoin index ⟨s,e,out,s'⟩).isSome with
    | true => simp [everJoined,now]
    | false => simp [everJoined,now]

/- No PUBLISH and no SEARCH on the slot has any effect. -/
def Silent (s : Server) (index : Nat) : Prop :=
  ∀ (r : Received) (sends : Nat → Written) (payload : Bytes),
    r.data = 1 :: payload ∨ r.data = 2 :: payload →
    ∃ out, step s (.ready index (.data r) sends) = some (s,out) ∧ wire out = []

theorem closedGate {s : Server} {index : Nat} (active : (s.client index).active = true)
    (gate : (s.client index).type = .unknown) : Silent s index := by
  intro r sends payload data
  refine ⟨[],?_,rfl⟩
  rcases data with publish | search
  · simp only [step,active,if_true,handleClient,receivedHead r publish]
    rw [if_neg (by decide)]
    unfold handlePublish
    rw [if_pos gate]
  · simp only [step,active,if_true,handleClient,receivedHead r search]
    rw [if_neg (by decide),if_neg (by decide)]
    unfold handleSearch
    rw [if_pos gate]
    rfl

theorem openGate {s : Server} (ok : TableOk s) {index : Nat}
    (active : (s.client index).active = true) (gate : (s.client index).type ≠ .unknown) :
    ¬ Silent s index := by
  intro silent
  obtain ⟨out,moved,quiet⟩ := silent (.zeroed [2,0] (by decide) (by decide)) (fun _ => .all) [0]
    (.inr rfl)
  rw [stepSearch ok active gate rfl (fun _ => rfl) (by decide)] at moved
  cases moved
  have bytes := congrArg List.length quiet
  simp [wire] at bytes

/- The defect: a slot that a joined connection has left lets the next one through. -/
def StaleJoin (index : Nat) (log : History) : Prop :=
  lastJoined index log = none ∧ everJoined index log = true

theorem silentIff {listenSock : Nat} {log : History} {s : Server}
    (run : Run (registry listenSock) log s) (index : Nat)
    (active : (s.client index).active = true) :
    (lastJoined index log = none → Silent s index) ↔ ¬ StaleJoin index log := by
  have type := typeRemembers run index
  cases ever : everJoined index log with
  | false =>
    have gate : (s.client index).type = .unknown := by simp [type,ever]
    exact ⟨fun _ stale => by simp [StaleJoin,ever] at stale,fun _ _ => closedGate active gate⟩
  | true =>
    have gate : (s.client index).type ≠ .unknown := by simp [type,ever]
    have loud := openGate (tableOk run) active gate
    exact ⟨fun silent stale => loud (silent stale.1),fun fresh none => absurd ⟨none,ever⟩ fresh⟩

theorem silentFirstConnection : ∃ log s, Run (registry 3) log s ∧
    lastJoined 0 log = none ∧ (lastJoined 0 log = none → Silent s 0) := by
  obtain ⟨log,s,done,active,unjoined,never⟩ : ∃ log s,
      execute (registry 3) [.accept (.conn 4 (.inet ⟨2130706433,5000⟩) true)] []
        (registry 3).init = some (log,s) ∧ (s.client 0).active = true ∧
        lastJoined 0 log = none ∧ everJoined 0 log = false := ⟨_,_,rfl,rfl,rfl,rfl⟩
  have run := executedRun .start done
  exact ⟨log,s,run,unjoined,(silentIff run 0 active).mpr (fun stale => by simp [StaleJoin,never] at stale)⟩

/- Join, disconnect, reconnect: the second connection has joined nothing and its
SEARCH is answered. -/
theorem silentBroken : ∃ log s, Run (registry 3) log s ∧ (s.client 0).active = true ∧
    lastJoined 0 log = none ∧
    step s (.ready 0 (.data (.zeroed [2,97,0] (by decide) (by decide))) (fun _ => .all)) =
      some (s,[.sent 4 emptyResponse]) ∧ ¬ Silent s 0 := by
  obtain ⟨log,s,done,active,unjoined,moved⟩ : ∃ log s,
      execute (registry 3) (joinedOnce ++ [.ready 0 .closed (fun _ => .all),
        .accept (.conn 4 (.inet ⟨2130706433,5001⟩) true)]) [] (registry 3).init = some (log,s) ∧
        (s.client 0).active = true ∧ lastJoined 0 log = none ∧
        step s (.ready 0 (.data (.zeroed [2,97,0] (by decide) (by decide))) (fun _ => .all)) =
          some (s,[.sent 4 emptyResponse]) := ⟨_,_,rfl,rfl,rfl,rfl⟩
  refine ⟨log,s,executedRun .start done,active,unjoined,moved,?_⟩
  intro silent
  obtain ⟨out,same,quiet⟩ := silent (.zeroed [2,97,0] (by decide) (by decide)) (fun _ => .all) [97,0]
    (.inr rfl)
  rw [moved] at same
  cases same
  simp [wire,emptyResponse] at quiet

/- The id that a five-byte JOIN message delivered to slot `index` asks for. -/
def asksJoin (index : Nat) (t : Step) : Option UInt32 :=
  (message index t).bind (fun r => decodeJoin r.data)

/- Another active slot holds n and had it from a JOIN of its own connection. -/
def Taken (log : History) (s : Server) (index : Nat) (n : UInt32) : Prop :=
  ∃ other < s.maxConn, other ≠ index ∧ (s.client other).active = true ∧
    (lastJoined other log).isSome = true ∧ (s.client other).id = n

def Holds (s : Server) (index : Nat) (n : UInt32) : Prop :=
  (s.client index).id = n ∧ (s.client index).type = .joined

def UniqueIds (log : History) (s : Server) : Prop :=
  ∀ i j, i ≠ j → (s.client i).active = true → (s.client j).active = true →
    (lastJoined i log).isSome = true → (lastJoined j log).isSome = true →
    (s.client i).id ≠ (s.client j).id

def JoinCorrect (log : History) (s : Server) (index : Nat) (r : Received)
    (sends : Nat → Written) (n : UInt32) : Prop :=
  ∃ s' out, step s (.ready index (.data r) sends) = some (s',out) ∧
    (Holds s' index n ↔ ¬ Taken log s index n) ∧ (Taken log s index n → s' = s)

/- handle_join compares with the first active slot only. It is right when that
slot speaks for all the others. -/
def FirstDecides (log : History) (s : Server) (index : Nat) (n : UInt32) : Prop :=
  ∀ first, firstActive s = some first →
    if first.id = n then (Taken log s index n ↔ ¬ Holds s index n) else ¬ Taken log s index n

def JoinsDecided : History → Prop
  | [] => True
  | t :: older => JoinsDecided older ∧
      ∀ index n, asksJoin index t = some n → FirstDecides older t.pre index n

instance (log : History) (s : Server) (index : Nat) (n : UInt32) : Decidable (Taken log s index n) :=
  decidable_of_iff ((List.range s.maxConn).any (fun other => other ≠ index &&
    ((s.client other).active && ((lastJoined other log).isSome && (s.client other).id = n))) = true)
    (by simp [Taken])

theorem messageOne {i j : Nat} {t : Step} {r r' : Received} (one : message i t = some r)
    (two : message j t = some r') : i = j := by
  unfold message at one two
  split at one
  · rename_i other r'' sends event
    rw [event] at two
    dsimp only at two
    split at one
    · split at two
      · rename_i atI atJ
        exact atI.symm.trans atJ
      · contradiction
    · contradiction
  · contradiction

theorem acceptedAsks {index : Nat} {t : Step} {n : UInt32} (accepted : acceptedJoin index t = some n) :
    asksJoin index t = some n := by
  obtain ⟨r,received,decoded⟩ := Option.bind_eq_some_iff.mp accepted
  split at decoded
  · exact Option.bind_eq_some_iff.mpr ⟨r,received,decoded⟩
  · contradiction

theorem acceptedOne {i j : Nat} {t : Step} {n m : UInt32} (one : acceptedJoin i t = some n)
    (two : acceptedJoin j t = some m) : i = j := by
  obtain ⟨r,received,decoded⟩ := Option.bind_eq_some_iff.mp one
  obtain ⟨r',received',decoded'⟩ := Option.bind_eq_some_iff.mp two
  exact messageOne received received'

/- An accepted JOIN asked for another id than the first active slot carries. -/
theorem acceptedFirst {s s' : Server} {e : Event} {out : List Output}
    (moved : step s e = some (s',out)) {index : Nat} {n : UInt32}
    (accepted : acceptedJoin index ⟨s,e,out,s'⟩ = some n) :
    ∃ first, firstActive s = some first ∧ first.id ≠ n := by
  have reported : out.any reportsJoin = true := by
    cases quiet : out.any reportsJoin with
    | true => rfl
    | false => rw [quietJoin index ⟨s,e,out,s'⟩ quiet] at accepted; contradiction
  cases stepChange moved with
  | none sock quiet => rw [(sendsReport quiet).1] at reported; contradiction
  | seat sock addr closeOk limit => contradiction
  | drop other result sends active ended => contradiction
  | publish other r sends payload names active data ok => contradiction
  | join other r sends m active data written =>
    obtain ⟨r',received,decoded⟩ := Option.bind_eq_some_iff.mp (acceptedAsks accepted)
    have same : other = index := messageOne (r := r) (by simp [message]) received
    subst same
    simp only [message,if_true,Option.some.injEq] at received
    rw [← received,data,joinDecoded] at decoded
    exact Option.some.inj decoded ▸ (joinLoopFirst m s.clients).mp written

theorem acceptedFree {log : History} {s s' : Server} {e : Event} {out : List Output}
    (moved : step s e = some (s',out)) {index : Nat} {n : UInt32}
    (decided : ∀ index n, asksJoin index ⟨s,e,out,s'⟩ = some n → FirstDecides log s index n)
    (accepted : acceptedJoin index ⟨s,e,out,s'⟩ = some n) : ¬ Taken log s index n := by
  obtain ⟨first,found,different⟩ := acceptedFirst moved accepted
  have right := decided index n (acceptedAsks accepted) first found
  rwa [if_neg different] at right

/- Where the id of a joined slot comes from. -/
theorem joinedSince {index : Nat} {t : Step} {log : History} (slot : SlotStep index t)
    (active : (t.post.client index).active = true)
    (since : (lastJoined index (t :: log)).isSome = true) :
    (∃ n, acceptedJoin index t = some n ∧ (t.post.client index).id = n) ∨
      ((t.pre.client index).active = true ∧ (lastJoined index log).isSome = true ∧
        (t.post.client index).id = (t.pre.client index).id) := by
  cases slot with
  | kept same noJoin noPublish =>
    rw [same] at active
    simp only [lastJoined,EventMachine.since,opening,activeAt,active,noJoin,same] at since
    exact .inr ⟨active,since,by rw [same]⟩
  | opened sock addr closeOk event free seat noJoin noPublish =>
    simp [lastJoined,EventMachine.since,opening,activeAt,free,active] at since
  | closed live cleared noJoin noPublish => simp [cleared,clearClient] at active
  | joined n live written join noPublish => exact .inl ⟨n,join,by rw [written]⟩
  | published names live gate written noJoin publish =>
    simp only [lastJoined,EventMachine.since,opening,activeAt,active,live,noJoin] at since
    exact .inr ⟨live,since,by rw [written]; rfl⟩

theorem uniqueStep {log : History} {s s' : Server} {e : Event} {out : List Output}
    (moved : step s e = some (s',out)) (unique : UniqueIds log s)
    (decided : ∀ index n, asksJoin index ⟨s,e,out,s'⟩ = some n → FirstDecides log s index n) :
    UniqueIds (⟨s,e,out,s'⟩ :: log) s' := by
  intro i j different activeI activeJ sinceI sinceJ
  rcases joinedSince (slotStep moved i) activeI sinceI with ⟨n,takes,nowI⟩ | ⟨wasI,hadI,keptI⟩
  · rcases joinedSince (slotStep moved j) activeJ sinceJ with ⟨m,again,nowJ⟩ | ⟨wasJ,hadJ,keptJ⟩
    · exact absurd (acceptedOne takes again) different
    · intro same
      exact acceptedFree moved decided takes
        ⟨j,activeInside wasJ,different.symm,wasJ,hadJ,keptJ.symm.trans (same.symm.trans nowI)⟩
  · rcases joinedSince (slotStep moved j) activeJ sinceJ with ⟨m,takes,nowJ⟩ | ⟨wasJ,hadJ,keptJ⟩
    · intro same
      exact acceptedFree moved decided takes
        ⟨i,activeInside wasI,different,wasI,hadI,keptI.symm.trans (same.trans nowJ)⟩
    · have before := unique i j different wasI wasJ hadI hadJ
      rwa [← keptI,← keptJ] at before

theorem uniqueRun {listenSock : Nat} {log : History} {s : Server}
    (run : Run (registry listenSock) log s) (decided : JoinsDecided log) : UniqueIds log s := by
  induction run with
  | start =>
    intro i j different active
    simp [registry,initClient,Client.zero] at active
  | next past moved ih => exact uniqueStep moved (ih decided.1) decided.2

theorem stepJoin {s : Server} {index : Nat} {r : Received} {n : UInt32}
    (active : (s.client index).active = true) (data : r.data = 0 :: be32 n)
    (sends : Nat → Written) :
    step s (.ready index (.data r) sends) = some (joinAs s index n) := by
  simp only [step,active,if_true,handleClient,receivedHead r data]
  rw [show r.data.length - 1 = 4 by rw [data]; rfl]
  exact joinWord s index n _

theorem joinCorrectIff {log : History} {s : Server} {index : Nat} {r : Received} {n : UInt32}
    (active : (s.client index).active = true) (data : r.data = 0 :: be32 n)
    (sends : Nat → Written) :
    JoinCorrect log s index r sends n ↔ FirstDecides log s index n := by
  have moved := stepJoin active data sends
  obtain ⟨first,found⟩ : ∃ first, firstActive s = some first := by
    refine Option.isSome_iff_exists.mp (List.find?_isSome.mpr ?_)
    exact ⟨_,clientMember (activeInside active),active⟩
  rw [joinAsFirst s index n found] at moved
  have only : FirstDecides log s index n ↔
      if first.id = n then (Taken log s index n ↔ ¬ Holds s index n)
        else ¬ Taken log s index n := by
    simp [FirstDecides,found]
  rw [only]
  split at moved
  · rename_i carries
    rw [if_pos carries]
    constructor
    · rintro ⟨s',out,same,exact_when,unchanged⟩
      cases moved.symm.trans same
      rw [exact_when]
      simp
    · intro decides
      exact ⟨s,[],moved,by rw [decides]; simp,fun _ => rfl⟩
  · rename_i other
    rw [if_neg other]
    have holds : Holds (joined s index n) index n := by
      simp only [Holds,joined,clientSetSelf (activeInside active),and_self]
    constructor
    · rintro ⟨s',out,same,exact_when,unchanged⟩
      cases moved.symm.trans same
      exact exact_when.mp holds
    · intro free
      exact ⟨_,_,moved,⟨fun _ => free,fun _ => holds⟩,fun taken => absurd taken free⟩

theorem idsUniqueWhen {listenSock : Nat} {log : History} {s : Server}
    (run : Run (registry listenSock) log s) :
    (JoinsDecided log → UniqueIds log s) ∧
      ∀ index (r : Received) (sends : Nat → Written) n, (s.client index).active = true →
        r.data = 0 :: be32 n →
        (JoinCorrect log s index r sends n ↔ FirstDecides log s index n) :=
  ⟨uniqueRun run,fun _ _ sends _ active data => joinCorrectIff active data sends⟩

def joinOf (index : Nat) (n : UInt32) : Event :=
  .ready index (.data (.zeroed (0 :: be32 n) (by simp) (by simp [be32,buffSize]))) (fun _ => .all)

theorem joinOfAsks {index other : Nat} {n m : UInt32} {s s' : Server} {out : List Output}
    (asks : asksJoin index ⟨s,joinOf other m,out,s'⟩ = some n) : index = other ∧ n = m := by
  obtain ⟨r,received,decoded⟩ := Option.bind_eq_some_iff.mp asks
  simp only [message,joinOf] at received
  split at received
  · rename_i same
    cases Option.some.inj received
    exact ⟨same.symm,(Option.some.inj ((joinDecoded m).symm.trans decoded)).symm⟩
  · contradiction

/- Two clients under ids 7 and 8: here the first active slot speaks for all. -/
theorem idsUniqueTwo : ∃ log s, Run (registry 3) log s ∧ lastJoined 0 log = some 7 ∧
    lastJoined 1 log = some 8 ∧ UniqueIds log s := by
  obtain ⟨log,s,done,seven,eight,decided⟩ : ∃ log s,
      execute (registry 3) [.accept (.conn 4 (.inet ⟨2130706433,5000⟩) true),joinOf 0 7,
        .accept (.conn 5 (.inet ⟨2130706433,5001⟩) true),joinOf 1 8] [] (registry 3).init =
        some (log,s) ∧ lastJoined 0 log = some 7 ∧ lastJoined 1 log = some 8 ∧
        JoinsDecided log := by
    refine ⟨_,_,rfl,rfl,rfl,⟨⟨⟨⟨trivial,?_⟩,?_⟩,?_⟩,?_⟩⟩
    · intro index n asks
      contradiction
    · intro index n asks first found
      obtain ⟨rfl,rfl⟩ := joinOfAsks asks
      cases found
      rw [if_neg (by decide)]
      decide
    · intro index n asks
      contradiction
    · intro index n asks first found
      obtain ⟨rfl,rfl⟩ := joinOfAsks asks
      cases found
      rw [if_neg (by decide)]
      decide
  exact ⟨log,s,executedRun .start done,seven,eight,(idsUniqueWhen (executedRun .start done)).1 decided⟩

/- Three clients: the third takes the second one's id. -/
theorem idsRepeated : ∃ log s, Run (registry 3) log s ∧ (s.client 1).active = true ∧
    (s.client 2).active = true ∧ lastJoined 1 log = some 8 ∧ lastJoined 2 log = some 8 ∧
    (s.client 1).id = (s.client 2).id ∧ ¬ UniqueIds log s := by
  obtain ⟨log,s,done,one,two,joinedOne,joinedTwo,same⟩ : ∃ log s,
      execute (registry 3) [.accept (.conn 4 (.inet ⟨2130706433,5000⟩) true),
        .accept (.conn 5 (.inet ⟨2130706433,5001⟩) true),
        .accept (.conn 6 (.inet ⟨2130706433,5002⟩) true),joinOf 0 7,joinOf 1 8,joinOf 2 8] []
        (registry 3).init = some (log,s) ∧ (s.client 1).active = true ∧
        (s.client 2).active = true ∧ lastJoined 1 log = some 8 ∧ lastJoined 2 log = some 8 ∧
        (s.client 1).id = (s.client 2).id := ⟨_,_,rfl,rfl,rfl,rfl,rfl,rfl⟩
  refine ⟨log,s,executedRun .start done,one,two,joinedOne,joinedTwo,same,?_⟩
  intro unique
  exact unique 1 2 (by decide) one two (by rw [joinedOne]; rfl) (by rw [joinedTwo]; rfl) same

end NetworkPrograms.RegistryMembership
