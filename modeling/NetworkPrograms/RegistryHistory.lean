import NetworkPrograms.RegistryTable

/-! What the log of a run says about one slot: which JOIN and which PUBLISH were
accepted on it, and the last of each since the slot was activated. A payload is
decoded here by the wire format alone, not by the handlers. -/
namespace NetworkPrograms.RegistryHistory
open WireBytes RegistryState RegistryPublish RegistryJoin RegistrySearch RegistryServe
open RegistryTable EventMachine

def decodeJoin : Bytes → Option UInt32
  | [command,a,b,c,d] => if command = 0 then some (readBe32 a b c d) else none
  | _ => none

def decodePublish : Bytes → Option (List Bytes)
  | command :: a :: b :: c :: d :: rest =>
      if command = 1 then (decodeNames (readBe32 a b c d).toNat rest).map Prod.fst else none
  | _ => none

/- The handlers report an acceptance on stdout. -/
def reportsJoin : Output → Bool
  | .testJoin _ => true
  | _ => false

def reportsPublish : Output → Bool
  | .testPublish _ => true
  | _ => false

abbrev Step := Transition Server Event (List Output)

/- The message a step delivers to slot `index`. -/
def message (index : Nat) (t : Step) : Option Received :=
  match t.event with
  | .ready other (.data r) _ => if other = index then some r else none
  | _ => none

def acceptedJoin (index : Nat) (t : Step) : Option UInt32 := do
  let r ← message index t
  if t.out.any reportsJoin then decodeJoin r.data else none

def acceptedPublish (index : Nat) (t : Step) : Option (List Bytes) := do
  let r ← message index t
  if t.out.any reportsPublish then decodePublish r.data else none

def activeAt (index : Nat) (s : Server) : Bool := (s.client index).active

def lastJoined (index : Nat) : History → Option UInt32 :=
  since (opening (activeAt index)) (acceptedJoin index)

def lastPublished (index : Nat) : History → Option (List Bytes) :=
  since (opening (activeAt index)) (acceptedPublish index)

theorem joinDecoded (n : UInt32) : decodeJoin (0 :: be32 n) = some n := by
  simp only [be32,decodeJoin,if_true,readBe32Word]

theorem publishDecoded {payload tail : Bytes} {n : UInt32} {names : List Bytes}
    (shape : payload = be32 n ++ encodeNames names ++ tail) (count : n.toNat = names.length)
    (plain : ∀ name ∈ names, Plain name) : decodePublish (1 :: payload) = some names := by
  have decoded : decodeNames names.length (encodeNames names ++ tail) = some (names,tail) :=
    decodeExact.mpr ⟨rfl,rfl,plain⟩
  subst shape
  simp only [be32,decodePublish,List.cons_append,List.nil_append,if_true,readBe32Word]
  rw [count,decoded]
  rfl

/- The part of the buffer behind the message plays no part in what was accepted. -/
theorem acceptedPayload {s : Server} {index : Nat} {payload junk : Bytes} {names : List Bytes}
    (accepted : Accepted s index (payload ++ junk) payload.length names) :
    ∃ n : UInt32, n.toNat = names.length ∧ ∃ tail, payload = be32 n ++ encodeNames names ++ tail := by
  obtain ⟨n,count,tail,shape⟩ := accepted.shape
  have enough := accepted.fits
  have whole : (be32 n ++ encodeNames names).length = 4 + sizeNames names := by
    simp [encodeLength]
  have cut : payload.take (4 + sizeNames names) = be32 n ++ encodeNames names := by
    have same := congrArg (List.take (4 + sizeNames names)) shape
    rw [List.take_append_of_le_length enough] at same
    rw [same,← whole,List.take_left]
  exact ⟨n,count,payload.drop (4 + sizeNames names),by rw [← cut,List.take_append_drop]⟩

/- One step, seen from one slot. -/
inductive SlotStep (index : Nat) (t : Step) : Prop where
  | kept (same : t.post.client index = t.pre.client index)
      (noJoin : acceptedJoin index t = none) (noPublish : acceptedPublish index t = none)
  | opened (sock : Nat) (addr : SockAddr) (closeOk : Bool)
      (event : t.event = .accept (.conn sock addr closeOk))
      (free : (t.pre.client index).active = false)
      (seat : t.post.client index =
        {t.pre.client index with active := true, sock := sock, addr := addr})
      (noJoin : acceptedJoin index t = none) (noPublish : acceptedPublish index t = none)
  | closed (active : (t.pre.client index).active = true)
      (cleared : t.post.client index = clearClient (t.pre.client index))
      (noJoin : acceptedJoin index t = none) (noPublish : acceptedPublish index t = none)
  | joined (n : UInt32) (active : (t.pre.client index).active = true)
      (written : t.post.client index = {t.pre.client index with id := n, type := .joined})
      (join : acceptedJoin index t = some n) (noPublish : acceptedPublish index t = none)
  | published (names : List Bytes) (active : (t.pre.client index).active = true)
      (gate : (t.pre.client index).type ≠ .unknown)
      (written : t.post.client index =
        {clearClientFiles (t.pre.client index) with filesLen := names.length, files := some names})
      (noJoin : acceptedJoin index t = none) (publish : acceptedPublish index t = some names)

theorem quietJoin (index : Nat) (t : Step) (quiet : t.out.any reportsJoin = false) :
    acceptedJoin index t = none := by
  simp only [acceptedJoin,quiet]
  cases message index t <;> rfl

theorem quietPublish (index : Nat) (t : Step) (quiet : t.out.any reportsPublish = false) :
    acceptedPublish index t = none := by
  simp only [acceptedPublish,quiet]
  cases message index t <;> rfl

theorem elsewhere (index : Nat) (t : Step) {other : Nat} {r : Received} {sends : Nat → Written}
    (event : t.event = .ready other (.data r) sends) (different : other ≠ index) :
    message index t = none := by
  simp [message,event,different]

theorem seatSlot (s : Server) (sock : Nat) (addr : SockAddr) (index : Nat) :
    (seat s sock addr).client index = s.client index ∨
      ((s.client index).active = false ∧ (seat s sock addr).client index =
        {s.client index with active := true, sock := sock, addr := addr}) := by
  have shape := seated s sock addr
  generalize seat s sock addr = next at shape
  cases shape with
  | full watched none_free same =>
    subst same
    exact .inl rfl
  | taken watched taken inside free lowest same =>
    subst same
    rcases Nat.decEq taken index with different | rfl
    · exact .inl (clientSetOther _ taken index _ different)
    · exact .inr ⟨free,clientSetSelf inside _⟩

theorem sendsReport {sock : Nat} {out : List Output} (quiet : OnlySends sock out) :
    out.any reportsJoin = false ∧ out.any reportsPublish = false := by
  constructor <;> rw [List.any_eq_false] <;> intro o member <;>
    obtain ⟨bytes,rfl⟩ := quiet o member <;> simp [reportsJoin,reportsPublish]

theorem quietStep {t : Step} {index sock : Nat} (quiet : OnlySends sock t.out)
    (same : t.post.client index = t.pre.client index) : SlotStep index t :=
  .kept same (quietJoin index t (sendsReport quiet).1) (quietPublish index t (sendsReport quiet).2)

theorem joinSlot {s : Server} {other : Nat} {r : Received} {sends : Nat → Written} {n : UInt32}
    (active : (s.client other).active = true) (data : r.data = 0 :: be32 n) (index : Nat) :
    SlotStep index ⟨s,.ready other (.data r) sends,[.testJoin n],joined s other n⟩ := by
  have noPublish := quietPublish index
    ⟨s,.ready other (.data r) sends,[.testJoin n],joined s other n⟩ rfl
  rcases Nat.decEq other index with different | rfl
  · refine .kept (clientSetOther s other index _ different) ?_ noPublish
    have silent := elsewhere index
      ⟨s,.ready other (.data r) sends,[.testJoin n],joined s other n⟩ rfl different
    simp [acceptedJoin,silent]
  · refine .joined n active (clientSetSelf (activeInside active) _) ?_ noPublish
    simp [acceptedJoin,message,reportsJoin,data,joinDecoded]

theorem publishSlot {s : Server} {other : Nat} {r : Received} {sends : Nat → Written}
    {payload junk : Bytes} {names : List Bytes} (active : (s.client other).active = true)
    (data : r.data = 1 :: payload)
    (accepted : Accepted s other (payload ++ junk) payload.length names) (index : Nat) :
    SlotStep index ⟨s,.ready other (.data r) sends,[.testPublish names],published s other names⟩ := by
  have noJoin := quietJoin index
    ⟨s,.ready other (.data r) sends,[.testPublish names],published s other names⟩ rfl
  rcases Nat.decEq other index with different | rfl
  · refine .kept (clientSetOther s other index _ different) noJoin ?_
    have silent := elsewhere index
      ⟨s,.ready other (.data r) sends,[.testPublish names],published s other names⟩ rfl different
    simp [acceptedPublish,silent]
  · refine .published names active accepted.gate (clientSetSelf (activeInside active) _) noJoin ?_
    obtain ⟨n,count,tail,shape⟩ := acceptedPayload accepted
    have plain : ∀ name ∈ names, Plain name := fun name h => asciiPlain (accepted.ascii name h)
    simp [acceptedPublish,message,reportsPublish,data,publishDecoded shape count plain]

theorem slotStep {s s' : Server} {e : Event} {out : List Output}
    (moved : step s e = some (s',out)) (index : Nat) : SlotStep index ⟨s,e,out,s'⟩ := by
  cases stepChange moved with
  | none sock quiet => exact quietStep quiet rfl
  | seat sock addr closeOk limit =>
    rcases seatSlot s sock addr index with same | ⟨free,same⟩
    · exact .kept same rfl rfl
    · exact .opened sock addr closeOk rfl free same rfl rfl
  | drop other result sends active ended =>
    have noJoin := quietJoin index ⟨s,.ready other result sends,[],dropClient s other⟩ rfl
    have noPublish := quietPublish index ⟨s,.ready other result sends,[],dropClient s other⟩ rfl
    rcases Nat.decEq other index with different | rfl
    · exact .kept (dropOther s other index different) noJoin noPublish
    · exact .closed active (dropSelf (activeInside active)) noJoin noPublish
  | join other r sends n active data written => exact joinSlot active data index
  | publish other r sends payload names active data accepted =>
    exact publishSlot active data accepted index

/- The file list of a slot, as its last accepted PUBLISH left it. -/
theorem filesLastPublished {listenSock : Nat} {log : History} {s : Server}
    (run : Run (registry listenSock) log s) (index : Nat)
    (active : activeAt index s = true) : (s.client index).files = lastPublished index log := by
  refine lastWrite (activeAt index) (acceptedPublish index)
    (fun s v => (s.client index).files = v) ?_ ?_ ?_ run active
  · simp [activeAt,registry,initClient,Client.zero]
  · intro log s e s' out past moved dead alive
    cases slotStep moved index with
    | kept same => simp [activeAt,same] at dead alive; simp [dead] at alive
    | opened sock addr closeOk event free seat =>
      have cleared := ((tableOk past).slots index).cleared free
      rw [seat]
      exact cleared.2.2.2
    | closed live => simp [activeAt,live] at dead
    | joined n live => simp [activeAt,live] at dead
    | published names live => simp [activeAt,live] at dead
  · intro log s e s' out v past moved live alive shows
    cases slotStep moved index with
    | kept same noJoin noPublish => rw [noPublish,same]; exact shows
    | opened sock addr closeOk event free => simp [activeAt,free] at live
    | closed active cleared => simp [activeAt,cleared,clearClient] at alive
    | joined n active written noJoin noPublish => rw [noPublish,written]; exact shows
    | published names active gate written noJoin publish => rw [publish,written]; rfl

theorem filesFollowHistory {listenSock : Nat} {log : History} {s : Server}
    (run : Run (registry listenSock) log s) (index : Nat)
    (active : (s.client index).active = true) :
    (s.client index).files = lastPublished index log ∧
      (s.client index).filesLen = ((lastPublished index log).getD []).length := by
  have files := filesLastPublished run index active
  have counted := ((tableOk run).slots index).counted
  exact ⟨files,by rw [counted,files]⟩

/- A client joins and publishes; another takes its slot and has published nothing. -/
theorem filesFollowReuse : ∃ log s, Run (registry 3) log s ∧
    lastPublished 0 log = none ∧ (s.client 0).files = none ∧
    (∃ t ∈ log, acceptedPublish 0 t = some [[97]]) := by
  obtain ⟨log,s,done,active,none_since,earlier⟩ : ∃ log s,
      execute (registry 3)
        [.accept (.conn 4 (.inet ⟨2130706433,5000⟩) true),
          .ready 0 (.data (.zeroed [0,0,0,0,7] (by decide) (by decide))) (fun _ => .all),
          .ready 0 (.data (.zeroed [1,0,0,0,1,97,0] (by decide) (by decide))) (fun _ => .all),
          .ready 0 .closed (fun _ => .all),
          .accept (.conn 4 (.inet ⟨2130706433,5001⟩) true)] [] (registry 3).init = some (log,s) ∧
        (s.client 0).active = true ∧ lastPublished 0 log = none ∧
        (∃ t ∈ log, acceptedPublish 0 t = some [[97]]) :=
    ⟨_,_,rfl,rfl,rfl,_,.tail _ (.tail _ (.head _)),rfl⟩
  have run := executedRun .start done
  exact ⟨log,s,run,none_since,(filesFollowHistory run 0 active).1.trans none_since,earlier⟩

end NetworkPrograms.RegistryHistory
