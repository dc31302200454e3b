import NetworkPrograms.CPeerFetch
import NetworkPrograms.EventMachine

/-! The C peer over its whole session: what one command leaves unread on the
connection, and in its two globals, is there for the next one. -/
namespace NetworkPrograms.CPeerCommands
open WireBytes ByteStreams PeerListener CPeerSearch CPeerFetch EventMachine

structure Peer where
  unread : Bytes
  globals : Globals

/- SEARCH and FETCH, the two commands that read from the registry. -/
inductive Command where
  | search (q : LookUp)
  | fetch (f : Fetch)

inductive Done where
  | searched (printed : Report)
  | fetched (out : Fetching)

def step (p : Peer) : Command → Option (Peer × Done)
  | .search q => (CPeerSearch.search q p.unread).map (fun (printed,unread) =>
      ({p with unread := unread},.searched printed))
  | .fetch f => (CPeerFetch.fetch f p.globals p.unread).map (fun (out,globals,unread) =>
      (⟨unread,globals⟩,.fetched out))

def cPeer : Machine Peer Command Done := ⟨⟨[],⟨none,0⟩⟩,step⟩

abbrev History := Log Peer Command Done

def Command.lookUp : Command → LookUp
  | .search q => q
  | .fetch f => f.lookUp

/- What the registry sends for a look-up, and how much of the stream it takes. -/
def replied (q : LookUp) : Bytes := if q.write = .all then q.reply else []

def taken (q : LookUp) : Nat := if q.write = .all then q.recvs.taken else 0

/- Over a session: everything the registry has sent and how much was received. -/
def replies : History → Bytes
  | [] => []
  | t :: older => replies older ++ replied t.event.lookUp

def receivedBytes : History → Nat
  | [] => 0
  | t :: older => receivedBytes older + taken t.event.lookUp

/- A look-up takes its bytes off the front of the stream, behind which its own
reply has come. -/
theorem lookUpLeaves {q : LookUp} {unread left : Bytes} {looked : Looked}
    (looking : lookUp q unread = some (looked,left)) :
    taken q ≤ (unread ++ replied q).length ∧ left = (unread ++ replied q).drop (taken q) := by
  unfold lookUp at looking
  unfold taken replied
  split at looking
  · rename_i accepted failed
    cases looking
    simp [failed]
  · rename_i sent
    simp only [sent,if_true]
    exact (received looking).1

theorem stepSearch {p p' : Peer} {q : LookUp} {out : Done} (moved : step p (.search q) = some (p',out)) :
    ∃ printed, out = .searched printed ∧ CPeerSearch.search q p.unread = some (printed,p'.unread) := by
  obtain ⟨⟨printed,left⟩,searched,same⟩ := Option.map_eq_some_iff.mp moved
  cases same
  exact ⟨printed,rfl,searched⟩

theorem stepFetch {p p' : Peer} {f : Fetch} {out : Done} (moved : step p (.fetch f) = some (p',out)) :
    ∃ done, out = .fetched done ∧
      CPeerFetch.fetch f p.globals p.unread = some (done,p'.globals,p'.unread) := by
  obtain ⟨⟨done,globals,left⟩,fetched,same⟩ := Option.map_eq_some_iff.mp moved
  cases same
  exact ⟨done,rfl,fetched⟩

theorem stepLooks {p p' : Peer} {c : Command} {out : Done} (moved : step p c = some (p',out)) :
    ∃ looked, lookUp c.lookUp p.unread = some (looked,p'.unread) := by
  cases c with
  | search q =>
    obtain ⟨printed,_,searched⟩ := stepSearch moved
    obtain ⟨looked,looking,_⟩ := searchLooks searched
    exact ⟨looked,looking⟩
  | fetch f =>
    obtain ⟨done,_,fetched⟩ := stepFetch moved
    obtain ⟨looked,looking,_⟩ := fetchLooks fetched
    exact ⟨looked,looking⟩

/- What is unread is what the registry has sent, less what was received of it. -/
theorem unreadLeft {log : History} {p : Peer} (run : Run cPeer log p) :
    receivedBytes log ≤ (replies log).length ∧ p.unread = (replies log).drop (receivedBytes log) := by
  refine history (P := fun log p => receivedBytes log ≤ (replies log).length ∧
    p.unread = (replies log).drop (receivedBytes log)) ⟨Nat.zero_le _,rfl⟩ ?_ run
  intro log p c p' out past before moved
  obtain ⟨within,unread⟩ := before
  obtain ⟨looked,looking⟩ := stepLooks moved
  obtain ⟨there,left⟩ := lookUpLeaves looking
  have stream : p.unread ++ replied c.lookUp =
      (replies log ++ replied c.lookUp).drop (receivedBytes log) := by
    rw [unread,List.drop_append_of_le_length within]
  rw [stream,List.length_drop] at there
  have behind : receivedBytes log ≤ (replies log ++ replied c.lookUp).length := by
    rw [List.length_append]
    omega
  refine ⟨?_,?_⟩
  · simp only [receivedBytes,replies]
    omega
  · simp only [receivedBytes,replies]
    rw [left,stream,List.drop_drop]

theorem caughtUpIff {log : History} {p : Peer} (run : Run cPeer log p) :
    p.unread = [] ↔ receivedBytes log = (replies log).length := by
  obtain ⟨within,unread⟩ := unreadLeft run
  rw [unread,List.drop_eq_nil_iff]
  omega

/- Of a search in any session, whatever commands it comes behind. -/
theorem searchesExactIff {newer older : History} {p s s' : Peer} {q : LookUp} {printed : Report}
    (run : Run cPeer (newer ++ ⟨s,.search q,.searched printed,s'⟩ :: older) p)
    (sent : q.write = .all) (sized : q.reply.length = 10) :
    Exact s.unread q printed s'.unread ↔
      Silent q.recvs ∨ (receivedBytes older = (replies older).length ∧ ¬ Wrapped q.recvs) := by
  obtain ⟨past,moved⟩ := pastRun run
  obtain ⟨done,same,searched⟩ := stepSearch moved
  cases same
  rw [searchExactIff searched sent sized,caughtUpIff past]

def secondLookUp : LookUp := {quietLookUp with reply := [0,0,0,8,127,0,0,2,23,112]}

/- Two searches; `recvs` are those of the first. -/
def twoSearches (recvs : Recvs) : List Command :=
  [.search {quietLookUp with recvs := recvs},.search secondLookUp]

theorem searchesExactSecond : ∃ log p, Run cPeer log p ∧ ∃ t ∈ log,
    Exact t.pre.unread secondLookUp (.found 8 [127,0,0,2] 6000) t.post.unread := by
  obtain ⟨log,p,done,older,s,s',shape,caughtUp⟩ : ∃ log p,
      execute cPeer (twoSearches ⟨.got 4,.got 4,.got 2⟩) [] cPeer.init = some (log,p) ∧ ∃ older s s',
        log = ⟨s,.search secondLookUp,.searched (.found 8 [127,0,0,2] 6000),s'⟩ :: older ∧
        receivedBytes older = (replies older).length := ⟨_,_,rfl,_,_,_,rfl,rfl⟩
  subst shape
  have run := executedRun .start done
  exact ⟨_,p,run,_,.head _,
    (@searchesExactIff [] older p s s' _ _ run rfl rfl).mpr (.inr ⟨caughtUp,by decide⟩)⟩

/- The first reply is received without its last byte, and the second search reads
that byte and nine of its own reply; or one byte comes and then two errors, and
the search takes the sum -1 for a whole reply. -/
theorem searchesMixed :
    (∃ log p, Run cPeer log p ∧ ∃ t ∈ log, t.event = .search secondLookUp ∧
      t.out = .searched (.found 2281701376 [8,127,0,0] 535) ∧
      ¬ Exact t.pre.unread secondLookUp (.found 2281701376 [8,127,0,0] 535) t.post.unread) ∧
    (∃ log p, Run cPeer log p ∧ ∃ t ∈ log,
      t.event = .search {quietLookUp with recvs := ⟨.got 1,.error,.error⟩} ∧
      t.out = .searched .notIndexed ∧
      ¬ Exact t.pre.unread {quietLookUp with recvs := ⟨.got 1,.error,.error⟩} .notIndexed t.post.unread) := by
  constructor
  · obtain ⟨log,p,done,t,member,event,out,before⟩ : ∃ log p,
        execute cPeer (twoSearches ⟨.got 4,.got 4,.got 1⟩) [] cPeer.init = some (log,p) ∧ ∃ t ∈ log,
          t.event = .search secondLookUp ∧ t.out = .searched (.found 2281701376 [8,127,0,0] 535) ∧
          t.pre.unread = [136] := ⟨_,_,rfl,_,.head _,rfl,rfl,rfl⟩
    refine ⟨log,p,executedRun .start done,t,member,event,out,?_⟩
    intro fine
    obtain ⟨nothing,_⟩ := (exactAnswer (by decide) (by decide)).mp fine
    rw [before] at nothing
    contradiction
  · obtain ⟨log,p,done,t,member,event,out,behind⟩ : ∃ log p,
        execute cPeer [.search {quietLookUp with recvs := ⟨.got 1,.error,.error⟩}] [] cPeer.init =
          some (log,p) ∧ ∃ t ∈ log, t.event = .search {quietLookUp with recvs := ⟨.got 1,.error,.error⟩} ∧
          t.out = .searched .notIndexed ∧ t.post.unread = [0,0,7,127,0,0,1,19,136] :=
      ⟨_,_,rfl,_,.head _,rfl,rfl,rfl⟩
    refine ⟨log,p,executedRun .start done,t,member,event,out,?_⟩
    intro fine
    obtain ⟨_,nothing,_⟩ := (exactAnswer (by decide) (by decide)).mp fine
    rw [behind] at nothing
    contradiction

/- The address a reply is about, if it is whole and names a client. -/
def named (reply : Bytes) : Option (Bytes × Nat) :=
  if reply.length = 10 ∧ ntoh (reply.take 4) ≠ 0 ∧ (reply.drop 4).take 4 ≠ List.replicate 4 0 ∧
      ntoh ((reply.drop 8).take 2) ≠ 0 then
    some ((reply.drop 4).take 4,ntoh ((reply.drop 8).take 2))
  else none

/- ... and if the look-up received it, all of it and nothing else. -/
def ownAddress (q : LookUp) (unread left : Bytes) : Option (Bytes × Nat) :=
  if q.write = .all ∧ unread = [] ∧ left = [] then named q.reply else none

/- A fetch goes where the reply to its own look-up sends it, or nowhere. -/
def Own (unread : Bytes) (f : Fetch) (out : Fetching) (left : Bytes) : Prop :=
  match ownAddress f.lookUp unread left with
  | some peerAddr => ∀ target, out.target = some target → target = peerAddr
  | none => out.target = none ∧ out.file = none

theorem namedLength {reply : Bytes} (names : named reply ≠ none) : reply.length = 10 := by
  unfold named at names
  split at names
  · rename_i fields
    exact fields.1
  · contradiction

/- searchForFetch and `named` make the same three tests. -/
theorem storeNamed (g : Globals) {reply : Bytes} (names : named reply ≠ none) :
    named reply = some (store g (answered reply)).peerAddr := by
  unfold named at names ⊢
  split at names
  · rename_i fields
    rw [if_pos fields,answered,store,if_pos fields.2]
    rfl
  · contradiction

/- The stored address is that of the own reply only if all of it was received. -/
theorem ownAddressIff {q : LookUp} {unread left : Bytes} {looked : Looked} (g : Globals)
    (looking : lookUp q unread = some (looked,left)) :
    ownAddress q unread left = some (store g looked).peerAddr ↔
      q.write = .all ∧ unread = [] ∧ Whole q.recvs ∧ named q.reply ≠ none := by
  constructor
  · intro own
    unfold ownAddress at own
    split at own
    · rename_i alone
      obtain ⟨sent,nothing,all⟩ := alone
      have names : named q.reply ≠ none := by
        rw [own]
        exact nofun
      have ten := namedLength names
      simp only [lookUp,sent,nothing,List.nil_append] at looking
      obtain ⟨⟨there,gone⟩,outcome⟩ := received looking
      have size := congrArg List.length (all.symm.trans gone)
      rw [List.length_nil,List.length_drop,ten] at size
      exact ⟨sent,nothing,(wholeIff outcome).mpr (by omega),names⟩
    · contradiction
  · intro fine
    obtain ⟨sent,nothing,whole,names⟩ := fine
    simp only [lookUp,sent,nothing,List.nil_append] at looking
    obtain ⟨⟨there,gone⟩,outcome⟩ := received looking
    have all : left = [] := by
      rw [gone,wholeTaken whole]
      exact List.drop_eq_nil_of_le (Nat.le_of_eq (namedLength names))
    rw [ownAddress,if_pos ⟨sent,nothing,all⟩,wholeAnswered outcome whole]
    exact storeNamed g names

theorem ownTarget {unread left : Bytes} {f : Fetch} {out : Fetching} {target : Bytes × Nat}
    (connects : out.target = some target) :
    Own unread f out left ↔ ownAddress f.lookUp unread left = some target := by
  unfold Own
  rw [connects]
  cases ownAddress f.lookUp unread left with
  | none => simp
  | some peerAddr => simp [eq_comm]

theorem fetchOwnIff {f : Fetch} {g g' : Globals} {unread left : Bytes} {out : Fetching}
    (done : CPeerFetch.fetch f g unread = some (out,g',left)) :
    Own unread f out left ↔ f.created = false ∨ (f.lookUp.write = .all ∧ unread = [] ∧
      Whole f.lookUp.recvs ∧ named f.lookUp.reply ≠ none) := by
  obtain ⟨looked,looking,rfl⟩ := fetchLooks done
  by_cases created : f.created = false
  · refine iff_of_true ?_ (.inl created)
    unfold Own fetchFrom
    rw [if_pos created]
    split
    · exact fun _ nothing => absurd nothing nofun
    · exact ⟨rfl,rfl⟩
  · have connects : (fetchFrom f (store g looked).peerAddr).target =
        some (store g looked).peerAddr := by
      rw [fetchTarget,if_pos (by simpa using created)]
    rw [ownTarget connects,ownAddressIff g looking]
    exact ⟨.inr,fun fine => fine.resolve_left created⟩

/- Of a fetch in any session: everything sent before has been received, its own
reply comes in full receives and names a client, or there is no socket. -/
theorem fetchesOwnIff {newer older : History} {p s s' : Peer} {f : Fetch} {out : Fetching}
    (run : Run cPeer (newer ++ ⟨s,.fetch f,.fetched out,s'⟩ :: older) p) :
    Own s.unread f out s'.unread ↔ f.created = false ∨ (f.lookUp.write = .all ∧
      receivedBytes older = (replies older).length ∧ Whole f.lookUp.recvs ∧
      named f.lookUp.reply ≠ none) := by
  obtain ⟨past,moved⟩ := pastRun run
  obtain ⟨done,same,fetched⟩ := stepFetch moved
  cases same
  rw [fetchOwnIff fetched,caughtUpIff past]

theorem fetchesOwnOnce : ∃ log p, Run cPeer log p ∧ ∃ t ∈ log, ∃ out, t.out = .fetched out ∧
    out.target = some ([127,0,0,1],5000) ∧ Own t.pre.unread (quietFetch []) out t.post.unread := by
  obtain ⟨log,p,done,s,s',out,shape,target⟩ : ∃ log p,
      execute cPeer [.fetch (quietFetch [])] [] cPeer.init = some (log,p) ∧ ∃ s s' out,
        log = [⟨s,.fetch (quietFetch []),.fetched out,s'⟩] ∧ out.target = some ([127,0,0,1],5000) :=
    ⟨_,_,rfl,_,_,_,rfl,rfl⟩
  subst shape
  have run := executedRun .start done
  exact ⟨_,p,run,_,.head _,out,rfl,target,
    (@fetchesOwnIff [] [] p s s' _ out run).mpr (.inr ⟨rfl,rfl,rfl,by decide⟩)⟩

/- Behind a fetch from 127.0.0.1 one whose file is not indexed connects there
too, and opens its file. -/
def staleFetch : Fetch :=
  {quietFetch [] with lookUp := {quietLookUp with reply := List.replicate 10 0}}

theorem fetchesStale : ∃ log p, Run cPeer log p ∧ ∃ t ∈ log, ∃ out, t.event = .fetch staleFetch ∧
    t.out = .fetched out ∧ out.target = some ([127,0,0,1],5000) ∧ out.file = some ([97],[]) ∧
    ¬ Own t.pre.unread staleFetch out t.post.unread := by
  obtain ⟨log,p,done,t,member,out,event,fetched,target,file⟩ : ∃ log p,
      execute cPeer [.fetch (quietFetch []),.fetch staleFetch] [] cPeer.init = some (log,p) ∧
        ∃ t ∈ log, ∃ out, t.event = .fetch staleFetch ∧ t.out = .fetched out ∧
          out.target = some ([127,0,0,1],5000) ∧ out.file = some ([97],[]) :=
    ⟨_,_,rfl,_,.head _,_,rfl,rfl,rfl,rfl⟩
  refine ⟨log,p,executedRun .start done,t,member,out,event,fetched,target,file,?_⟩
  rw [ownTarget target]
  intro own
  unfold ownAddress at own
  split at own
  · contradiction
  · contradiction

end NetworkPrograms.CPeerCommands
