import NetworkPrograms.EventMachine

/-! The threads of a Rust peer: main at its prompt, one thread in handle_listener for
every REGISTER, and the flag they share. A connection is whatever the remote peer
brings along; handle_conn deals with it in one thread from start to end. -/
namespace NetworkPrograms.ListenerThreads
open EventMachine

variable {χ : Type}

/- Where a thread stands in the loop of handle_listener. -/
inductive Phase (χ : Type) where
  | checking
  | accepting
  | serving (conn : χ)
  | stopped
  deriving DecidableEq

/- `backlog` holds the connections the kernel has completed, oldest first. -/
structure Listener (χ : Type) where
  phase : Phase χ
  backlog : List χ

/- What accept comes to; `configured` is set when the three calls that set up the
socket succeed. -/
inductive Accept where
  | conn (configured : Bool)
  | wouldBlock
  | failed
  deriving DecidableEq

inductive Act (χ : Type) where
  | connect (conn : χ)
  | load
  | accept (result : Accept)
  | serve

inductive Dealt (χ : Type) where
  | took (conn : χ)
  | dropped (conn : χ)
  | handled (conn : χ)

/- One step of a listener, its socket included. A socket whose thread has stopped
is closed. -/
def listenerStep (acceptConn : Bool) (l : Listener χ) : Act χ → Option (Listener χ × Option (Dealt χ))
  | .connect conn =>
      match l.phase with
      | .stopped => none
      | _ => some ({l with backlog := l.backlog ++ [conn]},none)
  | .load =>
      match l.phase with
      | .checking => some ({l with phase := if acceptConn then .accepting else .stopped},none)
      | _ => none
  | .accept result =>
      match l.phase, result, l.backlog with
      | .accepting, .conn true, conn :: rest => some (⟨.serving conn,rest⟩,some (.took conn))
      | .accepting, .conn false, conn :: rest => some (⟨.checking,rest⟩,some (.dropped conn))
      | .accepting, .wouldBlock, [] => some (⟨.checking,[]⟩,none)
      | .accepting, .failed, backlog => some (⟨.stopped,backlog⟩,none)
      | _, _, _ => none
  | .serve =>
      match l.phase with
      | .serving conn => some ({l with phase := .checking},some (.handled conn))
      | _ => none

/- Main, from its prompt over the store to the join of the thread that it remembers. -/
inductive MainPhase where
  | prompting
  | leaving
  | joining
  | finished
  deriving DecidableEq

/- The listeners in the order of their REGISTERs: `listener_thread` is the last one. -/
structure Process (χ : Type) where
  main : MainPhase
  acceptConn : Bool
  listeners : List (Listener χ)

inductive Event (χ : Type) where
  | register
  | quit
  | store
  | join
  | thread (i : Nat) (act : Act χ)

def Phase.isStopped : Phase χ → Bool
  | .stopped => true
  | _ => false

def step (p : Process χ) : Event χ → Option (Process χ × Option (Dealt χ))
  | .register =>
      if p.main = .prompting then
        some ({p with listeners := p.listeners ++ [⟨.checking,[]⟩]},none)
      else none
  | .quit => if p.main = .prompting then some ({p with main := .leaving},none) else none
  | .store =>
      if p.main = .leaving then some ({p with main := .joining, acceptConn := false},none) else none
  | .join =>
      if p.main = .joining ∧ p.listeners.getLast?.all (fun l => l.phase.isStopped) then
        some ({p with main := .finished},none)
      else none
  | .thread i act =>
      -- the end of main is the end of all threads
      if p.main = .finished then none
      else match p.listeners[i]? with
        | none => none
        | some l => (listenerStep p.acceptConn l act).map (fun (l,dealt) =>
            ({p with listeners := p.listeners.set i l},dealt))

def peer (χ : Type) : Machine (Process χ) (Event χ) (Option (Dealt χ)) :=
  ⟨⟨.prompting,true,[]⟩,step⟩

abbrev Move (χ : Type) := Transition (Process χ) (Event χ) (Option (Dealt χ))
abbrev History (χ : Type) := Log (Process χ) (Event χ) (Option (Dealt χ))

/- Listener `i`, or one that never was. -/
def Process.listener (p : Process χ) (i : Nat) : Listener χ := p.listeners[i]?.getD ⟨.stopped,[]⟩

/- Everything one event can do. -/
inductive Moved (p : Process χ) : Event χ → Option (Dealt χ) → Process χ → Prop where
  | register (prompting : p.main = .prompting) :
      Moved p .register none {p with listeners := p.listeners ++ [⟨.checking,[]⟩]}
  | quit (prompting : p.main = .prompting) : Moved p .quit none {p with main := .leaving}
  | store (leaving : p.main = .leaving) :
      Moved p .store none {p with main := .joining, acceptConn := false}
  | join (joining : p.main = .joining)
      (last : p.listeners.getLast?.all (fun l => l.phase.isStopped) = true) :
      Moved p .join none {p with main := .finished}
  | thread (i : Nat) (act : Act χ) (l : Listener χ) (dealt : Option (Dealt χ))
      (alive : p.main ≠ .finished) (inside : i < p.listeners.length)
      (acted : listenerStep p.acceptConn (p.listener i) act = some (l,dealt)) :
      Moved p (.thread i act) dealt {p with listeners := p.listeners.set i l}

theorem stepMoved {p p' : Process χ} {e : Event χ} {out : Option (Dealt χ)}
    (moved : step p e = some (p',out)) : Moved p e out p' := by
  cases e with
  | register =>
    simp only [step] at moved
    split at moved
    · rename_i prompting
      cases moved
      exact .register prompting
    · contradiction
  | quit =>
    simp only [step] at moved
    split at moved
    · rename_i prompting
      cases moved
      exact .quit prompting
    · contradiction
  | store =>
    simp only [step] at moved
    split at moved
    · rename_i leaving
      cases moved
      exact .store leaving
    · contradiction
  | join =>
    simp only [step] at moved
    split at moved
    · rename_i joining
      cases moved
      exact .join joining.1 joining.2
    · contradiction
  | thread i act =>
    simp only [step] at moved
    split at moved
    · contradiction
    rename_i alive
    split at moved
    · contradiction
    rename_i l found
    obtain ⟨⟨l',dealt⟩,acted,same⟩ := Option.map_eq_some_iff.mp moved
    cases same
    refine .thread i act _ _ alive (List.getElem?_eq_some_iff.mp found).1 ?_
    rwa [Process.listener,found]

/- The part of a step that is listener `i`'s. -/
def mine (i : Nat) (t : Move χ) : Option (Act χ × Option (Dealt χ)) :=
  match t.event with
  | .thread j act => if j = i then some (act,t.out) else none
  | _ => none

/- What a step is for one listener: its own, no business of its, or its birth. -/
inductive Changes (p p' : Process χ) (i : Nat) : Option (Act χ × Option (Dealt χ)) → Prop where
  | own (act : Act χ) (dealt : Option (Dealt χ))
      (acted : listenerStep p.acceptConn (p.listener i) act = some (p'.listener i,dealt)) :
      Changes p p' i (some (act,dealt))
  | other (same : p'.listener i = p.listener i) : Changes p p' i none
  | born (prompting : p.main = .prompting) (before : p.listener i = ⟨.stopped,[]⟩)
      (after : p'.listener i = ⟨.checking,[]⟩) : Changes p p' i none

theorem stepChanges {p p' : Process χ} {e : Event χ} {out : Option (Dealt χ)}
    (moved : step p e = some (p',out)) (i : Nat) : Changes p p' i (mine i ⟨p,e,out,p'⟩) := by
  cases stepMoved moved with
  | register prompting =>
    rcases Nat.lt_trichotomy i p.listeners.length with before | rfl | behind
    · refine .other ?_
      simp only [Process.listener,List.getElem?_append_left before]
    · refine .born prompting ?_ ?_
      · simp [Process.listener]
      · simp [Process.listener]
    · refine .other ?_
      have out' : p.listeners[i]? = none := List.getElem?_eq_none (Nat.le_of_lt behind)
      have out'' : (p.listeners ++ [⟨.checking,[]⟩])[i]? = none :=
        List.getElem?_eq_none (by rw [List.length_append]; exact behind)
      simp only [Process.listener,out',out'']
  | quit prompting => exact .other rfl
  | store leaving => exact .other rfl
  | join joining last => exact .other rfl
  | thread j act l dealt alive inside acted =>
    by_cases same : j = i
    · subst same
      simp only [mine,if_true]
      refine .own act _ ?_
      rw [acted]
      simp [Process.listener,inside]
    · simp only [mine,if_neg same]
      refine .other ?_
      simp [Process.listener,List.getElem?_set_ne same]

/- What listener `i` did in a run, oldest first. -/
def told (i : Nat) (f : Act χ → Option (Dealt χ) → List χ) : History χ → List χ
  | [] => []
  | t :: older => told i f older ++ match mine i t with
      | none => []
      | some (act,dealt) => f act dealt

def arrived : Act χ → Option (Dealt χ) → List χ
  | .connect conn, _ => [conn]
  | _, _ => []

def accepted : Act χ → Option (Dealt χ) → List χ
  | _, some (.took conn) => [conn]
  | _, some (.dropped conn) => [conn]
  | _, _ => []

def taken : Act χ → Option (Dealt χ) → List χ
  | _, some (.took conn) => [conn]
  | _, _ => []

def handled : Act χ → Option (Dealt χ) → List χ
  | _, some (.handled conn) => [conn]
  | _, _ => []

def inHand (l : Listener χ) : List χ :=
  match l.phase with
  | .serving conn => [conn]
  | _ => []

theorem handOne (l : Listener χ) : (inHand l).length ≤ 1 := by
  unfold inHand
  split
  · exact Nat.le_refl 1
  · exact Nat.zero_le 1

/- A conservation law of one step of a listener is one of every run. -/
theorem conserved {f g : Act χ → Option (Dealt χ) → List χ} {held : Listener χ → List χ}
    (none_held : held ⟨.stopped,[]⟩ = [] ∧ held ⟨.checking,[]⟩ = [])
    (step_keeps : ∀ acceptConn l act l' dealt, listenerStep acceptConn l act = some (l',dealt) →
      held l ++ f act dealt = g act dealt ++ held l')
    {log : History χ} {p : Process χ} (run : Run (peer χ) log p) (i : Nat) :
    told i f log = told i g log ++ held (p.listener i) := by
  induction run with
  | start => exact none_held.1.symm
  | @next log p e p' out past moved ih =>
    have changes := stepChanges moved i
    simp only [told]
    generalize mine i ⟨p,e,out,p'⟩ = own at changes
    rw [ih]
    cases changes with
    | own act dealt acted =>
      simp only [List.append_assoc,step_keeps _ _ _ _ _ acted]
    | other same => simp only [List.append_nil,same]
    | born prompting before after =>
      simp only [List.append_nil,before,after,none_held.1,none_held.2]

/- One step of a listener, with the phase it is in. -/
inductive Acts (acceptConn : Bool) : Listener χ → Act χ → Option (Dealt χ) → Listener χ → Prop where
  | connect (l : Listener χ) (conn : χ) (listening : l.phase.isStopped = false) :
      Acts acceptConn l (.connect conn) none ⟨l.phase,l.backlog ++ [conn]⟩
  | load (backlog : List χ) : Acts acceptConn ⟨.checking,backlog⟩ .load none
      ⟨if acceptConn then .accepting else .stopped,backlog⟩
  | took (conn : χ) (rest : List χ) : Acts acceptConn ⟨.accepting,conn :: rest⟩ (.accept (.conn true))
      (some (.took conn)) ⟨.serving conn,rest⟩
  | dropped (conn : χ) (rest : List χ) : Acts acceptConn ⟨.accepting,conn :: rest⟩
      (.accept (.conn false)) (some (.dropped conn)) ⟨.checking,rest⟩
  | wouldBlock : Acts acceptConn ⟨.accepting,[]⟩ (.accept .wouldBlock) none ⟨.checking,[]⟩
  | failed (backlog : List χ) : Acts acceptConn ⟨.accepting,backlog⟩ (.accept .failed) none
      ⟨.stopped,backlog⟩
  | served (conn : χ) (backlog : List χ) : Acts acceptConn ⟨.serving conn,backlog⟩ .serve
      (some (.handled conn)) ⟨.checking,backlog⟩

theorem listenerActs {acceptConn : Bool} {l l' : Listener χ} {act : Act χ} {dealt : Option (Dealt χ)}
    (acted : listenerStep acceptConn l act = some (l',dealt)) : Acts acceptConn l act dealt l' := by
  obtain ⟨phase,backlog⟩ := l
  cases act with
  | connect conn =>
    cases phase with
    | stopped => contradiction
    | checking =>
      cases acted
      exact .connect ⟨.checking,backlog⟩ conn rfl
    | accepting =>
      cases acted
      exact .connect ⟨.accepting,backlog⟩ conn rfl
    | serving current =>
      cases acted
      exact .connect ⟨.serving current,backlog⟩ conn rfl
  | load =>
    cases phase with
    | checking =>
      cases acted
      exact .load backlog
    | _ => contradiction
  | accept result =>
    simp only [listenerStep] at acted
    split at acted
    · cases acted
      exact .took _ _
    · cases acted
      exact .dropped _ _
    · cases acted
      exact .wouldBlock
    · cases acted
      exact .failed _
    · contradiction
  | serve =>
    cases phase with
    | serving conn =>
      cases acted
      exact .served conn backlog
    | _ => contradiction

theorem acceptedInOrder {log : History χ} {p : Process χ} (run : Run (peer χ) log p) (i : Nat) :
    told i arrived log = told i accepted log ++ (p.listener i).backlog := by
  refine @conserved _ _ _ Listener.backlog ⟨rfl,rfl⟩ ?_ _ _ run i
  intro acceptConn l act l' dealt acted
  cases listenerActs acted with
  | connect conn listening => rfl
  | load backlog => exact List.append_nil _
  | took conn rest => exact List.append_nil _
  | dropped conn rest => exact List.append_nil _
  | wouldBlock => rfl
  | failed backlog => exact List.append_nil _
  | served conn backlog => exact List.append_nil _

theorem handledInOrder {log : History χ} {p : Process χ} (run : Run (peer χ) log p) (i : Nat) :
    told i taken log = told i handled log ++ inHand (p.listener i) := by
  refine @conserved _ _ _ inHand ⟨rfl,rfl⟩ ?_ _ _ run i
  intro acceptConn l act l' dealt acted
  cases listenerActs acted with
  | connect conn listening => exact List.append_nil _
  | load backlog => cases acceptConn <;> rfl
  | took conn rest => rfl
  | dropped conn rest => rfl
  | wouldBlock => rfl
  | failed backlog => rfl
  | served conn backlog => rfl

/- Every listener accepts its connections in the order of their arrival, none of them
twice and none left out but those that still wait; those it does not drop it handles
one after the other, each to its end before the next. -/
theorem dealtInOrder {log : History χ} {p : Process χ} (run : Run (peer χ) log p) (i : Nat) :
    told i arrived log = told i accepted log ++ (p.listener i).backlog ∧
      told i taken log = told i handled log ++ inHand (p.listener i) ∧
      (inHand (p.listener i)).length ≤ 1 := by
  exact ⟨acceptedInOrder run i,handledInOrder run i,handOne _⟩

/- Two REGISTERs; the first listener has its second connection in hand while a third
one waits, the second listener has none. -/
def busyEvents : List (Event Nat) :=
  [.register,.thread 0 (.connect 7),.thread 0 .load,.register,.thread 0 (.accept (.conn false)),
    .thread 0 (.connect 8),.thread 0 (.connect 9),.thread 0 .load,.thread 0 (.accept (.conn true))]

theorem dealtInOrderBusy : ∃ log p, Run (peer Nat) log p ∧
    told 0 arrived log = [7,8] ++ [9] ∧ told 0 taken log = [] ++ [8] := by
  obtain ⟨log,p,done,accepted,backlog,handled,hand⟩ : ∃ log p,
      execute (peer Nat) busyEvents [] (peer Nat).init = some (log,p) ∧
        told 0 accepted log = [7,8] ∧ (p.listener 0).backlog = [9] ∧
        told 0 handled log = [] ∧ inHand (p.listener 0) = [8] := ⟨_,_,rfl,rfl,rfl,rfl,rfl⟩
  have run := executedRun .start done
  obtain ⟨order,whole,-⟩ := dealtInOrder run 0
  rw [accepted,backlog] at order
  rw [handled,hand] at whole
  exact ⟨log,p,run,order,whole⟩

/- The turns a thread can still take once the flag is down. -/
def turnsLeft (l : Listener χ) : Nat :=
  match l.phase with
  | .accepting => 3
  | .serving _ => 2
  | .checking => 1
  | .stopped => 0

/- Main is at its end: nothing moves any more, and the listener of the last REGISTER
has stopped. -/
theorem finishedLast {log : History χ} {p : Process χ} (run : Run (peer χ) log p)
    (finished : p.main = .finished) :
    p.listeners.getLast?.all (fun l => l.phase.isStopped) = true := by
  revert finished
  refine invariant (m := peer χ) (P := fun p => p.main = .finished →
    p.listeners.getLast?.all (fun l => l.phase.isStopped) = true) (by simp [peer]) ?_ run
  intro p e p' out ended moved finished
  cases stepMoved moved with
  | register prompting => simp [prompting] at finished
  | quit prompting => contradiction
  | store leaving => contradiction
  | join joining last => exact last
  | thread i act l dealt alive inside acted => exact absurd finished alive

/- When main has come to its end, the listener of the last REGISTER has handled every
connection that it took; each of the others may have been cut off in the middle of one. -/
theorem leavesHandled {log : History χ} {p : Process χ} (run : Run (peer χ) log p)
    (finished : p.main = .finished) :
    (∀ e, step p e = none) ∧
      (∀ i, i + 1 = p.listeners.length → told i taken log = told i handled log) ∧
      ∀ i, ∃ cut, told i taken log = told i handled log ++ cut ∧ cut.length ≤ 1 := by
  refine ⟨?_,?_,?_⟩
  · intro e
    cases e with
    | register => exact if_neg (by simp [finished])
    | quit => exact if_neg (by simp [finished])
    | store => exact if_neg (by simp [finished])
    | join => exact if_neg (by simp [finished])
    | thread i act => exact if_pos finished
  · intro i last
    have ended := finishedLast run finished
    have whole := handledInOrder run i
    have found : p.listeners[i]? = p.listeners.getLast? := by
      rw [List.getLast?_eq_getElem?,← last,Nat.add_sub_cancel]
    cases listener : p.listeners.getLast? with
    | none =>
      rw [List.getLast?_eq_none_iff.mp listener] at last
      contradiction
    | some l =>
      rw [listener] at ended found
      have hand : inHand (p.listener i) = [] := by
        simp only [Process.listener,found,Option.getD_some,inHand]
        split
        · rename_i conn serving
          simp [serving,Phase.isStopped] at ended
        · rfl
      rw [whole,hand,List.append_nil]
  · intro i
    exact ⟨inHand (p.listener i),handledInOrder run i,handOne _⟩

/- The second listener has stopped, the first one is cut off with connection 8. -/
theorem leavesHandledCut : ∃ log p, Run (peer Nat) log p ∧
    told 1 taken log = told 1 handled log ∧ told 0 taken log = [8] ∧ told 0 handled log = [] := by
  obtain ⟨log,p,done,finished,two,taken,handled⟩ : ∃ log p,
      execute (peer Nat) (busyEvents ++ [.quit,.store,.thread 1 .load,.join]) [] (peer Nat).init =
          some (log,p) ∧ p.main = .finished ∧ 1 + 1 = p.listeners.length ∧
        told 0 taken log = [8] ∧ told 0 handled log = [] := ⟨_,_,rfl,rfl,rfl,rfl,rfl⟩
  have run := executedRun .start done
  exact ⟨log,p,run,(leavesHandled run finished).2.1 1 two,taken,handled⟩

end NetworkPrograms.ListenerThreads
