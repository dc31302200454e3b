import NetworkPrograms.PeerPrompt

/-! The Rust peer of program_02, which neither listens nor fetches: what it sends is
what its successor sends for the same lines when these two commands are unknown. -/
namespace NetworkPrograms.EarlierPeer
open WireBytes Loops Prompts PeerListener PeerFetch PeerPublish PeerSession PeerPrompt RegistryFraming

def sendJoinFlag (id : UInt32) : Written → Bytes × Bool
  | .all => (joinRequest id,true)
  | .failed accepted => ((joinRequest id).take accepted,false)

/- The answer is printed as it stands, whether its id is zero or not; `reply` is what
arrives before the stream ends or fails. -/
def sendSearchFlag (write : Written) (reply : Bytes) (filename : Bytes) :
    Bytes × Option (UInt32 × SocketAddr) × Bool :=
  let searchBuf := ActionType.search.code :: (filename ++ [0])
  match write with
  | .failed accepted => (searchBuf.take accepted,none,false)
  | .all => match reply with
      | i0 :: i1 :: i2 :: i3 :: a0 :: a1 :: a2 :: a3 :: p0 :: p1 :: _ =>
          (searchBuf,some (readBe32 i0 i1 i2 i3,⟨(a0,a1,a2,a3),p0.toNat * 256 + p1.toNat⟩),true)
      | _ => (searchBuf,none,false)

/- What the calls of one line meet; `reply` is there for a search. -/
structure Answers where
  dirContents : Option (List (Option DirEntry))
  write : Written
  reply : Bytes
  returns : Bool

/- joined_registry, the lines obeyed so far and the bytes written to the registry. -/
structure State where
  joinedRegistry : Bool
  lines : Nat
  wrote : Bytes

/- The match of main on the words of a line that does not quit: the flag behind it,
and the bytes that were written. -/
def command (id : UInt32) (joinedRegistry : Bool) (answers : Answers) :
    List (List Char) → Option (Bool × Bytes)
  | [] => some (joinedRegistry,[])
  | command :: rest =>
      if joinWords.contains command then
        match sendJoinFlag id answers.write with
        | (bytes,false) => some (joinedRegistry,bytes)
        | (bytes,true) => some (true,bytes)
      else if publishWords.contains command then
        if !joinedRegistry then some (joinedRegistry,[])
        else (sendPublishFlag answers.dirContents answers.write).map (fun (bytes,_) =>
          (joinedRegistry,bytes))
      else if searchWords.contains command then
        if !joinedRegistry then some (joinedRegistry,[])
        else match rest with
          | [] => some (joinedRegistry,[])
          | fileName :: _ =>
              if !isAscii (utf8 fileName) then some (joinedRegistry,[])
              else some (joinedRegistry,(sendSearchFlag answers.write answers.reply (utf8 fileName)).1)
      else some (joinedRegistry,[])

/- As long as a call does not come back the loop stays where it is. -/
def turn (id : UInt32) (calls : Nat → Answers) (at_ : State) (words : List (List Char)) :
    Option State :=
  match command id at_.joinedRegistry (calls at_.lines) words with
  | none => none
  | some (joinedRegistry,bytes) =>
      if bytes = [] || (calls at_.lines).returns then
        some ⟨joinedRegistry,at_.lines + 1,at_.wrote ++ bytes⟩
      else none

def obey (id : UInt32) (calls : Nat → Answers) (at_ : State) (words : List (List Char)) :
    Effect State :=
  if quits words then .quits else match turn id calls at_ words with
    | none => .blocks
    | some at' => .goes at'

def mainLoop (id : UInt32) (calls : Nat → Answers) :
    List Char × State → Turn (List Char × State) (List Char × State) :=
  promptTurn stdin (obey id calls)

def start : State := ⟨false,0,[]⟩

/- The calls of the successor, of which it makes some others as well. -/
def Answers.later (answers : Answers) (listening : Listening) : Call :=
  ⟨listening,answers.dirContents,answers.write,answers.returns⟩

def State.later (id : UInt32) (at_ : State) : Prompt :=
  ⟨⟨id,at_.joinedRegistry,false,true⟩,at_.lines,at_.wrote⟩

/- The line with the two new commands made unknown. -/
def hide (words : List (List Char)) : List (List Char) :=
  if words.head?.any (registerWords ++ fetchWords).contains then [['?']] else words

/- Both look-ups send the same; where search_registry finds a peer, or no peer, the
earlier one prints the answer. -/
theorem searchAgrees (write : Written) (reply filename : Bytes) :
    (searchRegistry write reply filename).1 = (sendSearchFlag write reply filename).1 ∧
    (searchRegistry write reply filename).2.toOption =
      (sendSearchFlag write reply filename).2.1.map (fun found =>
        if found.1 = 0 then none else some found) := by
  cases write with
  | failed accepted => exact ⟨rfl,rfl⟩
  | all =>
    by_cases short : reply.length < 10
    · have unread : sendSearchFlag .all reply filename =
          (ActionType.search.code :: (filename ++ [0]),none,false) := by
        unfold sendSearchFlag
        split
        · contradiction
        split
        · simp only [List.length_cons] at short
          omega
        · rfl
      rw [unread]
      simp only [searchRegistry,if_pos short]
      exact ⟨rfl,rfl⟩
    · rcases reply with _ | ⟨i0,_ | ⟨i1,_ | ⟨i2,_ | ⟨i3,_ | ⟨a0,_ | ⟨a1,_ | ⟨a2,_ | ⟨a3,_ | ⟨p0,_ | ⟨p1,rest⟩⟩⟩⟩⟩⟩⟩⟩⟩⟩
      case cons.cons.cons.cons.cons.cons.cons.cons.cons.cons =>
        simp only [searchRegistry,if_neg short]
        exact ⟨rfl,rfl⟩
      all_goals exact absurd (by simp) short

/- What goes out does not depend on what comes back. -/
theorem searchAsks (write : Written) (reply reply' filename : Bytes) :
    (searchRegistry write reply filename).1 = (searchRegistry write reply' filename).1 := by
  cases write with
  | failed accepted => rfl
  | all =>
    simp only [searchRegistry]
    split
    · split <;> rfl
    · split <;> rfl

/- Both take the flag and the bytes of a line from the same calls. -/
theorem commandHidden (id : UInt32) (joinedRegistry : Bool) (answers : Answers) (listening : Listening)
    {words : List (List Char)} (stays : quits words = false) :
    (mainCommand ⟨id,joinedRegistry,false,true⟩ (commandOf (hide words) (answers.later listening))).map
        (fun (peer,bytes) => ({peer with awaiting := false},bytes)) =
      (command id joinedRegistry answers words).map (fun (joinedRegistry,bytes) =>
        (⟨id,joinedRegistry,false,true⟩,bytes)) := by
  cases words with
  | nil => rfl
  | cons first rest =>
    have quit : first ∉ quitWords := by simpa [quits] using stays
    by_cases new : first ∈ registerWords ++ fetchWords
    · have apart : ∀ word ∈ registerWords ++ fetchWords,
          word ∉ joinWords ∧ word ∉ publishWords ∧ word ∉ searchWords := by decide
      obtain ⟨join,publish,search⟩ := apart first new
      have hidden : hide (first :: rest) = [['?']] := if_pos (by simpa using new)
      rw [hidden]
      simp only [command,List.contains_iff_mem,if_neg join,if_neg publish,if_neg search]
      rfl
    · have shown : hide (first :: rest) = first :: rest := if_neg (by simpa using new)
      obtain ⟨register,fetch⟩ := not_or.mp (mt List.mem_append.mpr new)
      rw [shown]
      simp only [command,commandOf,List.contains_iff_mem,if_neg register,if_neg fetch]
      by_cases join : first ∈ joinWords
      · simp only [if_pos join,mainCommand,Answers.later]
        cases answers.write <;> rfl
      simp only [if_neg join]
      by_cases publish : first ∈ publishWords
      · simp only [if_pos publish,mainCommand,Answers.later]
        cases joinedRegistry with
        | false => rfl
        | true =>
          simp only [Bool.not_true,Bool.false_eq_true,if_false,sendPublish,sendPublishFlag]
          cases answers.dirContents with
          | none => rfl
          | some entries =>
            cases answers.write <;> simp [Function.comp_def]
      simp only [if_neg publish]
      by_cases search : first ∈ searchWords
      · simp only [if_pos search,mainCommand,askRegistry,Answers.later]
        cases joinedRegistry with
        | false => rfl
        | true =>
          cases rest with
          | nil => rfl
          | cons fileName rest =>
            simp only [Bool.not_true,Bool.false_eq_true,if_false,List.head?_cons,Option.map_some,asciiBytes]
            cases ascii : isAscii (utf8 fileName) with
            | false => rfl
            | true =>
              have same : (searchRegistry answers.write [] (utf8 fileName)).1 =
                  (sendSearchFlag answers.write answers.reply (utf8 fileName)).1 :=
                (searchAsks _ _ _ _).trans (searchAgrees _ _ _).1
              simp only [Bool.not_true,Bool.false_eq_true,if_false,if_true,same]
              rfl
      simp only [if_neg search]
      split
      · rfl
      · rfl

/- One line, in both programs. -/
theorem turnHidden (id : UInt32) (calls : Nat → Answers) (listening : Nat → Listening) (at_ : State)
    {words : List (List Char)} (stays : quits words = false) :
    obeyed (fun n => (calls n).later (listening n)) (at_.later id) (hide words) =
      (turn id calls at_ words).map (State.later id) := by
  have alike := commandHidden id at_.joinedRegistry (calls at_.lines) (listening at_.lines) stays
  cases mine : command id at_.joinedRegistry (calls at_.lines) words with
  | none =>
    rw [mine] at alike
    have acted : mainCommand (at_.later id).peer (commandOf (hide words)
        ((calls (at_.later id).lines).later (listening (at_.later id).lines))) = none :=
      Option.map_eq_none_iff.mp alike
    simp only [obeyed,answer,turn,acted,mine]
    rfl
  | some done =>
    obtain ⟨joinedRegistry,bytes⟩ := done
    rw [mine] at alike
    obtain ⟨⟨peer,bytes'⟩,moved,same⟩ := Option.map_eq_some_iff.mp alike
    obtain ⟨same_peer,rfl⟩ := Prod.mk.inj same
    have acted : mainCommand (at_.later id).peer (commandOf (hide words)
        ((calls (at_.later id).lines).later (listening (at_.later id).lines))) = some (peer,bytes') := moved
    simp only [obeyed,answer,turn,acted,mine,same_peer]
    change (if bytes' = [] || (calls at_.lines).returns then _ else none) = _
    split
    · rfl
    · rfl

theorem quitsHidden (words : List (List Char)) : quits (hide words) = quits words := by
  unfold hide
  split
  · rename_i new
    have apart : ∀ word ∈ registerWords ++ fetchWords, word ∉ quitWords := by decide
    cases words with
    | nil => rfl
    | cons first rest =>
      have found : first ∈ registerWords ++ fetchWords := by simpa using new
      have known : quits (first :: rest) = false := by
        simpa [quits] using apart first found
      rw [known]
      decide
  · rfl

theorem obeyCases (id : UInt32) (calls : Nat → Answers) (at_ : State) (words : List (List Char)) :
    obey id calls at_ words =
      if quits words = true then .quits else (turn id calls at_ words).elim .blocks .goes := by
  unfold obey
  split
  · rfl
  · split
    · rename_i stuck
      rw [stuck]
      rfl
    · rename_i at' moved
      rw [moved]
      rfl

/- The lines before the one that quits, in both programs. -/
theorem turnsHidden (id : UInt32) (calls : Nat → Answers) (listening : Nat → Listening)
    {before : List (List (List Char))} (stay : ∀ words ∈ before, quits words = false) (at_ : State) :
    (before.map hide).foldlM (obeyed (fun n => (calls n).later (listening n))) (at_.later id) =
      (before.foldlM (turn id calls) at_).map (State.later id) := by
  induction before generalizing at_ with
  | nil => rfl
  | cons words before ih =>
    obtain ⟨here,later⟩ := List.forall_mem_cons.mp stay
    rw [List.map_cons,List.foldlM_cons,List.foldlM_cons,turnHidden id calls listening at_ here]
    cases turn id calls at_ words with
    | none => rfl
    | some onto => exact ih later onto

theorem laterInjective {id : UInt32} {at_ at' : State} (same : at_.later id = at'.later id) : at_ = at' := by
  cases at_
  cases at'
  cases same
  rfl

/- Whatever is typed and whatever its calls meet: the earlier peer ends with the
bytes written and the flag with which its successor ends on a text in which the lines
that ask to register or to fetch are unknown, and neither ends if the other does not. -/
theorem earlierAgrees (id : UInt32) (calls : Nat → Answers) (listening : Nat → Listening)
    {text text' : List Char} (hidden : (text'.splitOn '\n').map splitWhitespace =
      (text.splitOn '\n').map (hide ∘ splitWhitespace)) (at' : State) :
    (∃ rest, Returns (mainLoop id calls) (text,start) (rest,at')) ↔
      ∃ rest, Returns (PeerPrompt.mainLoop (fun n => (calls n).later (listening n)))
        (text',PeerPrompt.start id) (rest,at'.later id) := by
  have mine := leavesAtQuit (obeyCases id calls) text start at'
  have theirs := leavesAtQuit (PeerPrompt.obeyCases (fun n => (calls n).later (listening n))) text'
    (PeerPrompt.start id) (at'.later id)
  have led : ∀ before : List (List (List Char)), (∀ words ∈ before, quits words = false) →
      (before.foldlM (turn id calls) start = some at' ↔
        (before.map hide).foldlM (obeyed (fun n => (calls n).later (listening n)))
          (PeerPrompt.start id) = some (at'.later id)) := by
    intro before stay
    change _ ↔ (before.map hide).foldlM _ (start.later id) = _
    rw [turnsHidden id calls listening stay start,Option.map_eq_some_iff]
    constructor
    · exact fun same => ⟨at',same,rfl⟩
    · rintro ⟨found,reached,same⟩
      rw [reached,laterInjective same]
  rw [← List.map_map] at hidden
  refine mine.trans (Iff.trans ?_ theirs.symm)
  constructor
  · rintro ⟨before,words,after,parts,stay,asked,reached⟩
    refine ⟨before.map hide,hide words,after.map hide,?_,?_,?_,(led before stay).mp reached⟩
    · rw [hidden,parts,List.map_append,List.map_cons]
    · intro earlier member
      obtain ⟨line,found,rfl⟩ := List.mem_map.mp member
      exact (quitsHidden line).trans (stay line found)
    · exact (quitsHidden words).trans asked
  · rintro ⟨before',words',after',parts,stay,asked,reached⟩
    rw [hidden] at parts
    obtain ⟨before,behind,same,rfl,here⟩ := List.map_eq_append_iff.mp parts
    obtain ⟨words,after,rfl,rfl,rfl⟩ := List.map_eq_cons_iff.mp here
    have stay : ∀ words ∈ before, quits words = false := fun line member =>
      (quitsHidden line).symm.trans (stay _ (List.mem_map_of_mem member))
    exact ⟨before,words,after,same,stay,(quitsHidden words).symm.trans asked,(led before stay).mpr reached⟩

/- "fetch a", "join" and "quit": no FETCH goes out, the JOIN does. -/
theorem earlierAgreesFetch : ∃ rest, Returns (mainLoop 7 (fun _ => ⟨none,.all,[],true⟩))
    (['f','e','t','c','h',' ','a','\n','j','o','i','n','\n','q','u','i','t'],start)
    (rest,⟨true,2,joinRequest 7⟩) := by
  refine (@earlierAgrees 7 (fun _ => ⟨none,.all,[],true⟩) (fun _ => .unbound) _
    ['?','\n','j','o','i','n','\n','q','u','i','t'] (by decide) _).mpr ?_
  refine (leavesAtQuit (PeerPrompt.obeyCases _) _ _ _).mpr
    ⟨[[['?']],[['j','o','i','n']]],[['q','u','i','t']],[],by decide,by decide,by decide,?_⟩
  rfl

end NetworkPrograms.EarlierPeer
