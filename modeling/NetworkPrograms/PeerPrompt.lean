import NetworkPrograms.Prompts
import NetworkPrograms.PeerSession

/-! The prompt of the Rust peer, from the lines of its input to the turns of the
session model: read_line, the words of a line, and the loop of main until a line
asks to quit. At the end of the input read_line goes on returning nothing. -/
namespace NetworkPrograms.PeerPrompt
open WireBytes Loops Prompts PeerPublish PeerSession

/- White_Space of Unicode, as split_whitespace and trim have it. -/
def isWhitespace (c : Char) : Bool :=
  let n := c.toNat
  (9 ≤ n && n ≤ 13) || (8192 ≤ n && n ≤ 8202) ||
    [32,133,160,5760,8232,8233,8239,8287,12288].contains n

def splitWhitespace (line : List Char) : List (List Char) :=
  (line.splitOnP isWhitespace).filter (fun word => !word.isEmpty)

/- One read_line; the line feed belongs to the line and is white space. -/
def readLine (input : List Char) : Option (List (List Char) × List Char) :=
  if input = [] then none
  else some (splitWhitespace (input.takeWhile (· ≠ '\n')),(input.dropWhile (· ≠ '\n')).drop 1)

def joinWords : List (List Char) := [['j','o','i','n'],['J','O','I','N']]
def registerWords : List (List Char) :=
  [['r','e','g','i','s','t','e','r'],['R','E','G','I','S','T','E','R']]
def publishWords : List (List Char) := [['p','u','b','l','i','s','h'],['P','U','B','L','I','S','H']]
def searchWords : List (List Char) := [['s','e','a','r','c','h'],['S','E','A','R','C','H']]
def fetchWords : List (List Char) := [['f','e','t','c','h'],['F','E','T','C','H']]
def helpWord : List Char := ['h','e','l','p']
def quitWords : List (List Char) := [['q','u','i','t'],['e','x','i','t'],['E','X','I','T']]

/- What the calls of one line meet, and whether they come back at all. -/
structure Call where
  listening : Listening
  dirContents : Option (List (Option DirEntry))
  write : Written
  returns : Bool

def utf8 (word : List Char) : Bytes := word.flatMap String.utf8EncodeChar

/- The match of main, on the words of a line. -/
def commandOf (words : List (List Char)) (call : Call) : Command :=
  match words with
  | [] => .empty
  | command :: rest =>
      if command ∈ joinWords then .join call.write
      else if command ∈ registerWords then .register call.listening call.write
      else if command ∈ publishWords then .publish call.dirContents call.write
      else if command ∈ searchWords then .search (rest.head?.map utf8) call.write
      else if command ∈ fetchWords then .fetch (rest.head?.map utf8) call.write
      else if command = helpWord then .help
      else if command ∈ quitWords then .quit
      else .unknown

/- The peer, the lines obeyed so far and the bytes written to the registry. -/
structure Prompt where
  peer : Peer
  lines : Nat
  wrote : Bytes

/- What a command that is no quit leads to, and whether its calls come back. A
command that writes nothing has made no call that waits. -/
def answer (at_ : Prompt) (c : Command) (returns : Bool) : Option Prompt :=
  match mainCommand at_.peer c with
  | none => none
  | some (peer,bytes) =>
      if bytes = [] || returns then
        some ⟨{peer with awaiting := false},at_.lines + 1,at_.wrote ++ bytes⟩
      else none

def obey (calls : Nat → Call) (at_ : Prompt) (words : List (List Char)) : Effect Prompt :=
  match commandOf words (calls at_.lines) with
  | .quit => .quits
  | c => match answer at_ c (calls at_.lines).returns with
      | none => .blocks
      | some at' => .goes at'

def stdin : Scanner (List Char) (List (List Char)) where
  next := readLine
  size := List.length
  shorter := by
    intro input words rest found
    unfold readLine at found
    split at found
    · contradiction
    · rename_i some_char
      cases Option.some.inj found
      have whole := (List.dropWhile_suffix (· ≠ '\n') (l := input)).length_le
      have positive := List.length_pos_iff.mpr some_char
      rw [List.length_drop]
      omega

def mainLoop (calls : Nat → Call) :
    List Char × Prompt → Turn (List Char × Prompt) (List Char × Prompt) :=
  promptTurn stdin (obey calls)

def start (id : UInt32) : Prompt := ⟨⟨id,false,false,true⟩,0,[]⟩

/- The first word of the line is one of quit, exit and EXIT. -/
def quits (words : List (List Char)) : Bool := words.head?.any (· ∈ quitWords)

/- One line that does not ask to quit, from one state of the prompt to the next. -/
def obeyed (calls : Nat → Call) (at_ : Prompt) (words : List (List Char)) : Option Prompt :=
  answer at_ (commandOf words (calls at_.lines)) (calls at_.lines).returns

theorem quitIff (words : List (List Char)) (call : Call) :
    commandOf words call = .quit ↔ quits words = true := by
  cases words with
  | nil => simp [commandOf,quits]
  | cons command rest =>
    have apart : ∀ word ∈ quitWords, word ∉ joinWords ∧ word ∉ registerWords ∧
        word ∉ publishWords ∧ word ∉ searchWords ∧ word ∉ fetchWords ∧ word ≠ helpWord := by
      decide
    simp only [commandOf,quits,List.head?_cons,Option.any_some,decide_eq_true_eq]
    constructor
    · intro same
      split at same
      · contradiction
      split at same
      · contradiction
      split at same
      · contradiction
      split at same
      · contradiction
      split at same
      · contradiction
      split at same
      · contradiction
      split at same
      · assumption
      · contradiction
    · intro asked
      obtain ⟨join,register,publish,search,fetch,help⟩ := apart command asked
      rw [if_neg join,if_neg register,if_neg publish,if_neg search,if_neg fetch,if_neg help,
        if_pos asked]

theorem obeyCases (calls : Nat → Call) (at_ : Prompt) (words : List (List Char)) :
    obey calls at_ words =
      if quits words = true then .quits else (obeyed calls at_ words).elim .blocks .goes := by
  unfold obey obeyed
  split
  · rename_i quit
    rw [if_pos ((quitIff _ _).mp quit)]
  · rename_i c quit
    rw [if_neg (fun asked => quit ((quitIff _ _).mpr asked))]
    split
    · rename_i stuck
      rw [stuck]
      rfl
    · rename_i at' moved
      rw [moved]
      rfl

/- What read_line takes off a text are its lines; a text that ends behind a line feed,
or is empty, has an empty one more. -/
theorem linesRead (text : List Char) :
    ∃ tail, (tail = [] ∨ tail = [[]]) ∧
      (text.splitOn '\n').map splitWhitespace = commands stdin text ++ tail := by
  induction bound : text.length using Nat.strongRecOn generalizing text with
  | _ n ih =>
    by_cases empty : text = []
    · subst empty
      rw [@commandsEnd _ _ stdin _ rfl]
      exact ⟨[[]],.inr rfl,by decide⟩
    · let line := text.takeWhile (· ≠ '\n')
      let behind := text.dropWhile (· ≠ '\n')
      have found : stdin.next text = some (splitWhitespace line,behind.drop 1) := if_neg empty
      have parts : text = line ++ behind := List.takeWhile_append_dropWhile.symm
      have flat : '\n' ∉ line := by
        intro member
        have kept := List.all_eq_true.mp (List.all_takeWhile (l := text)) _ member
        simp at kept
      rw [commandsNext found]
      cases left : behind with
      | nil =>
        refine ⟨[],.inl rfl,?_⟩
        have whole : text.splitOn '\n' = [line] := by
          rw [parts,left,List.append_nil]
          exact List.splitOn_eq_singleton flat
        rw [whole,List.drop_nil,@commandsEnd _ _ stdin _ rfl]
        rfl
      | cons c rest =>
        have feed : c = '\n' := by
          have stopped := @List.head_dropWhile_not _ (· ≠ '\n') text
          rw [show text.dropWhile (· ≠ '\n') = c :: rest from left] at stopped
          exact of_not_not (of_decide_eq_false (stopped (List.cons_ne_nil c rest)))
        subst feed
        have lower : rest.length < n := by
          rw [← bound,parts,left,List.length_append,List.length_cons]
          omega
        obtain ⟨tail,small,same⟩ := ih rest.length lower rest rfl
        refine ⟨tail,small,?_⟩
        have split_ : text.splitOn '\n' = line :: rest.splitOn '\n' := by
          rw [parts,left]
          exact List.splitOn_append_cons_self_of_not_mem flat rest
        rw [split_,List.map_cons,same]
        rfl

/- A loop over the lines of its input that only stops at a line that asks to quit
does so at the first one, if it gets there. -/
theorem leavesAtQuit {σ : Type} {obey : σ → List (List Char) → Effect σ}
    {turn : σ → List (List Char) → Option σ}
    (obeys : ∀ s words, obey s words =
      if quits words = true then .quits else (turn s words).elim .blocks .goes)
    (text : List Char) (s s' : σ) :
    (∃ rest, Returns (promptTurn stdin obey) (text,s) (rest,s')) ↔
      ∃ before words after, (text.splitOn '\n').map splitWhitespace = before ++ words :: after ∧
        (∀ earlier ∈ before, quits earlier = false) ∧ quits words = true ∧
        before.foldlM turn s = some s' := by
  obtain ⟨tail,small,read⟩ := linesRead text
  have stops := fun left : List (List (List Char)) =>
    (@leavesIff _ _ _ stdin _ text s s' left).trans (obeyAllQuits obeys)
  rw [read]
  constructor
  · rintro ⟨rest,done⟩
    obtain ⟨before,words,parts,none,asked,led⟩ := (stops _).mp ⟨rest,done,rfl⟩
    refine ⟨before,words,commands stdin rest ++ tail,?_,?_,asked,led⟩
    · rw [parts,List.append_assoc,List.cons_append]
    · exact fun earlier member => Bool.eq_false_iff.mpr (none earlier member)
  · rintro ⟨before,words,after,parts,none,asked,led⟩
    -- the empty line behind the last line feed does not quit
    have inside : words ∉ tail := by
      intro member
      have blank : words = [] := by
        rcases small with rfl | rfl
        · contradiction
        · exact List.mem_singleton.mp member
      rw [blank] at asked
      contradiction
    rcases List.append_eq_append_iff.mp parts with ⟨mine,whole,rest⟩ | ⟨mine,whole,rest⟩
    · exact absurd (rest ▸ List.mem_append_right mine List.mem_cons_self) inside
    · cases mine with
      | nil =>
        rw [List.nil_append] at rest
        exact absurd (rest ▸ List.mem_cons_self) inside
      | cons first left =>
        rw [List.cons_append] at rest
        obtain ⟨rfl,rest⟩ := List.cons.inj rest
        obtain ⟨unread,done,_⟩ := (stops left).mpr ⟨before,words,whole,
          fun earlier member => Bool.eq_false_iff.mp (none earlier member),asked,led⟩
        exact ⟨unread,done⟩

end NetworkPrograms.PeerPrompt
