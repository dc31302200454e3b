import NetworkPrograms.Prompts
import NetworkPrograms.WireBytes

/-! print_options of both C peers: the commands that scanf takes off the terminal,
and the loop that obeys them until EXIT. At the end of the input scanf fails and
getchar never returns a line feed. -/
namespace NetworkPrograms.CPeerPrompt
open WireBytes Loops Prompts

/- isspace of the C locale. -/
def isSpace (b : UInt8) : Bool := b = 32 || (9 ≤ b && b ≤ 13)

/- scanf("%<width>s",word): skips white space, then takes at most `width` bytes
that are none. No word is left at the end of the input. -/
def scanWord (width : Nat) (input : Bytes) : Option (Bytes × Bytes) :=
  match input.dropWhile isSpace with
  | [] => none
  | b :: rest =>
      let word := ((b :: rest).take width).takeWhile (fun b => !isSpace b)
      some (word,(b :: rest).drop word.length)

/- "JOIN", "PUBLISH", "SEARCH", "FETCH" and "EXIT". -/
def joinWord : Bytes := [74,79,73,78]
def publishWord : Bytes := [80,85,66,76,73,83,72]
def searchWord : Bytes := [83,69,65,82,67,72]
def fetchWord : Bytes := [70,69,84,67,72]
def exitWord : Bytes := [69,88,73,84]

/- A command as the loop takes it off the input. At the end of the input search
and fetch go on with whatever fileName holds. -/
inductive Asked where
  | join
  | publish
  | search (fileName : Option Bytes)
  | fetch (fileName : Option Bytes)
  | exit
  | unknown (selection : Bytes)
  deriving DecidableEq, Repr

/- scanf("%100s",fileName), whose result is not looked at. -/
def scanName (asked : Option Bytes → Asked) (input : Bytes) : Asked × Bytes :=
  match scanWord 100 input with
  | none => (asked none,[])
  | some (fileName,rest) => (asked (some fileName),rest)

/- strcmp stops at a NUL. FETCH is a command of program_03 only. -/
def select (fetches : Bool) (selection rest : Bytes) : Asked × Bytes :=
  let word := selection.takeWhile (· ≠ 0)
  if word = joinWord then (.join,rest)
  else if word = publishWord then (.publish,rest)
  else if word = searchWord then scanName .search rest
  else if fetches ∧ word = fetchWord then scanName .fetch rest
  else if word = exitWord then (.exit,rest)
  else (.unknown selection,rest)

def nextCommand (fetches : Bool) (input : Bytes) : Option (Asked × Bytes) :=
  (scanWord 9 input).map (fun (selection,rest) => select fetches selection rest)

/- Every command but EXIT and an unknown one calls a function that talks to a
socket, and that need not come back. -/
def Asked.calls : Asked → Bool
  | .exit => false
  | .unknown _ => false
  | _ => true

/- `made` are the calls so far, the last one first. -/
def obey (comesBack : Nat → Bool) (made : List Asked) (asked : Asked) : Effect (List Asked) :=
  if asked = .exit then .quits
  else if !asked.calls then .goes made
  else if comesBack made.length then .goes (asked :: made)
  else .blocks

/- A word is at least one byte long, so that every scan shortens the input. -/
theorem scanShorter {n : Nat} {input word rest : Bytes} (scanned : scanWord (n + 1) input = some (word,rest)) :
    rest.length < input.length := by
  unfold scanWord at scanned
  split at scanned
  · contradiction
  · rename_i b tail skipped
    cases Option.some.inj scanned
    have head : isSpace b = false := by
      have stopped := @List.head_dropWhile_not _ isSpace input (by simp [skipped])
      simpa only [skipped,List.head_cons] using stopped
    have whole := (List.dropWhile_suffix isSpace (l := input)).length_le
    rw [skipped,List.length_cons] at whole
    rw [List.take_succ_cons,List.takeWhile_cons_of_pos (by rw [head]; rfl),List.length_cons,
      List.drop_succ_cons,List.length_drop]
    omega

theorem nameShorter (asked : Option Bytes → Asked) (input : Bytes) :
    (scanName asked input).2.length ≤ input.length := by
  unfold scanName
  split
  · exact Nat.zero_le _
  · rename_i fileName rest scanned
    exact Nat.le_of_lt (scanShorter scanned)

theorem selectShorter (fetches : Bool) (selection rest : Bytes) :
    (select fetches selection rest).2.length ≤ rest.length := by
  simp only [select]
  split
  · exact Nat.le_refl _
  split
  · exact Nat.le_refl _
  split
  · exact nameShorter .search rest
  split
  · exact nameShorter .fetch rest
  split
  · exact Nat.le_refl _
  · exact Nat.le_refl _

def terminal (fetches : Bool) : Scanner Bytes Asked where
  next := nextCommand fetches
  size := List.length
  shorter := by
    intro input asked rest found
    obtain ⟨⟨selection,left⟩,scanned,selected⟩ := Option.map_eq_some_iff.mp found
    have cut := selectShorter fetches selection left
    rw [show select fetches selection left = (asked,rest) from selected] at cut
    exact Nat.lt_of_le_of_lt cut (scanShorter scanned)

/- The loop of print_options, on the input that is left and the calls made. -/
def printOptions (fetches : Bool) (comesBack : Nat → Bool) :
    Bytes × List Asked → Turn (Bytes × List Asked) (Bytes × List Asked) :=
  promptTurn (terminal fetches) (obey comesBack)

/- The words a command is typed with, each with the width it is read with. -/
def Asked.words : Asked → List (Nat × Bytes)
  | .join => [(9,joinWord)]
  | .publish => [(9,publishWord)]
  | .search fileName => (9,searchWord) :: fileName.toList.map (fun name => (100,name))
  | .fetch fileName => (9,fetchWord) :: fileName.toList.map (fun name => (100,name))
  | .exit => [(9,exitWord)]
  | .unknown selection => [(9,selection)]

/- One scan reads such a word whole. -/
def Fits (word : Nat × Bytes) : Prop :=
  word.2 ≠ [] ∧ word.2.length ≤ word.1 ∧ word.2.all (fun b => !isSpace b) = true

/- A command that a user can type: its words fit, look-ups come with a name, FETCH
is there to be asked for, and what is unknown is none of the others. -/
structure Typable (fetches : Bool) (asked : Asked) : Prop where
  fit : ∀ word ∈ asked.words, Fits word
  named : asked ≠ .search none ∧ asked ≠ .fetch none
  offered : ∀ fileName, asked = .fetch fileName → fetches = true
  apart : ∀ selection, asked = .unknown selection →
    (select fetches selection []).1 = .unknown selection

/- Words laid out in a text: any white space in front of each, and some behind each
but the last. -/
inductive LaidOut : List Bytes → Bytes → Prop where
  | done {gap : Bytes} (blank : gap.all isSpace = true) : LaidOut [] gap
  | word {gap word rest : Bytes} {words : List Bytes} (blank : gap.all isSpace = true)
      (apart : rest.head?.all isSpace = true) (later : LaidOut words rest) :
      LaidOut (word :: words) (gap ++ (word ++ rest))

/- The next scan takes the next word, the whole of it. -/
theorem scanLaidOut {width : Nat} {word : Bytes} {words : List Bytes} {text : Bytes}
    (fits : Fits (width,word)) (laid : LaidOut (word :: words) text) :
    ∃ rest, scanWord width text = some (word,rest) ∧ LaidOut words rest := by
  cases laid with
  | @word gap word rest words blank apart later =>
    obtain ⟨some_byte,narrow,solid⟩ := fits
    refine ⟨rest,?_,later⟩
    obtain ⟨b,tail,rfl⟩ := List.exists_cons_of_ne_nil some_byte
    have solid := List.all_eq_true.mp solid
    have head : isSpace b = false := by simpa using solid b List.mem_cons_self
    have stops : (rest.take (width - (b :: tail).length)).takeWhile (fun b => !isSpace b) = [] := by
      cases rest with
      | nil => simp
      | cons c rest =>
        have space : isSpace c = true := apart
        cases width - (b :: tail).length with
        | zero => rfl
        | succ n => simp [space]
    have taken : ((b :: tail ++ rest).take width).takeWhile (fun b => !isSpace b) = b :: tail := by
      rw [List.take_append,List.take_of_length_le narrow,List.takeWhile_append_of_pos,stops,
        List.append_nil]
      exact solid
    have skipped : (gap ++ (b :: tail ++ rest)).dropWhile isSpace = b :: (tail ++ rest) := by
      rw [List.dropWhile_append_of_pos (List.all_eq_true.mp blank),List.cons_append,List.dropWhile_cons_of_neg (by rw [head]; decide)]
    unfold scanWord
    rw [skipped]
    dsimp only
    rw [← List.cons_append,taken,List.drop_left]

theorem scanLaidName {asked : Option Bytes → Asked} {name : Bytes} {words : List Bytes}
    {text : Bytes} (fits : Fits (100,name)) (laid : LaidOut (name :: words) text) :
    ∃ rest, scanName asked text = (asked (some name),rest) ∧ LaidOut words rest := by
  obtain ⟨rest,scanned,later⟩ := scanLaidOut fits laid
  refine ⟨rest,?_,later⟩
  simp only [scanName,scanned]

/- What select makes of a word does not depend on what comes behind, names aside. -/
theorem selectUnknown {fetches : Bool} {selection : Bytes}
    (apart : (select fetches selection []).1 = .unknown selection) (rest : Bytes) :
    select fetches selection rest = (.unknown selection,rest) := by
  simp only [select] at apart ⊢
  split at apart
  · contradiction
  rename_i notJoin
  split at apart
  · contradiction
  rename_i notPublish
  split at apart
  · change Asked.search none = .unknown selection at apart
    contradiction
  rename_i notSearch
  split at apart
  · change Asked.fetch none = .unknown selection at apart
    contradiction
  rename_i notFetch
  split at apart
  · contradiction
  rename_i notExit
  rw [if_neg notJoin,if_neg notPublish,if_neg notSearch,if_neg notFetch,if_neg notExit]

/- One turn of the scan takes the words of one command. -/
theorem nextLaidOut {fetches : Bool} {asked : Asked} {words : List Bytes} {text : Bytes}
    (typable : Typable fetches asked)
    (laid : LaidOut (asked.words.map Prod.snd ++ words) text) :
    ∃ rest, nextCommand fetches text = some (asked,rest) ∧ LaidOut words rest := by
  obtain ⟨fit,named,offered,apart⟩ := typable
  cases asked with
  | join =>
    obtain ⟨rest,scanned,later⟩ := scanLaidOut (fit _ List.mem_cons_self) laid
    refine ⟨rest,?_,later⟩
    simp only [nextCommand,scanned,Option.map_some]
    rfl
  | publish =>
    obtain ⟨rest,scanned,later⟩ := scanLaidOut (fit _ List.mem_cons_self) laid
    refine ⟨rest,?_,later⟩
    simp only [nextCommand,scanned,Option.map_some]
    rfl
  | exit =>
    obtain ⟨rest,scanned,later⟩ := scanLaidOut (fit _ List.mem_cons_self) laid
    refine ⟨rest,?_,later⟩
    simp only [nextCommand,scanned,Option.map_some]
    cases fetches <;> rfl
  | unknown selection =>
    obtain ⟨rest,scanned,later⟩ := scanLaidOut (fit _ List.mem_cons_self) laid
    refine ⟨rest,?_,later⟩
    simp only [nextCommand,scanned,Option.map_some,selectUnknown (apart selection rfl)]
  | search fileName =>
    cases fileName with
    | none => exact absurd rfl named.1
    | some name =>
      obtain ⟨behind,scanned,laid⟩ := scanLaidOut (fit _ List.mem_cons_self) laid
      obtain ⟨rest,read,later⟩ := @scanLaidName .search _ _ _
        (fit _ (List.mem_cons_of_mem _ List.mem_cons_self)) laid
      refine ⟨rest,?_,later⟩
      simp only [nextCommand,scanned,Option.map_some,← read]
      rfl
  | fetch fileName =>
    cases fileName with
    | none => exact absurd rfl named.2
    | some name =>
      obtain ⟨behind,scanned,laid⟩ := scanLaidOut (fit _ List.mem_cons_self) laid
      obtain ⟨rest,read,later⟩ := @scanLaidName .fetch _ _ _
        (fit _ (List.mem_cons_of_mem _ List.mem_cons_self)) laid
      refine ⟨rest,?_,later⟩
      simp only [nextCommand,scanned,Option.map_some,← read,offered _ rfl]
      rfl

/- A script is read back from every text it is laid out in. -/
theorem scriptRead {fetches : Bool} {script : List Asked} {text : Bytes}
    (typable : ∀ asked ∈ script, Typable fetches asked)
    (laid : LaidOut (script.flatMap (fun asked => asked.words.map Prod.snd)) text) :
    commands (terminal fetches) text = script := by
  induction script generalizing text with
  | nil =>
    cases laid with
    | done blank =>
      refine commandsEnd ?_
      have skipped : text.dropWhile isSpace = [] := by
        simpa only [List.append_nil,List.dropWhile_nil] using
          @List.dropWhile_append_of_pos _ isSpace text [] (List.all_eq_true.mp blank)
      change nextCommand fetches _ = none
      simp only [nextCommand,scanWord,skipped,Option.map_none]
  | cons asked script ih =>
    obtain ⟨here,later⟩ := List.forall_mem_cons.mp typable
    rw [List.flatMap_cons] at laid
    obtain ⟨rest,found,laid⟩ := nextLaidOut here laid
    rw [@commandsNext _ _ (terminal fetches) _ _ _ found,ih later laid]

/- What a command that does not quit leaves of the calls made, if it comes back. -/
def noted (comesBack : Nat → Bool) (made : List Asked) (asked : Asked) : Option (List Asked) :=
  if !asked.calls then some made
  else if comesBack made.length then some (asked :: made)
  else none

theorem obeyCases (comesBack : Nat → Bool) (made : List Asked) (asked : Asked) :
    obey comesBack made asked = if asked = .exit then .quits
      else (noted comesBack made asked).elim .blocks .goes := by
  unfold obey noted
  split
  · rfl
  split
  · rfl
  split
  · rfl
  · rfl

theorem notedAll {comesBack : Nat → Bool} {made made' before : List Asked} :
    before.foldlM (noted comesBack) made = some made' ↔
      made' = (before.filter Asked.calls).reverse ++ made ∧
        ∀ n, made.length ≤ n → n < made'.length → comesBack n = true := by
  induction before generalizing made with
  | nil =>
    simp only [List.foldlM_nil,List.filter_nil,List.reverse_nil,List.nil_append]
    constructor
    · intro same
      cases Option.some.inj same
      exact ⟨rfl,fun n low high => absurd high (Nat.not_lt.mpr low)⟩
    · rintro ⟨rfl,_⟩
      rfl
  | cons asked before ih =>
    rw [List.foldlM_cons]
    cases called : asked.calls with
    | false =>
      have kept : noted comesBack made asked = some made := by simp [noted,called]
      rw [kept,List.filter_cons_of_neg (by simp [called])]
      exact ih
    | true =>
      rw [List.filter_cons_of_pos called,List.reverse_cons,List.append_assoc,List.singleton_append]
      cases back : comesBack made.length with
      | false =>
        have stuck : noted comesBack made asked = none := by simp [noted,called,back]
        rw [stuck]
        refine iff_of_false (Option.some_ne_none _).symm ?_
        rintro ⟨rfl,all⟩
        rw [all made.length (Nat.le_refl _) (by simp; omega)] at back
        contradiction
      | true =>
        have made_ : noted comesBack made asked = some (asked :: made) := by simp [noted,called,back]
        rw [made_]
        refine ih.trans (and_congr_right fun same => ?_)
        constructor
        · intro all n low high
          rcases Nat.eq_or_lt_of_le low with rfl | low
          · exact back
          · exact all n low high
        · intro all n low high
          exact all n (Nat.le_of_succ_le low) high

/- A script, however it is laid out: print_options makes the calls of the commands
before its first EXIT, in their order, and returns if all of them come back. What
it leaves unread are the commands behind. -/
theorem scriptObeyed {fetches : Bool} {script : List Asked} {text : Bytes}
    (typable : ∀ asked ∈ script, Typable fetches asked)
    (laid : LaidOut (script.flatMap (fun asked => asked.words.map Prod.snd)) text)
    (comesBack : Nat → Bool) (made left : List Asked) :
    (∃ rest, Returns (printOptions fetches comesBack) (text,[]) (rest,made) ∧
        commands (terminal fetches) rest = left) ↔
      ∃ before, script = before ++ .exit :: left ∧ .exit ∉ before ∧
        made = (before.filter Asked.calls).reverse ∧ ∀ n < made.length, comesBack n = true := by
  unfold printOptions
  rw [leavesIff,scriptRead typable laid,obeyAllQuits (obeyCases comesBack)]
  simp only [notedAll,List.append_nil,List.length_nil,Nat.zero_le,forall_const]
  constructor
  · rintro ⟨before,asked,parts,none,rfl,same,back⟩
    exact ⟨before,parts,fun member => none _ member rfl,same,back⟩
  · rintro ⟨before,parts,none,same,back⟩
    refine ⟨before,.exit,parts,?_,rfl,same,back⟩
    intro asked member same
    exact none (same ▸ member)

/- " SEARCH a", "PUBLISHED" and "EXIT" on three lines, the last one without its line
feed: one call, and an unknown command. -/
def threeLines : Bytes :=
  [32] ++ (searchWord ++ ([32] ++ ([97] ++ ([10] ++ ((publishWord ++ [69,68]) ++
    ([10] ++ (exitWord ++ [])))))))

theorem scriptObeyedPublished : ∃ rest,
    Returns (printOptions true (fun _ => true)) (threeLines,[]) (rest,[.search (some [97])]) ∧
      commands (terminal true) rest = [] := by
  have typable : ∀ asked ∈ [.search (some [97]),.unknown (publishWord ++ [69,68]),.exit],
      Typable true asked := by
    simp only [List.forall_mem_cons]
    refine ⟨⟨?_,by simp,fun _ _ => rfl,?_⟩,⟨?_,by simp,fun _ _ => rfl,?_⟩,
      ⟨?_,by simp,fun _ _ => rfl,?_⟩,by simp⟩
    · exact List.forall_mem_cons.mpr ⟨⟨by simp [searchWord],by simp [searchWord],rfl⟩,
        List.forall_mem_singleton.mpr ⟨by simp,by simp,rfl⟩⟩
    · intro selection same
      contradiction
    · exact List.forall_mem_singleton.mpr ⟨by simp,by simp [publishWord],rfl⟩
    · intro selection same
      cases same
      rfl
    · exact List.forall_mem_singleton.mpr ⟨by simp [exitWord],by simp [exitWord],rfl⟩
    · intro selection same
      contradiction
  refine (scriptObeyed typable ?_ (fun _ => true) _ _).mpr
    ⟨[.search (some [97]),.unknown (publishWord ++ [69,68])],rfl,by simp,rfl,fun _ _ => rfl⟩
  exact .word rfl rfl (.word rfl rfl (.word rfl rfl (.word rfl rfl (.done rfl))))

end NetworkPrograms.CPeerPrompt
