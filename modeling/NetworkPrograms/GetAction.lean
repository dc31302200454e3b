import NetworkPrograms.PeerListener
import NetworkPrograms.TextBuffers

/-! get_action: a peer's request, read in pieces of any size into a text whose
capacity doubles as the limit of a file name. -/
namespace NetworkPrograms.GetAction
open WireBytes ByteStreams TextBuffers PeerListener

def tryFrom (value : UInt8) : Option ActionType :=
  if value = ActionType.join.code then some .join
  else if value = ActionType.publish.code then some .publish
  else if value = ActionType.search.code then some .search
  else if value = ActionType.fetch.code then some .fetch
  else if value = ActionType.register.code then some .register
  else none

inductive PeerAction where
  | fetch (filename : Bytes)
  deriving DecidableEq, Repr

/- What get_action leaves: the bytes it sent and the value it returns. -/
abbrev Acted := Bytes × Except String (Option PeerAction)

/- send_response, and the error that is returned behind it. -/
def respond (write : Written) (response : ResponseType) (context : String) : Acted :=
  match write with
  | .all => ([response.code],.error context)
  | .failed accepted => ([response.code].take accepted,.error "error sending response to client")

inductive Collecting where
  | more (collected : Text)
  | refused
  | ended (collected : Text)

/- The loop over one piece; the NUL has to be the last byte of it. -/
def collect (g : Growth) : (bytes : Bytes) → (collected : Text) → Collecting
  | [], collected => .more collected
  | b :: rest, collected =>
      if collected.bytes.length = collected.capacity then .refused
      else if b = 0 then
        if rest ≠ [] then .refused else .ended collected
      else collect g rest (collected.push g b)

/- 'recv_loop, at a piece that has been read, from its offset on. -/
def recvLoop (g : Growth) (write : Written) : (reads : List ReadResult) → (bytes : Bytes) →
    (collected : Text) → Acted
  | reads, bytes, collected =>
      match collect g bytes collected with
      | .refused => respond write .tooMuchData "too much data received from client"
      | .ended collected => ([],.ok (some (.fetch collected.bytes)))
      | .more collected =>
          match reads with
          | [] => ([],.ok (some (.fetch collected.bytes)))
          | .failed :: _ => ([],.error "failed to read fetch request data")
          | .piece [] :: _ => ([],.ok (some (.fetch collected.bytes)))
          | .piece (b :: bytes) :: reads => recvLoop g write reads (b :: bytes) collected

def getAction (g : Growth) (write : Written) : List ReadResult → Acted
  | [] => ([],.ok none)
  | .failed :: _ => ([],.error "failed to read peer action")
  | .piece [] :: _ => ([],.ok none)
  | .piece (action :: bytes) :: reads =>
      match tryFrom action with
      | none => respond write .unknownAction "unknown action received from peer"
      | some .fetch => recvLoop g write reads bytes (.withCapacity 100)
      | some .join => respond write .unhandledAction "unhandled action received from peer"
      | some .publish => respond write .unhandledAction "unhandled action received from peer"
      | some .search => respond write .unhandledAction "unhandled action received from peer"
      | some .register => respond write .unhandledAction "unhandled action received from peer"

/- The values `collected` takes: one for each character that is pushed, ... -/
def pushes (g : Growth) : (bytes : Bytes) → (collected : Text) → List Text
  | [], _ => []
  | b :: rest, collected =>
      if collected.bytes.length = collected.capacity then []
      else if b = 0 then []
      else collected.push g b :: pushes g rest (collected.push g b)

/- ... over all pieces. -/
def recvPushes (g : Growth) : (reads : List ReadResult) → (bytes : Bytes) → (collected : Text) →
    List Text
  | reads, bytes, collected =>
      pushes g bytes collected ++ match collect g bytes collected with
        | .refused => []
        | .ended _ => []
        | .more collected =>
            match reads with
            | [] => []
            | .failed :: _ => []
            | .piece [] :: _ => []
            | .piece (b :: bytes) :: reads => recvPushes g reads (b :: bytes) collected

def collectedValues (g : Growth) : List ReadResult → List Text
  | [] => []
  | .failed :: _ => []
  | .piece [] :: _ => []
  | .piece (action :: bytes) :: reads =>
      match tryFrom action with
      | none => []
      | some .fetch => .withCapacity 100 :: recvPushes g reads bytes (.withCapacity 100)
      | some .join => []
      | some .publish => []
      | some .search => []
      | some .register => []

/- A character of two bytes when 99 are taken: it steps over the limit. -/
def Crossing (size : Nat) (text : Bytes) : Prop :=
  ∃ front b rest, text = front ++ b :: rest ∧ Plain front ∧ size + (utf8 front).length = 99 ∧
    ¬ b < 128

theorem crossingCons {size : Nat} {b : UInt8} {text : Bytes} (nonzero : b ≠ 0) :
    Crossing size (b :: text) ↔
      (size = 99 ∧ ¬ b < 128) ∨ Crossing (size + (charBytes b).length) text := by
  constructor
  · intro ⟨front,c,rest,shape,plain,taken,high⟩
    cases front with
    | nil =>
      cases shape
      exact .inl ⟨by simpa using taken,high⟩
    | cons first front =>
      obtain ⟨rfl,same⟩ := List.cons.inj shape
      refine .inr ⟨front,c,rest,same,(plainCons.mp plain).2,?_,high⟩
      rw [← taken,utf8Cons,List.length_append]
      omega
  · intro crosses
    rcases crosses with ⟨taken,high⟩ | ⟨front,c,rest,shape,plain,taken,high⟩
    · exact ⟨[],b,text,rfl,nofun,by simpa using taken,high⟩
    · refine ⟨b :: front,c,rest,by rw [shape]; rfl,plainCons.mpr ⟨nonzero,plain⟩,?_,high⟩
      rw [← taken,utf8Cons,List.length_append]
      omega

theorem crossingAppend {size : Nat} {front text : Bytes} (plain : Plain front)
    (crosses : Crossing (size + (utf8 front).length) text) : Crossing size (front ++ text) := by
  obtain ⟨more,b,rest,rfl,plain',taken,high⟩ := crosses
  refine ⟨front ++ more,b,rest,by simp,?_,?_,high⟩
  · intro c member
    rcases List.mem_append.mp member with h | h
    · exact plain c h
    · exact plain' c h
  · rw [← taken,utf8Append,List.length_append]
    omega

theorem crossingPrefix {size : Nat} {front text : Bytes} (crosses : Crossing size front) :
    Crossing size (front ++ text) := by
  obtain ⟨more,b,rest,rfl,plain,taken,high⟩ := crosses
  exact ⟨more,b,rest ++ text,by simp,plain,taken,high⟩

/- How one piece ends, when nothing steps over the limit of 100 bytes. -/
inductive Collected (t : Text) (xs : Bytes) : Collecting → Prop where
  | more (t' : Text) (plain : Plain xs) (bytes : t'.bytes = t.bytes ++ utf8 xs)
      (room : t'.bytes.length ≤ 100) (capacity : t'.capacity = 100) : Collected t xs (.more t')
  | full (front : Bytes) (b : UInt8) (rest : Bytes) (shape : xs = front ++ b :: rest)
      (plain : Plain front) (size : t.bytes.length + (utf8 front).length = 100) :
      Collected t xs .refused
  | early (front : Bytes) (b : UInt8) (rest : Bytes) (shape : xs = front ++ 0 :: b :: rest)
      (plain : Plain front) : Collected t xs .refused
  | ended (t' : Text) (front : Bytes) (shape : xs = front ++ [0]) (plain : Plain front)
      (bytes : t'.bytes = t.bytes ++ utf8 front)
      (room : t.bytes.length + (utf8 front).length < 100) : Collected t xs (.ended t')

theorem pushWithin {g : Growth} {t : Text} {b : UInt8} (capacity : t.capacity = 100)
    (room : t.bytes.length ≤ 100) (below : t.bytes.length ≠ 100)
    (straight : ¬ (t.bytes.length = 99 ∧ ¬ b < 128)) :
    (t.push g b).capacity = 100 ∧ (t.push g b).bytes.length ≤ 100 := by
  have size : t.bytes.length + (charBytes b).length ≤ 100 := by
    by_cases low : b < 128
    · rw [charLow low,List.length_singleton]
      omega
    · have free : t.bytes.length ≠ 99 := fun taken => straight ⟨taken,low⟩
      rw [charHigh low]
      omega
  refine ⟨(pushCapacity g (by omega)).trans capacity,?_⟩
  rw [pushBytes,List.length_append]
  exact size

theorem collected (g : Growth) {t : Text} {xs : Bytes} (capacity : t.capacity = 100)
    (room : t.bytes.length ≤ 100) (straight : ¬ Crossing t.bytes.length xs) :
    Collected t xs (collect g xs t) := by
  induction xs generalizing t with
  | nil => exact .more t nofun (by simp) room capacity
  | cons b xs ih =>
    simp only [collect,capacity]
    split
    · rename_i full
      exact .full [] b xs rfl nofun (by simpa using full)
    rename_i below
    split
    · rename_i zero
      subst zero
      cases xs with
      | nil => exact .ended t [] rfl nofun (by simp) (by simp; omega)
      | cons c xs => exact .early [] c xs rfl nofun
    · rename_i nonzero
      rw [crossingCons nonzero] at straight
      obtain ⟨here,later⟩ := not_or.mp straight
      have within := pushWithin (g := g) capacity room below here
      have size : (t.push g b).bytes.length = t.bytes.length + (charBytes b).length := by
        rw [pushBytes,List.length_append]
      have onward := ih within.1 within.2 (by rw [size]; exact later)
      generalize collect g xs (t.push g b) = result at onward
      cases onward with
      | more t' plain bytes room capacity =>
        exact .more t' (plainCons.mpr ⟨nonzero,plain⟩) (by simp [bytes]) room capacity
      | full front c rest shape plain reached =>
        refine .full (b :: front) c rest (by rw [shape]; rfl) (plainCons.mpr ⟨nonzero,plain⟩) ?_
        rw [utf8Cons,List.length_append]
        omega
      | early front c rest shape plain =>
        exact .early (b :: front) c rest (by rw [shape]; rfl) (plainCons.mpr ⟨nonzero,plain⟩)
      | ended t' front shape plain bytes room =>
        refine .ended t' (b :: front) (by rw [shape]; rfl) (plainCons.mpr ⟨nonzero,plain⟩)
          (by simp [bytes]) ?_
        rw [utf8Cons,List.length_append]
        omega

/- The terminator of a plain text is its first zero byte, with nothing behind it. -/
theorem firstEnd {name front more : Bytes} (plain : Plain name) (plain' : Plain front)
    (shape : front ++ 0 :: more = name ++ [0]) : front = name ∧ more = [] := by
  have first : splitName (name ++ [0]) = some (front,more) := splitExact.mpr ⟨shape.symm,plain'⟩
  have second : splitName (name ++ [0]) = some (name,[]) := splitExact.mpr ⟨rfl,plain⟩
  rw [second] at first
  obtain ⟨same,none_left⟩ := Prod.mk.inj (Option.some.inj first)
  exact ⟨same.symm,none_left.symm⟩

/- A plain part of a terminated text leaves its terminator to the rest. -/
theorem plainPart {name part later : Bytes} (plain : Plain part)
    (whole : part ++ later = name ++ [0]) : ∃ more, name = part ++ more ∧ later = more ++ [0] := by
  rcases List.append_eq_append_iff.mp whole with ⟨more,same,ends⟩ | ⟨more,same,ends⟩
  · exact ⟨more,same,ends⟩
  · cases more with
    | nil => exact ⟨[],by rw [same]; simp,by simpa using ends.symm⟩
    | cons c more =>
      obtain ⟨rfl,-⟩ := List.cons.inj ends
      exact absurd rfl (plain 0 (by rw [same]; simp))

/- What is due for a name of these bytes: its text, or one response byte. -/
def named (name : Bytes) : Acted :=
  if name.length ≤ 99 then ([],.ok (some (.fetch name)))
  else ([ResponseType.tooMuchData.code],.error "too much data received from client")

theorem namedShort {name : Bytes} (short : name.length ≤ 99) :
    named name = ([],.ok (some (.fetch name))) := if_pos short

theorem namedLong {name : Bytes} (long : 100 ≤ name.length) :
    named name = respond .all .tooMuchData "too much data received from client" :=
  if_neg (by omega)

theorem asciiStraight {size : Nat} {text : Bytes} (ascii : ∀ b ∈ text, b < 128) :
    ¬ Crossing size text := by
  intro ⟨front,b,rest,shape,_,_,high⟩
  exact high (ascii b (by rw [shape]; simp))

/- The loop from one piece on, when the pieces still to come finish the name. -/
theorem recvNamed (g : Growth) {pieces : List Bytes} (filled : ∀ piece ∈ pieces, piece ≠ [])
    {bytes name : Bytes} {t : Text} (capacity : t.capacity = 100) (room : t.bytes.length ≤ 100)
    (plain : Plain name) (ascii : ∀ b ∈ name, b < 128)
    (whole : bytes ++ pieces.flatten = name ++ [0]) :
    recvLoop g .all (pieces.map .piece) bytes t = named (t.bytes ++ name) := by
  have low : ∀ b ∈ bytes, b < 128 := by
    intro b member
    have inside : b ∈ name ++ [0] := by rw [← whole]; exact List.mem_append.mpr (.inl member)
    rcases List.mem_append.mp inside with h | h
    · exact ascii b h
    · rw [List.mem_singleton.mp h]
      decide
  have size := congrArg List.length whole
  simp only [List.length_append,List.length_singleton] at size
  have shape := collected g capacity room (asciiStraight low)
  unfold recvLoop
  generalize collect g bytes t = result at shape
  cases shape with
  | full front b rest same plain' taken =>
    rw [utf8Ascii (fun c member => low c (by rw [same]; simp [member]))] at taken
    have length := congrArg List.length same
    simp only [List.length_append,List.length_cons] at length
    rw [namedLong (by rw [List.length_append]; omega)]
  | early front b rest same plain' =>
    have inside : front ++ 0 :: (b :: rest ++ pieces.flatten) = name ++ [0] := by
      rw [← whole,same]
      simp
    exact absurd (firstEnd plain plain' inside).2 (by simp)
  | ended t' front same plain' content below =>
    have inside : front ++ 0 :: pieces.flatten = name ++ [0] := by
      rw [← whole,same]
      simp
    have ends := firstEnd plain plain' inside
    rw [ends.1,utf8Ascii ascii] at below content
    dsimp only
    rw [content,namedShort (by rw [List.length_append]; omega)]
  | more t' plain' content below capacity' =>
    obtain ⟨later,rfl,ends⟩ := plainPart plain' whole
    rw [utf8Ascii low] at content
    cases pieces with
    | nil => exact absurd ends (by simp)
    | cons piece pieces =>
      obtain ⟨some_piece,others⟩ := List.forall_mem_cons.mp filled
      cases piece with
      | nil => contradiction
      | cons c piece =>
        have rest : (c :: piece) ++ pieces.flatten = later ++ [0] := by rw [← ends]; simp
        have onward := recvNamed g others capacity' below
          (fun b member => plain b (List.mem_append.mpr (.inr member)))
          (fun b member => ascii b (List.mem_append.mpr (.inr member))) rest
        rw [content,List.append_assoc] at onward
        exact onward

theorem getActionNamed (g : Growth) {name : Bytes} {pieces : List Bytes} (plain : Plain name)
    (ascii : ∀ b ∈ name, b < 128)
    (delivered : Delivers 2048 pieces (ActionType.fetch.code :: (name ++ [0]))) :
    getAction g .all (pieces.map .piece) =
      if name.length ≤ 99 then ([],.ok (some (.fetch name)))
      else ([ResponseType.tooMuchData.code],.error "too much data received from client") := by
  obtain ⟨first,rest,rfl,whole⟩ := deliversCons delivered
  have filled := (List.forall_mem_cons.mp delivered.filled).2
  exact recvNamed g (t := .withCapacity 100) filled rfl (Nat.zero_le _) plain ascii whole.symm

/- The request for "ab", cut behind its action byte and before its NUL. -/
theorem getActionCut : getAction doubling .all [.piece [3],.piece [97,98],.piece [0]] =
    ([],.ok (some (.fetch [97,98]))) :=
  @getActionNamed doubling [97,98] [[3],[97,98],[0]] (by decide) (asciiBelow.mp rfl)
    ⟨by decide,by decide,rfl⟩

theorem pushesAppend (g : Growth) (xs ys : Bytes) (t : Text) :
    pushes g (xs ++ ys) t = pushes g xs t ++ match collect g xs t with
      | .refused => []
      | .ended _ => []
      | .more t' => pushes g ys t' := by
  induction xs generalizing t with
  | nil => rfl
  | cons b xs ih =>
    simp only [List.cons_append,pushes,collect]
    split
    · rfl
    split
    · cases xs with
      | nil => simp
      | cons c xs => simp
    · rw [ih,List.cons_append]

/- The values of `collected` do not depend on the division into pieces. -/
theorem recvPushesWhole (g : Growth) {pieces : List Bytes} (filled : ∀ piece ∈ pieces, piece ≠ [])
    (bytes : Bytes) (t : Text) :
    recvPushes g (pieces.map .piece) bytes t = pushes g (bytes ++ pieces.flatten) t := by
  induction pieces generalizing bytes t with
  | nil =>
    rw [recvPushes,pushesAppend]
    congr 1
  | cons piece pieces ih =>
    obtain ⟨some_piece,others⟩ := List.forall_mem_cons.mp filled
    cases piece with
    | nil => contradiction
    | cons b piece =>
      rw [recvPushes,pushesAppend]
      congr 1
      cases collect g bytes t with
      | refused => rfl
      | ended t' => rfl
      | more t' => exact ih others (b :: piece) t'

/- Each push but one that crosses the limit stays within it. -/
theorem pushesWithin (g : Growth) {t : Text} (capacity : t.capacity = 100)
    (room : t.bytes.length ≤ 100) (text : Bytes) :
    (∀ v ∈ pushes g text t, v.bytes.length ≤ 100) ↔ ¬ Crossing t.bytes.length text := by
  induction text generalizing t with
  | nil =>
    refine iff_of_true nofun ?_
    intro ⟨front,b,rest,shape,_⟩
    simp at shape
  | cons b text ih =>
    simp only [pushes,capacity]
    split
    · rename_i full
      refine iff_of_true nofun ?_
      intro ⟨front,c,rest,_,_,taken,_⟩
      omega
    rename_i below
    split
    · rename_i zero
      refine iff_of_true nofun ?_
      intro ⟨front,c,rest,shape,plain,_,high⟩
      cases front with
      | nil =>
        cases shape
        exact high (by rw [zero]; decide)
      | cons first front =>
        obtain ⟨same,-⟩ := List.cons.inj shape
        exact (plainCons.mp plain).1 (same.symm.trans zero)
    · rename_i nonzero
      have size : (t.push g b).bytes.length = t.bytes.length + (charBytes b).length := by
        rw [pushBytes,List.length_append]
      rw [List.forall_mem_cons,crossingCons nonzero]
      by_cases crosses : t.bytes.length = 99 ∧ ¬ b < 128
      · refine iff_of_false (fun within => ?_) (fun straight => straight (.inl crosses))
        have first := within.1
        rw [size,charHigh crosses.2] at first
        omega
      · have within := pushWithin (g := g) capacity room below crosses
        rw [ih within.1 within.2,size]
        exact ⟨fun h => fun other => other.elim crosses h.2,
          fun h => ⟨size ▸ within.2,fun later => h (.inr later)⟩⟩

/- The text a request is meant to carry: its bytes up to the first NUL. -/
def upTo (text : Bytes) : Bytes := text.takeWhile (fun b => b ≠ 0)

theorem upToPlain {front text : Bytes} (plain : Plain front) :
    upTo (front ++ text) = front ++ upTo text := by
  induction front with
  | nil => rfl
  | cons b front ih =>
    obtain ⟨nonzero,plain⟩ := plainCons.mp plain
    have rest := ih plain
    simpa [upTo,nonzero] using rest

/- A text of more than 100 bytes is refused, however it is divided. -/
theorem recvRefused (g : Growth) {pieces : List Bytes} (filled : ∀ piece ∈ pieces, piece ≠ [])
    {bytes : Bytes} {t : Text} (capacity : t.capacity = 100) (room : t.bytes.length ≤ 100)
    (straight : ¬ Crossing t.bytes.length (bytes ++ pieces.flatten))
    (long : 100 < t.bytes.length + (utf8 (upTo (bytes ++ pieces.flatten))).length) :
    recvLoop g .all (pieces.map .piece) bytes t =
      respond .all .tooMuchData "too much data received from client" := by
  have shape := collected g capacity room (fun crosses => straight (crossingPrefix crosses))
  unfold recvLoop
  generalize collect g bytes t = result at shape
  cases shape with
  | full front b rest same plain taken => rfl
  | early front b rest same plain => rfl
  | ended t' front same plain content below =>
    rw [same,List.append_assoc,upToPlain plain] at long
    simp [upTo] at long
    omega
  | more t' plain content below capacity' =>
    have size : t'.bytes.length = t.bytes.length + (utf8 bytes).length := by
      rw [content,List.length_append]
    rw [upToPlain plain,utf8Append,List.length_append] at long
    cases pieces with
    | nil =>
      simp [upTo] at long
      omega
    | cons piece pieces =>
      obtain ⟨some_piece,others⟩ := List.forall_mem_cons.mp filled
      cases piece with
      | nil => contradiction
      | cons c piece =>
        refine recvRefused g others capacity' below (fun crosses => straight ?_) ?_
        · rw [size] at crosses
          have joined := crossingAppend plain crosses
          simpa using joined
        · rw [size]
          simpa [Nat.add_assoc] using long

/- The limit on the name, for one request and one division of it: the text never
takes more than 100 bytes, and one that would is answered with a refusal. -/
def Limited (g : Growth) (reads : List ReadResult) (text : Bytes) : Prop :=
  (∀ collected ∈ collectedValues g reads, collected.bytes.length ≤ 100) ∧
    (100 < (utf8 (upTo text)).length → getAction g .all reads =
      ([ResponseType.tooMuchData.code],.error "too much data received from client"))

theorem getActionLimited (g : Growth) {text : Bytes} {pieces : List Bytes}
    (delivered : Delivers 2048 pieces (ActionType.fetch.code :: text)) :
    Limited g (pieces.map .piece) text ↔ ¬ Crossing 0 text := by
  obtain ⟨first,rest,rfl,rfl⟩ := deliversCons delivered
  have filled := (List.forall_mem_cons.mp delivered.filled).2
  have values : collectedValues g (((ActionType.fetch.code :: first) :: rest).map .piece) =
      .withCapacity 100 :: pushes g (first ++ rest.flatten) (.withCapacity 100) :=
    congrArg (Text.withCapacity 100 :: ·) (recvPushesWhole g filled first (.withCapacity 100))
  have within := pushesWithin g (t := .withCapacity 100) rfl (Nat.zero_le _) (first ++ rest.flatten)
  rw [Limited,values,List.forall_mem_cons,within]
  constructor
  · intro limited
    exact limited.1.2
  · intro straight
    refine ⟨⟨Nat.zero_le _,straight⟩,fun long => ?_⟩
    exact recvRefused g (t := .withCapacity 100) filled rfl (Nat.zero_le _) straight
      (by simpa [Text.withCapacity] using long)

/- One character of two bytes is far from the limit. -/
theorem getActionAccent : Limited doubling [.piece [3,233],.piece [0]] [233,0] := by
  have limited := @getActionLimited doubling [233,0] [[3,233],[0]] ⟨by decide,by decide,rfl⟩
  refine limited.mpr ?_
  intro ⟨front,b,rest,shape,_,taken,_⟩
  have length := congrArg List.length shape
  have most := utf8AtMost front
  simp only [List.length_append,List.length_cons,List.length_nil] at length
  omega

/- 99 letters and a byte of 128. -/
def crossingText : Bytes := List.replicate 99 97 ++ [128,0]

theorem crossingSize : (utf8 (upTo crossingText)).length = 101 := by
  have letters : ∀ b ∈ List.replicate 99 (97 : UInt8), b = 97 := fun _ => List.eq_of_mem_replicate
  have plain : Plain (List.replicate 99 97) := fun b member => by rw [letters b member]; decide
  have ascii : ∀ b ∈ List.replicate 99 (97 : UInt8), b < 128 :=
    fun b member => by rw [letters b member]; decide
  rw [crossingText,upToPlain plain,utf8Append,utf8Ascii ascii,List.length_append,
    List.length_replicate]
  rfl

set_option maxRecDepth 4000 in
/- They take 101 bytes, and the request is accepted. -/
theorem getActionCrosses :
    Delivers 2048 [ActionType.fetch.code :: crossingText] (ActionType.fetch.code :: crossingText) ∧
    (utf8 (upTo crossingText)).length = 101 ∧
    getAction doubling .all [.piece (ActionType.fetch.code :: crossingText)] =
      ([],.ok (some (.fetch (List.replicate 99 97 ++ [194,128])))) ∧
    (List.replicate 99 97 ++ [194,128] : Bytes).length = 101 ∧
    ¬ Limited doubling [.piece (ActionType.fetch.code :: crossingText)] crossingText := by
  have delivered : Delivers 2048 [ActionType.fetch.code :: crossingText]
      (ActionType.fetch.code :: crossingText) := ⟨by simp,by decide,by simp⟩
  have accepted : getAction doubling .all [.piece (ActionType.fetch.code :: crossingText)] =
      ([],.ok (some (.fetch (List.replicate 99 97 ++ [194,128])))) := by rfl
  refine ⟨delivered,crossingSize,accepted,by rw [List.length_append,List.length_replicate]; rfl,?_⟩
  intro limited
  have refused := limited.2 (by rw [crossingSize]; decide)
  rw [accepted] at refused
  have results := (Prod.mk.inj refused).2
  contradiction

end NetworkPrograms.GetAction
