import NetworkPrograms.PeerListener

/-! send_publish of the Rust peers: the names of a directory in a buffer of 1200
bytes, up to the first that does not fit. `none` is a panic, an index outside
the buffer. -/
namespace NetworkPrograms.PeerPublish
open WireBytes ByteStreams PeerListener

/- A name as the file system gives it. -/
structure FileName where
  bytes : Bytes
  some_byte : bytes ≠ []
  plain : Plain bytes
  deriving DecidableEq

/- `isFile` is none when the metadata cannot be read, `fileName` when the path
has no last component. -/
structure DirEntry where
  isFile : Option Bool
  fileName : Option FileName
  deriving DecidableEq

/- The tests of one iteration, up to the name that has to fit. -/
def eligible : Option DirEntry → Option Bytes
  | none => none
  | some entry =>
      match entry.isFile with
      | none => none
      | some isFile =>
          if !isFile then none
          else match entry.fileName with
            | none => none
            | some name => if isAscii name.bytes then some name.bytes else none

/- The loop of send_publish. The buffer is zeroed, so that skipping one byte
behind a name terminates it. -/
def publishEntries : List (Option DirEntry) → (buffer : Bytes) → (wroteBytes count : Nat) →
    Option (Bytes × Nat × Nat)
  | [], buffer, wroteBytes, count => some (buffer,wroteBytes,count)
  | entry :: rest, buffer, wroteBytes, count =>
      match eligible entry with
      | none => publishEntries rest buffer wroteBytes count
      | some bytes =>
          if buffer.length < wroteBytes then none
          else if bytes.length + 1 > buffer.length - wroteBytes then some (buffer,wroteBytes,count)
          else if buffer.length < wroteBytes + bytes.length then none
          else publishEntries rest (overwrite buffer wroteBytes bytes)
            (wroteBytes + (bytes.length + 1)) (count + 1)

def publishMessage (entries : List (Option DirEntry)) : Option Bytes :=
  match publishEntries entries (ActionType.publish.code :: List.replicate 1199 0) 5 0 with
  | none => none
  | some (buffer,wroteBytes,count) =>
      if buffer.length < wroteBytes then none
      else some ((overwrite buffer 1 (be32 (UInt32.ofNat count))).take wroteBytes)

/- send_publish of program_03; `dirContents` is none when read_dir fails. -/
def sendPublish (dirContents : Option (List (Option DirEntry))) (write : Written) :
    Option (Bytes × Except String Unit) :=
  match dirContents with
  | none => some ([],.error "failed to read ocntents of shared directory")
  | some entries => (publishMessage entries).map (fun message => match write with
      | .all => (message,.ok ())
      | .failed accepted => (message.take accepted,.error "error sending publish to registry"))

/- send_publish of program_02, which reports success as a flag. -/
def sendPublishFlag (dirContents : Option (List (Option DirEntry))) (write : Written) :
    Option (Bytes × Bool) :=
  match dirContents with
  | none => some ([],false)
  | some entries => (publishMessage entries).map (fun message => match write with
      | .all => (message,true)
      | .failed accepted => (message.take accepted,false))

/- The names that send_publish copies. -/
def written (entries : List (Option DirEntry)) : List Bytes :=
  fit 1195 (entries.filterMap eligible)

def publishRequest (names : List Bytes) : Bytes :=
  ActionType.publish.code :: (be32 (UInt32.ofNat names.length) ++ encodeNames names)

theorem eligibleName {entry : Option DirEntry} {bytes : Bytes} (found : eligible entry = some bytes) :
    Plain bytes ∧ ∀ b ∈ bytes, b < 128 := by
  unfold eligible at found
  split at found <;> try contradiction
  split at found <;> try contradiction
  split at found <;> try contradiction
  split at found <;> try contradiction
  rename_i name named
  split at found <;> try contradiction
  rename_i ascii
  cases found
  exact ⟨name.plain,asciiBelow.mp ascii⟩

theorem eligibleIff {entry : Option DirEntry} {bytes : Bytes} :
    eligible entry = some bytes ↔ ∃ e name, entry = some e ∧ e.isFile = some true ∧
      e.fileName = some name ∧ isAscii name.bytes = true ∧ name.bytes = bytes := by
  constructor
  · intro found
    unfold eligible at found
    split at found
    · contradiction
    rename_i e
    split at found
    · contradiction
    rename_i isFile known
    split at found
    · contradiction
    rename_i regular
    split at found
    · contradiction
    rename_i name named
    split at found
    · rename_i ascii
      exact ⟨e,name,rfl,by simpa [known] using regular,named,ascii,Option.some.inj found⟩
    · contradiction
  · intro ⟨e,name,given,regular,named,ascii,same⟩
    subst given same
    simp [eligible,regular,named,ascii]

theorem entriesWritten (entries : List (Option DirEntry)) (front : Bytes) (room count : Nat) :
    ∃ tail, publishEntries entries (front ++ List.replicate room 0) front.length count =
      some (front ++ encodeNames (fit room (entries.filterMap eligible)) ++ tail,
        front.length + sizeNames (fit room (entries.filterMap eligible)),
        count + (fit room (entries.filterMap eligible)).length) := by
  induction entries generalizing front room count with
  | nil => exact ⟨List.replicate room 0,by simp [publishEntries,fit]⟩
  | cons entry entries ih =>
    rw [publishEntries]
    cases found : eligible entry with
    | none =>
      rw [List.filterMap_cons_none found]
      exact ih front room count
    | some bytes =>
      rw [List.filterMap_cons_some found,fit]
      have size : (front ++ List.replicate room (0 : UInt8)).length = front.length + room := by simp
      dsimp only
      rw [size,if_neg (by omega)]
      by_cases more : bytes.length + 1 ≤ room
      · rw [if_neg (by omega),if_neg (by omega),if_pos more]
        have blank : List.replicate (room - bytes.length) (0 : UInt8) =
            0 :: List.replicate (room - (bytes.length + 1)) 0 := by
          rw [← List.replicate_succ]
          congr 1
          omega
        have copied : overwrite (front ++ List.replicate room 0) front.length bytes =
            (front ++ (bytes ++ [0])) ++ List.replicate (room - (bytes.length + 1)) 0 := by
          rw [overwriteFront,List.drop_replicate,blank]
          simp
        have moved : front.length + (bytes.length + 1) = (front ++ (bytes ++ [0])).length := by simp
        obtain ⟨tail,rest⟩ := ih (front ++ (bytes ++ [0])) (room - (bytes.length + 1)) (count + 1)
        refine ⟨tail,?_⟩
        rw [copied,moved,rest]
        simp [Nat.add_assoc,Nat.add_comm]
      · rw [if_pos (by omega),if_neg more]
        exact ⟨List.replicate room 0,by simp⟩

/- The count goes into the four bytes behind the action, the rest stays. -/
theorem headerWritten (action b0 b1 b2 b3 : UInt8) (names : List Bytes) (tail : Bytes) :
    (overwrite ([action,b0,b1,b2,b3] ++ encodeNames names ++ tail) 1
        (be32 (UInt32.ofNat names.length))).take (5 + sizeNames names) =
      action :: (be32 (UInt32.ofNat names.length) ++ encodeNames names) := by
  have whole : overwrite ([action,b0,b1,b2,b3] ++ encodeNames names ++ tail) 1
      (be32 (UInt32.ofNat names.length)) =
        action :: (be32 (UInt32.ofNat names.length) ++ encodeNames names) ++ tail := by
    simp [overwrite,be32]
  have size : (action :: (be32 (UInt32.ofNat names.length) ++ encodeNames names)).length =
      5 + sizeNames names := by
    simp [encodeLength]
    omega
  rw [whole,← size,List.take_left]

/- Every slice stays inside the buffer, and what is sent is the request for the
names that fit. -/
theorem messageWritten (entries : List (Option DirEntry)) :
    publishMessage entries = some (publishRequest (written entries)) := by
  have start : ActionType.publish.code :: List.replicate 1199 (0 : UInt8) =
      [1,0,0,0,0] ++ List.replicate 1195 0 := rfl
  obtain ⟨tail,loop⟩ := entriesWritten entries [1,0,0,0,0] 1195 0
  change publishEntries entries ([1,0,0,0,0] ++ List.replicate 1195 0) 5 0 =
    some ([1,0,0,0,0] ++ encodeNames (written entries) ++ tail,5 + sizeNames (written entries),
      0 + (written entries).length) at loop
  unfold publishMessage
  rw [start,loop]
  dsimp only
  have inside : ¬ ([1,0,0,0,0] ++ encodeNames (written entries) ++ tail).length <
      5 + sizeNames (written entries) := by
    simp only [List.length_append,encodeLength,List.length_cons,List.length_nil]
    omega
  rw [if_neg inside,Nat.zero_add]
  exact congrArg some (headerWritten 1 0 0 0 0 (written entries) tail)

theorem sendPublishWrites (entries : List (Option DirEntry)) :
    sendPublish (some entries) .all = some (publishRequest (written entries),.ok ()) := by
  simp only [sendPublish,messageWritten,Option.map_some]

theorem sendPublishFlagWrites (entries : List (Option DirEntry)) :
    sendPublishFlag (some entries) .all = some (publishRequest (written entries),true) := by
  simp only [sendPublishFlag,messageWritten,Option.map_some]

/- Few enough names fit for a count of 32 bits. -/
theorem countSmall {names : List Bytes} (fits : sizeNames names ≤ 1195) :
    (UInt32.ofNat names.length).toNat = names.length := by
  have count := countNames names
  rw [UInt32.toNat_ofNat']
  exact Nat.mod_eq_of_lt (by omega)

/- Every slice is inside the buffer, for every directory; what is sent is the
request for the longest part of the eligible names that fits. -/
theorem sendPublishExact (entries : List (Option DirEntry)) :
    (∀ write, sendPublish none write = some ([],.error "failed to read ocntents of shared directory")) ∧
    ∃ names, names <+: entries.filterMap eligible ∧ 5 + sizeNames names ≤ 1200 ∧
      (∀ more, more <+: entries.filterMap eligible → 5 + sizeNames more ≤ 1200 → more <+: names) ∧
      (UInt32.ofNat names.length).toNat = names.length ∧
      sendPublish (some entries) .all =
        some (1 :: (be32 (UInt32.ofNat names.length) ++ encodeNames names),.ok ()) ∧
      ∀ write, ∃ result, sendPublish (some entries) write =
        some (onWire (1 :: (be32 (UInt32.ofNat names.length) ++ encodeNames names)) write,result) := by
  have size := fitSize 1195 (entries.filterMap eligible)
  refine ⟨fun _ => rfl,written entries,fitPrefix _ _,?_,?_,countSmall size,sendPublishWrites entries,?_⟩
  · rw [written]
    omega
  · intro more start fits
    exact fitLongest start (by omega)
  · intro write
    simp only [sendPublish,messageWritten,Option.map_some]
    cases write with
    | all => exact ⟨_,rfl⟩
    | failed accepted => exact ⟨_,rfl⟩

theorem writtenAscii {entries : List (Option DirEntry)} {name : Bytes}
    (member : name ∈ written entries) : Plain name ∧ ∀ b ∈ name, b < 128 := by
  have copied := (fitPrefix 1195 (entries.filterMap eligible)).subset member
  obtain ⟨entry,-,found⟩ := List.mem_filterMap.mp copied
  exact eligibleName found

end NetworkPrograms.PeerPublish
