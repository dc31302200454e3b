import NetworkPrograms.PeerPublish

/-! publish of the C peer. The buffer starts with whatever the stack held; `none`
is a write outside it. Names are at most 255 bytes, so that no int overflows. -/
namespace NetworkPrograms.CPeerPublish
open WireBytes ByteStreams PeerPublish

def filePathBufferSize : Nat := 512

/- "./SharedFiles/" -/
def sharedFiles : Bytes := [46,47,83,104,97,114,101,100,70,105,108,101,115,47]

/- What snprintf leaves of the path. -/
def filePath (name : FileName) : Bytes :=
  (sharedFiles ++ name.bytes).take (filePathBufferSize - 1)

/- The loop of publish. `stat` tells whether a path is a regular file and is
none when the call fails; strcpy writes the name and its terminator. -/
def publishLoop (stat : Bytes → Option Bool) : List FileName → (buffer : Bytes) →
    (offset fileCount : Nat) → Option (Bytes × Nat × Nat)
  | [], buffer, offset, fileCount => some (buffer,offset,fileCount)
  | ent :: rest, buffer, offset, fileCount =>
      if offset < 1200 then
        match stat (filePath ent) with
        | none => publishLoop stat rest buffer offset fileCount
        | some isReg =>
            if isReg then
              let nameLen := ent.bytes.length
              if offset + nameLen + 1 < 1200 then
                if buffer.length < offset + nameLen + 1 then none
                else publishLoop stat rest (overwrite buffer offset (ent.bytes ++ [0]))
                  (offset + (nameLen + 1)) (fileCount + 1)
              else some (buffer,offset,fileCount)
            else publishLoop stat rest buffer offset fileCount
      else some (buffer,offset,fileCount)

/- The message handed to send, if there is one: opendir may fail. -/
def publish (stat : Bytes → Option Bool) (before : Bytes) (dir : Option (List FileName)) :
    Option (Option Bytes) :=
  match dir with
  | none => some none
  | some entries =>
      match publishLoop stat entries before 5 0 with
      | none => none
      | some (buffer,offset,fileCount) =>
          if buffer.length < 5 then none
          else some (some
            ((overwrite (overwrite buffer 0 [1]) 1 (be32 (UInt32.ofNat fileCount))).take offset))

def regular (stat : Bytes → Option Bool) (entries : List FileName) : List Bytes :=
  (entries.filter (fun ent => stat (filePath ent) == some true)).map FileName.bytes

/- The names the loop copies: its bound is strict. -/
def copied (stat : Bytes → Option Bool) (entries : List FileName) : List Bytes :=
  fit 1194 (regular stat entries)

theorem loopWritten (stat : Bytes → Option Bool) (entries : List FileName) (front rest : Bytes)
    (fileCount : Nat) (sized : front.length + rest.length = 1200) (room : Nat)
    (left : front.length + room = 1199) :
    ∃ tail, publishLoop stat entries (front ++ rest) front.length fileCount =
      some (front ++ encodeNames (fit room (regular stat entries)) ++ tail,
        front.length + sizeNames (fit room (regular stat entries)),
        fileCount + (fit room (regular stat entries)).length) := by
  induction entries generalizing front rest fileCount room with
  | nil => exact ⟨rest,by simp [publishLoop,regular,fit]⟩
  | cons ent entries ih =>
    rw [publishLoop,if_pos (by omega)]
    rcases found : stat (filePath ent) with _ | isReg
    · have skipped : regular stat (ent :: entries) = regular stat entries := by simp [regular,found]
      rw [skipped]
      exact ih front rest fileCount sized room left
    cases isReg with
    | false =>
      have skipped : regular stat (ent :: entries) = regular stat entries := by simp [regular,found]
      rw [skipped]
      exact ih front rest fileCount sized room left
    | true =>
      have taken : regular stat (ent :: entries) = ent.bytes :: regular stat entries := by
        simp [regular,found]
      rw [taken,fit]
      dsimp only
      rw [if_pos rfl]
      by_cases more : ent.bytes.length + 1 ≤ room
      · rw [if_pos (by omega),if_neg (by rw [List.length_append]; omega),if_pos more]
        have stored : overwrite (front ++ rest) front.length (ent.bytes ++ [0]) =
            (front ++ (ent.bytes ++ [0])) ++ rest.drop (ent.bytes ++ [0]).length := by
          simp only [overwriteFront,List.append_assoc]
        have moved : front.length + (ent.bytes.length + 1) = (front ++ (ent.bytes ++ [0])).length := by
          simp
        have kept : (front ++ (ent.bytes ++ [0])).length +
            (rest.drop (ent.bytes ++ [0]).length).length = 1200 := by
          simp
          omega
        obtain ⟨tail,onward⟩ := ih (front ++ (ent.bytes ++ [0])) (rest.drop (ent.bytes ++ [0]).length)
          (fileCount + 1) kept (room - (ent.bytes.length + 1)) (by simp; omega)
        refine ⟨tail,?_⟩
        rw [stored,moved,onward]
        simp [Nat.add_assoc,Nat.add_comm]
      · rw [if_neg (by omega),if_neg more]
        exact ⟨rest,by simp⟩

theorem publishWrites (stat : Bytes → Option Bool) (entries : List FileName) {before : Bytes}
    (sized : before.length = 1200) :
    publish stat before (some entries) = some (some (publishRequest (copied stat entries))) := by
  cases before with
  | nil => simp at sized
  | cons b0 before =>
    rw [List.length_cons] at sized
    obtain ⟨b1,b2,b3,b4,rest,rfl⟩ := wordAhead (show 4 ≤ before.length by omega)
    simp only [List.length_cons] at sized
    have whole : [b0,b1,b2,b3,b4].length + rest.length = 1200 := by
      simp only [List.length_cons,List.length_nil]
      omega
    obtain ⟨tail,loop⟩ := loopWritten stat entries [b0,b1,b2,b3,b4] rest 0 whole 1194 rfl
    change publishLoop stat entries (b0 :: b1 :: b2 :: b3 :: b4 :: rest) 5 0 =
      some (_,5 + sizeNames (copied stat entries),0 + (copied stat entries).length) at loop
    unfold publish
    dsimp only
    rw [loop]
    dsimp only
    rw [if_neg (by simp),Nat.zero_add]
    exact congrArg (fun message => some (some message))
      (headerWritten 1 b1 b2 b3 b4 (copied stat entries) tail)

theorem copiedAscii {stat : Bytes → Option Bool} {entries : List FileName}
    (ascii : ∀ ent ∈ entries, stat (filePath ent) = some true → ∀ b ∈ ent.bytes, b < 128)
    {name : Bytes} (member : name ∈ copied stat entries) : Plain name ∧ ∀ b ∈ name, b < 128 := by
  have listed := (fitPrefix 1194 (regular stat entries)).subset member
  obtain ⟨ent,kept,rfl⟩ := List.mem_map.mp listed
  obtain ⟨inside,isReg⟩ := List.mem_filter.mp kept
  exact ⟨ent.plain,ascii ent inside (by simpa using isReg)⟩

end NetworkPrograms.CPeerPublish
