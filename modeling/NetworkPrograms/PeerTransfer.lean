import NetworkPrograms.PeerFetch

/-! A file on its way from one peer to another: handle_fetch on one side,
send_fetch on the other, and a network that divides the reply as it likes. -/
namespace NetworkPrograms.PeerTransfer
open WireBytes ByteStreams PeerListener PeerFetch

/- One way `file.read` returns a file through the listener's buffer, whose first
byte is reserved in the first call. -/
structure FileReads (pieces : List Bytes) (content : Bytes) : Prop where
  delivered : Delivers 2048 pieces content
  reserved : ∀ piece ∈ pieces.head?, piece.length ≤ 2047

theorem servedLength {pieces : List Bytes} {content : Bytes} (reads : FileReads pieces content)
    (some_byte : content ≠ []) : (servedWire pieces).length = content.length := by
  cases content with
  | nil => contradiction
  | cons b content =>
    obtain ⟨first,rest,rfl,rfl⟩ := deliversCons reads.delivered
    simp [servedWire]

theorem servedSuccess (pieces : List Bytes) :
    ∃ reply, servedWire pieces = ResponseType.success.code :: reply := by
  cases pieces with
  | nil => exact ⟨[],rfl⟩
  | cons first rest => exact ⟨_,rfl⟩

theorem servedExact {pieces : List Bytes} {content : Bytes} (reads : FileReads pieces content) :
    servedWire pieces = ResponseType.success.code :: content ↔ content = [] := by
  constructor
  · intro whole
    cases content with
    | nil => rfl
    | cons b content =>
      have size := servedLength reads (List.cons_ne_nil b content)
      rw [whole] at size
      simp at size
  · rintro rfl
    rw [deliversNil reads.delivered]
    rfl

/- The file arrives whole exactly when it is empty: the last byte of the first
block never leaves the listener. -/
theorem transferExactIff {sharedDir path : List Bytes}
    {openFile : List Bytes → Option (List ReadResult)} {writes : Nat → Written}
    {filename content : Bytes} {pieces : List Bytes}
    (valid : pushComponents sharedDir (components filename) = some path)
    (opened : openFile path = some (pieces.map .piece)) (reads : FileReads pieces content)
    (sent : ∀ k, writes k = .all) :
    (handleFetch sharedDir openFile writes filename).result = .ok () ∧
      ((handleFetch sharedDir openFile writes filename).wire =
        ResponseType.success.code :: content ↔ content = []) ∧
      ∀ (w : FetchWorld) received, Reaches w filename → w.reads = received.map .piece →
        Delivers 2048 received (handleFetch sharedDir openFile writes filename).wire →
        ((sendFetch w filename).result = .ok () ∧
          (sendFetch w filename).file = some (outputPath filename,content) ↔ content = []) := by
  rw [handleFetchServes valid opened sent reads.delivered.filled]
  refine ⟨rfl,servedExact reads,?_⟩
  intro w received reaches arriving delivered
  obtain ⟨reply,status⟩ := servedSuccess pieces
  dsimp only at delivered
  rw [status] at delivered
  have received_all := receiveWhole reaches.stored delivered
  obtain ⟨file,result⟩ := sendFetchReads reaches
  rw [arriving,received_all] at file result
  have exact_when := servedExact reads
  rw [status] at exact_when
  rw [file,result,← exact_when]
  simp

/- A registry that names one peer and a network that fails nowhere. -/
def quietWorld (reads : List ReadResult) : FetchWorld where
  searchWrite := .all
  reply := [0,0,0,7,127,0,0,1,19,136]
  created := true
  connected := true
  requestWrite := .all
  reads := reads
  fileWrites := fun _ => .all

theorem quietReaches (reads : List ReadResult) : Reaches (quietWorld reads) [97] :=
  ⟨rfl,rfl,Nat.le_refl 10,⟨7,⟨(127,0,0,1),5000⟩,rfl⟩,rfl,rfl,rfl,fun _ => rfl⟩

/- The empty file named "a" arrives. -/
theorem transferEmpty :
    (handleFetch [] (fun _ => some []) (fun _ => .all) [97]).wire = [0] ∧
      (sendFetch (quietWorld [.piece [0]]) [97]).result = .ok () ∧
      (sendFetch (quietWorld [.piece [0]]) [97]).file = some ([46,47,97],[]) := by
  have empty : FileReads [] [] := ⟨⟨nofun,nofun,rfl⟩,nofun⟩
  obtain ⟨-,wire,arrives⟩ := @transferExactIff [] [[97]] (fun _ => some []) (fun _ => .all) [97] [] []
    rfl rfl empty (fun _ => rfl)
  exact ⟨wire.mpr rfl,(arrives (quietWorld [.piece [0]]) [[0]] (quietReaches _) rfl
    ⟨by simp,by simp,rfl⟩).mpr rfl⟩

/- The file "hi" is sent and stored as "h". -/
theorem transferShort :
    handleFetch [] (fun _ => some [.piece [104,105]]) (fun _ => .all) [97] =
        ⟨[0,104],some [[97]],.ok ()⟩ ∧
      (sendFetch (quietWorld [.piece [0,104]]) [97]).result = .ok () ∧
      (sendFetch (quietWorld [.piece [0,104]]) [97]).file = some ([46,47,97],[104]) ∧
      ([104] : Bytes) ≠ [104,105] := by
  have served : handleFetch [] (fun _ => some [.piece [104,105]]) (fun _ => .all) [97] =
      ⟨servedWire [[104,105]],some [[97]],.ok ()⟩ :=
    handleFetchServes rfl rfl (fun _ => rfl) (by simp)
  exact ⟨served,rfl,rfl,by decide⟩

end NetworkPrograms.PeerTransfer
