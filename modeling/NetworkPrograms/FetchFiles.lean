import NetworkPrograms.PeerTransfer

/-! What send_fetch does to the files of the peer that asks: which replies end in
a whole copy, and what a fetch that fails leaves behind. -/
namespace NetworkPrograms.FetchFiles
open WireBytes ByteStreams PeerListener PeerFetch PeerTransfer

theorem sendFetchExact {w : FetchWorld} {filename : Bytes} (reaches : Reaches w filename)
    {pieces : List Bytes} {stream : Bytes} (arriving : w.reads = pieces.map .piece)
    (delivered : Delivers 2048 pieces stream) :
    ((sendFetch w filename).result = .ok () ↔ ∃ content, stream = 0 :: content) ∧
    (∀ content, stream = 0 :: content →
      (sendFetch w filename).file = some (outputPath filename,content)) ∧
    ((¬ ∃ content, stream = 0 :: content) →
      (∃ context, (sendFetch w filename).result = .error context) ∧
        (sendFetch w filename).file = some (outputPath filename,[])) := by
  obtain ⟨file,result⟩ := sendFetchReads reaches
  rw [arriving] at file result
  rw [file,result]
  by_cases success : ∃ content, stream = 0 :: content
  · obtain ⟨content,rfl⟩ := success
    rw [receiveWhole reaches.stored delivered]
    refine ⟨iff_of_true rfl ⟨content,rfl⟩,?_,fun other => absurd ⟨content,rfl⟩ other⟩
    intro same_content same
    rw [(List.cons.inj same).2]
  · obtain ⟨context,failed⟩ := receiveOther w.fileWrites delivered success
    rw [failed]
    refine ⟨iff_of_false nofun success,?_,fun _ => ⟨⟨context,rfl⟩,rfl⟩⟩
    intro content same
    exact absurd ⟨content,same⟩ success

/- "hi" behind its status, one byte of the reply at a time. -/
theorem sendFetchPieces :
    (sendFetch (quietWorld [.piece [0],.piece [104],.piece [105]]) [97]).result = .ok () ∧
      (sendFetch (quietWorld [.piece [0],.piece [104],.piece [105]]) [97]).file =
        some ([46,47,97],[104,105]) := by
  obtain ⟨result,file,_⟩ := @sendFetchExact (quietWorld [.piece [0],.piece [104],.piece [105]]) [97]
    (quietReaches _) [[0],[104],[105]] [0,104,105] rfl ⟨by simp,by simp,rfl⟩
  exact ⟨result.mpr ⟨_,rfl⟩,file _ rfl⟩

/- What arrives from the serving peer before its stream ends or fails. -/
def arrived : List ReadResult → Bytes
  | [] => []
  | .failed :: _ => []
  | .piece [] :: _ => []
  | .piece bytes :: rest => bytes ++ arrived rest

theorem searchAsks {w : FetchWorld} {name : Bytes} :
    (∃ asked found, searchRegistry w.searchWrite w.reply name = (asked,.ok (some found))) ↔
      w.searchWrite = .all ∧ 10 ≤ w.reply.length ∧ readAnswer (w.reply.take 10) ≠ none := by
  unfold searchRegistry
  split
  · rename_i accepted failed
    simp [failed]
  · rename_i sent
    dsimp only
    split
    · rename_i short
      have bound := Nat.not_le.mpr short
      simp [sent,bound]
    · rename_i enough
      have bound := Nat.not_lt.mp enough
      cases readAnswer (w.reply.take 10) with
      | none => simp
      | some found => simp [sent,bound]

end NetworkPrograms.FetchFiles
