import NetworkPrograms.Lab03

/-! The server of lab_03 over all its clients: one buffer, which is never cleared,
receives the requests of each. What a client is answered may depend on it. -/
namespace NetworkPrograms.Lab03Clients
open WireBytes ByteStreams Lab03

/- What recv returns for one client until it returns nothing more, and which of the
replies send_bytes gets through. -/
structure Client where
  pieces : List Bytes
  filled : ∀ piece ∈ pieces, piece ≠ [] ∧ piece.length ≤ bufSize
  sent : Nat → Bool

/- The two inner loops of main, one recv after the other: recv_buffer, session_read
and the replies. A connection ends where the pieces do. -/
def serveLoop (sent : Nat → Bool) : (pieces : List Bytes) → (recvBuffer : Bytes) →
    (totalRead sessionRead answered : Nat) → Bytes × Nat × List Bytes
  | [], recvBuffer, _, sessionRead, _ => (recvBuffer,sessionRead,[])
  | piece :: pieces, recvBuffer, totalRead, sessionRead, answered =>
      let recvBuffer := overwrite recvBuffer 0 piece
      let totalRead := totalRead + piece.length
      if totalRead < 9 then serveLoop sent pieces recvBuffer totalRead sessionRead answered
      else if 9 < totalRead then (recvBuffer,sessionRead,[])
      else match answer recvBuffer with
        | none => (recvBuffer,sessionRead,[])
        | some reply =>
            if sent answered then
              let (recvBuffer,sessionRead,replies) :=
                serveLoop sent pieces recvBuffer 0 (sessionRead + totalRead) (answered + 1)
              (recvBuffer,sessionRead,reply :: replies)
            else (recvBuffer,sessionRead + totalRead,[reply])

structure Server where
  recvBuffer : Bytes
  sessionRead : Nat

/- One turn of the outer loop; nobody is served if accept fails. -/
def serveClient (s : Server) : Option Client → Server × List Bytes
  | none => (s,[])
  | some c =>
      let (recvBuffer,sessionRead,replies) := serveLoop c.sent c.pieces s.recvBuffer 0 s.sessionRead 0
      (⟨recvBuffer,sessionRead⟩,replies)

def serveAll (s : Server) (clients : List (Option Client)) : Server :=
  clients.foldl (fun s c => (serveClient s c).1) s

/- The buffers that replies are made of. -/
def heard (sent : Nat → Bool) : (pieces : List Bytes) → (recvBuffer : Bytes) →
    (totalRead answered : Nat) → List Bytes
  | [], _, _, _ => []
  | piece :: pieces, recvBuffer, totalRead, answered =>
      let recvBuffer := overwrite recvBuffer 0 piece
      let totalRead := totalRead + piece.length
      if totalRead < 9 then heard sent pieces recvBuffer totalRead answered
      else if 9 < totalRead then []
      else if sent answered then recvBuffer :: heard sent pieces recvBuffer 0 (answered + 1)
      else [recvBuffer]

/- A buffer with the bytes received so far in front, and old ones behind. -/
def ahead (old own : Bytes) : Bytes := own ++ old.drop own.length

theorem sessionCounts (sent : Nat → Bool) (pieces : List Bytes) (buffer : Bytes)
    (totalRead sessionRead answered : Nat) :
    (serveLoop sent pieces buffer totalRead sessionRead answered).2.1 = sessionRead +
      9 * (serveLoop sent pieces buffer totalRead sessionRead answered).2.2.length := by
  induction pieces generalizing buffer totalRead sessionRead answered with
  | nil => rfl
  | cons piece pieces ih =>
    rw [serveLoop]
    dsimp only
    split
    · exact ih _ _ _ _
    split
    · rfl
    split
    · rfl
    split
    · have later := ih (overwrite buffer 0 piece) 0 (sessionRead + (totalRead + piece.length)) (answered + 1)
      change _ = sessionRead + 9 * ((serveLoop sent pieces (overwrite buffer 0 piece) 0
        (sessionRead + (totalRead + piece.length)) (answered + 1)).2.2.length + 1)
      refine later.trans ?_
      omega
    · simp only [List.length_singleton]
      omega

/- The replies of all clients, in the order they are given. -/
def answered : (s : Server) → (clients : List (Option Client)) → List Bytes
  | _, [] => []
  | s, c :: clients => (serveClient s c).2 ++ answered (serveClient s c).1 clients

/- What main prints as the bytes read from a client counts the requests of all the
clients before it as well. -/
theorem totalCounts (s : Server) (clients : List (Option Client)) :
    (serveAll s clients).sessionRead = s.sessionRead + 9 * (answered s clients).length := by
  induction clients generalizing s with
  | nil => rfl
  | cons c clients ih =>
    have here : (serveClient s c).1.sessionRead = s.sessionRead + 9 * (serveClient s c).2.length := by
      cases c with
      | none => rfl
      | some c => exact sessionCounts c.sent c.pieces s.recvBuffer 0 s.sessionRead 0
    rw [answered,List.length_append]
    refine (ih (serveClient s c).1).trans ?_
    omega

end NetworkPrograms.Lab03Clients
