import NetworkPrograms.ByteStreams

/-! The serving side of a peer: the codes of the peer protocol and
handle_fetch. Names are the bytes of the string, an error is its context text,
and a peer's socket and the shared directory answer through parameters. -/
namespace NetworkPrograms.PeerListener
open WireBytes (Bytes Written onWire)
open ByteStreams

inductive ActionType where
  | join
  | publish
  | search
  | fetch
  | register
  deriving DecidableEq, Repr

def ActionType.code : ActionType → UInt8
  | .join => 0
  | .publish => 1
  | .search => 2
  | .fetch => 3
  | .register => 4

inductive ResponseType where
  | success
  | error
  | unknownAction
  | unhandledAction
  | noData
  | tooMuchData
  | invalidData
  deriving DecidableEq, Repr

def ResponseType.code : ResponseType → UInt8
  | .success => 0
  | .error => 1
  | .unknownAction => 2
  | .unhandledAction => 3
  | .noData => 4
  | .tooMuchData => 5
  | .invalidData => 6

/- std::path::Component as it occurs on Unix. -/
inductive Component where
  | rootDir
  | curDir
  | parentDir
  | normal (name : Bytes)
  deriving DecidableEq, Repr

def segments : Bytes → List Bytes
  | [] => [[]]
  | b :: rest =>
      match segments rest with
      | [] => [[b]]
      | first :: more => if b = 47 then [] :: first :: more else (b :: first) :: more

def component (segment : Bytes) : Option Component :=
  if segment = [] ∨ segment = [46] then none
  else if segment = [46,46] then some .parentDir
  else some (.normal segment)

/- A leading slash is the root; a leading "." is kept and any other is dropped. -/
def components (filename : Bytes) : List Component :=
  match segments filename with
  | [] => []
  | first :: rest =>
      (if first = [] ∧ rest ≠ [] then [.rootDir]
        else if first = [46] then [.curDir]
        else (component first).toList) ++ rest.filterMap component

def pushComponents (path : List Bytes) : List Component → Option (List Bytes)
  | [] => some path
  | .normal name :: rest => pushComponents (path ++ [name]) rest
  | .curDir :: rest => pushComponents path rest
  | .rootDir :: _ => none
  | .parentDir :: _ => none

/- What handle_fetch leaves: the bytes on the peer's socket, the path it opened
and the value it returns. -/
structure Served where
  wire : Bytes
  opened : Option (List Bytes)
  result : Except String Unit

/- send_response and the error that is returned behind it. -/
def refuse (writes : Nat → Written) (opened : Option (List Bytes)) (response : ResponseType)
    (context : String) : Served :=
  match writes 0 with
  | .all => ⟨[response.code],opened,.error context⟩
  | .failed accepted =>
      ⟨[response.code].take accepted,opened,.error "error sending response to client"⟩

/- The loop of handle_fetch: what it puts on the wire, and its variables where
it breaks. `calls` counts the calls of write_all; a write takes
`buffer[0..read]`, whatever the offset of the read was. -/
def serveLoop (writes : Nat → Written) : List ReadResult → (buffer : Bytes) → (offset : Nat) →
    (totalWrote : Nat) → (calls : Nat) → Bytes × Except String (Bytes × Nat × Nat)
  | [], buffer, _, totalWrote, calls => ([],.ok (buffer,totalWrote,calls))
  | .failed :: _, _, _, _, _ => ([],.error "failed to read file data")
  | .piece [] :: _, buffer, _, totalWrote, calls => ([],.ok (buffer,totalWrote,calls))
  | .piece bytes :: rest, buffer, offset, totalWrote, calls =>
      let filled := overwrite buffer offset bytes
      match writes calls with
      | .failed accepted =>
          ((filled.take bytes.length).take accepted,.error "failed to write file data")
      | .all =>
          let (wire,done) := serveLoop writes rest filled 0 (totalWrote + bytes.length) (calls + 1)
          (filled.take bytes.length ++ wire,done)

/- `openFile` gives the results of reading the file behind a path, or none when
it cannot be opened. -/
def handleFetch (sharedDir : List Bytes) (openFile : List Bytes → Option (List ReadResult))
    (writes : Nat → Written) (filename : Bytes) : Served :=
  match pushComponents sharedDir (components filename) with
  | none => refuse writes none .invalidData "filename contains invalid path data"
  | some path =>
      match openFile path with
      | none => refuse writes (some path) .error "failed to open filename"
      | some reads =>
          match serveLoop writes reads (ResponseType.success.code :: List.replicate 2047 0) 1 0 0 with
          | (wire,.error context) => ⟨wire,some path,.error context⟩
          | (wire,.ok (buffer,totalWrote,calls)) =>
              if totalWrote = 0 then
                match writes calls with
                | .all => ⟨wire ++ buffer.take 1,some path,.ok ()⟩
                | .failed accepted =>
                    ⟨wire ++ (buffer.take 1).take accepted,some path,
                      .error "failed to write file data"⟩
              else ⟨wire,some path,.ok ()⟩

/- From the second block on the buffer is written as it was read. -/
theorem serveRest {writes : Nat → Written} (sent : ∀ k, writes k = .all) {pieces : List Bytes}
    (filled : ∀ piece ∈ pieces, piece ≠ []) (buffer : Bytes) (totalWrote calls : Nat) :
    ∃ buffer' calls', serveLoop writes (pieces.map .piece) buffer 0 totalWrote calls =
      (pieces.flatten,.ok (buffer',totalWrote + pieces.flatten.length,calls')) := by
  induction pieces generalizing buffer totalWrote calls with
  | nil => exact ⟨buffer,calls,rfl⟩
  | cons piece pieces ih =>
    obtain ⟨some_piece,others⟩ := List.forall_mem_cons.mp filled
    obtain ⟨buffer',calls',rest⟩ :=
      ih others (overwrite buffer 0 piece) (totalWrote + piece.length) (calls + 1)
    refine ⟨buffer',calls',?_⟩
    cases piece with
    | nil => contradiction
    | cons b bytes =>
      simp only [List.map_cons,serveLoop,sent,rest,overwriteStart,List.flatten_cons,
        List.length_append,Nat.add_assoc]

/- What reaches the wire when every call succeeds: the status byte takes the
place of the last byte of the first block. -/
def servedWire : List Bytes → Bytes
  | [] => [ResponseType.success.code]
  | first :: rest => ResponseType.success.code :: (first.dropLast ++ rest.flatten)

theorem handleFetchServes {sharedDir path : List Bytes} {openFile : List Bytes → Option (List ReadResult)}
    {writes : Nat → Written} {filename : Bytes} {pieces : List Bytes}
    (valid : pushComponents sharedDir (components filename) = some path)
    (reads : openFile path = some (pieces.map .piece)) (sent : ∀ k, writes k = .all)
    (filled : ∀ piece ∈ pieces, piece ≠ []) :
    handleFetch sharedDir openFile writes filename = ⟨servedWire pieces,some path,.ok ()⟩ := by
  unfold handleFetch
  rw [valid]
  dsimp only
  rw [reads]
  dsimp only
  cases pieces with
  | nil => simp only [List.map_nil,serveLoop,sent,if_true,servedWire,List.nil_append,List.take_succ_cons,
      List.take_zero]
  | cons first rest =>
    have some_first := filled first List.mem_cons_self
    have positive := List.length_pos_iff.mpr some_first
    obtain ⟨buffer',calls',onward⟩ := serveRest sent (List.forall_mem_cons.mp filled).2
      (overwrite (ResponseType.success.code :: List.replicate 2047 0) 1 first) (0 + first.length) 1
    cases first with
    | nil => contradiction
    | cons b bytes =>
      simp only [List.map_cons,serveLoop,sent,Nat.zero_add] at onward ⊢
      rw [onward]
      dsimp only
      rw [if_neg (by omega),overwriteBehind _ _ some_first]
      rfl

end NetworkPrograms.PeerListener
