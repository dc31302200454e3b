import NetworkPrograms.FetchFiles

/-! The two copying programs of lab_04: read_and_write, which writes its input to the
screen and, in upper case, to a file, and dl_request, which stores a response. -/
namespace NetworkPrograms.Lab04
open WireBytes ByteStreams
open FetchFiles (arrived)

/- toupper of the C locale; a char beyond 127 stays what it is. -/
def toupper (b : UInt8) : UInt8 := if 97 ≤ b ∧ b ≤ 122 then b - 32 else b

/- What the loop of read_and_write leaves, and whether the program has not exited in it. -/
structure Copied where
  stdout : Bytes
  upperFile : Bytes
  success : Bool
  deriving DecidableEq, Repr

/- A write that takes less than it was given ends the program. `calls` counts the turns. -/
def copyLoop (toStdout toFile : Nat → Written) : List ReadResult → (calls : Nat) → Copied
  | [], _ => ⟨[],[],true⟩
  | .failed :: _, _ => ⟨[],[],false⟩
  | .piece [] :: _, _ => ⟨[],[],true⟩
  | .piece bytes :: rest, calls =>
      match toStdout calls with
      | .failed accepted => ⟨bytes.take accepted,[],false⟩
      | .all =>
          match toFile calls with
          | .failed accepted => ⟨bytes,(bytes.map toupper).take accepted,false⟩
          | .all =>
              let later := copyLoop toStdout toFile rest (calls + 1)
              ⟨bytes ++ later.stdout,bytes.map toupper ++ later.upperFile,later.success⟩

/- On every path the file follows the screen and the screen the input, and neither has
missed a byte; a loop that comes to its end has copied everything. -/
theorem copiedPrefix (toStdout toFile : Nat → Written) (reads : List ReadResult) (calls : Nat) :
    (copyLoop toStdout toFile reads calls).upperFile <+:
        (copyLoop toStdout toFile reads calls).stdout.map toupper ∧
      (copyLoop toStdout toFile reads calls).stdout <+: arrived reads ∧
      ((copyLoop toStdout toFile reads calls).success = true →
        (copyLoop toStdout toFile reads calls).stdout = arrived reads ∧
          (copyLoop toStdout toFile reads calls).upperFile = (arrived reads).map toupper) := by
  induction reads generalizing calls with
  | nil => exact ⟨List.prefix_rfl,List.prefix_rfl,fun _ => ⟨rfl,rfl⟩⟩
  | cons read rest ih =>
    cases read with
    | failed => exact ⟨List.prefix_rfl,List.prefix_rfl,fun done => Bool.noConfusion done⟩
    | piece bytes =>
      cases bytes with
      | nil => exact ⟨List.prefix_rfl,List.prefix_rfl,fun _ => ⟨rfl,rfl⟩⟩
      | cons b bytes =>
        have all : arrived (.piece (b :: bytes) :: rest) = (b :: bytes) ++ arrived rest := rfl
        rw [all]
        simp only [copyLoop]
        cases toStdout calls with
        | failed accepted =>
          refine ⟨List.nil_prefix,?_,fun done => Bool.noConfusion done⟩
          exact (List.take_prefix _ _).trans (List.prefix_append _ _)
        | all =>
          cases toFile calls with
          | failed accepted =>
            exact ⟨List.take_prefix _ _,List.prefix_append _ _,fun done => Bool.noConfusion done⟩
          | all =>
            obtain ⟨file,screen,ended⟩ := ih (calls + 1)
            dsimp only
            rw [List.map_append,List.map_append]
            refine ⟨(List.prefix_append_right_inj _).mpr file,
              (List.prefix_append_right_inj _).mpr screen,fun done => ?_⟩
            obtain ⟨whole,upper⟩ := ended done
            rw [whole,upper]
            exact ⟨rfl,rfl⟩

theorem copiedIff (toStdout toFile : Nat → Written) {pieces : List Bytes}
    (filled : ∀ piece ∈ pieces, piece ≠ []) (calls : Nat) :
    (copyLoop toStdout toFile (pieces.map .piece) calls).success = true ↔
      ∀ k < pieces.length, toStdout (calls + k) = .all ∧ toFile (calls + k) = .all := by
  induction pieces generalizing calls with
  | nil => exact iff_of_true rfl (fun k bound => absurd bound (Nat.not_lt_zero k))
  | cons piece pieces ih =>
    obtain ⟨some_byte,others⟩ := List.forall_mem_cons.mp filled
    have step : (∀ k < (piece :: pieces).length, toStdout (calls + k) = .all ∧ toFile (calls + k) = .all) ↔
        (toStdout calls = .all ∧ toFile calls = .all) ∧
          ∀ k < pieces.length, toStdout (calls + 1 + k) = .all ∧ toFile (calls + 1 + k) = .all := by
      constructor
      · intro all
        refine ⟨all 0 (Nat.succ_pos _),fun k bound => ?_⟩
        rw [Nat.add_assoc,Nat.add_comm 1 k]
        exact all (k + 1) (Nat.succ_lt_succ bound)
      · rintro ⟨first,later⟩ k bound
        cases k with
        | zero => exact first
        | succ k =>
          have here := later k (Nat.lt_of_succ_lt_succ bound)
          rwa [Nat.add_assoc,Nat.add_comm 1 k] at here
    rw [step,← ih others (calls + 1)]
    cases piece with
    | nil => contradiction
    | cons b bytes =>
      simp only [List.map_cons,copyLoop]
      cases toStdout calls with
      | failed accepted => simp
      | all =>
        cases toFile calls with
        | failed accepted => simp
        | all => simp

theorem arrivedWhole {pieces : List Bytes} (filled : ∀ piece ∈ pieces, piece ≠ []) :
    arrived (pieces.map .piece) = pieces.flatten := by
  induction pieces with
  | nil => rfl
  | cons piece pieces ih =>
    obtain ⟨some_byte,others⟩ := List.forall_mem_cons.mp filled
    cases piece with
    | nil => contradiction
    | cons b bytes => simp only [List.map_cons,arrived,ih others,List.flatten_cons]

/- What read_and_write leaves: its exit status, the screen, and upper_file if it has
been opened, and so emptied. -/
structure Ran where
  exitSuccess : Bool
  stdout : Bytes
  upperFile : Option Bytes
  deriving DecidableEq, Repr

/- `closed` is set when both files can be closed. -/
def readAndWrite (input : Option (List ReadResult)) (created : Bool) (toStdout toFile : Nat → Written)
    (closed : Bool) : Ran :=
  match input with
  | none => ⟨false,[],none⟩
  | some reads =>
      if !created then ⟨false,[],none⟩
      else
        let copied := copyLoop toStdout toFile reads 0
        ⟨copied.success && closed,copied.stdout,some copied.upperFile⟩

/- However the input is read: the program succeeds if and only if every write takes its
whole block, and then the file is the input in upper case. Where it fails, the file is
still the start of that, and the screen is not behind it. -/
theorem upperCopied {pieces : List Bytes} {content : Bytes} (delivered : Delivers 1024 pieces content)
    (toStdout toFile : Nat → Written) (closed : Bool) {ran : Ran}
    (done : readAndWrite (some (pieces.map .piece)) true toStdout toFile closed = ran) :
    (ran.exitSuccess = true ↔
        closed = true ∧ ∀ k < pieces.length, toStdout k = .all ∧ toFile k = .all) ∧
      (ran.exitSuccess = true → ran.stdout = content ∧ ran.upperFile = some (content.map toupper)) ∧
      ran.stdout <+: content ∧
      ∃ file, ran.upperFile = some file ∧ file <+: ran.stdout.map toupper := by
  obtain ⟨file,screen,ended⟩ := copiedPrefix toStdout toFile (pieces.map .piece) 0
  have whole := copiedIff toStdout toFile delivered.filled 0
  rw [arrivedWhole delivered.filled,delivered.whole] at screen ended
  simp only [Nat.zero_add] at whole
  subst done
  refine ⟨?_,?_,screen,_,rfl,file⟩
  · rw [← whole,readAndWrite]
    simp [and_comm]
  · intro success
    simp only [readAndWrite,Bool.not_true,Bool.false_eq_true,if_false,Bool.and_eq_true] at success
    obtain ⟨same,upper⟩ := ended success.1
    exact ⟨same,congrArg some upper⟩

/- "aZ{b" in two blocks; the file takes one byte of the second. -/
theorem upperCopiedShort :
    readAndWrite (some [.piece [97,90],.piece [123,98]]) true (fun _ => .all)
        (fun k => if k = 0 then .all else .failed 1) true = ⟨false,[97,90,123,98],some [65,90,123]⟩ ∧
      ¬ (true = true ∧ ∀ k < 2, Written.all = .all ∧ (if k = 0 then Written.all else .failed 1) = .all) := by
  have delivered : Delivers 1024 [[97,90],[123,98]] [97,90,123,98] := ⟨by simp,by simp,rfl⟩
  have ran : readAndWrite (some [.piece [97,90],.piece [123,98]]) true (fun _ => .all)
      (fun k => if k = 0 then .all else .failed 1) true = ⟨false,[97,90,123,98],some [65,90,123]⟩ := rfl
  obtain ⟨success,-⟩ := upperCopied delivered _ _ _ ran
  exact ⟨ran,fun all => Bool.noConfusion (success.mpr all)⟩

end NetworkPrograms.Lab04
