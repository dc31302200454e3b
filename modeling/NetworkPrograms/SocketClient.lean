import NetworkPrograms.Loops
import NetworkPrograms.PartialSends

/-! write_to_socket of socket-client-rs: a slice written in windows of one size,
which move on by that size whatever the stream has taken of them. -/
namespace NetworkPrograms.SocketClient
open WireBytes (Bytes)
open Loops PartialSends

/- No slice is longer than isize::MAX. -/
structure Slice where
  bytes : Bytes
  short : bytes.length < 9223372036854775808

structure Writing where
  calls : Nat
  startIndex : Nat
  endIndex : Nat
  totalWrote : Nat
  wire : Bytes

inductive Outcome where
  | ok
  | error
  | panicked
  deriving DecidableEq, Repr

structure Wrote where
  outcome : Outcome
  wire : Bytes
  deriving DecidableEq, Repr

/- `+` on usize: with overflow checks it panics, without them it wraps. -/
def addUsize (checked : Bool) (a b : Nat) : Option Nat :=
  if a + b < 18446744073709551616 then some (a + b)
  else if checked then none
  else some (a + b - 18446744073709551616)

/- One turn of the loop; `&bytes[start_index..end_index]` panics on a range that
runs backwards or past the end. -/
def writeTurn (checked : Bool) (writes : Nat → Send) (bytes : Bytes) (chunkSize : Nat) (s : Writing) :
    Turn Writing Wrote :=
  if s.startIndex ≤ s.endIndex ∧ s.endIndex ≤ bytes.length then
    let offered := (bytes.drop s.startIndex).take (s.endIndex - s.startIndex)
    let wrote := (writes s.calls).result offered.length
    if wrote < 0 then .leave ⟨.error,s.wire⟩
    else
      let wire := s.wire ++ offered.take wrote.toNat
      match addUsize checked s.totalWrote wrote.toNat with
      | none => .leave ⟨.panicked,wire⟩
      | some totalWrote =>
          if bytes.length ≤ totalWrote then .leave ⟨.ok,wire⟩
          else match addUsize checked s.startIndex chunkSize with
            | none => .leave ⟨.panicked,wire⟩
            | some startIndex =>
                match addUsize checked s.endIndex chunkSize with
                | none => .leave ⟨.panicked,wire⟩
                | some endIndex =>
                    .next ⟨s.calls + 1,startIndex,
                      if bytes.length < endIndex then bytes.length else endIndex,totalWrote,wire⟩
  else .leave ⟨.panicked,s.wire⟩

def writeToSocket (checked : Bool) (writes : Nat → Send) (bytes : Bytes) (chunkSize : Nat) : Wrote → Prop :=
  Returns (writeTurn checked writes bytes chunkSize)
    ⟨0,0,if bytes.length < chunkSize then bytes.length else chunkSize,0,[]⟩

theorem addFits {checked : Bool} {a b : Nat} (fits : a + b < 18446744073709551616) :
    addUsize checked a b = some (a + b) := if_pos fits

theorem addMost {checked : Bool} {a b c : Nat} (added : addUsize checked a b = some c) : c ≤ a + b := by
  unfold addUsize at added
  split at added
  · exact Nat.le_of_eq (Option.some.inj added).symm
  split at added
  · contradiction
  · rw [← Option.some.inj added]
    exact Nat.sub_le _ _

section
variable {checked : Bool} {writes : Nat → Send} {bytes : Bytes} {chunkSize : Nat}

/- How much of its window the stream takes. -/
def window (writes : Nat → Send) (s : Writing) : Nat := (writes s.calls).taken (s.endIndex - s.startIndex)

/- Windows lie side by side, and no more has been written than they cover. -/
structure Placed (chunkSize : Nat) (s : Writing) : Prop where
  start : s.startIndex = s.calls * chunkSize
  total : s.totalWrote ≤ s.startIndex

theorem startFits {s : Writing} (placed : Placed chunkSize s) (usize : chunkSize < 18446744073709551616)
    (small : s.startIndex < 9223372036854775808) : s.startIndex + chunkSize < 18446744073709551616 := by
  cases count : s.calls with
  | zero =>
    have start := placed.start
    rw [count,Nat.zero_mul] at start
    omega
  | succ k =>
    have start := placed.start
    rw [count,Nat.succ_mul] at start
    omega

theorem turnBroken {s : Writing} (broken : ¬ (s.startIndex ≤ s.endIndex ∧ s.endIndex ≤ bytes.length)) :
    writeTurn checked writes bytes chunkSize s = .leave ⟨.panicked,s.wire⟩ := if_neg broken

/- What a turn does with a window inside the slice. -/
theorem turnInside {s : Writing} (placed : Placed chunkSize s) (short : bytes.length < 9223372036854775808)
    (usize : chunkSize < 18446744073709551616)
    (inside : s.startIndex ≤ s.endIndex ∧ s.endIndex ≤ bytes.length) (fine : writes s.calls ≠ .failed) :
    writeTurn checked writes bytes chunkSize s =
      if bytes.length ≤ s.totalWrote + window writes s then
        .leave ⟨.ok,s.wire ++ (bytes.drop s.startIndex).take (window writes s)⟩
      else match addUsize checked s.endIndex chunkSize with
        | none => .leave ⟨.panicked,s.wire ++ (bytes.drop s.startIndex).take (window writes s)⟩
        | some endIndex => .next ⟨s.calls + 1,s.startIndex + chunkSize,
            if bytes.length < endIndex then bytes.length else endIndex,s.totalWrote + window writes s,
            s.wire ++ (bytes.drop s.startIndex).take (window writes s)⟩ := by
  have size : ((bytes.drop s.startIndex).take (s.endIndex - s.startIndex)).length =
      s.endIndex - s.startIndex := by
    rw [List.length_take,List.length_drop]
    omega
  have most : window writes s ≤ s.endIndex - s.startIndex := takenMost _ _
  have total := placed.total
  have counted : addUsize checked s.totalWrote (window writes s) = some (s.totalWrote + window writes s) :=
    addFits (by omega)
  have onward : addUsize checked s.startIndex chunkSize = some (s.startIndex + chunkSize) :=
    addFits (startFits placed usize (by omega))
  have result : (writes s.calls).result (s.endIndex - s.startIndex) = (window writes s : Nat) :=
    resultFine fine _
  unfold writeTurn
  simp only [if_pos inside,size,result,Int.toNat_natCast,if_neg (Int.not_lt.mpr (Int.natCast_nonneg _)),
    counted,onward,List.take_take,Nat.min_eq_left most]

/- Every window so far was taken whole. -/
structure Whole (bytes : Bytes) (chunkSize : Nat) (s : Writing) : Prop where
  start : s.startIndex = s.calls * chunkSize
  inside : s.startIndex ≤ bytes.length
  finish : s.endIndex = min (s.startIndex + chunkSize) bytes.length
  total : s.totalWrote = s.startIndex
  wire : s.wire = bytes.take s.startIndex

/- A part of a window was left out: what is written stays behind the windows. -/
structure Lost (chunkSize : Nat) (s : Writing) : Prop where
  start : s.startIndex = s.calls * chunkSize
  narrow : s.endIndex ≤ s.startIndex + chunkSize
  behind : s.totalWrote < s.startIndex

theorem Whole.placed {s : Writing} (whole : Whole bytes chunkSize s) : Placed chunkSize s :=
  ⟨whole.start,Nat.le_of_eq whole.total⟩

theorem Lost.placed {s : Writing} (lost : Lost chunkSize s) : Placed chunkSize s :=
  ⟨lost.start,Nat.le_of_lt lost.behind⟩

theorem wholeStart : Whole bytes chunkSize
    ⟨0,0,if bytes.length < chunkSize then bytes.length else chunkSize,0,[]⟩ := by
  refine ⟨(Nat.zero_mul _).symm,Nat.zero_le _,?_,rfl,rfl⟩
  dsimp only
  split <;> omega

/- A whole window is either the last one or followed by the next. -/
theorem wholeTurn {s : Writing} (whole : Whole bytes chunkSize s) (short : bytes.length < 9223372036854775808)
    (usize : chunkSize < 18446744073709551616) (fine : writes s.calls ≠ .failed)
    (taken : window writes s = s.endIndex - s.startIndex) :
    (bytes.length ≤ s.startIndex + chunkSize ∧
      writeTurn checked writes bytes chunkSize s = .leave ⟨.ok,bytes⟩) ∨
    (s.startIndex + chunkSize < bytes.length ∧ ∃ s', writeTurn checked writes bytes chunkSize s = .next s' ∧
      Whole bytes chunkSize s' ∧ s'.calls = s.calls + 1 ∧ s'.startIndex = s.startIndex + chunkSize) := by
  have start := whole.inside
  have finish := whole.finish
  have inside : s.startIndex ≤ s.endIndex ∧ s.endIndex ≤ bytes.length := by omega
  have total : s.totalWrote + window writes s = s.endIndex := by
    rw [whole.total,taken]
    omega
  have wire : s.wire ++ (bytes.drop s.startIndex).take (window writes s) = bytes.take s.endIndex := by
    rw [whole.wire,← List.take_add,taken,Nat.add_sub_cancel' inside.1]
  rw [turnInside whole.placed short usize inside fine,total,wire]
  by_cases last : bytes.length ≤ s.startIndex + chunkSize
  · have all : s.endIndex = bytes.length := by omega
    rw [if_pos (Nat.le_of_eq all.symm),all,List.take_length]
    exact .inl ⟨last,rfl⟩
  · have more : s.endIndex = s.startIndex + chunkSize := by omega
    rw [if_neg (by omega),addFits (by omega)]
    refine .inr ⟨by omega,_,rfl,⟨?_,?_,?_,?_,?_⟩,rfl,rfl⟩
    · dsimp only
      rw [whole.start,Nat.succ_mul]
    · dsimp only
      omega
    · dsimp only
      split <;> omega
    · exact more
    · dsimp only
      rw [more]

/- Behind a window of which a part was left out, what is written never reaches
the length of the slice: the windows run past it and the range panics. -/
theorem lostTurn {s : Writing} (placed : Placed chunkSize s) (narrow : s.endIndex ≤ s.startIndex + chunkSize)
    (short : bytes.length < 9223372036854775808) (usize : chunkSize < 18446744073709551616)
    (fine : writes s.calls ≠ .failed)
    (missing : s.startIndex ≤ s.endIndex → s.totalWrote + window writes s < s.endIndex) :
    (∃ wire, writeTurn checked writes bytes chunkSize s = .leave ⟨.panicked,wire⟩) ∨
    (s.startIndex ≤ bytes.length ∧ ∃ s', writeTurn checked writes bytes chunkSize s = .next s' ∧
      Lost chunkSize s' ∧ s'.startIndex = s.startIndex + chunkSize) := by
  by_cases inside : s.startIndex ≤ s.endIndex ∧ s.endIndex ≤ bytes.length
  · have behind := missing inside.1
    rw [turnInside placed short usize inside fine,if_neg (by omega)]
    cases added : addUsize checked s.endIndex chunkSize with
    | none => exact .inl ⟨_,rfl⟩
    | some endIndex =>
      have most := addMost added
      refine .inr ⟨by omega,_,rfl,⟨?_,?_,?_⟩,rfl⟩
      · dsimp only
        rw [placed.start,Nat.succ_mul]
      · dsimp only
        split <;> omega
      · dsimp only
        omega
  · exact .inl ⟨_,turnBroken inside⟩

end

section
variable {checked : Bool} {accepts : Nat → Nat} {bytes : Bytes} {chunkSize : Nat}

/- Every window of the slice is taken whole by the write it is offered to. -/
def TakesWindows (accepts : Nat → Nat) (bytes : Bytes) (chunkSize : Nat) : Prop :=
  ∀ k, k * chunkSize < bytes.length → min chunkSize (bytes.length - k * chunkSize) ≤ accepts k

def accepting (accepts : Nat → Nat) (positive : ∀ k, 0 < accepts k) : Nat → Send :=
  fun k => .room (accepts k) (positive k)

theorem acceptingFine (positive : ∀ k, 0 < accepts k) (k : Nat) : accepting accepts positive k ≠ .failed :=
  nofun

theorem windowWhole (positive : ∀ k, 0 < accepts k) {s : Writing} (whole : Whole bytes chunkSize s)
    (enough : s.startIndex < bytes.length →
      min chunkSize (bytes.length - s.startIndex) ≤ accepts s.calls) :
    window (accepting accepts positive) s = s.endIndex - s.startIndex := by
  have start := whole.inside
  have finish := whole.finish
  refine Nat.min_eq_right ?_
  by_cases more : s.startIndex < bytes.length
  · have room := enough more
    omega
  · omega

theorem wholeReturns (positive : ∀ k, 0 < accepts k) (takes : TakesWindows accepts bytes chunkSize)
    (short : bytes.length < 9223372036854775808) (some_byte : 0 < chunkSize)
    (usize : chunkSize < 18446744073709551616) :
    writeToSocket checked (accepting accepts positive) bytes chunkSize ⟨.ok,bytes⟩ := by
  have turned : ∀ s, Whole bytes chunkSize s → _ := fun s whole =>
    @wholeTurn checked (accepting accepts positive) bytes chunkSize s whole short usize
      (acceptingFine positive _) (windowWhole positive whole (fun more => whole.start ▸ takes s.calls (whole.start ▸ more)))
  obtain ⟨r,done,same⟩ : ∃ r, writeToSocket checked (accepting accepts positive) bytes chunkSize r ∧
      r = ⟨.ok,bytes⟩ := by
    refine returns (fun s => bytes.length - s.startIndex) ?_ ?_ wholeStart
    · intro s s' whole moved
      rcases turned s whole with ⟨_,left⟩ | ⟨more,next,moved',again,_,onward⟩
      · rw [left] at moved
        contradiction
      · cases Turn.next.inj (moved'.symm.trans moved)
        exact ⟨again,by omega⟩
    · intro s r whole left
      rcases turned s whole with ⟨_,left'⟩ | ⟨_,next,moved,_⟩
      · exact Turn.leave.inj (left.symm.trans left')
      · rw [moved] at left
        contradiction
  exact same ▸ done

/- The first window that is not taken whole. -/
theorem firstShort (missed : ¬ TakesWindows accepts bytes chunkSize) :
    ∃ k, k * chunkSize < bytes.length ∧ accepts k < min chunkSize (bytes.length - k * chunkSize) ∧
      ∀ j < k, min chunkSize (bytes.length - j * chunkSize) ≤ accepts j := by
  refine Classical.byContradiction (fun never => missed (fun k => ?_))
  induction k using Nat.strongRecOn with
  | _ k ih =>
    intro inside
    refine Nat.not_lt.mp (fun missing => never ⟨k,inside,missing,fun j before => ih j before ?_⟩)
    exact Nat.lt_of_le_of_lt (Nat.mul_le_mul_right chunkSize (Nat.le_of_lt before)) inside

/- Up to that window and behind it. -/
def Reaches (bytes : Bytes) (chunkSize k : Nat) (s : Writing) : Prop :=
  (Whole bytes chunkSize s ∧ s.calls ≤ k) ∨ Lost chunkSize s

theorem shortTurn (positive : ∀ k, 0 < accepts k) (short : bytes.length < 9223372036854775808)
    (usize : chunkSize < 18446744073709551616) {k : Nat} (inside : k * chunkSize < bytes.length)
    (missing : accepts k < min chunkSize (bytes.length - k * chunkSize))
    (earlier : ∀ j < k, min chunkSize (bytes.length - j * chunkSize) ≤ accepts j) {s : Writing}
    (reached : Reaches bytes chunkSize k s) :
    (∃ wire, writeTurn checked (accepting accepts positive) bytes chunkSize s = .leave ⟨.panicked,wire⟩) ∨
    (s.startIndex ≤ bytes.length ∧
      ∃ s', writeTurn checked (accepting accepts positive) bytes chunkSize s = .next s' ∧
        Reaches bytes chunkSize k s' ∧ s'.startIndex = s.startIndex + chunkSize) := by
  have lose : ∀ {s : Writing}, Placed chunkSize s → s.endIndex ≤ s.startIndex + chunkSize →
      (s.startIndex ≤ s.endIndex → s.totalWrote + window (accepting accepts positive) s < s.endIndex) → _ :=
    fun placed narrow behind =>
      @lostTurn checked (accepting accepts positive) bytes chunkSize _ placed narrow short usize
        (acceptingFine positive _) behind
  rcases reached with ⟨whole,upto⟩ | lost
  · rcases Nat.eq_or_lt_of_le upto with here | before
    · have start := whole.start
      have finish := whole.finish
      rw [here] at start
      have taken : window (accepting accepts positive) s ≤ accepts k := here ▸ Nat.min_le_left _ _
      have narrow : s.endIndex ≤ s.startIndex + chunkSize := by omega
      have behind : s.totalWrote + window (accepting accepts positive) s < s.endIndex := by
        rw [whole.total]
        omega
      rcases lose whole.placed narrow (fun _ => behind) with broken | ⟨within,s',moved,again,onward⟩
      · exact .inl broken
      · exact .inr ⟨within,s',moved,.inr again,onward⟩
    · have taken := windowWhole positive whole (fun _ => whole.start ▸ earlier s.calls before)
      have next : s.startIndex + chunkSize ≤ k * chunkSize := by
        rw [whole.start,← Nat.succ_mul]
        exact Nat.mul_le_mul_right chunkSize before
      rcases @wholeTurn checked _ _ _ _ whole short usize (acceptingFine positive _) taken with
        ⟨last,_⟩ | ⟨_,s',moved,again,calls,onward⟩
      · omega
      · exact .inr ⟨whole.inside,s',moved,.inl ⟨again,by omega⟩,onward⟩
  · have narrow := lost.narrow
    have late := lost.behind
    have most : window (accepting accepts positive) s ≤ s.endIndex - s.startIndex := takenMost _ _
    rcases lose lost.placed narrow (fun _ => by omega) with broken | ⟨within,s',moved,again,onward⟩
    · exact .inl broken
    · exact .inr ⟨within,s',moved,.inr again,onward⟩

theorem shortReturns (positive : ∀ k, 0 < accepts k) (missed : ¬ TakesWindows accepts bytes chunkSize)
    (short : bytes.length < 9223372036854775808) (some_byte : 0 < chunkSize)
    (usize : chunkSize < 18446744073709551616) :
    ∃ r, writeToSocket checked (accepting accepts positive) bytes chunkSize r ∧ r.outcome = .panicked := by
  obtain ⟨k,inside,missing,earlier⟩ := firstShort missed
  have turned : ∀ s, Reaches bytes chunkSize k s → _ := fun s reached =>
    @shortTurn checked accepts bytes chunkSize positive short usize k inside missing earlier s reached
  have start : Reaches bytes chunkSize k
      ⟨0,0,if bytes.length < chunkSize then bytes.length else chunkSize,0,[]⟩ :=
    .inl ⟨wholeStart,Nat.zero_le k⟩
  refine returns (fun s => bytes.length + 1 - s.startIndex) ?_ ?_ start
  · intro s s' reached moved
    rcases turned s reached with ⟨wire,left⟩ | ⟨within,next,moved',again,onward⟩
    · rw [left] at moved
      contradiction
    · cases Turn.next.inj (moved'.symm.trans moved)
      exact ⟨again,by omega⟩
  · intro s r reached left
    rcases turned s reached with ⟨wire,left'⟩ | ⟨_,next,moved,_⟩
    · rw [Turn.leave.inj (left.symm.trans left')]
    · rw [moved] at left
      contradiction

end

/- The slice is written if every write takes its whole window; if one does not,
the loop ends in a panic. -/
theorem writeToSocketIff (checked : Bool) (slice : Slice) (chunkSize : UInt64)
    (some_byte : 1 ≤ chunkSize.toNat) (accepts : Nat → Nat) (positive : ∀ k, 0 < accepts k) :
    ∃ r, writeToSocket checked (accepting accepts positive) slice.bytes chunkSize.toNat r ∧
      (∀ r', writeToSocket checked (accepting accepts positive) slice.bytes chunkSize.toNat r' → r' = r) ∧
      (r = ⟨.ok,slice.bytes⟩ ↔ TakesWindows accepts slice.bytes chunkSize.toNat) ∧
      (r ≠ ⟨.ok,slice.bytes⟩ → r.outcome = .panicked) := by
  have usize : chunkSize.toNat < 18446744073709551616 := chunkSize.toNat_lt
  by_cases takes : TakesWindows accepts slice.bytes chunkSize.toNat
  · have done := @wholeReturns checked accepts slice.bytes chunkSize.toNat positive takes slice.short
      some_byte usize
    exact ⟨_,done,returnsOnly done rfl,iff_of_true rfl takes,fun other => absurd rfl other⟩
  · obtain ⟨r,done,panics⟩ := @shortReturns checked accepts slice.bytes chunkSize.toNat positive takes
      slice.short some_byte usize
    refine ⟨r,done,returnsOnly done rfl,iff_of_false ?_ takes,fun _ => panics⟩
    intro fine
    rw [fine] at panics
    contradiction

/- "abc" in windows of two bytes, with room for five in each write. -/
theorem writeToSocketTakes :
    writeToSocket true (accepting (fun _ => 5) (fun _ => Nat.succ_pos 4)) [97,98,99] 2
      ⟨.ok,[97,98,99]⟩ := by
  obtain ⟨r,done,_,exactly,_⟩ := writeToSocketIff true ⟨[97,98,99],by decide⟩ 2 (by decide) (fun _ => 5)
    (fun _ => Nat.succ_pos 4)
  have takes : TakesWindows (fun _ => 5) [97,98,99] 2 :=
    fun k _ => Nat.le_trans (Nat.min_le_left 2 _) (Nat.le_add_left 2 3)
  rw [exactly.mpr takes] at done
  exact done

/- "ping" in one window, of which the first write takes two bytes: the next range
is 2048..4. -/
theorem writeToSocketPanics :
    writeToSocket true (accepting (fun _ => 2) (fun _ => Nat.succ_pos 1)) [112,105,110,103] 2048
      ⟨.panicked,[112,105]⟩ ∧
    ¬ writeToSocket true (accepting (fun _ => 2) (fun _ => Nat.succ_pos 1)) [112,105,110,103] 2048
      ⟨.ok,[112,105,110,103]⟩ := by
  have panics : writeToSocket true (accepting (fun _ => 2) (fun _ => Nat.succ_pos 1)) [112,105,110,103]
      2048 ⟨.panicked,[112,105]⟩ := .later rfl (.now rfl)
  refine ⟨panics,fun fine => ?_⟩
  have same := returnsUnique panics fine
  contradiction

end NetworkPrograms.SocketClient
