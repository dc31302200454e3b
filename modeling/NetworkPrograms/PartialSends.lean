import NetworkPrograms.WireBytes

/-! Sockets that take a part of what they are offered, send by send. -/
namespace NetworkPrograms.PartialSends

/- What a send finds: an error, or room for some bytes, of which it takes as many
as it is offered. -/
inductive Send where
  | failed
  | room (n : Nat) (some_byte : 0 < n)
  deriving DecidableEq

def Send.taken (offered : Nat) : Send → Nat
  | .failed => 0
  | .room n _ => min n offered

/- What it returns, -1 for an error. -/
def Send.result (offered : Nat) : Send → Int
  | .failed => -1
  | .room n _ => (min n offered : Nat)

/- How much the first sends take of `length` bytes, if each is offered the rest. -/
def sentBefore (sends : Nat → Send) (length : Nat) : Nat → Nat
  | 0 => 0
  | k + 1 => sentBefore sends length k + (sends k).taken (length - sentBefore sends length k)

/- Send number `k` is called: none has failed before it, and bytes are left. -/
structure Called (sends : Nat → Send) (length k : Nat) : Prop where
  earlier : ∀ j < k, sends j ≠ .failed
  left : sentBefore sends length k < length

def FailsFirst (sends : Nat → Send) (length : Nat) : Prop :=
  ∃ k, Called sends length k ∧ sends k = .failed

variable {sends : Nat → Send} {length : Nat}

theorem takenMost (offered : Nat) (r : Send) : r.taken offered ≤ offered := by
  cases r with
  | failed => exact Nat.zero_le _
  | room n some_byte => exact Nat.min_le_right _ _

theorem takenSome {offered : Nat} {r : Send} (fine : r ≠ .failed) (left : 0 < offered) :
    0 < r.taken offered := by
  cases r with
  | failed => contradiction
  | room n some_byte => exact Nat.lt_min.mpr ⟨some_byte,left⟩

theorem resultFine {r : Send} (fine : r ≠ .failed) (offered : Nat) :
    r.result offered = r.taken offered := by
  cases r with
  | failed => contradiction
  | room n some_byte => rfl

theorem resultNegative {offered : Nat} {r : Send} : r.result offered < 0 ↔ r = .failed := by
  cases r with
  | failed => exact iff_of_true (Int.negSucc_lt_zero 0) rfl
  | room n some_byte => exact iff_of_false (Int.not_lt.mpr (Int.natCast_nonneg _)) nofun

theorem sentWithin (sends : Nat → Send) (length k : Nat) : sentBefore sends length k ≤ length := by
  induction k with
  | zero => exact Nat.zero_le _
  | succ k ih =>
    have most := takenMost (length - sentBefore sends length k) (sends k)
    rw [sentBefore]
    omega

theorem sentMore (sends : Nat → Send) (length : Nat) {j k : Nat} (later : j ≤ k) :
    sentBefore sends length j ≤ sentBefore sends length k := by
  induction later with
  | refl => exact Nat.le_refl _
  | step later ih => exact Nat.le_trans ih (Nat.le_add_right _ _)

/- Once everything is taken no send is called. -/
theorem calledInside {k j : Nat} (whole : sentBefore sends length k = length)
    (called : Called sends length j) : j < k := by
  refine Nat.not_le.mp (fun behind => ?_)
  have more := sentMore sends length behind
  have left := called.left
  omega

theorem wholeFine {k : Nat} (fine : ∀ j < k, sends j ≠ .failed)
    (whole : sentBefore sends length k = length) : ¬ FailsFirst sends length := by
  intro fails
  obtain ⟨j,called,failed⟩ := fails
  exact fine j (calledInside whole called) failed

/- Behind the sends that are called there is none. -/
theorem calledBelow {k j : Nat} (done : sentBefore sends length k = length ∨ sends k = .failed)
    (called : Called sends length j) (fine : sends j ≠ .failed) : j < k := by
  rcases done with whole | failed
  · exact calledInside whole called
  · refine Nat.not_le.mp (fun behind => ?_)
    rcases Nat.eq_or_lt_of_le behind with rfl | later
    · exact fine failed
    · exact called.earlier k later failed

/- A send that is called has been preceded by others that were. -/
theorem calledEarlier {k j : Nat} (called : Called sends length k) (before : j < k) :
    Called sends length j :=
  ⟨fun i earlier => called.earlier i (Nat.lt_trans earlier before),
    Nat.lt_of_le_of_lt (sentMore sends length (Nat.le_of_lt before)) called.left⟩

end NetworkPrograms.PartialSends
