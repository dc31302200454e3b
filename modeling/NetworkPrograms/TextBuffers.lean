import NetworkPrograms.WireBytes

/-! A growable text and its capacity, filled one character at a time. The
characters are those of Latin-1, which UTF-8 encodes in one byte or two. -/
namespace NetworkPrograms.TextBuffers
open WireBytes

def charBytes (b : UInt8) : Bytes :=
  if b < 128 then [b] else [UInt8.ofNat (192 + b.toNat / 64),UInt8.ofNat (128 + b.toNat % 64)]

def utf8 (raw : Bytes) : Bytes := raw.flatMap charBytes

/- How much memory a text asks for when the next character does not fit. -/
structure Growth where
  next : (capacity needed : Nat) → Nat
  enough : ∀ capacity needed, needed ≤ next capacity needed

def doubling : Growth := ⟨fun capacity needed => max (2 * capacity) needed,fun _ _ => Nat.le_max_right _ _⟩

structure Text where
  bytes : Bytes
  capacity : Nat
  fits : bytes.length ≤ capacity

def Text.withCapacity (capacity : Nat) : Text := ⟨[],capacity,Nat.zero_le _⟩

def Text.push (g : Growth) (t : Text) (b : UInt8) : Text :=
  if fits : (t.bytes ++ charBytes b).length ≤ t.capacity then ⟨t.bytes ++ charBytes b,t.capacity,fits⟩
  else ⟨t.bytes ++ charBytes b,g.next t.capacity (t.bytes ++ charBytes b).length,g.enough _ _⟩

@[simp] theorem pushBytes (g : Growth) (t : Text) (b : UInt8) :
    (t.push g b).bytes = t.bytes ++ charBytes b := by
  unfold Text.push
  split
  · rfl
  · rfl

theorem pushCapacity (g : Growth) {t : Text} {b : UInt8}
    (fits : t.bytes.length + (charBytes b).length ≤ t.capacity) :
    (t.push g b).capacity = t.capacity := by
  unfold Text.push
  rw [dif_pos (by simpa using fits)]

theorem charLow {b : UInt8} (low : b < 128) : charBytes b = [b] := if_pos low

theorem charHigh {b : UInt8} (high : ¬ b < 128) : (charBytes b).length = 2 := by
  rw [charBytes,if_neg high]
  rfl

@[simp] theorem utf8Nil : utf8 [] = [] := rfl
@[simp] theorem utf8Cons (b : UInt8) (raw : Bytes) : utf8 (b :: raw) = charBytes b ++ utf8 raw := by
  simp [utf8]

@[simp] theorem utf8Append (xs ys : Bytes) : utf8 (xs ++ ys) = utf8 xs ++ utf8 ys := by
  simp [utf8]

theorem utf8AtMost (raw : Bytes) : (utf8 raw).length ≤ 2 * raw.length := by
  induction raw with
  | nil => exact Nat.le_refl 0
  | cons b raw ih =>
    have char : (charBytes b).length ≤ 2 := by
      unfold charBytes
      split
      · exact Nat.le_succ 1
      · exact Nat.le_refl 2
    rw [utf8Cons,List.length_append,List.length_cons]
    omega

theorem utf8Ascii {raw : Bytes} (ascii : ∀ b ∈ raw, b < 128) : utf8 raw = raw := by
  induction raw with
  | nil => rfl
  | cons b raw ih =>
    obtain ⟨low,ascii⟩ := List.forall_mem_cons.mp ascii
    rw [utf8Cons,charLow low,ih ascii]
    rfl

theorem utf8AtLeast (raw : Bytes) : raw.length ≤ (utf8 raw).length := by
  induction raw with
  | nil => exact Nat.le_refl 0
  | cons b raw ih =>
    have char : 1 ≤ (charBytes b).length := by
      unfold charBytes
      split
      · exact Nat.le_refl 1
      · exact Nat.le_succ 1
    rw [utf8Cons,List.length_append,List.length_cons]
    omega

/- Only ASCII is encoded as itself. -/
theorem utf8Fixed {raw : Bytes} : utf8 raw = raw ↔ ∀ b ∈ raw, b < 128 := by
  refine ⟨?_,utf8Ascii⟩
  intro same b member
  obtain ⟨front,back,rfl⟩ := List.append_of_mem member
  by_cases low : b < 128
  · exact low
  · have lengths := congrArg List.length same
    have before := utf8AtLeast front
    have behind := utf8AtLeast back
    rw [utf8Append,utf8Cons,List.length_append,List.length_append,charHigh low,List.length_append,
      List.length_cons] at lengths
    omega

end NetworkPrograms.TextBuffers
