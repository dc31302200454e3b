import NetworkPrograms.WireBytes

/-! Streams read into a buffer of fixed size. A stream is the list of what its
reads return; the list ends where the stream does. -/
namespace NetworkPrograms.ByteStreams
open WireBytes (Bytes)

inductive ReadResult where
  | piece (bytes : Bytes)
  | failed
  deriving DecidableEq, Repr

/- One way a stream delivers `whole` through reads of at most `room` bytes. -/
structure Delivers (room : Nat) (pieces : List Bytes) (whole : Bytes) : Prop where
  filled : ∀ piece ∈ pieces, piece ≠ []
  fits : ∀ piece ∈ pieces, piece.length ≤ room
  whole : pieces.flatten = whole

/- A read into `buffer[offset..]` that returned these bytes. -/
def overwrite (buffer : Bytes) (offset : Nat) (bytes : Bytes) : Bytes :=
  buffer.take offset ++ bytes ++ buffer.drop (offset + bytes.length)

theorem overwriteStart (buffer bytes : Bytes) : (overwrite buffer 0 bytes).take bytes.length = bytes := by
  simp [overwrite]

/- Behind one reserved byte, the first `bytes.length` bytes are one short. -/
theorem overwriteBehind (head : UInt8) (buffer : Bytes) {bytes : Bytes} (filled : bytes ≠ []) :
    (overwrite (head :: buffer) 1 bytes).take bytes.length = head :: bytes.dropLast := by
  have positive := List.length_pos_iff.mpr filled
  obtain ⟨n,size⟩ : ∃ n, bytes.length = n + 1 := ⟨bytes.length - 1,by omega⟩
  have short : n ≤ bytes.length := by omega
  simp [overwrite,size,List.dropLast_eq_take,List.take_append_of_le_length short]

theorem overwriteWhole {buffer bytes : Bytes} (same : buffer.length = bytes.length) :
    overwrite buffer 0 bytes = bytes := by
  simp [overwrite,← same]

theorem overwriteFront (front rest bytes : Bytes) :
    overwrite (front ++ rest) front.length bytes = front ++ (bytes ++ rest.drop bytes.length) := by
  simp [overwrite,List.drop_append]

theorem deliversNil {room : Nat} {pieces : List Bytes} (delivered : Delivers room pieces []) :
    pieces = [] := by
  cases pieces with
  | nil => rfl
  | cons piece pieces =>
    have empty := delivered.whole
    simp only [List.flatten_cons,List.append_eq_nil_iff] at empty
    exact absurd empty.1 (delivered.filled piece List.mem_cons_self)

theorem deliversCons {room : Nat} {pieces : List Bytes} {b : UInt8} {whole : Bytes}
    (delivered : Delivers room pieces (b :: whole)) :
    ∃ first rest, pieces = (b :: first) :: rest ∧ whole = first ++ rest.flatten := by
  cases pieces with
  | nil => simpa using delivered.whole
  | cons piece pieces =>
    cases piece with
    | nil => exact absurd rfl (delivered.filled [] List.mem_cons_self)
    | cons c first =>
      obtain ⟨rfl,rest⟩ := List.cons.inj delivered.whole
      exact ⟨first,pieces,rfl,rest.symm⟩

/- Messages of which none begins another. -/
structure PrefixFree {α : Type} (Message : List α → Prop) : Prop where
  some_item : ∀ x, Message x → x ≠ []
  free : ∀ x y, Message x → Message y → x <+: y → x = y

/- A stream of such messages can be cut into messages in one way only. -/
theorem PrefixFree.unique {α : Type} {Message : List α → Prop} (code : PrefixFree Message)
    {xs ys : List (List α)} (left : ∀ x ∈ xs, Message x) (right : ∀ y ∈ ys, Message y)
    (same : xs.flatten = ys.flatten) : xs = ys := by
  induction xs generalizing ys with
  | nil =>
    cases ys with
    | nil => rfl
    | cons y ys =>
      have empty := List.append_eq_nil_iff.mp same.symm
      exact absurd empty.1 (code.some_item y (right y List.mem_cons_self))
  | cons x xs ih =>
    obtain ⟨here,later⟩ := List.forall_mem_cons.mp left
    cases ys with
    | nil =>
      have empty := List.append_eq_nil_iff.mp same
      exact absurd empty.1 (code.some_item x here)
    | cons y ys =>
      obtain ⟨there,others⟩ := List.forall_mem_cons.mp right
      simp only [List.flatten_cons] at same
      have equal : x = y := by
        have start : x <+: y ++ ys.flatten := same ▸ List.prefix_append x xs.flatten
        rcases List.prefix_or_prefix_of_prefix start (List.prefix_append y ys.flatten) with h | h
        · exact code.free x y here there h
        · exact (code.free y x there here h).symm
      subst equal
      rw [ih later others (List.append_cancel_left same)]

def total : List Nat → Nat
  | [] => 0
  | n :: lengths => n + total lengths

/- One way a stream cuts a message of `size` bytes: the lengths of its pieces. -/
structure Division (size : Nat) where
  lengths : List Nat
  positive : ∀ n ∈ lengths, 0 < n
  whole : total lengths = size

def Division.undivided {size : Nat} (d : Division size) : Prop := d.lengths = [size]

instance {size : Nat} (d : Division size) : Decidable d.undivided :=
  inferInstanceAs (Decidable (d.lengths = [size]))

def cut : (lengths : List Nat) → (raw : Bytes) → List Bytes
  | [], _ => []
  | n :: lengths, raw => raw.take n :: cut lengths (raw.drop n)

theorem totalMember {lengths : List Nat} {n : Nat} (member : n ∈ lengths) : n ≤ total lengths := by
  induction lengths with
  | nil => contradiction
  | cons head lengths ih =>
    rw [total]
    rcases List.mem_cons.mp member with rfl | later
    · omega
    · have := ih later
      omega

/- A piece as long as the message leaves nothing for another. -/
theorem Division.shorter {size : Nat} (d : Division size) (divided : ¬ d.undivided) {n : Nat}
    (member : n ∈ d.lengths) : n < size := by
  obtain ⟨lengths,positive,whole⟩ := d
  obtain ⟨front,back,rfl⟩ := List.append_of_mem member
  rcases Nat.lt_or_ge n size with shorter | all
  · exact shorter
  · exfalso
    have within := totalMember member
    refine divided ?_
    cases front with
    | nil =>
      cases back with
      | nil =>
        have same : n = size := by simpa [total] using whole
        exact congrArg (fun n => [n]) same
      | cons next back =>
        have some_bytes := positive next (by simp)
        simp only [List.nil_append,total] at whole
        omega
    | cons first front =>
      have some_bytes := positive first (by simp)
      have later : n ≤ total (front ++ n :: back) := totalMember (by simp)
      simp only [List.cons_append,total] at whole
      omega

theorem cutLengths {lengths : List Nat} {raw : Bytes} (whole : total lengths = raw.length) :
    (cut lengths raw).map List.length = lengths := by
  induction lengths generalizing raw with
  | nil => rfl
  | cons n lengths ih =>
    rw [total] at whole
    have rest : total lengths = (raw.drop n).length := by
      rw [List.length_drop]
      omega
    rw [cut,List.map_cons,ih rest,List.length_take,Nat.min_eq_left (by omega)]

theorem cutFlatten {lengths : List Nat} {raw : Bytes} (whole : total lengths = raw.length) :
    (cut lengths raw).flatten = raw := by
  induction lengths generalizing raw with
  | nil =>
    have empty : raw.length = 0 := whole.symm
    exact (List.length_eq_zero_iff.mp empty).symm
  | cons n lengths ih =>
    rw [total] at whole
    have rest : total lengths = (raw.drop n).length := by
      rw [List.length_drop]
      omega
    rw [cut,List.flatten_cons,ih rest,List.take_append_drop]

theorem Division.delivers {size : Nat} (d : Division size) {raw : Bytes} (sized : raw.length = size) :
    Delivers size (cut d.lengths raw) raw := by
  have lengths := cutLengths (d.whole.trans sized.symm)
  have member : ∀ piece ∈ cut d.lengths raw, piece.length ∈ d.lengths := by
    intro piece inside
    rw [← lengths]
    exact List.mem_map.mpr ⟨piece,inside,rfl⟩
  refine ⟨fun piece inside => ?_,fun piece inside => ?_,cutFlatten (d.whole.trans sized.symm)⟩
  · exact List.length_pos_iff.mp (d.positive _ (member piece inside))
  · rw [← d.whole]
    exact totalMember (member piece inside)

/- Pieces read one after the other to the start of one buffer. -/
def overlay : (pieces : List Bytes) → (buffer : Bytes) → Bytes
  | [], buffer => buffer
  | piece :: pieces, buffer => overlay pieces (overwrite buffer 0 piece)

theorem overwriteBeyond (buffer : Bytes) {bytes : Bytes} {index : Nat}
    (short : bytes.length ≤ index) : (overwrite buffer 0 bytes)[index]? = buffer[index]? := by
  simp only [overwrite,List.take_zero,List.nil_append,Nat.zero_add]
  rw [List.getElem?_append_right short,List.getElem?_drop]
  congr 1
  omega

/- A byte behind every piece is the one the buffer held before. -/
theorem overlayBeyond {pieces : List Bytes} {index : Nat}
    (short : ∀ piece ∈ pieces, piece.length ≤ index) (buffer : Bytes) :
    (overlay pieces buffer)[index]? = buffer[index]? := by
  induction pieces generalizing buffer with
  | nil => rfl
  | cons piece pieces ih =>
    obtain ⟨here,later⟩ := List.forall_mem_cons.mp short
    rw [overlay,ih later,overwriteBeyond buffer here]

/- A read of at most `room` bytes from what arrives piece by piece; it returns
nothing once there is no piece left. -/
def readUpTo (room : Nat) : List Bytes → Bytes × List Bytes
  | [] => ([],[])
  | piece :: pieces =>
      (piece.take room,if piece.length ≤ room then pieces else piece.drop room :: pieces)

theorem readAhead (room : Nat) (pieces : List Bytes) :
    (readUpTo room pieces).1 ++ (readUpTo room pieces).2.flatten = pieces.flatten := by
  cases pieces with
  | nil => rfl
  | cons piece pieces =>
    simp only [readUpTo]
    split
    · rename_i whole
      rw [List.take_of_length_le whole,List.flatten_cons]
    · rw [List.flatten_cons,← List.append_assoc,List.take_append_drop,List.flatten_cons]

/- The consecutive blocks of `size` bytes, the last one possibly shorter. -/
def blocks (size : Nat) (stream : Bytes) : List Bytes :=
  (List.range ((stream.length + size - 1) / size)).map (fun k => (stream.drop (k * size)).take size)

end NetworkPrograms.ByteStreams
