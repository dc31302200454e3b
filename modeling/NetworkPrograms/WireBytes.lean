/-! Byte strings as protocols put them on a wire: big-endian words, names ended
by a zero byte, and streams cut into records of one size. -/
namespace NetworkPrograms.WireBytes

abbrev Bytes := List UInt8

def be32 (n : UInt32) : Bytes :=
  [UInt8.ofNat (n.toNat / 16777216),UInt8.ofNat (n.toNat / 65536),UInt8.ofNat (n.toNat / 256),
    UInt8.ofNat n.toNat]

def readBe32 (a b c d : UInt8) : UInt32 :=
  UInt32.ofNat (a.toNat * 16777216 + b.toNat * 65536 + c.toNat * 256 + d.toNat)

def be16 (n : UInt16) : Bytes := [UInt8.ofNat (n.toNat / 256),UInt8.ofNat n.toNat]

@[simp] theorem be32Length (n : UInt32) : (be32 n).length = 4 := rfl
@[simp] theorem be16Length (n : UInt16) : (be16 n).length = 2 := rfl

theorem readBe32Word (n : UInt32) :
    readBe32 (UInt8.ofNat (n.toNat / 16777216)) (UInt8.ofNat (n.toNat / 65536))
      (UInt8.ofNat (n.toNat / 256)) (UInt8.ofNat n.toNat) = n := by
  have bound := n.toNat_lt
  apply UInt32.toNat_inj.mp
  simp only [readBe32,UInt32.toNat_ofNat',UInt8.toNat_ofNat']
  omega

theorem be32Read (a b c d : UInt8) : be32 (readBe32 a b c d) = [a,b,c,d] := by
  have ha := a.toNat_lt
  have hb := b.toNat_lt
  have hc := c.toNat_lt
  have hd := d.toNat_lt
  have value : (readBe32 a b c d).toNat =
      a.toNat * 16777216 + b.toNat * 65536 + c.toNat * 256 + d.toNat := by
    simp only [readBe32,UInt32.toNat_ofNat']
    omega
  simp only [be32,value,List.cons.injEq,and_true]
  refine ⟨?_,?_,?_,?_⟩ <;> apply UInt8.toNat_inj.mp <;>
    simp only [UInt8.toNat_ofNat'] <;> omega

theorem be32Injective {m n : UInt32} (same : be32 m = be32 n) : m = n := by
  simp only [be32,List.cons.injEq,and_true] at same
  obtain ⟨h0,h1,h2,h3⟩ := same
  rw [← readBe32Word m,← readBe32Word n,h0,h1,h2,h3]

theorem wordAhead {raw : Bytes} (enough : 4 ≤ raw.length) :
    ∃ a b c d rest, raw = a :: b :: c :: d :: rest := by
  match raw, enough with
  | a :: b :: c :: d :: rest, _ => exact ⟨a,b,c,d,rest,rfl⟩
  | [], enough | [_], enough | [_,_], enough | [_,_,_], enough => simp at enough

def be64 (n : UInt64) : Bytes :=
  [UInt8.ofNat (n.toNat / 72057594037927936),UInt8.ofNat (n.toNat / 281474976710656),
    UInt8.ofNat (n.toNat / 1099511627776),UInt8.ofNat (n.toNat / 4294967296),
    UInt8.ofNat (n.toNat / 16777216),UInt8.ofNat (n.toNat / 65536),UInt8.ofNat (n.toNat / 256),
    UInt8.ofNat n.toNat]

def readBe64 (a b c d e f g h : UInt8) : UInt64 :=
  UInt64.ofNat ((readBe32 a b c d).toNat * 4294967296 + (readBe32 e f g h).toNat)

@[simp] theorem be64Length (n : UInt64) : (be64 n).length = 8 := rfl

/- A byte of the low word is the byte of the whole word. -/
theorem lowByte {shift : Nat} (inside : 256 * shift ∣ 4294967296) (n : Nat) :
    UInt8.ofNat (n % 4294967296 / shift) = UInt8.ofNat (n / shift) := by
  obtain ⟨more,words⟩ := inside
  apply UInt8.toNat_inj.mp
  rw [UInt8.toNat_ofNat',UInt8.toNat_ofNat',words,Nat.mul_comm 256 shift,Nat.mul_assoc,
    Nat.mod_mul_right_div_self]
  exact Nat.mod_mul_right_mod (n / shift) 256 more

theorem readBe64Word (n : UInt64) :
    readBe64 (UInt8.ofNat (n.toNat / 72057594037927936)) (UInt8.ofNat (n.toNat / 281474976710656))
      (UInt8.ofNat (n.toNat / 1099511627776)) (UInt8.ofNat (n.toNat / 4294967296))
      (UInt8.ofNat (n.toNat / 16777216)) (UInt8.ofNat (n.toNat / 65536))
      (UInt8.ofNat (n.toNat / 256)) (UInt8.ofNat n.toNat) = n := by
  have bound := n.toNat_lt
  have high := readBe32Word (UInt32.ofNat (n.toNat / 4294967296))
  have low := readBe32Word (UInt32.ofNat (n.toNat % 4294967296))
  have upper : (UInt32.ofNat (n.toNat / 4294967296)).toNat = n.toNat / 4294967296 := by
    rw [UInt32.toNat_ofNat']
    omega
  have lower : (UInt32.ofNat (n.toNat % 4294967296)).toNat = n.toNat % 4294967296 := by
    rw [UInt32.toNat_ofNat']
    omega
  have last : UInt8.ofNat (n.toNat % 4294967296) = UInt8.ofNat n.toNat := by
    have byte := lowByte (show 256 * 1 ∣ 4294967296 by decide) n.toNat
    rwa [Nat.div_one,Nat.div_one] at byte
  rw [upper,Nat.div_div_eq_div_mul,Nat.div_div_eq_div_mul,Nat.div_div_eq_div_mul] at high
  rw [lower,lowByte (by decide),lowByte (by decide),lowByte (by decide),last] at low
  rw [readBe64,high,low,upper,lower,Nat.div_add_mod',UInt64.ofNat_toNat]

theorem readBe32Low (a b c d : UInt8) : (readBe32 a b c d).toNat % 256 = d.toNat := by
  have ha := a.toNat_lt
  have hb := b.toNat_lt
  have hc := c.toNat_lt
  have hd := d.toNat_lt
  simp only [readBe32,UInt32.toNat_ofNat']
  omega

theorem readBe64Low (a b c d e f g h : UInt8) : (readBe64 a b c d e f g h).toNat % 256 = h.toNat := by
  have low := readBe32Low e f g h
  have high := (readBe32 a b c d).toNat_lt
  have rest := (readBe32 e f g h).toNat_lt
  simp only [readBe64,UInt64.toNat_ofNat']
  omega

/- A plain name holds no zero byte, so its end on the wire is the first one. -/
def Plain (name : Bytes) : Prop := ∀ b ∈ name, b ≠ 0
instance (name) : Decidable (Plain name) := List.decidableBAll (fun b => b ≠ 0) name

theorem plainCons {b : UInt8} {name : Bytes} : Plain (b :: name) ↔ b ≠ 0 ∧ Plain name := by
  simp [Plain]

def isAscii (raw : Bytes) : Bool := raw.all (fun b => b < 128)

theorem asciiBelow {raw : Bytes} : isAscii raw = true ↔ ∀ b ∈ raw, b < 128 := by
  simp [isAscii]

def encodeNames (names : List Bytes) : Bytes := names.flatMap (fun name => name ++ [0])

@[simp] theorem encodeNil : encodeNames [] = [] := rfl
@[simp] theorem encodeCons (name : Bytes) (names : List Bytes) :
    encodeNames (name :: names) = name ++ 0 :: encodeNames names := by
  simp [encodeNames]

def sizeNames : List Bytes → Nat
  | [] => 0
  | name :: names => name.length + 1 + sizeNames names

@[simp] theorem sizeNil : sizeNames [] = 0 := rfl
@[simp] theorem sizeCons (name : Bytes) (names : List Bytes) :
    sizeNames (name :: names) = name.length + 1 + sizeNames names := rfl

theorem sizeAppend (xs ys : List Bytes) : sizeNames (xs ++ ys) = sizeNames xs + sizeNames ys := by
  induction xs with
  | nil => simp
  | cons name xs ih =>
    rw [List.cons_append,sizeCons,sizeCons,ih]
    omega

theorem encodeLength (names : List Bytes) : (encodeNames names).length = sizeNames names := by
  induction names with
  | nil => rfl
  | cons name names ih => simp [ih]; omega

theorem countNames (names : List Bytes) : names.length ≤ sizeNames names := by
  induction names with
  | nil => exact Nat.le_refl 0
  | cons name names ih =>
    rw [List.length_cons,sizeCons]
    omega

theorem memberSize {name : Bytes} {names : List Bytes} (member : name ∈ names) :
    name.length + 1 ≤ sizeNames names := by
  induction names with
  | nil => simp at member
  | cons head names ih =>
    rw [sizeCons]
    rcases List.mem_cons.mp member with rfl | rest
    · omega
    · have := ih rest
      omega

/- The names a sender takes, in order, until the next one does not fit. -/
def fit : (room : Nat) → List Bytes → List Bytes
  | _, [] => []
  | room, name :: names =>
      if name.length + 1 ≤ room then name :: fit (room - (name.length + 1)) names else []

theorem fitPrefix (room : Nat) (names : List Bytes) : fit room names <+: names := by
  induction names generalizing room with
  | nil => exact List.nil_prefix
  | cons name names ih =>
    rw [fit]
    split
    · exact List.cons_prefix_cons.mpr ⟨rfl,ih _⟩
    · exact List.nil_prefix

theorem fitSize (room : Nat) (names : List Bytes) : sizeNames (fit room names) ≤ room := by
  induction names generalizing room with
  | nil => exact Nat.zero_le _
  | cons name names ih =>
    rw [fit]
    split
    · have rest := ih (room - (name.length + 1))
      rw [sizeCons]
      omega
    · exact Nat.zero_le _

theorem fitLongest {room : Nat} {names taken : List Bytes} (start : taken <+: names)
    (fits : sizeNames taken ≤ room) : taken <+: fit room names := by
  induction names generalizing room taken with
  | nil =>
    rw [List.prefix_nil.mp start]
    exact List.nil_prefix
  | cons name names ih =>
    cases taken with
    | nil => exact List.nil_prefix
    | cons head taken =>
      obtain ⟨rfl,onward⟩ := List.cons_prefix_cons.mp start
      rw [sizeCons] at fits
      rw [fit,if_pos (by omega)]
      exact List.cons_prefix_cons.mpr ⟨rfl,ih onward (by omega)⟩

/- The room is used up exactly when some initial part of the names uses it up. -/
theorem fitFull {room : Nat} {names : List Bytes} :
    sizeNames (fit room names) = room ↔ ∃ taken, taken <+: names ∧ sizeNames taken = room := by
  constructor
  · intro full
    exact ⟨_,fitPrefix room names,full⟩
  · intro ⟨taken,start,full⟩
    obtain ⟨more,same⟩ := fitLongest start (Nat.le_of_eq full)
    have most := fitSize room names
    rw [← same,sizeAppend] at most ⊢
    omega

def splitName : Bytes → Option (Bytes × Bytes)
  | [] => none
  | b :: rest =>
      if b = 0 then some ([],rest)
      else (splitName rest).map (fun (name,tail) => (b :: name,tail))

theorem splitExact {raw name tail : Bytes} :
    splitName raw = some (name,tail) ↔ raw = name ++ 0 :: tail ∧ Plain name := by
  induction raw generalizing name with
  | nil => simp [splitName]
  | cons b rest ih =>
    by_cases zero : b = 0
    · cases name with
      | nil => simp [splitName,zero,Plain]
      | cons c name =>
        simp only [splitName,zero,if_true,Option.some.injEq,Prod.mk.injEq,plainCons,List.cons_append,
          List.cons.injEq]
        constructor
        · rintro ⟨empty,-⟩
          contradiction
        · rintro ⟨⟨same,-⟩,nonzero,-⟩
          exact absurd same.symm nonzero
    · cases name with
      | nil => simp [splitName,zero]
      | cons c name =>
        simp only [splitName,zero,if_false,Option.map_eq_some_iff,Prod.exists,Prod.mk.injEq,
          List.cons.injEq,List.cons_append,plainCons]
        constructor
        · rintro ⟨name',tail',split,⟨rfl,rfl⟩,rfl⟩
          obtain ⟨same,plain⟩ := ih.mp split
          exact ⟨⟨rfl,same⟩,zero,plain⟩
        · rintro ⟨⟨rfl,same⟩,-,plain⟩
          exact ⟨name,tail,ih.mpr ⟨same,plain⟩,⟨rfl,rfl⟩,rfl⟩

def decodeNames : Nat → Bytes → Option (List Bytes × Bytes)
  | 0, raw => some ([],raw)
  | n+1, raw => do
      let (name,rest) ← splitName raw
      let (names,tail) ← decodeNames n rest
      some (name :: names,tail)

theorem decodeExact {n : Nat} {raw tail : Bytes} {names : List Bytes} :
    decodeNames n raw = some (names,tail) ↔
      raw = encodeNames names ++ tail ∧ names.length = n ∧ ∀ name ∈ names, Plain name := by
  induction n generalizing raw names with
  | zero =>
    simp only [decodeNames,Option.some.injEq,Prod.mk.injEq]
    constructor
    · rintro ⟨rfl,rfl⟩
      simp
    · rintro ⟨rfl,empty,-⟩
      cases List.length_eq_zero_iff.mp empty
      simp
  | succ n ih =>
    simp only [decodeNames,bind,Option.bind_eq_some_iff,Prod.exists,Option.some.injEq,Prod.mk.injEq]
    constructor
    · rintro ⟨name,rest,split,names',tail',decoded,rfl,rfl⟩
      obtain ⟨rfl,plain⟩ := splitExact.mp split
      obtain ⟨rfl,rfl,plains⟩ := ih.mp decoded
      exact ⟨by simp,rfl,by simpa using ⟨plain,plains⟩⟩
    · rintro ⟨rfl,count,plains⟩
      cases names with
      | nil => simp at count
      | cons name names =>
        obtain ⟨plain,plains⟩ := List.forall_mem_cons.mp plains
        refine ⟨name,encodeNames names ++ tail,splitExact.mpr ⟨by simp,plain⟩,names,tail,?_,rfl,rfl⟩
        exact ih.mpr ⟨rfl,by simpa using count,plains⟩

/- A plain name is a prefix of stored text exactly when it is a prefix of the
text up to its first zero byte: what follows the terminator plays no part. -/
theorem plainPrefix {name text junk : Bytes} (plain : Plain name) :
    name <+: text ++ 0 :: junk ↔ name <+: text := by
  induction name generalizing text with
  | nil => simp
  | cons b name ih =>
    obtain ⟨nonzero,plain⟩ := plainCons.mp plain
    cases text with
    | nil => simp [List.cons_prefix_cons,nonzero]
    | cons c text => simp [List.cons_prefix_cons,ih plain]

/- The bytes of a stream read in blocks of `n`, the last one possibly short. -/
def records (n : Nat) (raw : Bytes) : List Bytes :=
  if raw = [] ∨ n = 0 then [] else raw.take n :: records n (raw.drop n)
termination_by raw.length
decreasing_by
  rename_i more
  have : 0 < raw.length := List.length_pos_iff.mpr (fun e => more (.inl e))
  simp only [List.length_drop]
  omega

theorem recordsFlatten {n : Nat} (positive : 0 < n) {blocks : List Bytes}
    (sized : ∀ block ∈ blocks, block.length = n) : records n blocks.flatten = blocks := by
  induction blocks with
  | nil => unfold records; simp
  | cons block blocks ih =>
    obtain ⟨size,sized⟩ := List.forall_mem_cons.mp sized
    have some_byte : block ≠ [] := fun e => by simp [e] at size; omega
    unfold records
    rw [if_neg (by simp [some_byte]; omega)]
    simp only [List.flatten_cons,← size,List.take_left,List.drop_left]
    rw [size,ih sized]

/- The outcome of handing a buffer to a socket or a file until all of it is
taken: everything, or an error after some of its bytes. -/
inductive Written where
  | all
  | failed (accepted : Nat)
  deriving DecidableEq, Repr

def onWire (buff : Bytes) : Written → Bytes
  | .all => buff
  | .failed accepted => buff.take accepted

end NetworkPrograms.WireBytes
