import NetworkPrograms.H1Reader

/-! The buffer sizes that parse_ul of h1-counter reads: the texts it accepts and the
number each of them is taken for. -/
namespace NetworkPrograms.H1Sizes
open WireBytes (Bytes)
open H1Reader

/- The start of a number and its base: "0x" or "0X" for 16, a first '0' for 8. -/
inductive Marked : (mark : Bytes) → (base : Nat) → (digits : Bytes) → Prop where
  | hex (digits : Bytes) : Marked [48,120] 16 digits
  | capital (digits : Bytes) : Marked [48,88] 16 digits
  | octal (digits : Bytes) : Marked [] 8 (48 :: digits)
  | decimal (first : UInt8) (digits : Bytes) (other : first ≠ 48) : Marked [] 10 (first :: digits)

/- A number as it may be written: blanks, a sign, and digits of its base. -/
structure Numeral where
  blanks : Bytes
  signs : Bytes
  mark : Bytes
  base : Nat
  digits : Bytes
  blank : ∀ b ∈ blanks, isSpace b = true
  signed : signs = [] ∨ signs = [43] ∨ signs = [45]
  some_digit : digits ≠ []
  within : ∀ b ∈ digits, digit b < base
  marked : Marked mark base digits

def Numeral.text (l : Numeral) : Bytes := l.blanks ++ (l.signs ++ (l.mark ++ l.digits))

def Numeral.number (l : Numeral) : Nat := l.digits.foldl (fun n b => n * l.base + digit b) 0

/- A minus sign takes the number from 2^64. -/
def Numeral.value (l : Numeral) : UInt64 :=
  if l.signs = [45] then 0 - UInt64.ofNat l.number else UInt64.ofNat l.number

theorem scanAll {base : Nat} {digits : Bytes} (within : ∀ b ∈ digits, digit b < base) (n : Nat) :
    scanDigits base digits n = (digits.foldl (fun n b => n * base + digit b) n,[]) := by
  induction digits generalizing n with
  | nil => rfl
  | cons b digits ih =>
    obtain ⟨here,later⟩ := List.forall_mem_cons.mp within
    rw [scanDigits,if_pos here,ih later,List.foldl_cons]

/- The other way: what is read to its end is digits. -/
theorem scanWhole {base : Nat} {digits : Bytes} {n m : Nat} (read : scanDigits base digits n = (m,[])) :
    (∀ b ∈ digits, digit b < base) ∧ m = digits.foldl (fun n b => n * base + digit b) n := by
  induction digits generalizing n with
  | nil =>
    cases read
    exact ⟨nofun,rfl⟩
  | cons b digits ih =>
    rw [scanDigits] at read
    split at read
    · rename_i here
      obtain ⟨later,same⟩ := ih read
      exact ⟨List.forall_mem_cons.mpr ⟨here,later⟩,same⟩
    · cases read

theorem markedBase {mark digits : Bytes} {base : Nat} (marked : Marked mark base digits) : base ≤ 16 := by
  cases marked <;> decide

theorem digitPlain {b : UInt8} {base : Nat} (small : base ≤ 16) (within : digit b < base) :
    isSpace b = false ∧ b ≠ 43 ∧ b ≠ 45 := by
  have high : 48 ≤ b.toNat := by
    unfold digit at within
    split at within
    · rename_i figure
      exact UInt8.le_iff_toNat_le.mp figure.1
    split at within
    · rename_i letter
      exact Nat.le_trans (by decide) (UInt8.le_iff_toNat_le.mp letter.1)
    split at within
    · rename_i letter
      exact Nat.le_trans (by decide) (UInt8.le_iff_toNat_le.mp letter.1)
    · omega
  refine ⟨decide_eq_false ?_,?_,?_⟩
  · rintro (rfl | ⟨_,low⟩)
    · exact absurd high (by decide)
    · exact absurd (Nat.le_trans high (UInt8.le_iff_toNat_le.mp low)) (by decide)
  · rintro rfl
    exact absurd high (by decide)
  · rintro rfl
    exact absurd high (by decide)

theorem scanBaseMarked {mark digits : Bytes} {base : Nat} (some_digit : digits ≠ [])
    (within : ∀ b ∈ digits, digit b < base) (marked : Marked mark base digits) :
    scanBase (mark ++ digits) = (base,digits) := by
  cases marked with
  | hex =>
    obtain ⟨b,rest,rfl⟩ := List.exists_cons_of_ne_nil some_digit
    exact if_pos ⟨rfl,.inl rfl,within b List.mem_cons_self⟩
  | capital =>
    obtain ⟨b,rest,rfl⟩ := List.exists_cons_of_ne_nil some_digit
    exact if_pos ⟨rfl,.inr rfl,within b List.mem_cons_self⟩
  | octal rest =>
    have next : ∀ x ∈ rest, ¬ (x = 120 ∨ x = 88) := by
      intro x member
      have small := within x (List.mem_cons_of_mem _ member)
      rintro (rfl | rfl)
      · exact absurd small (by decide)
      · exact absurd small (by decide)
    match rest, next with
    | [], _ => rfl
    | [x], _ => rfl
    | x :: b :: rest, next =>
      exact (if_neg (fun hex => next x List.mem_cons_self hex.2.1)).trans (if_pos rfl)
  | decimal first rest other =>
    match rest with
    | [] => exact if_neg other
    | [x] => exact if_neg other
    | x :: b :: rest => exact (if_neg (fun hex => other hex.1)).trans (if_neg other)

/- The other way: the base that is found, and what is left to be read in it. -/
theorem scanBaseCut {text digits : Bytes} {base : Nat} (found : scanBase text = (base,digits))
    (some_digit : digits ≠ []) : ∃ mark, text = mark ++ digits ∧ Marked mark base digits := by
  unfold scanBase at found
  split at found
  · rename_i zero x b rest
    split at found
    · rename_i hex
      obtain ⟨rfl,cross,_⟩ := hex
      cases found
      rcases cross with rfl | rfl
      · exact ⟨[48,120],rfl,.hex _⟩
      · exact ⟨[48,88],rfl,.capital _⟩
    split at found
    · rename_i first
      cases found
      subst first
      exact ⟨[],rfl,.octal _⟩
    · rename_i other
      cases found
      exact ⟨[],rfl,.decimal _ _ other⟩
  · rename_i zero rest _
    split at found
    · rename_i first
      cases found
      subst first
      exact ⟨[],rfl,.octal _⟩
    · rename_i other
      cases found
      exact ⟨[],rfl,.decimal _ _ other⟩
  · cases found
    contradiction

/- Behind the sign stands neither a blank nor another sign. -/
theorem markedPlain {mark digits : Bytes} {base : Nat} (within : ∀ b ∈ digits, digit b < base)
    (marked : Marked mark base digits) :
    ∃ b rest, mark ++ digits = b :: rest ∧ isSpace b = false ∧ b ≠ 43 ∧ b ≠ 45 := by
  have small := markedBase marked
  cases marked with
  | hex => exact ⟨48,_,rfl,by decide⟩
  | capital => exact ⟨48,_,rfl,by decide⟩
  | octal => exact ⟨48,_,rfl,by decide⟩
  | decimal first rest => exact ⟨first,rest,rfl,digitPlain small (within first List.mem_cons_self)⟩

theorem scanSigned {signs mark digits : Bytes} {base : Nat} (signed : signs = [] ∨ signs = [43] ∨ signs = [45])
    (within : ∀ b ∈ digits, digit b < base) (marked : Marked mark base digits) :
    (signs ++ (mark ++ digits)).dropWhile isSpace = signs ++ (mark ++ digits) ∧
      scanSign (signs ++ (mark ++ digits)) = (decide (signs = [45]),mark ++ digits) := by
  obtain ⟨b,rest,same,plain,noPlus,noMinus⟩ := markedPlain within marked
  rw [same]
  rcases signed with rfl | rfl | rfl
  · refine ⟨List.dropWhile_cons_of_neg (by simp [plain]),?_⟩
    exact (if_neg noMinus).trans (if_neg noPlus)
  · exact ⟨rfl,rfl⟩
  · exact ⟨rfl,rfl⟩

theorem strtoulNumeral (l : Numeral) :
    strtoul l.text = if 18446744073709551616 ≤ l.number then (18446744073709551615,[],true)
      else (l.value,[],false) := by
  obtain ⟨stops,sign⟩ := scanSigned l.signed l.within l.marked
  have unread : ¬ ([] : Bytes).length = l.digits.length := fun same =>
    l.some_digit (List.length_eq_zero_iff.mp same.symm)
  rw [strtoul,Numeral.text,List.dropWhile_append_of_pos l.blank,stops,sign]
  simp only [scanBaseMarked l.some_digit l.within l.marked,scanAll l.within]
  rw [if_neg unread]
  simp only [Numeral.value,Numeral.number,decide_eq_true_eq]
  rfl

theorem signCut (text : Bytes) :
    ∃ signs, (signs = [] ∨ signs = [43] ∨ signs = [45]) ∧ text = signs ++ (scanSign text).2 := by
  cases text with
  | nil => exact ⟨[],.inl rfl,rfl⟩
  | cons b rest =>
    rw [scanSign]
    split
    · rename_i minus
      exact ⟨[45],.inr (.inr rfl),by rw [minus]; rfl⟩
    split
    · rename_i plus
      exact ⟨[43],.inr (.inl rfl),by rw [plus]; rfl⟩
    · exact ⟨[],.inl rfl,rfl⟩

/- What strtoul reads to its end is a number, or nothing at all. -/
theorem strtoulWhole {str : Bytes} {value : UInt64} {range : Bool} (read : strtoul str = (value,[],range)) :
    str = [] ∨ ∃ l : Numeral, l.text = str := by
  obtain ⟨signs,signed,cut⟩ := signCut (str.dropWhile isSpace)
  simp only [strtoul] at read
  generalize (scanSign (str.dropWhile isSpace)).1 = negative at read
  generalize (scanSign (str.dropWhile isSpace)).2 = text at read cut
  rcases scan : scanBase text with ⟨base,digits⟩
  rcases digitScan : scanDigits base digits 0 with ⟨n,rest⟩
  simp only [scan,digitScan] at read
  split at read
  · cases read
    exact .inl rfl
  rename_i some_read
  have ended : rest = [] := by
    split at read
    · cases read
      rfl
    · cases read
      rfl
  subst ended
  have some_digit : digits ≠ [] := by
    rintro rfl
    exact some_read rfl
  obtain ⟨mark,parts,marked⟩ := scanBaseCut scan some_digit
  obtain ⟨within,_⟩ := scanWhole digitScan
  refine .inr ⟨⟨str.takeWhile isSpace,signs,mark,base,digits,fun b member => ?_,signed,some_digit,within,marked⟩,?_⟩
  · exact List.all_eq_true.mp List.all_takeWhile b member
  · rw [Numeral.text]
    dsimp only
    rw [← parts,← cut]
    exact List.takeWhile_append_dropWhile

/- An errno from before the call spoils ULONG_MAX, or every value. -/
def Unspoilt (errno : Errno) (value : UInt64) : Prop :=
  errno ≠ .einval ∧ (value = 18446744073709551615 → errno ≠ .erange)

theorem parseRead {errno : Errno} {str : Bytes} {value : UInt64} (read : strtoul str = (value,[],false))
    (result : UInt64) : parseUl errno str = some result ↔ result = value ∧ Unspoilt errno value := by
  simp only [parseUl,read,ne_eq,not_true,if_false,Bool.false_eq_true,Unspoilt]
  split
  · rename_i spoilt
    refine iff_of_false nofun (fun fine => ?_)
    rcases spoilt with ⟨most,range⟩ | einval
    · exact fine.2.2 most range
    · exact fine.2.1 einval
  · rename_i unspoilt
    rw [not_or,not_and] at unspoilt
    rw [Option.some.injEq]
    exact ⟨fun same => ⟨same.symm,unspoilt.2,unspoilt.1⟩,fun fine => fine.1.symm⟩

theorem parseRange (errno : Errno) {str : Bytes} (read : strtoul str = (18446744073709551615,[],true)) :
    parseUl errno str = none := by
  simp only [parseUl,read]
  exact (if_neg (not_not_intro rfl)).trans (if_pos (.inl (by simp)))

theorem parseWhole {errno : Errno} {str : Bytes} {value : UInt64} (parsed : parseUl errno str = some value) :
    str = [] ∨ ∃ l : Numeral, l.text = str := by
  rcases read : strtoul str with ⟨v,rest,range⟩
  simp only [parseUl,read] at parsed
  split at parsed
  · contradiction
  · rename_i ended
    rw [Decidable.not_not.mp ended] at read
    exact strtoulWhole read

/- A text is accepted if it is empty, which is taken for 0, or a number below 2^64,
which is taken for itself, or for what it lacks to 2^64 behind a minus sign. -/
theorem parseUlIff (errno : Errno) (str : Bytes) (value : UInt64) :
    parseUl errno str = some value ↔ Unspoilt errno value ∧
      ((str = [] ∧ value = 0) ∨
        ∃ l : Numeral, l.text = str ∧ l.number < 18446744073709551616 ∧ value = l.value) := by
  have empty : strtoul [] = (0,[],false) := rfl
  constructor
  · intro parsed
    rcases parseWhole parsed with rfl | ⟨l,rfl⟩
    · obtain ⟨same,unspoilt⟩ := (parseRead empty value).mp parsed
      exact ⟨same ▸ unspoilt,.inl ⟨rfl,same⟩⟩
    · have read := strtoulNumeral l
      split at read
      · rw [parseRange errno read] at parsed
        contradiction
      · rename_i small
        obtain ⟨same,unspoilt⟩ := (parseRead read value).mp parsed
        exact ⟨same ▸ unspoilt,.inr ⟨l,rfl,Nat.not_le.mp small,same⟩⟩
  · rintro ⟨unspoilt,⟨rfl,rfl⟩ | ⟨l,rfl,small,rfl⟩⟩
    · exact (parseRead empty 0).mpr ⟨rfl,unspoilt⟩
    · have read := strtoulNumeral l
      rw [if_neg (Nat.not_le.mpr small)] at read
      exact (parseRead read l.value).mpr ⟨rfl,unspoilt⟩

/- "-1" asks for a buffer of 2^64 - 1 bytes, and "08" for none. -/
example : parseUl .other [45,49] = some 18446744073709551615 ∧ parseUl .other [48,56] = none := by decide

end NetworkPrograms.H1Sizes
