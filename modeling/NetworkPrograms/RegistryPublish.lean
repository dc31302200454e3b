import NetworkPrograms.RegistryState

/-! handle_publish: the parser of a PUBLISH payload and its all-or-nothing
effect on the sender's slot. `p` is the memory from the moving pointer on and
`len` the count the code keeps beside it; reading past that memory is a fault. -/
namespace NetworkPrograms.RegistryPublish
open WireBytes RegistryState

inductive Scan where
  | found (strLen : Nat)
  | invalid
  | unterminated
  | fault
  deriving DecidableEq, Repr

/- The inner loop; `left` is `len - str_len`. -/
def scanName : (p : Bytes) → (left strLen : Nat) → Scan
  | _, 0, _ => .unterminated
  | [], _+1, _ => .fault
  | b :: p, left+1, strLen =>
      if b = 0 then .found strLen
      else if 128 ≤ b then .invalid
      else scanName p left (strLen+1)

def strncpy : (p : Bytes) → (n : Nat) → Bytes
  | _, 0 => []
  | [], n+1 => List.replicate (n+1) 0
  | b :: p, n+1 => if b = 0 then List.replicate (n+1) 0 else b :: strncpy p n

inductive Parsed where
  | files (names : List Bytes)
  | cleanUp
  | fault
  deriving DecidableEq, Repr

def publishLoop : (count : Nat) → (p : Bytes) → (len : Nat) → (files : List Bytes) → Parsed
  | 0, _, _, files => .files files
  | count+1, p, len, files =>
      match scanName p len 0 with
      | .found strLen =>
          publishLoop count (p.drop (strLen+1)) (len - (strLen+1)) (files ++ [strncpy p strLen])
      | .invalid => .cleanUp
      | .unterminated => .cleanUp
      | .fault => .fault

/- From the allocation of the list on: parse, then replace or roll back. -/
def publishFiles (s : Server) (index filesLen : Nat) (p : Bytes) (len : Nat) :
    Option (Server × List Output) :=
  match publishLoop filesLen p len [] with
  | .files files =>
      some (s.setClient index
        {clearClientFiles (s.client index) with filesLen := filesLen, files := some files},
        [.testPublish files])
  | .cleanUp => some (s,[])
  | .fault => none

def handlePublish (s : Server) (index : Nat) (buffer : Bytes) (len : Nat) :
    Option (Server × List Output) :=
  if (s.client index).type = .unknown then some (s,[])
  else if 1199 ≤ len then some (s,[])
  else if len < 4 then some (s,[])
  else match buffer with
    | a :: b :: c :: d :: p =>
        if s.maxFiles < (readBe32 a b c d).toNat then some (s,[])
        else publishFiles s index (readBe32 a b c d).toNat p (len - 4)
    | _ => none

/- The characters a stored name may have: 1 to 127. -/
def AsciiName (name : Bytes) : Prop := ∀ b ∈ name, b ≠ 0 ∧ b < 128
instance (name) : Decidable (AsciiName name) := List.decidableBAll (fun b => b ≠ 0 ∧ b < 128) name

theorem asciiPlain {name} (ascii : AsciiName name) : Plain name := fun b h => (ascii b h).1

theorem asciiCons {b : UInt8} {name : Bytes} :
    AsciiName (b :: name) ↔ (b ≠ 0 ∧ b < 128) ∧ AsciiName name := by
  simp [AsciiName]

theorem scanSound {p : Bytes} {left start strLen : Nat}
    (found : scanName p left start = .found strLen) :
    ∃ name tail, p = name ++ 0 :: tail ∧ strLen = start + name.length ∧ name.length < left ∧
      AsciiName name := by
  induction p generalizing left start with
  | nil => cases left <;> simp [scanName] at found
  | cons b p ih =>
    cases left with
    | zero => simp [scanName] at found
    | succ left =>
      simp only [scanName] at found
      split at found
      · rename_i zero
        cases found
        exact ⟨[],p,by simp [zero],rfl,by simp,by simp [AsciiName]⟩
      · rename_i nonzero
        split at found
        · contradiction
        · rename_i low
          obtain ⟨name,tail,rfl,rfl,short,ascii⟩ := ih found
          refine ⟨b :: name,tail,rfl,by simp; omega,by simpa using short,?_⟩
          exact asciiCons.mpr ⟨⟨nonzero,UInt8.not_le.mp low⟩,ascii⟩

theorem scanComplete {name tail : Bytes} (ascii : AsciiName name) {left : Nat}
    (short : name.length < left) (start : Nat) :
    scanName (name ++ 0 :: tail) left start = .found (start + name.length) := by
  induction name generalizing left start with
  | nil =>
    cases left with
    | zero => simp at short
    | succ left => simp [scanName]
  | cons b name ih =>
    cases left with
    | zero => simp at short
    | succ left =>
      obtain ⟨⟨nonzero,low⟩,ascii⟩ := asciiCons.mp ascii
      have step := ih ascii (by simpa using short) (start+1)
      simp only [List.cons_append,scanName,if_neg nonzero,if_neg (UInt8.not_le.mpr low),step,
        List.length_cons]
      congr 1
      omega

theorem scanNoFault {p : Bytes} {left start : Nat} (inside : left ≤ p.length) :
    scanName p left start ≠ .fault := by
  induction p generalizing left start with
  | nil => cases Nat.le_zero.mp inside; simp [scanName]
  | cons b p ih =>
    cases left with
    | zero => simp [scanName]
    | succ left =>
      simp only [scanName]
      split
      · simp
      · split
        · simp
        · exact ih (by simpa using inside)

theorem strncpyName {name : Bytes} (plain : Plain name) (tail : Bytes) :
    strncpy (name ++ tail) name.length = name := by
  induction name with
  | nil => simp [strncpy]
  | cons b name ih =>
    obtain ⟨nonzero,plain⟩ := plainCons.mp plain
    simp [strncpy,nonzero,ih plain]

/- The outer loop reads `count` names and nothing else decides what it stores;
the induction carries the names already in `files`. -/
theorem loopSound {count : Nat} {p : Bytes} {len : Nat} {files out : List Bytes}
    (done : publishLoop count p len files = .files out) :
    ∃ names tail, out = files ++ names ∧ names.length = count ∧
      p = encodeNames names ++ tail ∧ sizeNames names ≤ len ∧ ∀ name ∈ names, AsciiName name := by
  induction count generalizing p len files with
  | zero =>
    cases done
    exact ⟨[],p,by simp⟩
  | succ count ih =>
    simp only [publishLoop] at done
    split at done <;> try contradiction
    rename_i strLen found
    obtain ⟨name,tail,rfl,rfl,short,ascii⟩ := scanSound found
    have copied : strncpy (name ++ 0 :: tail) (0 + name.length) = name := by
      rw [Nat.zero_add]
      exact strncpyName (asciiPlain ascii) _
    have rest : (name ++ 0 :: tail).drop (0 + name.length + 1) = tail := by
      rw [Nat.zero_add,← List.drop_drop,List.drop_left]
      rfl
    rw [copied,rest] at done
    obtain ⟨names,tail',rfl,rfl,rfl,fits,asciis⟩ := ih done
    refine ⟨name :: names,tail',by simp,rfl,by simp,by simp; omega,?_⟩
    exact List.forall_mem_cons.mpr ⟨ascii,asciis⟩

theorem loopComplete {names : List Bytes} (asciis : ∀ name ∈ names, AsciiName name) {len : Nat}
    (fits : sizeNames names ≤ len) (tail : Bytes) (files : List Bytes) :
    publishLoop names.length (encodeNames names ++ tail) len files = .files (files ++ names) := by
  induction names generalizing len files with
  | nil => simp [publishLoop]
  | cons name names ih =>
    obtain ⟨ascii,asciis⟩ := List.forall_mem_cons.mp asciis
    rw [sizeCons] at fits
    have shape : encodeNames (name :: names) ++ tail = name ++ 0 :: (encodeNames names ++ tail) := by
      simp
    have rest : (name ++ 0 :: (encodeNames names ++ tail)).drop (name.length + 1) =
        encodeNames names ++ tail := by
      rw [← List.drop_drop,List.drop_left]
      rfl
    rw [List.length_cons,publishLoop,shape,scanComplete ascii (by omega) 0]
    simp only [Nat.zero_add,strncpyName (asciiPlain ascii),rest]
    rw [ih asciis (by omega)]
    simp

theorem loopNoFault {count : Nat} {p : Bytes} {len : Nat} {files : List Bytes}
    (inside : len ≤ p.length) : publishLoop count p len files ≠ .fault := by
  induction count generalizing p len files with
  | zero => simp [publishLoop]
  | succ count ih =>
    simp only [publishLoop]
    split
    · exact ih (by simp only [List.length_drop]; omega)
    · simp
    · simp
    · rename_i bad
      exact absurd bad (scanNoFault inside)

/- What an accepted payload is, with the bytes behind it that are not read. -/
structure Accepted (s : Server) (index : Nat) (buffer : Bytes) (len : Nat) (names : List Bytes) :
    Prop where
  gate : (s.client index).type ≠ .unknown
  enough : 4 ≤ len
  short : len ≤ 1198
  count : names.length ≤ s.maxFiles
  ascii : ∀ name ∈ names, AsciiName name
  fits : 4 + sizeNames names ≤ len
  shape : ∃ n : UInt32, n.toNat = names.length ∧
    ∃ tail, buffer = be32 n ++ encodeNames names ++ tail

def published (s : Server) (index : Nat) (names : List Bytes) : Server :=
  s.setClient index
    {clearClientFiles (s.client index) with filesLen := names.length, files := some names}

theorem filesCases {s s' : Server} {index filesLen len : Nat} {p : Bytes} {out : List Output}
    (h : publishFiles s index filesLen p len = some (s',out)) :
    (s' = s ∧ out = []) ∨
      ∃ names tail, names.length = filesLen ∧ p = encodeNames names ++ tail ∧
        sizeNames names ≤ len ∧ (∀ name ∈ names, AsciiName name) ∧
        s' = published s index names ∧ out = [.testPublish names] := by
  unfold publishFiles at h
  split at h
  · rename_i files done
    cases h
    obtain ⟨names,tail,stored,rfl,rfl,fits,ascii⟩ := loopSound done
    rw [List.nil_append] at stored
    subst stored
    exact .inr ⟨files,tail,rfl,rfl,fits,ascii,rfl,rfl⟩
  · cases h
    exact .inl ⟨rfl,rfl⟩
  · contradiction

theorem publishCases {s s' : Server} {index len : Nat} {buffer : Bytes} {out : List Output}
    (h : handlePublish s index buffer len = some (s',out)) :
    (s' = s ∧ out = []) ∨
      ∃ names, Accepted s index buffer len names ∧ s' = published s index names ∧
        out = [.testPublish names] := by
  unfold handlePublish at h
  split at h
  · cases h
    exact .inl ⟨rfl,rfl⟩
  rename_i gate
  split at h
  · cases h
    exact .inl ⟨rfl,rfl⟩
  rename_i short
  split at h
  · cases h
    exact .inl ⟨rfl,rfl⟩
  rename_i enough
  split at h
  · rename_i a b c d p
    split at h
    · cases h
      exact .inl ⟨rfl,rfl⟩
    rename_i count
    rcases filesCases h with same | ⟨names,tail,length,rfl,fits,ascii,rfl,rfl⟩
    · exact .inl same
    refine .inr ⟨names,⟨gate,by omega,by omega,by omega,ascii,by omega,_,length.symm,tail,?_⟩,rfl,rfl⟩
    rw [be32Read]
    rfl
  · contradiction

theorem filesAccepted {s : Server} {index len : Nat} {names : List Bytes}
    (ascii : ∀ name ∈ names, AsciiName name) (fits : sizeNames names ≤ len) (tail : Bytes) :
    publishFiles s index names.length (encodeNames names ++ tail) len =
      some (published s index names,[.testPublish names]) := by
  have loop := loopComplete ascii fits tail []
  rw [List.nil_append] at loop
  unfold publishFiles
  rw [loop]
  rfl

theorem publishAccepts {s : Server} {index len : Nat} {buffer : Bytes} {names : List Bytes}
    (accepted : Accepted s index buffer len names) :
    handlePublish s index buffer len =
      some (published s index names,[.testPublish names]) := by
  obtain ⟨gate,enough,short,count,ascii,fits,n,value,tail,rfl⟩ := accepted
  unfold handlePublish
  rw [if_neg gate,if_neg (by omega),if_neg (by omega)]
  simp only [be32,List.cons_append,List.nil_append,readBe32Word]
  rw [value,if_neg (by omega)]
  exact filesAccepted ascii (by omega) tail

theorem filesTotal (s : Server) (index filesLen : Nat) {p : Bytes} {len : Nat}
    (inside : len ≤ p.length) : ∃ r, publishFiles s index filesLen p len = some r := by
  unfold publishFiles
  split
  · exact ⟨_,rfl⟩
  · exact ⟨_,rfl⟩
  · rename_i bad
    exact absurd bad (loopNoFault inside)

theorem publishTotal (s : Server) (index : Nat) {buffer : Bytes} {len : Nat}
    (inside : len ≤ buffer.length) : ∃ r, handlePublish s index buffer len = some r := by
  unfold handlePublish
  split
  · exact ⟨_,rfl⟩
  split
  · exact ⟨_,rfl⟩
  split
  · exact ⟨_,rfl⟩
  rename_i enough
  obtain ⟨a,b,c,d,p,rfl⟩ := wordAhead (show 4 ≤ buffer.length by omega)
  dsimp only
  split
  · exact ⟨_,rfl⟩
  · simp only [List.length_cons] at inside
    exact filesTotal s index _ (by omega)

end NetworkPrograms.RegistryPublish
