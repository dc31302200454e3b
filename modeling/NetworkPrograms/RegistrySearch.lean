import NetworkPrograms.RegistryState

/-! search_client_files and handle_search. A stored block is read as a C string
that ends at its own length; the searched name is read from the receive buffer,
whatever stands there, and reading past that buffer is a fault. -/
namespace NetworkPrograms.RegistrySearch
open WireBytes RegistryState

inductive Compare where
  | reachedEnd
  | stopped
  | invalid
  | fault
  deriving DecidableEq, Repr

/- The loop over `index`; the end of the stored name is tested before the end
of the searched one. -/
def compareLoop : (stored find : Bytes) → Compare
  | [], _ => .reachedEnd
  | b :: stored, find =>
      if b = 0 then .reachedEnd
      else match find with
        | [] => .fault
        | f :: find =>
            if f = 0 then .stopped
            else if f ≠ b then .invalid
            else compareLoop stored find

/- Whether the client is returned; `none` is a fault. -/
def searchClientFiles : (files : List Bytes) → (find : Bytes) → Option Bool
  | [], _ => some false
  | file :: files, find =>
      match compareLoop file find with
      | .reachedEnd => some true
      | .stopped => searchClientFiles files find
      | .invalid => searchClientFiles files find
      | .fault => none

def searchClients : List Client → (find : Bytes) → Option (Option Client)
  | [], _ => some none
  | c :: rest, find =>
      if !c.active then searchClients rest find
      else match searchClientFiles c.names find with
        | none => none
        | some true => some (some c)
        | some false => searchClients rest find

def emptyResponse : Bytes := List.replicate 10 0

/- id, address and port in network byte order; zeros for a client that is not
connected over IPv4. -/
def clientResponse (found : Client) : Bytes :=
  match found.addr with
  | .inet v4 => be32 found.id ++ be32 v4.sinAddr ++ be16 v4.sinPort
  | .inet6 => emptyResponse
  | .unspec => emptyResponse

def searchResponse : Option Client → Bytes
  | none => emptyResponse
  | some found => clientResponse found

/- One validation test of handle_search: when it fails the zero record is sent,
and only a failed send returns. `sends` gives the outcome of each send_bytes
call of this handler and `calls` counts them. -/
def complain (sock : Nat) (sends : Nat → Written) (bad : Bool) (calls : Nat) :
    List Output × Option Nat :=
  if bad then
    match sends calls with
    | .all => ([.sent sock emptyResponse],some (calls+1))
    | .failed accepted => ([.sent sock (emptyResponse.take accepted)],none)
  else ([],some calls)

def checkAscii (sock : Nat) (sends : Nat → Written) : Bytes → (calls : Nat) →
    List Output × Option Nat
  | [], calls => ([],some calls)
  | b :: rest, calls =>
      match complain sock sends (128 ≤ b) calls with
      | (out,none) => (out,none)
      | (out,some calls) => (out ++ (checkAscii sock sends rest calls).1,
          (checkAscii sock sends rest calls).2)

/- `buffer` is `recvBuffer` without its command byte, so `buffer[len - 1]` is
`recvBuffer[len]`, and for an empty payload it is the command byte itself. -/
def handleSearch (s : Server) (index : Nat) (recvBuffer : Bytes) (len : Nat)
    (sends : Nat → Written) : Option (List Output) :=
  if (s.client index).type = .unknown then some []
  else if 100 ≤ len then some []
  else
    match checkAscii (s.client index).sock sends ((recvBuffer.drop 1).take len) 0 with
    | (checked,none) => some checked
    | (checked,some calls) =>
      match recvBuffer[len]? with
      | none => none
      | some last =>
        match complain (s.client index).sock sends (last ≠ 0) calls with
        | (ended,none) => some (checked ++ ended)
        | (ended,some calls) =>
          match searchClients s.clients (recvBuffer.drop 1) with
          | none => none
          | some found =>
              some (checked ++ ended ++
                [.sent (s.client index).sock (onWire (searchResponse found) (sends calls))])

@[simp] theorem clientResponseLength (c : Client) : (clientResponse c).length = 10 := by
  unfold clientResponse
  split <;> rfl

@[simp] theorem searchResponseLength (found : Option Client) :
    (searchResponse found).length = 10 := by
  cases found with
  | none => rfl
  | some c => exact clientResponseLength c

/- The end of the stored name is reached exactly when the name is a prefix of
the text searched for: nothing tests that the text ends there too. -/
theorem compareEnd {stored : Bytes} (plain : Plain stored) (find : Bytes) :
    compareLoop stored find = .reachedEnd ↔ stored <+: find := by
  induction stored generalizing find with
  | nil => simp [compareLoop]
  | cons b stored ih =>
    obtain ⟨nonzero,plain⟩ := plainCons.mp plain
    cases find with
    | nil => simp [compareLoop,nonzero]
    | cons f find =>
      simp only [compareLoop,if_neg nonzero,List.cons_prefix_cons]
      by_cases zero : f = 0
      · have differ : b ≠ f := fun same => nonzero (same.trans zero)
        simp [zero,nonzero]
      · by_cases same : f = b
        · simp [same,nonzero,ih plain]
        · simp [zero,same,Ne.symm same]

theorem compareNoFault {stored find : Bytes} (inside : stored.length ≤ find.length) :
    compareLoop stored find ≠ .fault := by
  induction stored generalizing find with
  | nil => simp [compareLoop]
  | cons b stored ih =>
    cases find with
    | nil => simp at inside
    | cons f find =>
      have rest : compareLoop stored find ≠ .fault := ih (by simpa using inside)
      simp only [compareLoop]
      split
      · simp
      · split
        · simp
        · split
          · simp
          · exact rest

/- What the search loops need of the table: names without zero bytes that are
no longer than the memory behind the searched name. -/
def Readable (find : Bytes) (c : Client) : Prop :=
  ∀ name ∈ c.names, Plain name ∧ name.length ≤ find.length

def Matches (find : Bytes) (c : Client) : Bool :=
  c.active && c.names.any (fun name => name.isPrefixOf find)

theorem matchesIff {find : Bytes} {c : Client} :
    Matches find c = true ↔ c.active = true ∧ ∃ name ∈ c.names, name <+: find := by
  simp [Matches]

theorem searchFilesExact {files : List Bytes} {find : Bytes}
    (readable : ∀ name ∈ files, Plain name ∧ name.length ≤ find.length) :
    searchClientFiles files find = some (files.any (fun name => name.isPrefixOf find)) := by
  induction files with
  | nil => rfl
  | cons file files ih =>
    obtain ⟨⟨plain,inside⟩,readable⟩ := List.forall_mem_cons.mp readable
    have rest := ih readable
    have reached := compareEnd plain find
    simp only [searchClientFiles,List.any_cons]
    cases compared : compareLoop file find with
    | reachedEnd => simp [reached.mp compared]
    | stopped =>
      have missed : ¬ file <+: find := fun h => by simp [reached.mpr h] at compared
      simp [rest,List.isPrefixOf_iff_prefix,missed]
    | invalid =>
      have missed : ¬ file <+: find := fun h => by simp [reached.mpr h] at compared
      simp [rest,List.isPrefixOf_iff_prefix,missed]
    | fault => exact absurd compared (compareNoFault inside)

theorem searchExact {clients : List Client} {find : Bytes}
    (readable : ∀ c ∈ clients, Readable find c) :
    searchClients clients find = some (clients.find? (Matches find)) := by
  induction clients with
  | nil => rfl
  | cons c rest ih =>
    obtain ⟨here,readable⟩ := List.forall_mem_cons.mp readable
    have files := searchFilesExact here
    cases active : c.active with
    | false => simp [searchClients,Matches,active,ih readable]
    | true =>
      cases any : c.names.any (fun name => name.isPrefixOf find) with
      | false => simp [searchClients,Matches,active,files,any,ih readable]
      | true => simp [searchClients,Matches,active,files,any]

/- Outputs that are bytes on one socket and nothing else. -/
def OnlySends (sock : Nat) (out : List Output) : Prop := ∀ o ∈ out, ∃ bytes, o = .sent sock bytes

theorem onlySendsAppend {sock : Nat} {xs ys : List Output} (left : OnlySends sock xs)
    (right : OnlySends sock ys) : OnlySends sock (xs ++ ys) := by
  intro o member
  rcases List.mem_append.mp member with h | h
  · exact left o h
  · exact right o h

theorem onlySendsOne (sock : Nat) (bytes : Bytes) : OnlySends sock [.sent sock bytes] := by
  intro o member
  exact ⟨bytes,List.mem_singleton.mp member⟩

theorem complainSends (sock : Nat) (sends : Nat → Written) (bad : Bool) (calls : Nat) :
    OnlySends sock (complain sock sends bad calls).1 := by
  unfold complain
  split
  · split
    · exact onlySendsOne sock _
    · exact onlySendsOne sock _
  · exact nofun

theorem checkAsciiSends (sock : Nat) (sends : Nat → Written) (payload : Bytes) (calls : Nat) :
    OnlySends sock (checkAscii sock sends payload calls).1 := by
  induction payload generalizing calls with
  | nil => exact nofun
  | cons b payload ih =>
    have first := complainSends sock sends (128 ≤ b) calls
    simp only [checkAscii]
    split
    · rename_i out same
      exact (congrArg (fun r => OnlySends sock r.1) same).mp first
    · rename_i out calls' same
      exact onlySendsAppend ((congrArg (fun r => OnlySends sock r.1) same).mp first) (ih calls')

theorem searchSends {s : Server} {index len : Nat} {recvBuffer : Bytes} {sends : Nat → Written}
    {out : List Output} (h : handleSearch s index recvBuffer len sends = some out) :
    OnlySends (s.client index).sock out := by
  have checks := checkAsciiSends (s.client index).sock sends ((recvBuffer.drop 1).take len) 0
  unfold handleSearch at h
  split at h
  · cases h
    exact nofun
  split at h
  · cases h
    exact nofun
  split at h
  · rename_i checked same
    rw [same] at checks
    cases h
    exact checks
  · rename_i checked calls same
    rw [same] at checks
    split at h
    · contradiction
    · rename_i last read
      have ends := complainSends (s.client index).sock sends (last ≠ 0) calls
      split at h
      · rename_i ended same
        rw [same] at ends
        cases h
        exact onlySendsAppend checks ends
      · rename_i ended calls' same
        rw [same] at ends
        split at h
        · contradiction
        · cases h
          exact onlySendsAppend (onlySendsAppend checks ends) (onlySendsOne _ _)

theorem complainSent {sock : Nat} {sends : Nat → Written} (sent : ∀ k, sends k = .all)
    (bad : Bool) (calls : Nat) :
    complain sock sends bad calls =
      (List.replicate bad.toNat (.sent sock emptyResponse),some (calls + bad.toNat)) := by
  cases bad <;> simp [complain,sent]

def badBytes (payload : Bytes) : Nat := payload.countP (fun b => 128 ≤ b)

theorem checkAsciiSent {sock : Nat} {sends : Nat → Written} (sent : ∀ k, sends k = .all)
    (payload : Bytes) (calls : Nat) :
    checkAscii sock sends payload calls =
      (List.replicate (badBytes payload) (.sent sock emptyResponse),
        some (calls + badBytes payload)) := by
  induction payload generalizing calls with
  | nil => rfl
  | cons b payload ih =>
    simp only [checkAscii,complainSent sent,ih,List.replicate_append_replicate]
    by_cases high : 128 ≤ b
    · simp [badBytes,high]
      omega
    · simp [badBytes,high]

end NetworkPrograms.RegistrySearch
