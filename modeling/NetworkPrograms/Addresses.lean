/-! The loops over the addresses of getaddrinfo: lookup_and_connect, connect_socket and
bind_and_listen of the C programs, with the descriptors the process has open. A
descriptor comes from socket and goes with close; the newest stands first. -/
namespace NetworkPrograms.Addresses

/- One entry of the list: what socket returns for it, and whether connect or bind
succeeds on that. -/
structure Address where
  socket : Option Nat
  works : Bool
  deriving DecidableEq, Repr

/- What a call leaves: its value (none for -1), the open descriptors, and whether the
list of getaddrinfo has not been given back. -/
structure Tried where
  sock : Option Nat
  fds : List Nat
  listKept : Bool
  deriving DecidableEq, Repr

/- The loop they share: a socket that does not work is closed again. -/
def tryAll : List Address → (fds : List Nat) → Option Nat × List Nat
  | [], fds => (none,fds)
  | rp :: rest, fds =>
      match rp.socket with
      | none => tryAll rest fds
      | some s => if rp.works then (some s,s :: fds) else tryAll rest ((s :: fds).erase s)

/- lab_03/client.c and lab_03/http_start.c. -/
def lookupAndConnect (result : Option (List Address)) (fds : List Nat) : Tried :=
  match result with
  | none => ⟨none,fds,false⟩
  | some addresses => match tryAll addresses fds with
      | (none,fds) => ⟨none,fds,true⟩
      | (some s,fds) => ⟨some s,fds,false⟩

/- lab_04/dl_request.c. -/
def connectSocket (result : Option (List Address)) (fds : List Nat) : Tried :=
  match result with
  | none => ⟨none,fds,false⟩
  | some addresses =>
      let (sock,fds) := tryAll addresses fds
      ⟨sock,fds,false⟩

/- lab_03/server.c, lab_10/server.c and program_04/registry.c. -/
def bindAndListen (result : Option (List Address)) (listens : Bool) (fds : List Nat) : Tried :=
  match result with
  | none => ⟨none,fds,false⟩
  | some addresses => match tryAll addresses fds with
      | (none,fds) => ⟨none,fds,true⟩
      | (some s,fds) => if listens then ⟨some s,fds,false⟩ else ⟨none,fds.erase s,true⟩

def Address.usable (rp : Address) : Bool := rp.socket.isSome && rp.works

/- The descriptor of the first address that can be used. -/
def firstUsable (addresses : List Address) : Option Nat := (addresses.find? Address.usable).bind Address.socket

theorem tryAllFirst (addresses : List Address) (fds : List Nat) :
    tryAll addresses fds = (firstUsable addresses,(firstUsable addresses).toList ++ fds) := by
  induction addresses with
  | nil => rfl
  | cons rp rest ih =>
    obtain ⟨socket,works⟩ := rp
    cases socket with
    | none => exact ih
    | some s =>
      cases works with
      | true => rfl
      | false =>
        simp only [tryAll,Bool.false_eq_true,if_false,List.erase_cons_head]
        exact ih

/- The clients return a socket of the first address that can be reached and the servers
one that is bound to the first they can have; no other descriptor stays open. Only
dl_request gives the list back when no address can be used. -/
theorem opensFirst (addresses : List Address) (listens : Bool) (fds : List Nat) :
    (lookupAndConnect (some addresses) fds = ⟨firstUsable addresses,
      (firstUsable addresses).toList ++ fds,(firstUsable addresses).isNone⟩) ∧
    (connectSocket (some addresses) fds = ⟨firstUsable addresses,
      (firstUsable addresses).toList ++ fds,false⟩) ∧
    bindAndListen (some addresses) listens fds =
      let sock := if listens then firstUsable addresses else none
      ⟨sock,sock.toList ++ fds,sock.isNone⟩ := by
  have tried := tryAllFirst addresses fds
  unfold lookupAndConnect connectSocket bindAndListen
  simp only [tried]
  cases firstUsable addresses with
  | none => cases listens <;> simp
  | some s => cases listens <;> simp

/- A remote address of program_01/h1-counter.c: what socket returns for it, what
getaddrinfo finds for the local address in its family, and whether connect succeeds. -/
structure Remote where
  socket : Option Nat
  locals : Option (List Address)
  works : Bool

/- bind_socket: a socket that cannot be bound stays open. -/
def bindSocket : List Address → (fds : List Nat) → Option Nat × List Nat
  | [], fds => (none,fds)
  | rp :: rest, fds =>
      match rp.socket with
      | none => bindSocket rest fds
      | some s => if rp.works then (some s,s :: fds) else bindSocket rest (s :: fds)

/- The socket of one turn of connect_socket; `localIp` is set when one was asked for. -/
def openSocket (localIp : Bool) (rp : Remote) (fds : List Nat) : Option Nat × List Nat :=
  if localIp then
    match rp.locals with
    | none => (none,fds)
    | some locals => bindSocket locals fds
  else (rp.socket,rp.socket.toList ++ fds)

/- connect_socket of program_01/h1-counter.c, behind its getaddrinfo. -/
def connectH1 (localIp : Bool) : List Remote → (fds : List Nat) → Option Nat × List Nat
  | [], fds => (none,fds)
  | rp :: rest, fds =>
      match openSocket localIp rp fds with
      | (none,fds) => connectH1 localIp rest fds
      | (some s,fds) => if rp.works then (some s,fds) else connectH1 localIp rest (fds.erase s)

/- The sockets that could not be bound before one could, the last one first. -/
def unbound (locals : List Address) : List Nat :=
  ((locals.takeWhile (fun rp => !rp.usable)).filterMap Address.socket).reverse

/- What a turn leaves open that it has no use for. -/
def Remote.leaked (localIp : Bool) (rp : Remote) : List Nat :=
  if localIp then unbound (rp.locals.getD []) else []

def Remote.sock (localIp : Bool) (rp : Remote) : Option Nat :=
  if localIp then firstUsable (rp.locals.getD []) else rp.socket

def Remote.usable (localIp : Bool) (rp : Remote) : Bool := (rp.sock localIp).isSome && rp.works

/- The remote addresses up to the one that is connected to. -/
def triedOnes (localIp : Bool) : List Remote → List Remote
  | [] => []
  | rp :: rest => if rp.usable localIp then [rp] else rp :: triedOnes localIp rest

theorem bindSocketFirst (locals : List Address) (fds : List Nat) :
    bindSocket locals fds =
      (firstUsable locals,(firstUsable locals).toList ++ (unbound locals ++ fds)) := by
  induction locals generalizing fds with
  | nil => rfl
  | cons rp rest ih =>
    obtain ⟨socket,works⟩ := rp
    cases socket with
    | none =>
      simp only [bindSocket,ih]
      rfl
    | some s =>
      cases works with
      | true => rfl
      | false =>
        simp only [bindSocket,Bool.false_eq_true,if_false,ih]
        have first : firstUsable (⟨some s,false⟩ :: rest) = firstUsable rest := rfl
        have left : unbound (⟨some s,false⟩ :: rest) = unbound rest ++ [s] := by
          simp [unbound,Address.usable]
        rw [first,left,List.append_assoc]
        rfl

theorem openSocketLeaves (localIp : Bool) (rp : Remote) (fds : List Nat) :
    openSocket localIp rp fds =
      (rp.sock localIp,(rp.sock localIp).toList ++ (rp.leaked localIp ++ fds)) := by
  unfold openSocket Remote.sock Remote.leaked
  cases localIp with
  | false => rfl
  | true =>
    cases rp.locals with
    | none => rfl
    | some locals => exact bindSocketFirst locals fds

/- h1-counter connects from the first address that it can, and leaves open every socket
that it failed to bind on the way there: none, unless a local address is asked for. -/
theorem leaksUnbound (localIp : Bool) (remotes : List Remote) (fds : List Nat) :
    connectH1 localIp remotes fds =
        (((remotes.find? (Remote.usable localIp)).bind (Remote.sock localIp)),
          ((remotes.find? (Remote.usable localIp)).bind (Remote.sock localIp)).toList ++
            (((triedOnes localIp remotes).map (Remote.leaked localIp)).reverse.flatten ++ fds)) ∧
      (localIp = false → ((triedOnes localIp remotes).map (Remote.leaked localIp)).flatten = []) := by
  constructor
  · induction remotes generalizing fds with
    | nil => rfl
    | cons rp rest ih =>
      simp only [connectH1,openSocketLeaves,triedOnes,List.find?_cons]
      cases opened : rp.sock localIp with
      | none =>
        have unusable : rp.usable localIp = false := by simp [Remote.usable,opened]
        simp [unusable,ih]
      | some s =>
        cases works : rp.works with
        | true =>
          have usable : rp.usable localIp = true := by simp [Remote.usable,opened,works]
          simp [usable,opened]
        | false =>
          have unusable : rp.usable localIp = false := by simp [Remote.usable,works]
          simp [unusable,ih]
  · rintro rfl
    simp [Remote.leaked]

end NetworkPrograms.Addresses
