import Mathlib.Algebra.Order.BigOperators.Group.Finset
import NetworkPrograms.Heaps
import NetworkPrograms.RegistryReplies

/-! The memory behind the client table: what handle_publish and clear_client_files
allocate and free, run beside the registry itself. A list block holds the entries
written so far; a slot holds the pointer to it. -/
namespace NetworkPrograms.RegistryHeap
open WireBytes Heaps RegistryState RegistryPublish RegistryServe RegistryTable RegistryHistory EventMachine

inductive Block where
  | entries (strings : List Nat)
  | string (bytes : Bytes)
  deriving DecidableEq

/- `files_len` and `files` of a slot, with NULL as `none`. -/
structure Slot where
  filesLen : Nat
  files : Option Nat
  deriving DecidableEq, Repr

structure Memory where
  heap : Heap Block
  slots : Nat → Slot

/- `free(files[0]), ..., free(files[n - 1]), free(files)`, which handle_publish does
behind a failure and clear_client_files with what is stored. -/
def freeFiles (files : Option Nat) (n : Nat) (h : Heap Block) : Option (Heap Block) :=
  match files with
  | none => if n = 0 then some h else none
  | some list =>
      match h.cells list with
      | some (.entries strings) => freeAll (strings.take n ++ [list]) h
      | _ => none

/- `files[allocated] = str` -/
def putEntry (files : Option Nat) (str : Nat) (h : Heap Block) : Option (Heap Block) :=
  match files with
  | none => none
  | some list =>
      match h.cells list with
      | some (.entries strings) => some (h.store list (.entries (strings ++ [str])))
      | _ => none

inductive Collected where
  | all (h : Heap Block)
  | cleanUp (allocated : Nat) (outOfMemory : Bool) (h : Heap Block)
  | fault

/- The outer loop of handle_publish; a string is allocated behind the scan. -/
def collect (alloc : Allocator) : (count : Nat) → (p : Bytes) → (len : Nat) → (files : Option Nat) →
    (allocated : Nat) → Heap Block → Collected
  | 0, _, _, _, _, h => .all h
  | count + 1, p, len, files, allocated, h =>
      match scanName p len 0 with
      | .found strLen =>
          match alloc.place (allocated + 1) h.live with
          | none => .cleanUp allocated true h
          | some str =>
              match putEntry files str (h.store str (.string (strncpy p strLen))) with
              | none => .fault
              | some h =>
                  collect alloc count (p.drop (strLen + 1)) (len - (strLen + 1)) files (allocated + 1) h
      | .invalid => .cleanUp allocated false h
      | .unterminated => .cleanUp allocated false h
      | .fault => .fault

/- From the calloc of the list on; the flag says that a string could not be allocated. -/
def publishFilesMemory (index filesLen : Nat) (p : Bytes) (len : Nat) (alloc : Allocator) (m : Memory) :
    Option (Memory × Bool) :=
  let files := alloc.place 0 m.heap.live
  let h := match files with
    | none => m.heap
    | some list => m.heap.store list (.entries [])
  match collect alloc filesLen p len files 0 h with
  | .all h =>
      (freeFiles (m.slots index).files (m.slots index).filesLen h).map (fun h =>
        (⟨h,Function.update m.slots index ⟨filesLen,files⟩⟩,false))
  | .cleanUp allocated outOfMemory h =>
      (freeFiles files allocated h).map (fun h => (⟨h,m.slots⟩,outOfMemory))
  | .fault => none

def publishMemory (s : Server) (index : Nat) (buffer : Bytes) (len : Nat) (alloc : Allocator)
    (m : Memory) : Option (Memory × Bool) :=
  if (s.client index).type = .unknown then some (m,false)
  else if 1199 ≤ len then some (m,false)
  else if len < 4 then some (m,false)
  else match buffer with
    | a :: b :: c :: d :: p =>
        if s.maxFiles < (readBe32 a b c d).toNat then some (m,false)
        else publishFilesMemory index (readBe32 a b c d).toNat p (len - 4) alloc m
    | _ => none

/- clear_client -/
def clearMemory (index : Nat) (m : Memory) : Option Memory :=
  (freeFiles (m.slots index).files (m.slots index).filesLen m.heap).map (fun h =>
    ⟨h,Function.update m.slots index ⟨0,none⟩⟩)

/- handle_client; handle_join and handle_search allocate nothing. -/
def memoryClient (s : Server) (index : Nat) (alloc : Allocator) (m : Memory) :
    RecvResult → Option (Memory × Bool)
  | .error => (clearMemory index m).map (fun m => (m,false))
  | .closed => (clearMemory index m).map (fun m => (m,false))
  | .data r =>
      match r.buffer with
      | [] => none
      | command :: buffer =>
          if command = 1 then publishMemory s index buffer (r.data.length - 1) alloc m
          else some (m,false)

/- server_accept allocates nothing either. -/
def memoryStep (s : Server) (alloc : Allocator) (m : Memory) : Event → Option (Memory × Bool)
  | .accept _ => some (m,false)
  | .ready index result _ =>
      if (s.client index).active then memoryClient s index alloc m result else none

structure Process where
  srv : Server
  mem : Memory

structure Call where
  event : Event
  alloc : Allocator

/- Both at once; without memory for a string the request has no other effect. -/
def processStep (w : Process) (c : Call) : Option (Process × List Output) :=
  match memoryStep w.srv c.alloc w.mem c.event with
  | none => none
  | some (mem,true) => some (⟨w.srv,mem⟩,[])
  | some (mem,false) => (step w.srv c.event).map (fun (srv,out) => (⟨srv,mem⟩,out))

def process (listenSock : Nat) : Machine Process Call (List Output) :=
  ⟨⟨initServer listenSock,⟨Heap.empty,fun _ => ⟨0,none⟩⟩⟩,processStep⟩

abbrev ProcessHistory := Log Process Call (List Output)

/- The clean-up of main, slot by slot. -/
def clearSlots : (indices : List Nat) → Process → Option Memory
  | [], w => some w.mem
  | index :: indices, w =>
      if (w.srv.client index).active then
        match clearMemory index w.mem with
        | none => none
        | some mem => clearSlots indices ⟨w.srv.setClient index (clearClient (w.srv.client index)),mem⟩
      else clearSlots indices w

def cleanUp (w : Process) : Option Memory := clearSlots (List.range w.srv.maxConn) w

/- What a list pointer stands for: a list block and the blocks of the names. -/
def ListHolds (h : Heap Block) (files : Option Nat) (names : List Bytes) : Prop :=
  match files with
  | none => names = []
  | some list => ∃ strings, h.cells list = some (.entries strings) ∧
      strings.map h.cells = names.map (fun name => some (.string name))

def blocksOf (h : Heap Block) (files : Option Nat) : List Nat :=
  match files with
  | none => []
  | some list =>
      match h.cells list with
      | some (.entries strings) => strings ++ [list]
      | _ => []

/- The blocks of each slot; `none` is for a handler that is at work. -/
def owner (m : Memory) : Option Nat → List Nat
  | none => []
  | some index => blocksOf m.heap (m.slots index).files

theorem blocksEntries {h : Heap Block} {list : Nat} {strings : List Nat}
    (block : h.cells list = some (.entries strings)) : blocksOf h (some list) = strings ++ [list] := by
  simp only [blocksOf,block]

/- Both are about the cells of these blocks only. -/
theorem holdsSame {h h' : Heap Block} {files : Option Nat} {names : List Bytes}
    (holds : ListHolds h files names) (same : ∀ q ∈ blocksOf h files, h'.cells q = h.cells q) :
    ListHolds h' files names ∧ blocksOf h' files = blocksOf h files := by
  cases files with
  | none => exact ⟨holds,rfl⟩
  | some list =>
    obtain ⟨strings,block,texts⟩ := holds
    rw [blocksEntries block] at same ⊢
    have block' : h'.cells list = some (.entries strings) := (same list (by simp)).trans block
    refine ⟨⟨strings,block',?_⟩,blocksEntries block'⟩
    rw [← texts]
    exact List.map_congr_left (fun q member => same q (List.mem_append_left _ member))

theorem freeFilesAll {h : Heap Block} {files : Option Nat} {names : List Bytes}
    (holds : ListHolds h files names) : freeFiles files names.length h = freeAll (blocksOf h files) h := by
  cases files with
  | none =>
    have empty : names = [] := holds
    rw [empty]
    rfl
  | some list =>
    obtain ⟨strings,block,texts⟩ := holds
    have size : strings.length = names.length := by
      simpa using congrArg List.length texts
    rw [blocksEntries block]
    simp only [freeFiles,block,List.take_of_length_le (Nat.le_of_eq size)]

/- A handler that has allocated a list and these names so far. `old` and `before`
are the heap and its owners at the start of it. -/
structure Gathering (old : Heap Block) (before : Option Nat → List Nat) (list : Nat) (names : List Bytes)
    (h : Heap Block) : Prop where
  owned : Owned h (Function.update before none (blocksOf h (some list)))
  holds : ListHolds h (some list) names
  kept : ∀ q ∈ old.live, h.cells q = old.cells q

section
variable {old h : Heap Block} {before : Option Nat → List Nat} {list : Nat} {names : List Bytes}

theorem gatherNone (owned : Owned old before) (idle : before none = []) (unallocated : list ∉ old.live) :
    Gathering old before list [] (old.store list (.entries [])) := by
  have blocks : blocksOf (old.store list (.entries [])) (some list) = [list] :=
    blocksEntries (storeHere old list _)
  refine ⟨?_,⟨[],storeHere old list _,rfl⟩,?_⟩
  · rw [blocks]
    refine ownedGrow owned unallocated _ none (List.nodup_singleton list) (fun q => ?_)
    rw [idle]
    simp
  · intro q live
    have other : q ≠ list := fun same => unallocated (same ▸ live)
    exact storeOther old other _

/- What was allocated before still is, and is not the handler's. -/
theorem oldApart (owned : Owned old before) (idle : before none = [])
    (g : Gathering old before list names h) {q : Nat} (live : q ∈ old.live) :
    q ∈ h.live ∧ q ∉ blocksOf h (some list) := by
  obtain ⟨i,member⟩ := (owned.complete q).mp live
  have other : i ≠ none := by
    rintro rfl
    rw [idle] at member
    contradiction
  have still : q ∈ Function.update before none (blocksOf h (some list)) i := by
    rwa [Function.update_of_ne other]
  refine ⟨ownedLive g.owned still,fun mine => other ?_⟩
  refine g.owned.apart i none q still ?_
  rwa [Function.update_self]

theorem gatherOne (owned : Owned old before) (idle : before none = [])
    (g : Gathering old before list names h) {str : Nat} (unallocated : str ∉ h.live) (name : Bytes) :
    ∃ h', putEntry (some list) str (h.store str (.string name)) = some h' ∧
      Gathering old before list (names ++ [name]) h' := by
  obtain ⟨strings,block,texts⟩ := g.holds
  have blocks := blocksEntries block
  have mine : ∀ q ∈ strings ++ [list], q ∈ h.live := by
    intro q member
    refine (g.owned.complete q).mpr ⟨none,?_⟩
    rw [Function.update_self,blocks]
    exact member
  have other : list ≠ str := by
    rintro rfl
    exact unallocated (mine list (by simp))
  have block' : (h.store str (.string name)).cells list = some (.entries strings) :=
    (storeOther h other _).trans block
  have blocks' : blocksOf ((h.store str (.string name)).store list (.entries (strings ++ [str])))
      (some list) = strings ++ [str] ++ [list] := blocksEntries (storeHere _ list _)
  have single : (strings ++ [list]).Nodup := by
    have once := g.owned.single none
    rwa [Function.update_self,blocks] at once
  have unnamed : str ∉ strings := fun member => unallocated (mine str (by simp [member]))
  have unlisted : list ∉ strings := fun member =>
    (List.nodup_append.mp single).2.2 list member list (by simp) rfl
  have more : (strings ++ [str] ++ [list]).Nodup := by
    have grown : (str :: (strings ++ [list])).Nodup :=
      List.nodup_cons.mpr ⟨fun member => unallocated (mine str member),single⟩
    exact (List.perm_append_comm.append_right [list]).nodup_iff.mpr grown
  have alive : list ∈ (h.store str (.string name)).live :=
    Finset.mem_insert_of_mem (mine list (by simp))
  have put : putEntry (some list) str (h.store str (.string name)) =
      some ((h.store str (.string name)).store list (.entries (strings ++ [str]))) := by
    simp only [putEntry,block']
  refine ⟨_,put,⟨?_,⟨strings ++ [str],storeHere _ list _,?_⟩,?_⟩⟩
  · have grown := ownedGrow g.owned unallocated (.string name) none more (fun q => by
      rw [Function.update_self,blocks]
      simp only [List.mem_append,List.mem_singleton]
      tauto)
    rw [Function.update_idem] at grown
    rw [blocks']
    exact ownedRewrite grown alive _
  · rw [List.map_append,List.map_append,← texts]
    congr 1
    · refine List.map_congr_left (fun q member => ?_)
      have away : q ≠ list := by
        rintro rfl
        exact unlisted member
      have different : q ≠ str := by
        rintro rfl
        exact unnamed member
      rw [storeOther _ away,storeOther _ different]
    · simp only [List.map_singleton]
      rw [storeOther _ (Ne.symm other),storeHere]
  · intro q live
    obtain ⟨still,away⟩ := oldApart owned idle g live
    have different : q ≠ str := by
      rintro rfl
      exact unallocated still
    have unlike : q ≠ list := by
      rintro rfl
      exact away (by rw [blocks]; simp)
    rw [storeOther _ unlike,storeOther _ different]
    exact g.kept q live

/- Freeing all of it brings the heap back to what it was. -/
theorem gatherFreed (owned : Owned old before) (idle : before none = [])
    (g : Gathering old before list names h) : freeFiles (some list) names.length h = some old := by
  rw [freeFilesAll g.holds]
  obtain ⟨h',done,after,cells⟩ := ownedFree g.owned none
  rw [Function.update_self] at done cells
  rw [Function.update_idem] at after
  have same : h' = old := by
    refine heapSame (funext (fun q => ?_))
    by_cases live : q ∈ old.live
    · rw [cells q (oldApart owned idle g live).2,g.kept q live]
    · have gone : q ∉ h'.live := by
        intro still
        obtain ⟨i,member⟩ := (after.complete q).mp still
        rcases eq_or_ne i none with rfl | other
        · rw [Function.update_self] at member
          contradiction
        · rw [Function.update_of_ne other] at member
          exact live (ownedLive owned member)
      rw [Heap.allocated,Bool.not_eq_true,Option.isSome_eq_false_iff,Option.isNone_iff_eq_none] at gone live
      rw [gone,live]
  rw [done,same]

/- What the loop leaves, beside what the parser says of the same payload. -/
inductive Gathered (old : Heap Block) (before : Option Nat → List Nat) (list : Nat) (parsed : Parsed) :
    Collected → Prop where
  | all {h : Heap Block} {names : List Bytes} (g : Gathering old before list names h) (same : parsed = .files names) :
      Gathered old before list parsed (.all h)
  | cleanUp {h : Heap Block} {names : List Bytes} {outOfMemory : Bool}
      (g : Gathering old before list names h)
      (refused : outOfMemory = false → parsed = .cleanUp) :
      Gathered old before list parsed (.cleanUp names.length outOfMemory h)
  | fault (same : parsed = .fault) : Gathered old before list parsed .fault

theorem collectGathers (owned : Owned old before) (idle : before none = []) (alloc : Allocator)
    (count : Nat) (p : Bytes) (len : Nat) (g : Gathering old before list names h) :
    Gathered old before list (publishLoop count p len names)
      (collect alloc count p len (some list) names.length h) := by
  induction count generalizing p len names h with
  | zero => exact .all g rfl
  | succ count ih =>
    simp only [collect,publishLoop]
    cases scanName p len 0 with
    | found strLen =>
      dsimp only
      cases placed : alloc.place (names.length + 1) h.live with
      | none =>
        refine .cleanUp g ?_
        intro same
        contradiction
      | some str =>
        obtain ⟨h',put,g'⟩ := gatherOne owned idle g (alloc.fresh _ _ _ placed) (strncpy p strLen)
        dsimp only
        rw [put]
        have onward := ih (p.drop (strLen + 1)) (len - (strLen + 1)) g'
        rw [List.length_append,List.length_singleton] at onward
        exact onward
    | invalid => exact .cleanUp g (fun _ => rfl)
    | unterminated => exact .cleanUp g (fun _ => rfl)
    | fault => exact .fault rfl

end

/- Without a list block nothing can be stored: the first string is written through
the NULL pointer. -/
theorem collectNull (alloc : Allocator) (count : Nat) (p : Bytes) (len : Nat) (h : Heap Block) :
    (collect alloc count p len none 0 h = .all h ∧ count = 0) ∨
    (∃ outOfMemory, collect alloc count p len none 0 h = .cleanUp 0 outOfMemory h ∧
      (outOfMemory = false → publishLoop count p len [] = .cleanUp)) ∨
    collect alloc count p len none 0 h = .fault := by
  cases count with
  | zero => exact .inl ⟨rfl,rfl⟩
  | succ count =>
    simp only [collect,publishLoop]
    cases scanName p len 0 with
    | found strLen =>
      dsimp only
      cases alloc.place (0 + 1) h.live with
      | none =>
        refine .inr (.inl ⟨true,rfl,?_⟩)
        intro same
        contradiction
      | some str => exact .inr (.inr rfl)
    | invalid => exact .inr (.inl ⟨false,rfl,fun _ => rfl⟩)
    | unterminated => exact .inr (.inl ⟨false,rfl,fun _ => rfl⟩)
    | fault => exact .inr (.inr rfl)

/- Table and memory say the same. -/
structure ProcessOk (w : Process) : Prop where
  owned : Owned w.mem.heap (owner w.mem)
  counted : ∀ index, (w.mem.slots index).filesLen = ((w.srv.client index).files.getD []).length
  holds : ∀ index, ListHolds w.mem.heap (w.mem.slots index).files ((w.srv.client index).files.getD [])
  idle : ∀ index, (w.srv.client index).active = false → (w.mem.slots index).files = none

/- Another list takes the place of a slot's own, or none does. -/
theorem ownerMoved {m : Memory} (owned : Owned m.heap (owner m)) {h : Heap Block} {index : Nat}
    {slot : Slot} (holds : ∀ other, ∃ names, ListHolds m.heap (m.slots other).files names)
    (kept : ∀ q ∈ m.heap.live, q ∉ owner m (some index) → h.cells q = m.heap.cells q) :
    (∀ other, index ≠ other → blocksOf h (m.slots other).files = blocksOf m.heap (m.slots other).files ∧
      ∀ names, ListHolds m.heap (m.slots other).files names → ListHolds h (m.slots other).files names) ∧
    owner ⟨h,Function.update m.slots index slot⟩ =
      Function.update (owner m) (some index) (blocksOf h slot.files) := by
  have others : ∀ other, index ≠ other → ∀ q ∈ blocksOf m.heap (m.slots other).files,
      h.cells q = m.heap.cells q := by
    intro other different q member
    refine kept q (ownedLive owned (i := some other) member) (fun mine => different ?_)
    exact Option.some.inj (owned.apart (some index) (some other) q mine member)
  refine ⟨?_,?_⟩
  · intro other different
    obtain ⟨names,held⟩ := holds other
    exact ⟨(holdsSame held (others other different)).2,
      fun names held => (holdsSame held (others other different)).1⟩
  · funext i
    cases i with
    | none =>
      have free : (none : Option Nat) ≠ some index := by simp
      rw [Function.update_of_ne free]
      rfl
    | some other =>
      rcases Nat.decEq index other with different | rfl
      · have same : Function.update m.slots index slot other = m.slots other :=
          Function.update_of_ne (Ne.symm different) _ _
        obtain ⟨names,held⟩ := holds other
        rw [Function.update_of_ne (fun same => different (Option.some.inj same).symm)]
        simp only [owner,same]
        exact (holdsSame held (others other different)).2
      · rw [Function.update_self]
        simp only [owner,Function.update_self]

/- One slot and its list are replaced. -/
theorem movedOk {w : Process} (ok : ProcessOk w) {srv : Server} {h : Heap Block} {index : Nat} {slot : Slot}
    (kept : ∀ q ∈ w.mem.heap.live, q ∉ owner w.mem (some index) → h.cells q = w.mem.heap.cells q)
    (owned : Owned h (Function.update (owner w.mem) (some index) (blocksOf h slot.files)))
    (others : ∀ other, index ≠ other → srv.client other = w.srv.client other)
    (counted : slot.filesLen = ((srv.client index).files.getD []).length)
    (holds : ListHolds h slot.files ((srv.client index).files.getD []))
    (idle : (srv.client index).active = false → slot.files = none) :
    ProcessOk ⟨srv,⟨h,Function.update w.mem.slots index slot⟩⟩ := by
  obtain ⟨apart,moved⟩ := @ownerMoved _ ok.owned h index slot (fun other => ⟨_,ok.holds other⟩) kept
  have slots : ∀ other, index ≠ other →
      Function.update w.mem.slots index slot other = w.mem.slots other :=
    fun other different => Function.update_of_ne (Ne.symm different) _ _
  refine ⟨?_,?_,?_,?_⟩
  · rw [moved]
    exact owned
  · intro other
    dsimp only
    rcases Nat.decEq index other with different | rfl
    · rw [slots other different,others other different]
      exact ok.counted other
    · rw [Function.update_self]
      exact counted
  · intro other
    dsimp only
    rcases Nat.decEq index other with different | rfl
    · rw [slots other different,others other different]
      exact (apart other different).2 _ (ok.holds other)
    · rw [Function.update_self]
      exact holds
  · intro other
    dsimp only
    rcases Nat.decEq index other with different | rfl
    · rw [slots other different,others other different]
      exact ok.idle other
    · rw [Function.update_self]
      exact idle

/- clear_client frees what the slot has, and nothing of the others. -/
theorem clearOk {w : Process} (ok : ProcessOk w) {srv : Server} {index : Nat}
    (cleared : srv.client index = clearClient (w.srv.client index))
    (others : ∀ other, index ≠ other → srv.client other = w.srv.client other) :
    ∃ mem, clearMemory index w.mem = some mem ∧ ProcessOk ⟨srv,mem⟩ := by
  obtain ⟨h,done,owned,cells⟩ := ownedFree ok.owned (some index)
  have freed : freeFiles (w.mem.slots index).files (w.mem.slots index).filesLen w.mem.heap = some h := by
    rw [ok.counted index,freeFilesAll (ok.holds index)]
    exact done
  refine ⟨_,by rw [clearMemory,freed]; rfl,?_⟩
  refine movedOk ok (fun q _ away => cells q away) owned others ?_ ?_ (fun _ => rfl)
  · rw [cleared]
    rfl
  · rw [cleared]
    exact rfl

/- The new list goes to the slot once the old one is freed. -/
theorem storeOk {w : Process} (ok : ProcessOk w) {index : Nat} (active : (w.srv.client index).active = true)
    {h : Heap Block} {files : Option Nat} {names : List Bytes}
    (owned : Owned h (Function.update (owner w.mem) none (blocksOf h files))) (holds : ListHolds h files names)
    (kept : ∀ q ∈ w.mem.heap.live, h.cells q = w.mem.heap.cells q)
    (apart : ∀ q ∈ w.mem.heap.live, q ∉ blocksOf h files) :
    ∃ h', freeFiles (w.mem.slots index).files (w.mem.slots index).filesLen h = some h' ∧
      ProcessOk ⟨published w.srv index names,⟨h',Function.update w.mem.slots index ⟨names.length,files⟩⟩⟩ := by
  have mine : ∀ q ∈ blocksOf w.mem.heap (w.mem.slots index).files, q ∈ w.mem.heap.live :=
    fun q member => ownedLive ok.owned (i := some index) member
  obtain ⟨held,blocks⟩ := holdsSame (ok.holds index) (fun q member => kept q (mine q member))
  have away : (some index : Option Nat) ≠ none := by simp
  have old : Function.update (owner w.mem) none (blocksOf h files) (some index) =
      blocksOf w.mem.heap (w.mem.slots index).files := Function.update_of_ne away _ _
  obtain ⟨h',done,owned',cells⟩ := ownedFree owned (some index)
  rw [old] at done cells
  have freed : freeFiles (w.mem.slots index).files (w.mem.slots index).filesLen h = some h' := by
    rw [ok.counted index,freeFilesAll held,blocks]
    exact done
  have untouched : ∀ q ∈ blocksOf h files, h'.cells q = h.cells q :=
    fun q member => cells q (fun theirs => apart q (mine q theirs) member)
  obtain ⟨holds',blocks'⟩ := holdsSame holds untouched
  have given := ownedGive owned' (Ne.symm away) (Function.update_self _ _ _)
  have owners : Function.update (Function.update (Function.update (Function.update (owner w.mem) none
      (blocksOf h files)) (some index) []) none []) (some index)
      (Function.update (Function.update (owner w.mem) none (blocksOf h files)) (some index) [] none) =
      Function.update (owner w.mem) (some index) (blocksOf h' files) := by
    funext i
    rcases eq_or_ne i (some index) with rfl | other
    · rw [Function.update_self,Function.update_self,Function.update_of_ne (Ne.symm away),
        Function.update_self,blocks']
    · rw [Function.update_of_ne other,Function.update_of_ne other]
      rcases eq_or_ne i none with rfl | taken
      · rw [Function.update_self]
        rfl
      · rw [Function.update_of_ne taken,Function.update_of_ne other,Function.update_of_ne taken]
  rw [owners] at given
  have inside := activeInside active
  refine ⟨h',freed,movedOk ok ?_ given ?_ ?_ ?_ ?_⟩
  · intro q live unowned
    rw [cells q unowned,kept q live]
  · exact fun other different => clientSetOther w.srv index other _ different
  · rw [published,clientSetSelf inside]
    rfl
  · rw [published,clientSetSelf inside]
    exact holds'
  · rw [published,clientSetSelf inside]
    intro idle
    exact absurd (active.symm.trans idle) (by simp)

/- Everything a PUBLISH does to the memory, beside what it does to the table. -/
inductive Handled (w : Process) (index : Nat) (alloc : Allocator) (handled : Option (Server × List Output)) :
    Option (Memory × Bool) → Prop where
  | kept (outOfMemory : Bool) (same : outOfMemory = false → handled = some (w.srv,[])) :
      Handled w index alloc handled (some (w.mem,outOfMemory))
  | stored (names : List Bytes) (mem : Memory)
      (same : handled = some (published w.srv index names,[.testPublish names]))
      (ok : ProcessOk ⟨published w.srv index names,mem⟩) :
      Handled w index alloc handled (some (mem,false))
  | crashed (reason : alloc.place 0 w.mem.heap.live = none ∨ handled = none) :
      Handled w index alloc handled none

theorem publishFilesHandled {w : Process} (ok : ProcessOk w) {index : Nat}
    (active : (w.srv.client index).active = true) (filesLen : Nat) (p : Bytes) (len : Nat)
    (alloc : Allocator) : Handled w index alloc (publishFiles w.srv index filesLen p len)
      (publishFilesMemory index filesLen p len alloc w.mem) := by
  have none_idle : Function.update (owner w.mem) none [] = owner w.mem :=
    Function.update_eq_self none (owner w.mem)
  unfold publishFilesMemory
  cases placed : alloc.place 0 w.mem.heap.live with
  | none =>
    dsimp only
    rcases collectNull alloc filesLen p len w.mem.heap with ⟨done,rfl⟩ | ⟨outOfMemory,done,refused⟩ | done
    · rw [done]
      obtain ⟨h',freed,stored⟩ := @storeOk w ok index active w.mem.heap none [] (by
        rw [show blocksOf w.mem.heap none = [] from rfl,none_idle]
        exact ok.owned) rfl (fun _ _ => rfl) (fun _ _ => List.not_mem_nil)
      dsimp only
      rw [freed]
      exact .stored [] _ rfl stored
    · rw [done]
      refine .kept outOfMemory (fun enough => ?_)
      rw [publishFiles,refused enough]
    · rw [done]
      exact .crashed (.inl placed)
  | some list =>
    have unallocated := alloc.fresh _ _ _ placed
    have gathered := collectGathers ok.owned rfl alloc filesLen p len (gatherNone ok.owned rfl unallocated)
    rw [List.length_nil] at gathered
    dsimp only
    generalize collect alloc filesLen p len (some list) 0 (w.mem.heap.store list (.entries [])) = result
      at gathered
    cases gathered with
    | @all h names g same =>
      obtain ⟨h',freed,stored⟩ := storeOk ok active g.owned g.holds g.kept
        (fun q live => (oldApart ok.owned rfl g live).2)
      have size : filesLen = names.length := by
        obtain ⟨names',tail,rfl,length,_⟩ := loopSound same
        exact length.symm
      dsimp only
      rw [freed]
      subst size
      refine .stored names _ ?_ stored
      rw [publishFiles,same]
      rfl
    | @cleanUp h names outOfMemory g refused =>
      dsimp only
      rw [gatherFreed ok.owned rfl g]
      refine .kept outOfMemory (fun enough => ?_)
      rw [publishFiles,refused enough]
    | fault same =>
      refine .crashed (.inr ?_)
      rw [publishFiles,same]

theorem publishHandled {w : Process} (ok : ProcessOk w) {index : Nat}
    (active : (w.srv.client index).active = true) (buffer : Bytes) (len : Nat) (alloc : Allocator) :
    Handled w index alloc (handlePublish w.srv index buffer len)
      (publishMemory w.srv index buffer len alloc w.mem) := by
  unfold publishMemory handlePublish
  split
  · exact .kept false (fun _ => rfl)
  split
  · exact .kept false (fun _ => rfl)
  split
  · exact .kept false (fun _ => rfl)
  rcases buffer with _ | ⟨a,_ | ⟨b,_ | ⟨c,_ | ⟨d,p⟩⟩⟩⟩
  · exact .crashed (.inr rfl)
  · exact .crashed (.inr rfl)
  · exact .crashed (.inr rfl)
  · exact .crashed (.inr rfl)
  · dsimp only
    split
    · exact .kept false (fun _ => rfl)
    · exact publishFilesHandled ok active _ p (len - 4) alloc

/- A step that leaves the lists alone. -/
theorem quietOk {w : Process} (ok : ProcessOk w) {srv : Server}
    (same : ∀ index, (srv.client index).files = (w.srv.client index).files ∧
      ((srv.client index).active = false → (w.srv.client index).active = false)) :
    ProcessOk ⟨srv,w.mem⟩ := by
  refine ⟨ok.owned,?_,?_,?_⟩
  · intro index
    dsimp only
    rw [(same index).1]
    exact ok.counted index
  · intro index
    dsimp only
    rw [(same index).1]
    exact ok.holds index
  · exact fun index idle => ok.idle index ((same index).2 idle)

theorem acceptedOk {w : Process} (ok : ProcessOk w) (result : AcceptResult) :
    ProcessOk ⟨serverAccept w.srv result,w.mem⟩ := by
  rcases acceptCases w.srv result with same | ⟨sock,addr,closeOk,_,_,same⟩
  · rw [same]
    exact ok
  · rw [same]
    refine quietOk ok (fun index => ?_)
    rcases seatSlot w.srv sock addr index with kept | ⟨free,taken⟩
    · rw [kept]
      exact ⟨rfl,id⟩
    · rw [taken]
      exact ⟨rfl,nofun⟩

theorem joinedMemory {w : Process} (ok : ProcessOk w) {srv : Server} {index len : Nat} {buffer : Bytes}
    {out : List Output} (handled : RegistryJoin.handleJoin w.srv index buffer len = some (srv,out)) :
    ProcessOk ⟨srv,w.mem⟩ := by
  rcases RegistryJoin.joinCases handled with ⟨rfl,_⟩ | ⟨n,_,_,_,_,rfl,_⟩
  · exact ok
  · refine quietOk ok (fun other => ?_)
    rw [RegistryJoin.joined,clientSet]
    split
    · rename_i here
      rw [← here.1]
      exact ⟨rfl,id⟩
    · exact ⟨rfl,id⟩

/- One call of handle_client: if the registry can make it, the memory follows,
unless the list of a PUBLISH cannot be allocated. -/
theorem clientOk {w : Process} (ok : ProcessOk w) {index : Nat}
    (active : (w.srv.client index).active = true) (alloc : Allocator) (sends : Nat → Written)
    (result : RecvResult) {srv : Server} {out : List Output}
    (handled : handleClient w.srv index sends result = some (srv,out)) :
    (memoryClient w.srv index alloc w.mem result = none ∧ alloc.place 0 w.mem.heap.live = none) ∨
    memoryClient w.srv index alloc w.mem result = some (w.mem,true) ∨
    ∃ mem, memoryClient w.srv index alloc w.mem result = some (mem,false) ∧ ProcessOk ⟨srv,mem⟩ ∧
      ∀ r, result = .data r → mem = w.mem ∨ ∃ names, out = [.testPublish names] := by
  have drops : ∃ mem, (clearMemory index w.mem).map (fun m => (m,false)) = some (mem,false) ∧
      ProcessOk ⟨dropClient w.srv index,mem⟩ := by
    obtain ⟨mem,cleared,still⟩ := clearOk ok (dropSelf (activeInside active))
      (fun other different => dropOther w.srv index other different)
    exact ⟨mem,by rw [cleared]; rfl,still⟩
  cases result with
  | error =>
    cases handled
    obtain ⟨mem,done,still⟩ := drops
    exact .inr (.inr ⟨mem,done,still,nofun⟩)
  | closed =>
    cases handled
    obtain ⟨mem,done,still⟩ := drops
    exact .inr (.inr ⟨mem,done,still,nofun⟩)
  | data r =>
    simp only [handleClient,memoryClient] at handled ⊢
    cases shape : r.buffer with
    | nil =>
      rw [shape] at handled
      contradiction
    | cons command buffer =>
      rw [shape] at handled
      dsimp only at handled ⊢
      by_cases one : command = 1
      · subst one
        rw [if_neg (by decide),if_pos rfl] at handled
        rw [if_pos rfl]
        have done := publishHandled ok active buffer (r.data.length - 1) alloc
        rw [handled] at done
        generalize publishMemory w.srv index buffer (r.data.length - 1) alloc w.mem = result at done
        cases done with
        | kept outOfMemory same =>
          cases outOfMemory with
          | true => exact .inr (.inl rfl)
          | false =>
            cases same rfl
            exact .inr (.inr ⟨_,rfl,ok,fun _ _ => .inl rfl⟩)
        | stored names mem same still =>
          cases same
          exact .inr (.inr ⟨mem,rfl,still,fun _ _ => .inr ⟨names,rfl⟩⟩)
        | crashed reason => exact .inl ⟨rfl,reason.resolve_right (by simp)⟩
      · rw [if_neg one] at handled ⊢
        refine .inr (.inr ⟨_,rfl,?_,fun _ _ => .inl rfl⟩)
        split at handled
        · exact joinedMemory ok handled
        split at handled
        · obtain ⟨found,_,same⟩ := Option.map_eq_some_iff.mp handled
          cases same
          exact ok
        · cases handled
          exact ok

theorem processKept {w w' : Process} {c : Call} {out : List Output} (table : TableOk w.srv)
    (ok : ProcessOk w) (moved : processStep w c = some (w',out)) : ProcessOk w' := by
  obtain ⟨event,alloc⟩ := c
  cases event with
  | accept result =>
    cases moved
    exact acceptedOk ok result
  | ready index result sends =>
    simp only [processStep,memoryStep,step] at moved
    by_cases active : (w.srv.client index).active = true
    · rw [if_pos active,if_pos active] at moved
      obtain ⟨⟨srv,out'⟩,handled⟩ := handleTotal table index sends result
      rcases clientOk ok active alloc sends result handled with ⟨none,_⟩ | kept | ⟨mem,done,still,_⟩
      · rw [none] at moved
        contradiction
      · rw [kept] at moved
        cases moved
        exact ok
      · rw [done,handled] at moved
        cases moved
        exact still
    · rw [if_neg active] at moved
      contradiction

/- A request that runs out of memory is no event of the registry, any other call is. -/
theorem processRefines (listenSock : Nat) :
    Refinement (process listenSock) (registry listenSock) Process.srv := by
  refine ⟨rfl,?_⟩
  intro w c w' out moved
  have shape : processStep w c = some (w',out) := moved
  unfold processStep at shape
  split at shape
  · contradiction
  · cases shape
    exact .inl rfl
  · obtain ⟨⟨srv,out'⟩,stepped,same⟩ := Option.map_eq_some_iff.mp shape
    cases same
    exact .inr ⟨c.event,_,stepped⟩

theorem processTable {listenSock : Nat} {log : ProcessHistory} {w : Process}
    (run : Run (process listenSock) log w) : TableOk w.srv := by
  obtain ⟨log',reached⟩ := (processRefines listenSock).carries run
  exact tableOk reached

theorem processOk {listenSock : Nat} {log : ProcessHistory} {w : Process}
    (run : Run (process listenSock) log w) : ProcessOk w := by
  refine @history _ _ _ (process listenSock) (fun _ w => ProcessOk w) ⟨?_,?_,?_,fun _ _ => rfl⟩ ?_ log w run
  · have nobody : owner (process listenSock).init.mem = fun _ => [] := by
      funext i
      cases i <;> rfl
    rw [nobody]
    exact ownedEmpty
  · intro index
    exact (congrArg (fun c => (c.files.getD []).length) (initClient listenSock index)).symm
  · intro index
    exact congrArg (fun c => c.files.getD []) (initClient listenSock index)
  · intro log w c w' out past ok moved
    exact processKept (processTable past) ok moved

theorem blocksFew {h : Heap Block} {files : Option Nat} {names : List Bytes}
    (holds : ListHolds h files names) : (blocksOf h files).length ≤ names.length + 1 := by
  cases files with
  | none => exact Nat.zero_le _
  | some list =>
    obtain ⟨strings,block,texts⟩ := holds
    have size : strings.length = names.length := by
      simpa using congrArg List.length texts
    rw [blocksEntries block,List.length_append,size]
    exact Nat.le_refl _

/- Every allocated block belongs to the list of exactly one active slot, which
reads as the names the table has there; so they are few. -/
theorem memoryAccounted {listenSock : Nat} {log : ProcessHistory} {w : Process}
    (run : Run (process listenSock) log w) :
    (∀ p, p ∈ w.mem.heap.live ↔ ∃ index, (w.srv.client index).active = true ∧
      p ∈ blocksOf w.mem.heap (w.mem.slots index).files) ∧
    (∀ index, (blocksOf w.mem.heap (w.mem.slots index).files).Nodup) ∧
    (∀ i j p, p ∈ blocksOf w.mem.heap (w.mem.slots i).files →
      p ∈ blocksOf w.mem.heap (w.mem.slots j).files → i = j) ∧
    (∀ index, (w.mem.slots index).filesLen = (w.srv.client index).filesLen ∧
      ListHolds w.mem.heap (w.mem.slots index).files ((w.srv.client index).files.getD [])) ∧
    w.mem.heap.live.card ≤ w.srv.maxConn * (w.srv.maxFiles + 1) := by
  have table := processTable run
  have ok := processOk run
  have idle : ∀ index, (w.srv.client index).active = false →
      blocksOf w.mem.heap (w.mem.slots index).files = [] := by
    intro index free
    rw [ok.idle index free]
    rfl
  refine ⟨?_,fun index => ok.owned.single (some index),?_,?_,?_⟩
  · intro p
    rw [ok.owned.complete p]
    constructor
    · rintro ⟨i,member⟩
      cases i with
      | none => contradiction
      | some index =>
        refine ⟨index,?_,member⟩
        by_contra free
        have empty := idle index (Bool.eq_false_of_not_eq_true free)
        simp only [owner,empty] at member
        contradiction
    · rintro ⟨index,_,member⟩
      exact ⟨some index,member⟩
  · intro i j p mine yours
    exact Option.some.inj (ok.owned.apart (some i) (some j) p mine yours)
  · intro index
    exact ⟨(ok.counted index).trans (table.slots index).counted.symm,ok.holds index⟩
  · have counted := @ownedCount _ _ _ w.mem.heap (owner w.mem) ok.owned
      ((Finset.range w.srv.maxConn).map ⟨some,Option.some_injective Nat⟩) (by
        intro i outside
        cases i with
        | none => rfl
        | some index =>
          refine idle index (Bool.eq_false_of_not_eq_true (fun active => outside ?_))
          exact Finset.mem_map.mpr ⟨index,Finset.mem_range.mpr (activeInside active),rfl⟩)
    rw [counted,Finset.sum_map]
    refine (Finset.sum_le_card_nsmul _ _ (w.srv.maxFiles + 1) (fun index _ => ?_)).trans ?_
    · have few := blocksFew (ok.holds index)
      have most := (table.slots index).few
      rw [(table.slots index).counted] at most
      exact few.trans (Nat.succ_le_succ most)
    · rw [Finset.card_range]
      exact Nat.le_refl _

/- A client joins and publishes "ab" and "c". -/
def publishing : List Call :=
  RegistryReplies.joinedOnce.map (fun event => ⟨event,.upward⟩) ++
    [⟨.ready 0 (.data (.zeroed [1,0,0,0,2,97,98,0,99,0] (by decide) (by decide))) (fun _ => .all),.upward⟩]

theorem memoryAccountedTwo : ∃ log w, Run (process 3) log w ∧ w.mem.heap.live.card = 3 ∧
    ListHolds w.mem.heap (w.mem.slots 0).files [[97,98],[99]] := by
  obtain ⟨log,w,done,three,names⟩ : ∃ log w,
      execute (process 3) publishing [] (process 3).init = some (log,w) ∧
        w.mem.heap.live.card = 3 ∧ (w.srv.client 0).files.getD [] = [[97,98],[99]] := ⟨_,_,rfl,rfl,rfl⟩
  have run := executedRun .start done
  exact ⟨log,w,run,three,names ▸ ((memoryAccounted run).2.2.2.1 0).2⟩

theorem clearedSlots {w : Process} (ok : ProcessOk w) (indices : List Nat)
    (inside : ∀ index ∈ indices, index < w.srv.maxConn) :
    ∃ mem, clearSlots indices w = some mem ∧ ∃ srv, ProcessOk ⟨srv,mem⟩ ∧ ∀ index,
      (index ∈ indices ∨ (w.srv.client index).active = false) → (mem.slots index).files = none := by
  induction indices generalizing w with
  | nil =>
    refine ⟨w.mem,rfl,w.srv,ok,fun index gone => ?_⟩
    rcases gone with member | idle
    · contradiction
    · exact ok.idle index idle
  | cons index indices ih =>
    obtain ⟨here,later⟩ := List.forall_mem_cons.mp inside
    rw [clearSlots]
    by_cases active : (w.srv.client index).active = true
    · rw [if_pos active]
      have cleared := clientSetSelf here (clearClient (w.srv.client index))
      obtain ⟨mem,done,still⟩ := clearOk ok cleared
        (fun other different => clientSetOther w.srv index other _ different)
      rw [done]
      obtain ⟨mem',rest,srv,final,gone⟩ := ih still later
      refine ⟨mem',rest,srv,final,fun other out_of_use => gone other ?_⟩
      dsimp only
      rw [clientSet]
      split
      · exact .inr rfl
      · rename_i elsewhere
        rcases out_of_use with member | idle
        · rcases List.mem_cons.mp member with rfl | member
          · exact absurd ⟨rfl,here⟩ elsewhere
          · exact .inl member
        · exact .inr idle
    · rw [if_neg active]
      obtain ⟨mem',rest,srv,final,gone⟩ := ih ok later
      refine ⟨mem',rest,srv,final,fun other out_of_use => gone other ?_⟩
      rcases out_of_use with member | idle
      · rcases List.mem_cons.mp member with rfl | member
        · exact .inr (Bool.eq_false_of_not_eq_true active)
        · exact .inl member
      · exact .inr idle

/- Behind the main loop, wherever it was left, nothing stays allocated. -/
theorem cleanUpFrees {listenSock : Nat} {log : ProcessHistory} {w : Process}
    (run : Run (process listenSock) log w) : ∃ mem, cleanUp w = some mem ∧ mem.heap.live = ∅ := by
  obtain ⟨mem,done,srv,ok,gone⟩ := clearedSlots (processOk run) (List.range w.srv.maxConn)
    (fun index => List.mem_range.mp)
  refine ⟨mem,done,Finset.eq_empty_of_forall_notMem (fun p live => ?_)⟩
  obtain ⟨i,member⟩ := (ok.owned.complete p).mp live
  cases i with
  | none => contradiction
  | some index =>
    have empty : (mem.slots index).files = none := by
      refine gone index ?_
      by_cases inside : index < w.srv.maxConn
      · exact .inl (List.mem_range.mpr inside)
      · exact .inr (Bool.eq_false_of_not_eq_true (mt activeInside inside))
    rw [owner,empty] at member
    contradiction

theorem cleanUpFreesThree : ∃ log w mem, Run (process 3) log w ∧ w.mem.heap.live.card = 3 ∧
    cleanUp w = some mem ∧ mem.heap.live = ∅ := by
  obtain ⟨log,w,done,three⟩ : ∃ log w,
      execute (process 3) publishing [] (process 3).init = some (log,w) ∧ w.mem.heap.live.card = 3 :=
    ⟨_,_,rfl,rfl⟩
  have run := executedRun .start done
  obtain ⟨mem,cleaned,empty⟩ := cleanUpFrees run
  exact ⟨log,w,mem,run,three,cleaned,empty⟩

end NetworkPrograms.RegistryHeap
