import Mathlib.Algebra.BigOperators.Group.Finset.Basic
import Mathlib.Data.Finset.Lattice.Fold
import Mathlib.Order.Lattice.Nat

/-! Blocks under explicit allocation and release: what an allocator may return,
who owns which block, and the rules by which blocks come, go and change hands.
Releasing a block that is not allocated is a fault. -/
namespace NetworkPrograms.Heaps

structure Heap (β : Type) where
  cells : Nat → Option β
  live : Finset Nat
  allocated : ∀ p, p ∈ live ↔ (cells p).isSome = true

/- What the calls of an allocator return, which may be NULL: never a block that is
still allocated. -/
structure Allocator where
  place : Nat → Finset Nat → Option Nat
  fresh : ∀ k live p, place k live = some p → p ∉ live

/- One that never fails: the address behind the highest. -/
def Allocator.upward : Allocator where
  place _ live := some (live.sup id + 1)
  fresh k live p placed member := by
    have most : p ≤ live.sup id := Finset.le_sup (f := id) member
    have same := Option.some.inj placed
    omega

variable {β ι : Type}

def Heap.empty : Heap β := ⟨fun _ => none,∅,by simp⟩

/- Both the first content of a block and a later one. -/
def Heap.store (h : Heap β) (p : Nat) (b : β) : Heap β where
  cells q := if q = p then some b else h.cells q
  live := insert p h.live
  allocated q := by
    rw [Finset.mem_insert,h.allocated]
    split
    · rename_i same
      simp [same]
    · rename_i other
      simp [other]

def Heap.erase (h : Heap β) (p : Nat) : Heap β where
  cells q := if q = p then none else h.cells q
  live := h.live.erase p
  allocated q := by
    rw [Finset.mem_erase,h.allocated]
    split
    · rename_i same
      simp [same]
    · rename_i other
      simp [other]

def free (p : Nat) (h : Heap β) : Option (Heap β) := if p ∈ h.live then some (h.erase p) else none

def freeAll : List Nat → Heap β → Option (Heap β)
  | [], h => some h
  | p :: ps, h => match free p h with
      | none => none
      | some h' => freeAll ps h'

theorem heapSame {h h' : Heap β} (cells : h.cells = h'.cells) : h = h' := by
  obtain ⟨c,l,a⟩ := h
  obtain ⟨c',l',a'⟩ := h'
  cases cells
  have live : l = l' := Finset.ext (fun p => (a p).trans (a' p).symm)
  cases live
  rfl

@[simp] theorem storeHere (h : Heap β) (p : Nat) (b : β) : (h.store p b).cells p = some b := if_pos rfl

theorem storeOther (h : Heap β) {p q : Nat} (other : q ≠ p) (b : β) :
    (h.store p b).cells q = h.cells q := if_neg other

theorem eraseOther (h : Heap β) {p q : Nat} (other : q ≠ p) : (h.erase p).cells q = h.cells q :=
  if_neg other

/- Blocks that are allocated and named once can be released in any order; the
others stay as they are. -/
theorem freeAllFrees {ps : List Nat} {h : Heap β} (single : ps.Nodup) (inside : ∀ p ∈ ps, p ∈ h.live) :
    ∃ h', freeAll ps h = some h' ∧ (∀ q, q ∈ h'.live ↔ q ∈ h.live ∧ q ∉ ps) ∧
      ∀ q, q ∉ ps → h'.cells q = h.cells q := by
  induction ps generalizing h with
  | nil => exact ⟨h,rfl,by simp,fun _ _ => rfl⟩
  | cons p ps ih =>
    obtain ⟨here,later⟩ := List.forall_mem_cons.mp inside
    obtain ⟨once,single⟩ := List.nodup_cons.mp single
    have remain : ∀ q ∈ ps, q ∈ (h.erase p).live := by
      intro q member
      exact Finset.mem_erase.mpr ⟨fun same => once (same ▸ member),later q member⟩
    obtain ⟨h',done,live,cells⟩ := ih single remain
    refine ⟨h',?_,?_,?_⟩
    · rw [freeAll,free,if_pos here]
      exact done
    · intro q
      rw [live q,List.mem_cons,not_or]
      simp only [Heap.erase,Finset.mem_erase]
      exact ⟨fun ⟨⟨a,b⟩,c⟩ => ⟨b,a,c⟩,fun ⟨b,a,c⟩ => ⟨⟨a,b⟩,c⟩⟩
    · intro q outside
      obtain ⟨other,behind⟩ := not_or.mp (mt List.mem_cons.mpr outside)
      rw [cells q behind,eraseOther h other]

/- Every allocated block has exactly one owner, who names it once. -/
structure Owned (h : Heap β) (owner : ι → List Nat) : Prop where
  single : ∀ i, (owner i).Nodup
  apart : ∀ i j p, p ∈ owner i → p ∈ owner j → i = j
  complete : ∀ p, p ∈ h.live ↔ ∃ i, p ∈ owner i

theorem ownedEmpty : Owned (Heap.empty : Heap β) (fun _ : ι => []) :=
  ⟨fun _ => List.nodup_nil,nofun,by simp [Heap.empty]⟩

theorem ownedLive {h : Heap β} {owner : ι → List Nat} (owned : Owned h owner) {i : ι} {p : Nat}
    (member : p ∈ owner i) : p ∈ h.live := (owned.complete p).mpr ⟨i,member⟩

theorem ownedRewrite {h : Heap β} {owner : ι → List Nat} (owned : Owned h owner) {p : Nat}
    (live : p ∈ h.live) (b : β) : Owned (h.store p b) owner := by
  refine ⟨owned.single,owned.apart,fun q => ?_⟩
  have same : (h.store p b).live = h.live := Finset.insert_eq_of_mem live
  rw [same]
  exact owned.complete q

variable [DecidableEq ι]

theorem ownedGrow {h : Heap β} {owner : ι → List Nat} (owned : Owned h owner) {p : Nat}
    (unallocated : p ∉ h.live) (b : β) (i : ι) {more : List Nat} (single : more.Nodup)
    (grown : ∀ q, q ∈ more ↔ q = p ∨ q ∈ owner i) :
    Owned (h.store p b) (Function.update owner i more) := by
  have unowned : ∀ j, p ∉ owner j := fun j member => unallocated (ownedLive owned member)
  refine ⟨?_,?_,?_⟩
  · intro j
    rcases eq_or_ne j i with rfl | other
    · rwa [Function.update_self]
    · rw [Function.update_of_ne other]
      exact owned.single j
  · intro j k q left right
    have owns : ∀ l, q ∈ Function.update owner i more l → (l = i ∧ q = p) ∨ q ∈ owner l := by
      intro l member
      rcases eq_or_ne l i with rfl | other
      · rw [Function.update_self,grown] at member
        exact member.imp_left (fun same => ⟨rfl,same⟩)
      · rw [Function.update_of_ne other] at member
        exact .inr member
    rcases owns j left with ⟨rfl,new⟩ | mine
    · rcases owns k right with ⟨rfl,-⟩ | yours
      · rfl
      · exact absurd (new ▸ yours) (unowned k)
    · rcases owns k right with ⟨rfl,new⟩ | yours
      · exact absurd (new ▸ mine) (unowned j)
      · exact owned.apart j k q mine yours
  · intro q
    have allocated : q ∈ (h.store p b).live ↔ q = p ∨ ∃ j, q ∈ owner j := by
      rw [← owned.complete q]
      exact Finset.mem_insert
    rw [allocated]
    constructor
    · rintro (rfl | ⟨j,member⟩)
      · exact ⟨i,by rw [Function.update_self,grown]; exact .inl rfl⟩
      · refine ⟨j,?_⟩
        rcases eq_or_ne j i with rfl | other
        · rw [Function.update_self,grown]
          exact .inr member
        · rwa [Function.update_of_ne other]
    · rintro ⟨j,member⟩
      rcases eq_or_ne j i with rfl | other
      · rw [Function.update_self,grown] at member
        exact member.imp_right (fun old => ⟨j,old⟩)
      · rw [Function.update_of_ne other] at member
        exact .inr ⟨j,member⟩

/- One owner releases all it has. -/
theorem ownedFree {h : Heap β} {owner : ι → List Nat} (owned : Owned h owner) (i : ι) :
    ∃ h', freeAll (owner i) h = some h' ∧ Owned h' (Function.update owner i []) ∧
      ∀ q, q ∉ owner i → h'.cells q = h.cells q := by
  obtain ⟨h',done,live,cells⟩ := freeAllFrees (owned.single i) (fun p member => ownedLive owned member)
  refine ⟨h',done,⟨?_,?_,?_⟩,cells⟩
  · intro j
    rcases eq_or_ne j i with rfl | other
    · rw [Function.update_self]
      exact List.nodup_nil
    · rw [Function.update_of_ne other]
      exact owned.single j
  · intro j k q left right
    rcases eq_or_ne j i with rfl | otherJ
    · simp at left
    rcases eq_or_ne k i with rfl | otherK
    · simp at right
    rw [Function.update_of_ne otherJ] at left
    rw [Function.update_of_ne otherK] at right
    exact owned.apart j k q left right
  · intro q
    rw [live q,owned.complete q]
    constructor
    · rintro ⟨⟨j,member⟩,outside⟩
      refine ⟨j,?_⟩
      rcases eq_or_ne j i with rfl | other
      · exact absurd member outside
      · rwa [Function.update_of_ne other]
    · rintro ⟨j,member⟩
      rcases eq_or_ne j i with rfl | other
      · simp at member
      · rw [Function.update_of_ne other] at member
        exact ⟨⟨j,member⟩,fun mine => other (owned.apart j i q member mine)⟩

/- The blocks of one owner go to another, who has none. -/
theorem ownedGive {h : Heap β} {owner : ι → List Nat} (owned : Owned h owner) {i j : ι} (other : i ≠ j)
    (nothing : owner j = []) : Owned h (Function.update (Function.update owner i []) j (owner i)) := by
  let source : ι → ι := fun k => if k = j then i else k
  have given : ∀ k q, q ∈ Function.update (Function.update owner i []) j (owner i) k →
      q ∈ owner (source k) ∧ k ≠ i := by
    intro k q member
    rcases eq_or_ne k j with rfl | away
    · rw [Function.update_self] at member
      exact ⟨by simpa [source] using member,Ne.symm other⟩
    · rw [Function.update_of_ne away] at member
      rcases eq_or_ne k i with rfl | kept
      · simp at member
      · rw [Function.update_of_ne kept] at member
        exact ⟨by simpa [source,away] using member,kept⟩
  refine ⟨?_,?_,?_⟩
  · intro k
    rcases eq_or_ne k j with rfl | away
    · rw [Function.update_self]
      exact owned.single i
    · rw [Function.update_of_ne away]
      rcases eq_or_ne k i with rfl | kept
      · rw [Function.update_self]
        exact List.nodup_nil
      · rw [Function.update_of_ne kept]
        exact owned.single k
  · intro k l q left right
    obtain ⟨mine,notK⟩ := given k q left
    obtain ⟨yours,notL⟩ := given l q right
    have same : source k = source l := owned.apart _ _ q mine yours
    by_cases here : k = j
    · by_cases there : l = j
      · rw [here,there]
      · exact absurd (by simpa [source,here,there] using same.symm) notL
    · by_cases there : l = j
      · exact absurd (by simpa [source,here,there] using same) notK
      · simpa [source,here,there] using same
  · intro q
    rw [owned.complete q]
    constructor
    · rintro ⟨k,member⟩
      rcases eq_or_ne k i with rfl | kept
      · exact ⟨j,by rwa [Function.update_self]⟩
      · rcases eq_or_ne k j with rfl | away
        · rw [nothing] at member
          contradiction
        · exact ⟨k,by rwa [Function.update_of_ne away,Function.update_of_ne kept]⟩
    · rintro ⟨k,member⟩
      exact ⟨source k,(given k q member).1⟩

/- How many blocks are allocated, owner by owner. -/
theorem ownedCount {h : Heap β} {owner : ι → List Nat} (owned : Owned h owner) {holders : Finset ι}
    (rest : ∀ i, i ∉ holders → owner i = []) :
    h.live.card = ∑ i ∈ holders, (owner i).length := by
  have all : h.live = holders.biUnion (fun i => (owner i).toFinset) := by
    ext p
    rw [owned.complete p,Finset.mem_biUnion]
    constructor
    · rintro ⟨i,member⟩
      refine ⟨i,?_,List.mem_toFinset.mpr member⟩
      by_contra outside
      rw [rest i outside] at member
      contradiction
    · rintro ⟨i,-,member⟩
      exact ⟨i,List.mem_toFinset.mp member⟩
  rw [all,Finset.card_biUnion]
  · exact Finset.sum_congr rfl (fun i _ => List.toFinset_card_of_nodup (owned.single i))
  · intro i _ j _ other
    refine Finset.disjoint_left.mpr ?_
    intro p mine yours
    exact other (owned.apart i j p (List.mem_toFinset.mp mine) (List.mem_toFinset.mp yours))

end NetworkPrograms.Heaps
