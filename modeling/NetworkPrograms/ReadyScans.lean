import Mathlib.Data.Finset.Basic
import NetworkPrograms.EventMachine

/-! Loops that wait for a set of ready numbers and then count through them. What
one step of such a machine may do with its position is stated once; that a scan
visits the ready numbers in order, each once and none of them not, is derived. -/
namespace NetworkPrograms.ReadyScans
open EventMachine

/- Where a scan stands: the number it looks at next and the set that was ready. -/
structure Scan where
  next : Nat
  ready : Finset Nat

inductive Scans (first : Nat) : Option Scan → Option Nat → Option Scan → Prop where
  | idles : Scans first none none none
  | begins (ready : Finset Nat) : Scans first none none (some ⟨first,ready⟩)
  | passes {n : Nat} {ready : Finset Nat} (unset : n ∉ ready) :
      Scans first (some ⟨n,ready⟩) none (some ⟨n + 1,ready⟩)
  | visits {n : Nat} {ready : Finset Nat} (set : n ∈ ready) :
      Scans first (some ⟨n,ready⟩) (some n) (some ⟨n + 1,ready⟩)
  | ends {n : Nat} {ready : Finset Nat} (behind : ∀ fd ∈ ready, fd < n) :
      Scans first (some ⟨n,ready⟩) none none

variable {σ ε ο : Type} {m : Machine σ ε ο} {first : Nat} {scan : σ → Option Scan}
  {visit : Transition σ ε ο → Option Nat}

structure Scanner (m : Machine σ ε ο) (first : Nat) (scan : σ → Option Scan)
    (visit : Transition σ ε ο → Option Nat) : Prop where
  start : scan m.init = none
  moves : ∀ log s e s' out, Run m log s → m.step s e = some (s',out) →
    Scans first (scan s) (visit ⟨s,e,out,s'⟩) (scan s')

end NetworkPrograms.ReadyScans
