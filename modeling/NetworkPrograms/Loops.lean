/-! Loops that need not end: each turn goes on with a new state or leaves with a
result. The rules are those for a loop invariant, with and without a variant. -/
namespace NetworkPrograms.Loops

inductive Turn (σ ρ : Type) where
  | next (s : σ)
  | leave (r : ρ)

variable {σ ρ : Type} {turn : σ → Turn σ ρ}

/- The loop leaves after finitely many turns, with this result. -/
inductive Returns (turn : σ → Turn σ ρ) : σ → ρ → Prop where
  | now {s r} (left : turn s = .leave r) : Returns turn s r
  | later {s s' r} (moved : turn s = .next s') (rest : Returns turn s' r) : Returns turn s r

theorem returnsUnique {s : σ} {r r' : ρ} (done : Returns turn s r) (again : Returns turn s r') :
    r = r' := by
  induction done with
  | now left =>
    cases again with
    | now left' => exact Turn.leave.inj (left.symm.trans left')
    | later moved rest =>
      rw [left] at moved
      contradiction
  | later moved rest ih =>
    cases again with
    | now left =>
      rw [moved] at left
      contradiction
    | later moved' rest' =>
      cases Turn.next.inj (moved.symm.trans moved')
      exact ih rest'

theorem returnsOnly {Q : ρ → Prop} {s : σ} {r : ρ} (done : Returns turn s r) (good : Q r) :
    ∀ r', Returns turn s r' → Q r' := by
  intro r' again
  rwa [returnsUnique again done]

/- A turn that keeps the invariant and lowers the measure comes to an end. -/
theorem returns {I : σ → Prop} {Q : ρ → Prop} (measure : σ → Nat)
    (kept : ∀ s s', I s → turn s = .next s' → I s' ∧ measure s' < measure s)
    (left : ∀ s r, I s → turn s = .leave r → Q r) {s : σ} (start : I s) :
    ∃ r, Returns turn s r ∧ Q r := by
  generalize bound : measure s = n
  induction n using Nat.strongRecOn generalizing s with
  | _ n ih =>
    cases turned : turn s with
    | leave r => exact ⟨r,.now turned,left s r start turned⟩
    | next s' =>
      obtain ⟨again,lower⟩ := kept s s' start turned
      obtain ⟨r,rest,good⟩ := ih (measure s') (bound ▸ lower) again rfl
      exact ⟨r,.later turned rest,good⟩

/- What every turn keeps, and no turn leaves from, is never left. -/
theorem forever {I : σ → Prop} (kept : ∀ s, I s → ∃ s', turn s = .next s' ∧ I s') {s : σ}
    (start : I s) (r : ρ) : ¬ Returns turn s r := by
  intro done
  induction done with
  | now left =>
    obtain ⟨s',moved,_⟩ := kept _ start
    rw [left] at moved
    contradiction
  | later moved rest ih =>
    obtain ⟨s',moved',again⟩ := kept _ start
    cases Turn.next.inj (moved.symm.trans moved')
    exact ih again

end NetworkPrograms.Loops
