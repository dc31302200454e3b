import NetworkPrograms.Loops

/-! Command loops that read from a text which comes to an end: what the loop does
with the text is what an interpreter does with the commands in it, and behind the
last command it goes round for ever. -/
namespace NetworkPrograms.Prompts
open Loops

/- Takes one command off the text; none at its end. -/
structure Scanner (ι κ : Type) where
  next : ι → Option (κ × ι)
  size : ι → Nat
  shorter : ∀ i c rest, next i = some (c,rest) → size rest < size i

inductive Effect (σ : Type) where
  | goes (s : σ)
  | quits
  | blocks

variable {ι κ σ : Type}

/- One turn of the loop; a call that never comes back leaves it where it is. -/
def promptTurn (scan : Scanner ι κ) (obey : σ → κ → Effect σ) (at_ : ι × σ) :
    Turn (ι × σ) (ι × σ) :=
  match scan.next at_.1 with
  | none => .next at_
  | some (c,rest) => match obey at_.2 c with
      | .goes s => .next (rest,s)
      | .quits => .leave (rest,at_.2)
      | .blocks => .next at_

/- All commands of a text, in order. -/
def commands (scan : Scanner ι κ) (i : ι) : List κ :=
  match _found : scan.next i with
  | none => []
  | some (c,rest) => c :: commands scan rest
termination_by scan.size i
decreasing_by exact scan.shorter i c rest _found

/- The state in which a list of commands quits, with the commands behind that one. -/
def obeyAll (obey : σ → κ → Effect σ) : σ → List κ → Option (σ × List κ)
  | _, [] => none
  | s, c :: cs => match obey s c with
      | .goes s => obeyAll obey s cs
      | .quits => some (s,cs)
      | .blocks => none

section
variable {scan : Scanner ι κ} {obey : σ → κ → Effect σ}

theorem commandsEnd {i : ι} (ended : scan.next i = none) : commands scan i = [] := by
  rw [commands]
  split
  · rfl
  · rename_i c rest found
    rw [ended] at found
    contradiction

theorem commandsNext {i rest : ι} {c : κ} (found : scan.next i = some (c,rest)) :
    commands scan i = c :: commands scan rest := by
  rw [commands]
  split
  · rename_i ended
    rw [ended] at found
    contradiction
  · rename_i c' rest' found'
    cases Option.some.inj (found.symm.trans found')
    rfl

/- A loop that stays where it is never leaves. -/
theorem stays {ρ τ : Type} {turn : τ → Turn τ ρ} {t : τ} (same : turn t = .next t) (r : ρ) :
    ¬ Returns turn t r :=
  forever (I := fun t' => t' = t) (fun _ here => ⟨t,here ▸ same,rfl⟩) rfl r

/- The loop over the text leaves where the interpreter of its commands stops. -/
theorem leavesIff (i : ι) (s s' : σ) (left : List κ) :
    (∃ rest, Returns (promptTurn scan obey) (i,s) (rest,s') ∧ commands scan rest = left) ↔
      obeyAll obey s (commands scan i) = some (s',left) := by
  induction bound : scan.size i using Nat.strongRecOn generalizing i s with
  | _ n ih =>
    cases found : scan.next i with
    | none =>
      rw [commandsEnd found,obeyAll]
      refine iff_of_false (fun done => ?_) (Option.some_ne_none _).symm
      obtain ⟨rest,done,_⟩ := done
      refine stays ?_ _ done
      simp only [promptTurn,found]
    | some next =>
      obtain ⟨c,rest⟩ := next
      have lower := scan.shorter i c rest found
      rw [commandsNext found,obeyAll]
      cases obeyed : obey s c with
      | goes onto =>
        have turned : promptTurn scan obey (i,s) = .next (rest,onto) := by
          simp only [promptTurn,found,obeyed]
        rw [← ih (scan.size rest) (bound ▸ lower) rest onto rfl]
        constructor
        · rintro ⟨end_,done,same⟩
          cases done with
          | now left' =>
            rw [turned] at left'
            contradiction
          | later moved onward =>
            cases Turn.next.inj (turned.symm.trans moved)
            exact ⟨end_,onward,same⟩
        · rintro ⟨end_,onward,same⟩
          exact ⟨end_,.later turned onward,same⟩
      | quits =>
        have turned : promptTurn scan obey (i,s) = .leave (rest,s) := by
          simp only [promptTurn,found,obeyed]
        constructor
        · rintro ⟨end_,done,same⟩
          cases returnsUnique done (.now turned)
          rw [same]
        · intro same
          cases Option.some.inj same
          exact ⟨rest,.now turned,rfl⟩
      | blocks =>
        refine iff_of_false (fun done => ?_) (Option.some_ne_none _).symm
        obtain ⟨end_,done,_⟩ := done
        refine stays ?_ _ done
        simp only [promptTurn,found,obeyed]

/- The first command that quits is the end, if all turns before it come back. -/
theorem obeyAllQuits {Quit : κ → Prop} [DecidablePred Quit] {turn : σ → κ → Option σ}
    (obeys : ∀ s c, obey s c =
      if Quit c then .quits else (turn s c).elim .blocks .goes)
    {s s' : σ} {cs left : List κ} : obeyAll obey s cs = some (s',left) ↔
      ∃ before c, cs = before ++ c :: left ∧ (∀ b ∈ before, ¬ Quit b) ∧ Quit c ∧
        before.foldlM turn s = some s' := by
  induction cs generalizing s with
  | nil => simp [obeyAll]
  | cons c cs ih =>
    rw [obeyAll,obeys]
    by_cases quit : Quit c
    · rw [if_pos quit]
      constructor
      · intro same
        cases Option.some.inj same
        exact ⟨[],c,rfl,by simp,quit,rfl⟩
      · rintro ⟨before,c',parts,none,quit',same⟩
        cases before with
        | nil =>
          cases parts
          rw [← Option.some.inj same]
        | cons b before =>
          cases parts
          exact absurd quit (none _ List.mem_cons_self)
    · rw [if_neg quit]
      cases turned : turn s c with
      | none =>
        refine iff_of_false (Option.some_ne_none _).symm ?_
        rintro ⟨before,c',parts,none,quit',same⟩
        cases before with
        | nil =>
          cases parts
          exact quit quit'
        | cons b before =>
          cases parts
          rw [List.foldlM_cons,turned] at same
          contradiction
      | some onto =>
        dsimp only [Option.elim]
        rw [ih]
        constructor
        · rintro ⟨before,c',parts,none,quit',same⟩
          refine ⟨c :: before,c',by rw [parts]; rfl,?_,quit',?_⟩
          · exact List.forall_mem_cons.mpr ⟨quit,none⟩
          · rw [List.foldlM_cons,turned]
            exact same
        · rintro ⟨before,c',parts,none,quit',same⟩
          cases before with
          | nil =>
            cases parts
            exact absurd quit' quit
          | cons b before =>
            cases parts
            rw [List.foldlM_cons,turned] at same
            exact ⟨before,c',rfl,(List.forall_mem_cons.mp none).2,quit',same⟩

end

end NetworkPrograms.Prompts
