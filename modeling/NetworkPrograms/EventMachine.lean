/-! Machines that take one event at a time, their runs, and the rules by which a
fact about one step becomes a fact about every run. A log keeps each step with
the states on both sides of it, newest first, so that a history is read back by
recursion on the log. -/
namespace NetworkPrograms.EventMachine

/- `step` is partial: `none` is an event that this state does not receive. -/
structure Machine (σ ε ο : Type) where
  init : σ
  step : σ → ε → Option (σ × ο)

structure Transition (σ ε ο : Type) where
  pre : σ
  event : ε
  out : ο
  post : σ

abbrev Log (σ ε ο : Type) := List (Transition σ ε ο)

variable {σ ε ο α : Type} {m : Machine σ ε ο}

inductive Run (m : Machine σ ε ο) : Log σ ε ο → σ → Prop where
  | start : Run m [] m.init
  | next {log s e s' out} (past : Run m log s) (moved : m.step s e = some (s',out)) :
      Run m (⟨s,e,out,s'⟩ :: log) s'

/- Runs a list of events, oldest first, and returns the log it leaves. -/
def execute (m : Machine σ ε ο) : List ε → Log σ ε ο → σ → Option (Log σ ε ο × σ)
  | [], log, s => some (log,s)
  | e :: es, log, s =>
      match m.step s e with
      | none => none
      | some (s',out) => execute m es (⟨s,e,out,s'⟩ :: log) s'

theorem executedRun {es : List ε} {log log' : Log σ ε ο} {s s' : σ} (past : Run m log s)
    (done : execute m es log s = some (log',s')) : Run m log' s' := by
  induction es generalizing log s with
  | nil =>
    cases Option.some.inj done
    exact past
  | cons e es ih =>
    simp only [execute] at done
    split at done
    · contradiction
    · rename_i moved
      exact ih (.next past moved) done

theorem invariant {P : σ → Prop} (base : P m.init)
    (kept : ∀ s e s' out, P s → m.step s e = some (s',out) → P s')
    {log : Log σ ε ο} {s : σ} (run : Run m log s) : P s := by
  induction run with
  | start => exact base
  | next past moved ih => exact kept _ _ _ _ ih moved

/- The history form: the property may look at the log, and a step may use that
the state before it was reached. -/
theorem history {P : Log σ ε ο → σ → Prop} (base : P [] m.init)
    (kept : ∀ log s e s' out, Run m log s → P log s → m.step s e = some (s',out) →
      P (⟨s,e,out,s'⟩ :: log) s')
    {log : Log σ ε ο} {s : σ} (run : Run m log s) : P log s := by
  induction run with
  | start => exact base
  | next past moved ih => exact kept _ _ _ _ _ past ih moved

theorem pastRun {newer older : Log σ ε ο} {t : Transition σ ε ο} {s : σ}
    (run : Run m (newer ++ t :: older) s) :
    Run m older t.pre ∧ m.step t.pre t.event = some (t.post,t.out) := by
  induction newer generalizing s with
  | nil =>
    cases run with
    | next past moved => exact ⟨past,moved⟩
  | cons head newer ih =>
    cases run with
    | next past moved => exact ih past

theorem logged {log : Log σ ε ο} {s : σ} (run : Run m log s) {t} (member : t ∈ log) :
    (∃ older, Run m older t.pre) ∧ m.step t.pre t.event = some (t.post,t.out) := by
  obtain ⟨newer,older,rfl⟩ := List.append_of_mem member
  exact ⟨⟨older,(pastRun run).1⟩,(pastRun run).2⟩

/- The last value written since the last opening, newest step first. -/
def since (opens : Transition σ ε ο → Bool) (writes : Transition σ ε ο → Option α) :
    Log σ ε ο → Option α
  | [] => none
  | t :: older => if opens t then none else (writes t).or (since opens writes older)

def opening (live : σ → Bool) (t : Transition σ ε ο) : Bool := !live t.pre && live t.post

/- The rule of the last write. `Shows s v` relates a state to the value a reader
of the log expects; it is set afresh when the cell comes alive and otherwise
only a write moves it, so while the cell is alive it shows the last write. -/
theorem lastWrite (live : σ → Bool) (writes : Transition σ ε ο → Option α)
    (Shows : σ → Option α → Prop) (base : live m.init = false)
    (fresh : ∀ log s e s' out, Run m log s → m.step s e = some (s',out) →
      live s = false → live s' = true → Shows s' none)
    (kept : ∀ log s e s' out v, Run m log s → m.step s e = some (s',out) →
      live s = true → live s' = true → Shows s v →
      Shows s' ((writes ⟨s,e,out,s'⟩).or v))
    {log : Log σ ε ο} {s : σ} (run : Run m log s) (alive : live s = true) :
    Shows s (since (opening live) writes log) := by
  induction run with
  | start => simp [base] at alive
  | @next log s e s' out past moved ih =>
    cases before : live s with
    | false =>
      simpa [since,opening,before,alive] using fresh _ _ _ _ _ past moved before alive
    | true =>
      simpa [since,opening,before] using kept _ _ _ _ _ _ past moved before alive (ih before)

/- A map of states carries runs along when every step is matched by a run of
steps of the target, possibly empty. -/
structure Refinement {σ' ε' ο' : Type} (m : Machine σ ε ο) (target : Machine σ' ε' ο')
    (view : σ → σ') : Prop where
  start : view m.init = target.init
  step : ∀ s e s' out, m.step s e = some (s',out) →
    view s' = view s ∨ ∃ e' out', target.step (view s) e' = some (view s',out')

theorem Refinement.carries {σ' ε' ο' : Type} {target : Machine σ' ε' ο'} {view : σ → σ'}
    (refines : Refinement m target view) {log : Log σ ε ο} {s : σ} (run : Run m log s) :
    ∃ log', Run target log' (view s) := by
  induction run with
  | start => exact ⟨[],refines.start ▸ .start⟩
  | @next log s e s' out past moved ih =>
    obtain ⟨log',reached⟩ := ih
    rcases refines.step _ _ _ _ moved with same | ⟨e',out',matched⟩
    · exact ⟨log',same ▸ reached⟩
    · exact ⟨_,.next reached matched⟩

end NetworkPrograms.EventMachine
