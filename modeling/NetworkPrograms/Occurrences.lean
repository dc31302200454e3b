import Mathlib.Data.List.Nodup
import Mathlib.Data.Set.Card

/-! Occurrences of a needle in a text, as scans from left to right find them. A
scan looks at a position and then skips as many as its jump says; the greedy one
skips the rest of what it has found. -/
namespace NetworkPrograms.Occurrences

variable {α : Type}

/- Looking at a position and skipping the common prefix leaves some out: a
position is clear if the text in front of it does not end in a beginning of the
needle that itself stands at a clear position. -/
def Clear (needle front : List α) : Prop :=
  ∀ k, (inside : k < front.length) → front.drop k <+: needle → ¬ Clear needle (front.take k)
termination_by front.length
decreasing_by
  rw [List.length_take]
  omega

/- The skip from a clear position in `front` goes on over all of `back`. -/
def Covered (needle front back : List α) : Prop :=
  ∃ k, k < front.length ∧ Clear needle (front.take k) ∧ front.drop k ++ back <+: needle

theorem clearIff (needle front : List α) : Clear needle front ↔ ¬ Covered needle front [] := by
  rw [Clear]
  constructor
  · intro clear ⟨k,inside,earlier,part⟩
    rw [List.append_nil] at part
    exact clear k inside part earlier
  · intro uncovered k inside part earlier
    exact uncovered ⟨k,inside,earlier,by rwa [List.append_nil]⟩

theorem coveredStep (needle front : List α) (a : α) (back : List α) :
    Covered needle (front ++ [a]) back ↔
      Covered needle front (a :: back) ∨ (Clear needle front ∧ a :: back <+: needle) := by
  constructor
  · intro ⟨k,inside,clear,part⟩
    rw [List.length_append,List.length_singleton] at inside
    rcases Nat.lt_or_eq_of_le (Nat.lt_succ_iff.mp inside) with before | same
    · rw [List.take_append_of_le_length (Nat.le_of_lt before)] at clear
      rw [List.drop_append_of_le_length (Nat.le_of_lt before),List.append_assoc] at part
      exact .inl ⟨k,before,clear,part⟩
    · rw [same,List.take_left] at clear
      rw [same,List.drop_left] at part
      exact .inr ⟨clear,part⟩
  · intro covers
    rcases covers with ⟨k,inside,clear,part⟩ | ⟨clear,part⟩
    · refine ⟨k,?_,?_,?_⟩
      · rw [List.length_append]
        omega
      · rwa [List.take_append_of_le_length (Nat.le_of_lt inside)]
      · rwa [List.drop_append_of_le_length (Nat.le_of_lt inside),List.append_assoc]
    · refine ⟨front.length,?_,?_,?_⟩
      · rw [List.length_append,List.length_singleton]
        omega
      · rwa [List.take_left]
      · rwa [List.drop_left]

/- No proper end of the needle is a beginning of it, so that two occurrences
cannot overlap. -/
def Unbordered (needle : List α) : Prop :=
  ∀ k, (inside : k < needle.length) → 0 < k → ¬ needle.drop k <+: needle

theorem unborderedApart {needle text : List α} (single : Unbordered needle)
    (found : needle <+: text) {k : Nat} (later : 0 < k) (inside : k < needle.length) :
    ¬ needle <+: text.drop k := by
  intro again
  have part : needle.drop k <+: text.drop k := found.drop k
  have short : (needle.drop k).length ≤ needle.length := by
    rw [List.length_drop]
    exact Nat.sub_le _ _
  exact single k inside later (List.prefix_of_prefix_length_le part again short)

/- A needle with a letter occurs within the text only. -/
theorem occursInside {needle : List α} (nonempty : needle ≠ []) {text : List α} {p : Nat}
    (occurs : needle <+: text.drop p) : p < text.length := by
  by_contra outside
  rw [List.drop_of_length_le (Nat.le_of_not_lt outside)] at occurs
  exact nonempty (List.prefix_nil.mp occurs)

/- A position in a text counted from `index` on: its first one or one behind it. -/
theorem positionsCons {P : Nat → Prop} (p index : Nat) (a : α) (text : List α) :
    (∃ k, p = index + k ∧ k < (a :: text).length ∧ P k) ↔
      (p = index ∧ P 0) ∨ ∃ k, p = index + 1 + k ∧ k < text.length ∧ P (k + 1) := by
  constructor
  · intro ⟨k,same,bound,holds⟩
    cases k with
    | zero => exact .inl ⟨same,holds⟩
    | succ k => exact .inr ⟨k,by omega,Nat.lt_of_succ_lt_succ bound,holds⟩
  · intro either
    rcases either with ⟨same,holds⟩ | ⟨k,same,bound,holds⟩
    · exact ⟨0,same,Nat.succ_pos _,holds⟩
    · exact ⟨k + 1,by omega,Nat.succ_lt_succ bound,holds⟩

variable [DecidableEq α]

instance (needle : List α) : Decidable (Unbordered needle) :=
  inferInstanceAs (Decidable (∀ k, (inside : k < needle.length) → 0 < k → ¬ needle.drop k <+: needle))

/- The length of the longest common prefix. -/
def common : List α → List α → Nat
  | a :: needle, b :: text => if a = b then common needle text + 1 else 0
  | [], _ => 0
  | _ :: _, [] => 0

/- Where a scan finds the needle; `index` is the position of the text and `wait`
the number of positions still to be skipped. -/
def hits (needle : List α) (jump : List α → Nat) : (index wait : Nat) → List α → List Nat
  | _, _, [] => []
  | index, wait + 1, _ :: text => hits needle jump (index + 1) wait text
  | index, 0, a :: text =>
      if needle.isPrefixOf (a :: text) then
        index :: hits needle jump (index + 1) (jump (a :: text)) text
      else hits needle jump (index + 1) (jump (a :: text)) text

@[simp] theorem hitsNil (needle : List α) (jump : List α → Nat) (index wait : Nat) :
    hits needle jump index wait [] = [] := by
  cases wait with
  | zero => rfl
  | succ wait => rfl

def greedy (needle : List α) (text : List α) : Nat :=
  if needle.isPrefixOf text then needle.length - 1 else 0

def occurrences (needle text : List α) : List Nat := hits needle (greedy needle) 0 0 text

theorem commonPrefix {needle text part : List α} (start : part <+: text) :
    part <+: needle ↔ part.length ≤ common needle text := by
  induction part generalizing needle text with
  | nil => simp
  | cons c part ih =>
    cases text with
    | nil => simp at start
    | cons b text =>
      obtain ⟨rfl,onward⟩ := List.cons_prefix_cons.mp start
      cases needle with
      | nil => simp [common]
      | cons a needle =>
        rw [List.cons_prefix_cons,common]
        split
        · rename_i same
          rw [ih onward,List.length_cons]
          simp [same]
        · rename_i other
          simp [Ne.symm other]

theorem commonWhole (needle text : List α) : needle <+: text ↔ common needle text = needle.length := by
  induction needle generalizing text with
  | nil => simp [common]
  | cons a needle ih =>
    cases text with
    | nil => simp [common]
    | cons b text =>
      rw [List.cons_prefix_cons,common,ih]
      split
      · rename_i same
        simp [same]
      · rename_i other
        simp [other]

theorem hitsWait (needle : List α) (jump : List α → Nat) (index wait : Nat) (text : List α) :
    hits needle jump index wait text = hits needle jump (index + wait) 0 (text.drop wait) := by
  induction wait generalizing index text with
  | zero => rfl
  | succ wait ih =>
    cases text with
    | nil => simp [hits]
    | cons a text =>
      rw [hits,ih,List.drop_succ_cons]
      congr 1
      omega

theorem hitsStep (needle : List α) (jump : List α → Nat) (index : Nat) (a : α) (text : List α) :
    (hits needle jump index 0 (a :: text)).length =
      (if needle <+: a :: text then 1 else 0) +
        (hits needle jump (index + jump (a :: text) + 1) 0 (text.drop (jump (a :: text)))).length := by
  rw [hits,hitsWait,Nat.add_right_comm]
  by_cases found : needle <+: a :: text
  · rw [if_pos found,if_pos (List.isPrefixOf_iff_prefix.mpr found),List.length_cons,Nat.add_comm]
  · rw [if_neg found,if_neg (mt List.isPrefixOf_iff_prefix.mp found),Nat.zero_add]

theorem hitsAbove {needle : List α} {jump : List α → Nat} {index wait : Nat} {text : List α} {p : Nat}
    (hit : p ∈ hits needle jump index wait text) : index ≤ p := by
  induction text generalizing index wait with
  | nil => simp at hit
  | cons a text ih =>
    cases wait with
    | succ wait => exact Nat.le_of_succ_le (ih hit)
    | zero =>
      simp only [hits] at hit
      split at hit
      · rcases List.mem_cons.mp hit with rfl | later
        · exact Nat.le_refl _
        · exact Nat.le_of_succ_le (ih later)
      · exact Nat.le_of_succ_le (ih hit)

theorem hitsNodup (needle : List α) (jump : List α → Nat) (index wait : Nat) (text : List α) :
    (hits needle jump index wait text).Nodup := by
  induction text generalizing index wait with
  | nil => simp
  | cons a text ih =>
    cases wait with
    | succ wait => exact ih (index + 1) wait
    | zero =>
      simp only [hits]
      split
      · refine List.nodup_cons.mpr ⟨?_,ih _ _⟩
        intro again
        exact absurd (hitsAbove again) (Nat.not_succ_le_self index)
      · exact ih _ _

/- No scan that steps over its own hits finds more than the greedy one: if the
greedy one is still waiting where the other looks, it has found one more. -/
theorem greedyAhead {needle : List α} {jump : List α → Nat}
    (far : ∀ text, needle <+: text → needle.length ≤ jump text + 1) (i j wait ahead : Nat)
    (text : List α) (inside : ahead < needle.length ∨ ahead = 0) :
    (hits needle jump i wait text).length ≤
      (hits needle (greedy needle) j ahead text).length + if ahead ≤ wait then 0 else 1 := by
  induction text generalizing i j wait ahead with
  | nil => simp
  | cons a text ih =>
    have next := fun wait ahead => ih (i + 1) (j + 1) wait ahead
    have rest : needle.length - 1 < needle.length ∨ needle.length - 1 = 0 := by omega
    cases wait with
    | succ wait =>
      cases ahead with
      | succ ahead =>
        have later := next wait ahead (by omega)
        simpa only [hits,Nat.add_le_add_iff_right] using later
      | zero =>
        simp only [hits,greedy]
        split
        · have later := next wait (needle.length - 1) rest
          rw [List.length_cons]
          split at later <;> omega
        · have later := next wait 0 (.inr rfl)
          simpa using later
    | zero =>
      by_cases found : needle.isPrefixOf (a :: text) = true
      · have reach := far (a :: text) (List.isPrefixOf_iff_prefix.mp found)
        cases ahead with
        | succ ahead =>
          have later := next (jump (a :: text)) ahead (by omega)
          rw [if_pos (by omega)] at later
          simp only [hits,if_pos found,List.length_cons]
          rw [if_neg (Nat.not_succ_le_zero ahead)]
          omega
        | zero =>
          have later := next (jump (a :: text)) (needle.length - 1) rest
          rw [if_pos (by omega)] at later
          simp only [hits,greedy,if_pos found,List.length_cons]
          omega
      · cases ahead with
        | succ ahead =>
          have later := next (jump (a :: text)) ahead (by omega)
          simp only [hits,if_neg found]
          rw [if_neg (Nat.not_succ_le_zero ahead)]
          split at later <;> omega
        | zero =>
          have later := next (jump (a :: text)) 0 (.inr rfl)
          rw [if_pos (Nat.zero_le _)] at later
          simp only [hits,greedy,if_neg found]
          exact later

theorem greedyMost {needle : List α} {jump : List α → Nat}
    (far : ∀ text, needle <+: text → needle.length ≤ jump text + 1) (text : List α) :
    (hits needle jump 0 0 text).length ≤ (occurrences needle text).length :=
  greedyAhead far 0 0 0 0 text (.inr rfl)

theorem hitsOccur {needle : List α} {jump : List α → Nat} {index wait : Nat} {text : List α} {p : Nat}
    (hit : p ∈ hits needle jump index wait text) :
    ∃ k, p = index + k ∧ k < text.length ∧ needle <+: text.drop k := by
  induction text generalizing index wait with
  | nil => simp at hit
  | cons a text ih =>
    rw [positionsCons]
    cases wait with
    | succ wait => exact .inr (ih hit)
    | zero =>
      simp only [hits] at hit
      split at hit
      · rename_i found
        rcases List.mem_cons.mp hit with rfl | later
        · exact .inl ⟨rfl,List.isPrefixOf_iff_prefix.mp found⟩
        · exact .inr (ih later)
      · exact .inr (ih hit)

/- The scan waits exactly while it is covered. -/
theorem clearHits {needle : List α} (index : Nat) {front : List α} {wait : Nat} {text : List α}
    (waits : ∀ k, k ≤ text.length → (Covered needle front (text.take k) ↔ k < wait)) (p : Nat) :
    p ∈ hits needle (common needle) index wait text ↔
      ∃ k, p = index + k ∧ k < text.length ∧ needle <+: text.drop k ∧
        Clear needle (front ++ text.take k) := by
  induction text generalizing index front wait with
  | nil => simp
  | cons a text ih =>
    have here : Covered needle front [] ↔ 0 < wait := waits 0 (Nat.zero_le _)
    have step : ∀ k, k ≤ text.length → (Covered needle (front ++ [a]) (text.take k) ↔
        k + 1 < wait ∨ (Clear needle front ∧ a :: text.take k <+: needle)) := by
      intro k bound
      rw [coveredStep]
      exact or_congr_left (waits (k + 1) (Nat.succ_le_succ bound))
    rw [positionsCons]
    simp only [List.drop_zero,List.take_zero,List.append_nil,List.drop_succ_cons,List.take_succ_cons]
    cases wait with
    | succ wait =>
      have unclear : ¬ Clear needle front := by
        rw [clearIff]
        exact not_not_intro (here.mpr (Nat.succ_pos wait))
      have onward := @ih (index + 1) (front ++ [a]) wait ?_
      · rw [hits,onward]
        simp [unclear]
      · intro k bound
        rw [step k bound]
        simp [unclear]
    | zero =>
      have clear : Clear needle front := by
        rw [clearIff]
        exact fun covered => absurd (here.mp covered) (Nat.lt_irrefl 0)
      have onward := @ih (index + 1) (front ++ [a]) (common needle (a :: text)) ?_
      · simp only [List.append_assoc,List.singleton_append] at onward
        simp only [hits]
        split
        · rename_i found
          rw [List.mem_cons,onward]
          simp [clear,List.isPrefixOf_iff_prefix.mp found]
        · rename_i missing
          have absent : ¬ needle <+: a :: text := fun starts =>
            missing (List.isPrefixOf_iff_prefix.mpr starts)
          rw [onward]
          simp [absent]
      · intro k bound
        have start : a :: text.take k <+: a :: text :=
          List.cons_prefix_cons.mpr ⟨rfl,List.take_prefix k text⟩
        have size : (a :: text.take k).length = k + 1 := by
          rw [List.length_cons,List.length_take,Nat.min_eq_left bound]
        rw [step k bound,commonPrefix start,size]
        simp [clear]

/- Skipping common prefixes finds the needle exactly where it stands clear. -/
theorem clearFound (needle text : List α) (p : Nat) :
    p ∈ hits needle (common needle) 0 0 text ↔
      p < text.length ∧ needle <+: text.drop p ∧ Clear needle (text.take p) := by
  have idle : ∀ k, k ≤ text.length → (Covered needle [] (text.take k) ↔ k < 0) := by
    intro k _
    constructor
    · intro ⟨j,inside,_⟩
      exact absurd inside (Nat.not_lt_zero j)
    · exact fun below => absurd below (Nat.not_lt_zero k)
  rw [clearHits 0 idle]
  constructor
  · intro ⟨k,same,found⟩
    rw [Nat.zero_add] at same
    rwa [same]
  · exact fun found => ⟨p,(Nat.zero_add p).symm,found⟩

theorem unborderedFinds {needle : List α} (single : Unbordered needle) {index wait : Nat}
    {text : List α} (skipped : ∀ j < wait, ¬ needle <+: text.drop j) {k : Nat}
    (inside : k < text.length) (occurs : needle <+: text.drop k) :
    index + k ∈ hits needle (greedy needle) index wait text := by
  induction text generalizing index wait k with
  | nil => exact absurd inside (Nat.not_lt_zero k)
  | cons a text ih =>
    cases wait with
    | succ wait =>
      cases k with
      | zero => exact absurd occurs (skipped 0 (Nat.succ_pos wait))
      | succ k =>
        have later := @ih (index + 1) wait (fun j below => skipped (j + 1) (Nat.succ_lt_succ below))
          k (Nat.lt_of_succ_lt_succ inside) occurs
        rwa [Nat.add_right_comm] at later
    | zero =>
      simp only [hits,greedy]
      split
      · rename_i found
        cases k with
        | zero => exact List.mem_cons_self
        | succ k =>
          have starts := List.isPrefixOf_iff_prefix.mp found
          have later := @ih (index + 1) (needle.length - 1)
            (fun j below => unborderedApart single starts (Nat.succ_pos j) (by omega))
            k (Nat.lt_of_succ_lt_succ inside) occurs
          rw [Nat.add_right_comm] at later
          exact List.mem_cons_of_mem index later
      · rename_i missing
        cases k with
        | zero => exact absurd (List.isPrefixOf_iff_prefix.mpr occurs) missing
        | succ k =>
          have later := @ih (index + 1) 0 (fun j below => absurd below (Nat.not_lt_zero j))
            k (Nat.lt_of_succ_lt_succ inside) occurs
          rwa [Nat.add_right_comm] at later

theorem unborderedOccurs {needle : List α} (single : Unbordered needle) (text : List α) (p : Nat) :
    p ∈ occurrences needle text ↔ p < text.length ∧ needle <+: text.drop p := by
  constructor
  · intro found
    obtain ⟨k,same,inside,occurs⟩ := hitsOccur found
    rw [Nat.zero_add] at same
    rw [same]
    exact ⟨inside,occurs⟩
  · intro ⟨inside,occurs⟩
    have found := @unborderedFinds _ _ _ single 0 0 text
      (fun j below => absurd below (Nat.not_lt_zero j)) p inside occurs
    rwa [Nat.zero_add] at found

theorem hitsNumber (needle : List α) (jump : List α → Nat) (text : List α) :
    (hits needle jump 0 0 text).length = {p | p ∈ hits needle jump 0 0 text}.ncard := by
  rw [← List.toFinset_card_of_nodup (hitsNodup needle jump 0 0 text),← Set.ncard_coe_finset]
  congr 1
  ext p
  simp

theorem clearNumber {needle : List α} (nonempty : needle ≠ []) (text : List α) :
    (hits needle (common needle) 0 0 text).length =
      {p | needle <+: text.drop p ∧ Clear needle (text.take p)}.ncard := by
  rw [hitsNumber]
  congr 1
  ext p
  refine (clearFound needle text p).trans ⟨fun found => found.2,fun found => ?_⟩
  exact ⟨occursInside nonempty found.1,found⟩

theorem occurrencesNumber {needle : List α} (nonempty : needle ≠ []) (single : Unbordered needle)
    (text : List α) : (occurrences needle text).length = {p | needle <+: text.drop p}.ncard := by
  rw [occurrences,hitsNumber]
  congr 1
  ext p
  refine (unborderedOccurs single text p).trans ⟨fun found => found.2,fun found => ?_⟩
  exact ⟨occursInside nonempty found,found⟩

theorem clearCounts {needle text : List α}
    (clear : ∀ p ∈ occurrences needle text, Clear needle (text.take p)) :
    (hits needle (common needle) 0 0 text).length = (occurrences needle text).length := by
  have far : ∀ text, needle <+: text → needle.length ≤ common needle text + 1 := by
    intro text found
    rw [(commonWhole needle text).mp found]
    exact Nat.le_succ _
  have within : occurrences needle text ⊆ hits needle (common needle) 0 0 text := by
    intro p found
    obtain ⟨k,same,inside,occurs⟩ := hitsOccur found
    rw [Nat.zero_add] at same
    subst same
    exact (clearFound needle text p).mpr ⟨inside,occurs,clear p found⟩
  have most := (List.subperm_of_subset (hitsNodup needle _ 0 0 text) within).length_le
  exact Nat.le_antisymm (greedyMost far text) most

/- The converse needs occurrences that do not overlap. -/
theorem clearCountsIff {needle : List α} (single : Unbordered needle) (text : List α) :
    (hits needle (common needle) 0 0 text).length = (occurrences needle text).length ↔
      ∀ p ∈ occurrences needle text, Clear needle (text.take p) := by
  refine ⟨fun same p found => ?_,clearCounts⟩
  have within : hits needle (common needle) 0 0 text ⊆ occurrences needle text := by
    intro p seen
    obtain ⟨inside,occurs,_⟩ := (clearFound needle text p).mp seen
    exact (unborderedOccurs single text p).mpr ⟨inside,occurs⟩
  have alike := (List.subperm_of_subset (hitsNodup needle _ 0 0 text) within).perm_of_length_le
    (Nat.le_of_eq same.symm)
  exact ((clearFound needle text p).mp (alike.mem_iff.mpr found)).2.2

/- Otherwise the numbers may agree although one was stepped over. -/
example : hits [1,1] (common [1,1]) 0 0 [1,1,1,1,1] = [0,3] ∧
    occurrences [1,1] [1,1,1,1,1] = [0,2] := by decide

end NetworkPrograms.Occurrences
