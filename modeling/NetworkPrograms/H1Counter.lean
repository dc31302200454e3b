import NetworkPrograms.WireBytes
import NetworkPrograms.Occurrences

/-! The tag counter h1-counter.c of program_01: how it finds a needle in what it
has received. The haystack is a buffer in memory, so that no index wraps. -/
namespace NetworkPrograms.H1Counter
open WireBytes Occurrences

/- `for (; check_read < needle_len && index < haystack_len; ++check_read)`, with
both counters as it leaves them. -/
def checkLoop (haystack needle : Bytes) (checkRead index : Nat) : Nat × Nat :=
  if checkRead < needle.length ∧ index < haystack.length then
    if needle[checkRead]? ≠ haystack[index]? then (checkRead,index)
    else checkLoop haystack needle (checkRead + 1) (index + 1)
  else (checkRead,index)
termination_by haystack.length - index

theorem checkLoopCommon (haystack needle : Bytes) (checkRead index : Nat) :
    checkLoop haystack needle checkRead index =
      (checkRead + common (needle.drop checkRead) (haystack.drop index),
        index + common (needle.drop checkRead) (haystack.drop index)) := by
  fun_induction checkLoop haystack needle checkRead index with
  | case1 checkRead index inside differ =>
    obtain ⟨left,right⟩ := inside
    rw [List.drop_eq_getElem_cons left,List.drop_eq_getElem_cons right,common]
    simp only [List.getElem?_eq_getElem left,List.getElem?_eq_getElem right] at differ
    have other : needle[checkRead] ≠ haystack[index] := fun same => differ (congrArg some same)
    simp [other]
  | case2 checkRead index inside alike ih =>
    obtain ⟨left,right⟩ := inside
    rw [ih,List.drop_eq_getElem_cons left,List.drop_eq_getElem_cons right,common]
    simp only [List.getElem?_eq_getElem left,List.getElem?_eq_getElem right] at alike
    have same : needle[checkRead] = haystack[index] := Option.some.inj (not_not.mp alike)
    rw [if_pos same]
    ext
    · exact Nat.add_right_comm _ _ _
    · exact Nat.add_right_comm _ _ _
  | case3 checkRead index outside =>
    by_cases left : checkRead < needle.length
    · have right : haystack.length ≤ index := by omega
      rw [List.drop_of_length_le right,List.drop_eq_getElem_cons left]
      simp [common]
    · rw [List.drop_of_length_le (Nat.le_of_not_lt left)]
      simp [common]

/- The outer loop goes on behind whatever the inner one has read, and one byte
further with its own `++index`. -/
def countLoop (haystack needle : Bytes) (index count : Nat) : Nat :=
  if index < haystack.length then
    if haystack[index]? = needle[0]? then
      let checked := checkLoop haystack needle 0 index
      countLoop haystack needle (checked.2 + 1)
        (if checked.1 = needle.length then count + 1 else count)
    else countLoop haystack needle (index + 1) count
  else count
termination_by haystack.length - index
decreasing_by
  · rw [checkLoopCommon]
    omega
  · omega

def countOccurances (haystack needle : Bytes) : Nat :=
  if needle.length = 0 then 0 else countLoop haystack needle 0 0

def tag : Bytes := [60,104,49,62]

/- The loop counts what a scan finds that skips common prefixes. -/
theorem countLoopHits {haystack needle : Bytes} (nonempty : needle ≠ []) (index count : Nat) :
    countLoop haystack needle index count =
      count + (hits needle (common needle) index 0 (haystack.drop index)).length := by
  fun_induction countLoop haystack needle index count with
  | case1 index count inside starts checked ih =>
    have skipped : checked = (common needle (haystack.drop index),
        index + common needle (haystack.drop index)) := by
      simpa using checkLoopCommon haystack needle 0 index
    rw [dite_eq_ite] at ih
    rw [ih,skipped,List.drop_eq_getElem_cons inside,hitsStep,List.drop_drop,
      Nat.add_right_comm index,← Nat.add_assoc]
    by_cases found : needle <+: haystack[index] :: haystack.drop (index + 1)
    · rw [if_pos found,if_pos ((commonWhole needle _).mp found)]
    · rw [if_neg found,if_neg (mt (commonWhole needle _).mpr found),Nat.add_zero count]
  | case2 index count inside differs ih =>
    obtain ⟨c,rest,rfl⟩ := List.exists_cons_of_ne_nil nonempty
    have other : ¬ c = haystack[index] := by
      intro same
      rw [List.getElem?_eq_getElem inside,same] at differs
      exact differs rfl
    rw [ih,List.drop_eq_getElem_cons inside]
    simp [hits,common,List.isPrefixOf,other]
  | case3 index count outside =>
    rw [List.drop_of_length_le (Nat.le_of_not_lt outside)]
    rfl

theorem countHits {haystack needle : Bytes} (nonempty : needle ≠ []) :
    countOccurances haystack needle = (hits needle (common needle) 0 0 haystack).length := by
  rw [countOccurances,if_neg (mt List.length_eq_zero_iff.mp nonempty),countLoopHits nonempty,
    Nat.zero_add,List.drop_zero]

/- What is counted are the clear occurrences of the needle. They are as many as a
scan without overlap finds if all of these are clear, and only then for a needle
whose occurrences cannot overlap. -/
theorem countOccurancesIff (haystack needle : Bytes) (nonempty : needle ≠ []) :
    countOccurances haystack needle =
      {p | needle <+: haystack.drop p ∧ Clear needle (haystack.take p)}.ncard ∧
    ((∀ p ∈ occurrences needle haystack, Clear needle (haystack.take p)) →
      countOccurances haystack needle = (occurrences needle haystack).length) ∧
    (Unbordered needle →
      (countOccurances haystack needle = (occurrences needle haystack).length ↔
        ∀ p ∈ occurrences needle haystack, Clear needle (haystack.take p))) ∧
    (countOccurances haystack tag = {p | tag <+: haystack.drop p}.ncard ↔
      ∀ p, tag <+: haystack.drop p → Clear tag (haystack.take p)) := by
  rw [countHits nonempty]
  have letters : tag ≠ [] := by decide
  have single : Unbordered tag := by decide
  refine ⟨clearNumber nonempty haystack,clearCounts,?_,?_⟩
  · exact fun single => clearCountsIff single haystack
  · rw [countHits letters,← occurrencesNumber letters single,clearCountsIff single]
    constructor
    · intro clear p occurs
      exact clear p ((unborderedOccurs single haystack p).mpr ⟨occursInside letters occurs,occurs⟩)
    · intro clear p found
      exact clear p ((unborderedOccurs single haystack p).mp found).2

/- In "<p><h1>" nothing stands in the way. -/
theorem countOccurancesOnce :
    countOccurances [60,112,62,60,104,49,62] tag = (occurrences tag [60,112,62,60,104,49,62]).length := by
  refine (countOccurancesIff [60,112,62,60,104,49,62] tag (by decide)).2.1 ?_
  intro p found
  have third : p = 3 := by
    have places : occurrences tag [60,112,62,60,104,49,62] = [3] := by decide
    rwa [places,List.mem_singleton] at found
  have apart : ∀ k < 3, ¬ ([60,112,62] : Bytes).drop k <+: tag := by decide
  rw [third,clearIff]
  intro ⟨k,inside,_,part⟩
  rw [List.append_nil] at part
  exact apart k inside part

/- "<h1><h1>" and "<<h1>": behind a tag and behind a '<' the next is skipped. -/
theorem countOccurancesMisses :
    countOccurances [60,104,49,62,60,104,49,62] tag = 1 ∧
    occurrences tag [60,104,49,62,60,104,49,62] = [0,4] ∧
    countOccurances [60,60,104,49,62] tag = 0 ∧
    occurrences tag [60,60,104,49,62] = [1] := by
  have letters : tag ≠ [] := by decide
  rw [countHits letters,countHits letters]
  decide

end NetworkPrograms.H1Counter
