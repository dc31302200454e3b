import NetworkPrograms.PeerListener

/-! Where handle_fetch looks for a file: the components of a requested name
against the path that is built of them, as lists and as the bytes of a PathBuf. -/
namespace NetworkPrograms.PeerPaths
open WireBytes (Bytes Written onWire)
open ByteStreams PeerListener

theorem segmentsSome (raw : Bytes) : ∃ first rest, segments raw = first :: rest := by
  induction raw with
  | nil => exact ⟨[],[],rfl⟩
  | cons b raw ih =>
    obtain ⟨first,rest,shape⟩ := ih
    rw [segments,shape]
    dsimp only
    split
    · exact ⟨[],_,rfl⟩
    · exact ⟨_,rest,rfl⟩

theorem segmentsSlash (raw : Bytes) : segments (47 :: raw) = [] :: segments raw := by
  obtain ⟨first,rest,shape⟩ := segmentsSome raw
  rw [segments,shape]
  rfl

theorem segmentsOther {b : UInt8} (other : b ≠ 47) {raw first : Bytes} {rest : List Bytes}
    (shape : segments raw = first :: rest) : segments (b :: raw) = (b :: first) :: rest := by
  rw [segments,shape]
  exact if_neg other

/- The separator ends up in no segment. -/
theorem segmentFlat {raw segment : Bytes} (member : segment ∈ segments raw) : 47 ∉ segment := by
  induction raw generalizing segment with
  | nil =>
    rw [List.mem_singleton.mp member]
    exact List.not_mem_nil
  | cons b raw ih =>
    by_cases slash : b = 47
    · rw [slash,segmentsSlash] at member
      rcases List.mem_cons.mp member with rfl | later
      · exact List.not_mem_nil
      · exact ih later
    · obtain ⟨first,rest,shape⟩ := segmentsSome raw
      rw [shape] at ih
      rw [segmentsOther slash shape] at member
      rcases List.mem_cons.mp member with rfl | later
      · intro inside
        rcases List.mem_cons.mp inside with same | deeper
        · exact slash same.symm
        · exact ih List.mem_cons_self deeper
      · exact ih (List.mem_cons_of_mem _ later)

theorem segmentsFlat {name : Bytes} (flat : 47 ∉ name) : segments name = [name] := by
  induction name with
  | nil => rfl
  | cons b name ih =>
    have other : b ≠ 47 := fun same => flat (same ▸ List.mem_cons_self)
    exact segmentsOther other (ih (fun member => flat (List.mem_cons_of_mem _ member)))

theorem segmentsAppend (front back : Bytes) :
    segments (front ++ 47 :: back) = segments front ++ segments back := by
  induction front with
  | nil => exact segmentsSlash back
  | cons b front ih =>
    by_cases slash : b = 47
    · rw [slash,List.cons_append,segmentsSlash,segmentsSlash,ih]
      rfl
    · obtain ⟨first,rest,shape⟩ := segmentsSome front
      rw [shape,List.cons_append] at ih
      rw [List.cons_append,segmentsOther slash ih,segmentsOther slash shape]
      rfl

/- A name that is one component, and neither "." nor "..". -/
structure ProperName (name : Bytes) : Prop where
  some_byte : name ≠ []
  not_dot : name ≠ [46]
  not_dots : name ≠ [46,46]
  flat : 47 ∉ name

theorem componentProper {name : Bytes} (proper : ProperName name) :
    component name = some (.normal name) := by
  rw [component,if_neg (not_or.mpr ⟨proper.some_byte,proper.not_dot⟩),if_neg proper.not_dots]

theorem properComponent {segment name : Bytes} (flat : 47 ∉ segment)
    (found : component segment = some (.normal name)) : ProperName name := by
  unfold component at found
  split at found
  · contradiction
  rename_i kept
  split at found
  · cases found
  rename_i not_dots
  cases found
  obtain ⟨some_byte,not_dot⟩ := not_or.mp kept
  exact ⟨some_byte,not_dot,not_dots,flat⟩

theorem componentsShape {raw first : Bytes} {rest : List Bytes} (shape : segments raw = first :: rest) :
    components raw = (if first = [] ∧ rest ≠ [] then [.rootDir]
      else if first = [46] then [.curDir]
      else (component first).toList) ++ rest.filterMap component := by
  rw [components,shape]

theorem normalProper {raw name : Bytes} (member : .normal name ∈ components raw) :
    ProperName name := by
  obtain ⟨first,rest,shape⟩ := segmentsSome raw
  have flat : ∀ segment ∈ first :: rest, 47 ∉ segment := fun segment inside =>
    segmentFlat (shape ▸ inside)
  rw [componentsShape shape] at member
  rcases List.mem_append.mp member with leading | later
  · split at leading
    · simp at leading
    split at leading
    · simp at leading
    · exact properComponent (flat first List.mem_cons_self) (Option.mem_toList.mp leading)
  · obtain ⟨segment,inside,found⟩ := List.mem_filterMap.mp later
    exact properComponent (flat segment (List.mem_cons_of_mem _ inside)) found

def normalName : Component → Option Bytes
  | .rootDir => none
  | .curDir => none
  | .parentDir => none
  | .normal name => some name

/- The names among the components of a requested name, in order. -/
def normalNames (filename : Bytes) : List Bytes := (components filename).filterMap normalName

theorem namesProper {filename name : Bytes} (member : name ∈ normalNames filename) :
    ProperName name := by
  obtain ⟨comp,inside,named⟩ := List.mem_filterMap.mp member
  cases comp with
  | normal found =>
    cases named
    exact normalProper inside
  | rootDir | curDir | parentDir => contradiction

/- A name that leads out of the directory it is looked up in. -/
def Escapes (filename : Bytes) : Prop :=
  .rootDir ∈ components filename ∨ .parentDir ∈ components filename

instance (filename) : Decidable (Escapes filename) :=
  inferInstanceAs (Decidable (_ ∨ _))

theorem pushedExact {path pushed : List Bytes} {comps : List Component} :
    pushComponents path comps = some pushed ↔
      (.rootDir ∉ comps ∧ .parentDir ∉ comps) ∧ pushed = path ++ comps.filterMap normalName := by
  induction comps generalizing path with
  | nil => simp [pushComponents,eq_comm]
  | cons comp comps ih =>
    cases comp with
    | normal name => simp [pushComponents,ih,normalName]
    | curDir => simp [pushComponents,ih,List.filterMap_cons,normalName]
    | rootDir => simp [pushComponents]
    | parentDir => simp [pushComponents]

theorem pushedNames {filename : Bytes} (inside : ¬ Escapes filename) (path : List Bytes) :
    pushComponents path (components filename) = some (path ++ normalNames filename) :=
  pushedExact.mpr ⟨not_or.mp inside,rfl⟩

theorem pushedNone {filename : Bytes} (escapes : Escapes filename) (path : List Bytes) :
    pushComponents path (components filename) = none := by
  cases pushed : pushComponents path (components filename) with
  | none => rfl
  | some found => exact absurd escapes (not_or.mpr (pushedExact.mp pushed).1)

theorem componentRoot (segment : Bytes) : component segment ≠ some .rootDir := by
  unfold component
  split
  · exact nofun
  split
  · exact nofun
  · exact nofun

theorem componentParent {segment : Bytes} :
    component segment = some .parentDir ↔ segment = [46,46] := by
  unfold component
  split
  · rename_i dropped
    rcases dropped with rfl | rfl <;> simp
  split
  · rename_i same
    simp [same]
  · rename_i other
    simp [other]

theorem firstEmpty {b : UInt8} {raw first : Bytes} {rest : List Bytes}
    (shape : segments (b :: raw) = first :: rest) : (first = [] ↔ b = 47) ∧ (b = 47 → rest ≠ []) := by
  obtain ⟨next,more,onward⟩ := segmentsSome raw
  by_cases slash : b = 47
  · rw [slash,segmentsSlash,onward] at shape
    cases shape
    exact ⟨iff_of_true rfl slash,fun _ => List.cons_ne_nil _ _⟩
  · rw [segmentsOther slash onward] at shape
    cases shape
    exact ⟨iff_of_false (List.cons_ne_nil _ _) slash,fun same => absurd same slash⟩

theorem leadingSlash {raw first : Bytes} {rest : List Bytes} (shape : segments raw = first :: rest) :
    raw.head? = some 47 ↔ first = [] ∧ rest ≠ [] := by
  cases raw with
  | nil =>
    cases shape
    simp
  | cons b raw =>
    obtain ⟨empty,more⟩ := firstEmpty shape
    rw [List.head?_cons,Option.some.injEq,empty]
    exact ⟨fun slash => ⟨slash,more slash⟩,And.left⟩

/- In the text of a name: it starts with a slash or has a ".." between slashes. -/
theorem escapesIff {filename : Bytes} :
    Escapes filename ↔ filename.head? = some 47 ∨ [46,46] ∈ segments filename := by
  obtain ⟨first,rest,shape⟩ := segmentsSome filename
  have later : ∀ comp, comp ∈ rest.filterMap component ↔ ∃ segment ∈ rest, component segment = some comp :=
    fun comp => List.mem_filterMap
  rw [Escapes,componentsShape shape,leadingSlash shape,shape]
  simp only [List.mem_append,later,componentRoot,componentParent,and_false,exists_false,or_false,
    exists_eq_right,List.mem_cons]
  split
  · rename_i root
    simp [root]
  rename_i relative
  split
  · rename_i dot
    simp [dot]
  · simp only [Option.mem_toList,componentRoot,componentParent,false_or,relative,@eq_comm _ [46,46] first]

/- PathBuf::push. -/
def push (path name : Bytes) : Bytes :=
  if name.head? = some 47 then name
  else if path = [] ∨ path.getLast? = some 47 then path ++ name
  else path ++ 47 :: name

/- The bytes of a path that was built by pushing. -/
def pathBytes : List Bytes → Bytes
  | [] => []
  | dir :: names => names.foldl push dir

theorem componentsName {name : Bytes} (proper : ProperName name) : components name = [.normal name] := by
  rw [componentsShape (segmentsFlat proper.flat)]
  simp [proper.some_byte,proper.not_dot,componentProper proper]

/- A segment behind a slash adds its component. -/
theorem componentsBehind (front : Bytes) {back : Bytes} (flat : 47 ∉ back) :
    components (front ++ 47 :: back) = components (front ++ [47]) ++ (component back).toList := by
  obtain ⟨first,rest,shape⟩ := segmentsSome front
  have whole : segments (front ++ 47 :: back) = first :: (rest ++ [back]) := by
    rw [segmentsAppend,shape,segmentsFlat flat]
    rfl
  have ended : segments (front ++ [47]) = first :: (rest ++ [[]]) := by
    rw [segmentsAppend,shape]
    rfl
  have nothing : component [] = none := rfl
  have last : [back].filterMap component = (component back).toList := by
    cases found : component back with
    | none => simp [found]
    | some comp => simp [found]
  rw [componentsShape whole,componentsShape ended]
  simp [nothing,last]

/- A slash at the end of a path that is not empty adds nothing. -/
theorem componentsEnded {path : Bytes} (some_byte : path ≠ []) :
    components (path ++ [47]) = components path := by
  obtain ⟨first,rest,shape⟩ := segmentsSome path
  have ended : segments (path ++ [47]) = first :: (rest ++ [[]]) := by
    rw [segmentsAppend,shape]
    rfl
  have nothing : component [] = none := rfl
  have root : (first = [] ∧ ¬ rest = []) ↔ first = [] := by
    refine ⟨And.left,fun empty => ⟨empty,?_⟩⟩
    cases path with
    | nil => contradiction
    | cons b path =>
      obtain ⟨bare,more⟩ := firstEmpty shape
      exact more (bare.mp empty)
  rw [componentsShape shape,componentsShape ended]
  simp [nothing,root]

theorem componentsPush {name : Bytes} (proper : ProperName name) (path : Bytes) :
    components (push path name) = components path ++ [.normal name] := by
  have relative : name.head? ≠ some 47 := by
    intro slash
    obtain ⟨rest,rfl⟩ := List.head?_eq_some_iff.mp slash
    exact proper.flat List.mem_cons_self
  rw [push,if_neg relative]
  split
  · rename_i bare
    rcases bare with rfl | slash
    · exact componentsName proper
    · obtain ⟨front,rfl⟩ := List.getLast?_eq_some_iff.mp slash
      have joined : front ++ [47] ++ name = front ++ 47 :: name := by simp
      rw [joined,componentsBehind front proper.flat,componentProper proper]
      rfl
  · rename_i kept
    rw [componentsBehind path proper.flat,componentProper proper,componentsEnded (not_or.mp kept).1]
    rfl

/- A path built on `dir` of proper names is inside it. -/
theorem pathInside (dir : Bytes) {names : List Bytes} (proper : ∀ name ∈ names, ProperName name) :
    components (pathBytes (dir :: names)) = components dir ++ names.map .normal := by
  rw [pathBytes]
  induction names generalizing dir with
  | nil => simp
  | cons name names ih =>
    obtain ⟨here,later⟩ := List.forall_mem_cons.mp proper
    rw [List.foldl_cons,ih (push dir name) later,componentsPush here]
    simp

theorem fetchOpens {sharedDir path : List Bytes} {openFile : List Bytes → Option (List ReadResult)}
    {writes : Nat → Written} {filename : Bytes}
    (valid : pushComponents sharedDir (components filename) = some path) :
    (handleFetch sharedDir openFile writes filename).opened = some path := by
  unfold handleFetch
  rw [valid]
  dsimp only
  split
  · unfold refuse
    split
    · rfl
    · rfl
  split
  · rfl
  split
  · split
    · rfl
    · rfl
  · rfl

theorem fetchRefuses {sharedDir : List Bytes} (openFile : List Bytes → Option (List ReadResult))
    (writes : Nat → Written) {filename : Bytes} (escapes : Escapes filename) :
    (handleFetch sharedDir openFile writes filename).opened = none ∧
      (handleFetch sharedDir openFile writes filename).wire =
        onWire [ResponseType.invalidData.code] (writes 0) := by
  unfold handleFetch
  rw [pushedNone escapes]
  dsimp only [refuse]
  split
  · rename_i sent
    rw [sent]
    exact ⟨rfl,rfl⟩
  · rename_i accepted failed
    rw [failed]
    exact ⟨rfl,rfl⟩

/- The shared directory as the bytes of its path; `answers` is what the file
system would have said at any other place. -/
theorem fetchConfined (sharedDir : Bytes) (openFile : List Bytes → Option (List ReadResult))
    (writes : Nat → Written) (filename : Bytes) :
    (∀ path, (handleFetch [sharedDir] openFile writes filename).opened = some path →
      path = sharedDir :: normalNames filename ∧
      (∀ name ∈ normalNames filename, ProperName name) ∧
      components (pathBytes path) = components sharedDir ++ (normalNames filename).map .normal) ∧
    (∀ answers : List Bytes → Option (List ReadResult),
      answers (sharedDir :: normalNames filename) = openFile (sharedDir :: normalNames filename) →
      handleFetch [sharedDir] answers writes filename = handleFetch [sharedDir] openFile writes filename) ∧
    (Escapes filename →
      (handleFetch [sharedDir] openFile writes filename).opened = none ∧
      (handleFetch [sharedDir] openFile writes filename).wire =
        onWire [ResponseType.invalidData.code] (writes 0)) := by
  have proper : ∀ name ∈ normalNames filename, ProperName name := fun name => namesProper
  by_cases escapes : Escapes filename
  · have refused := @fetchRefuses [sharedDir] openFile writes filename escapes
    refine ⟨?_,?_,fun _ => refused⟩
    · intro path opened
      rw [refused.1] at opened
      contradiction
    · intro answers same
      unfold handleFetch
      rw [pushedNone escapes]
  · have valid := pushedNames escapes [sharedDir]
    refine ⟨?_,?_,fun out => absurd out escapes⟩
    · intro path opened
      cases Option.some.inj ((fetchOpens valid).symm.trans opened)
      exact ⟨rfl,proper,pathInside sharedDir proper⟩
    · intro answers same
      have at_path : answers ([sharedDir] ++ normalNames filename) =
          openFile ([sharedDir] ++ normalNames filename) := same
      unfold handleFetch
      rw [valid]
      dsimp only
      rw [at_path]

/- "a/./b" is looked for in "s" and "a/.." is refused. -/
theorem fetchConfinedBoth :
    components (pathBytes [[115],[97],[98]]) = [.normal [115],.normal [97],.normal [98]] ∧
    (handleFetch [[115]] (fun _ => none) (fun _ => .all) [97,47,46,46]).opened = none ∧
    (handleFetch [[115]] (fun _ => none) (fun _ => .all) [97,47,46,46]).wire = [6] := by
  obtain ⟨inside,_,_⟩ := fetchConfined [115] (fun _ => none) (fun _ => .all) [97,47,46,47,98]
  obtain ⟨_,_,refused⟩ := fetchConfined [115] (fun _ => none) (fun _ => .all) [97,47,46,46]
  exact ⟨(inside [[115],[97],[98]] rfl).2.2,refused (.inr (.tail _ (.head _)))⟩

end NetworkPrograms.PeerPaths
