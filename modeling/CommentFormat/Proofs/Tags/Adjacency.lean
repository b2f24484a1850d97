import CommentFormat.Proofs.Print.Idempotence
import CommentFormat.Proofs.Print.Narrow
import Mathlib.Data.List.SplitBy

/-! Adjacency: a tag group is a run of tag parts that follow each other, and nothing but the order of
the parts decides which names it holds. -/

namespace CommentFormat

/-- Tag parts that follow each other stay together, and every other part stands alone. -/
def tagRuns (parts : List Part) : List (List Part) :=
  parts.splitBy Part.joins

def runPart? : List Part → Option Part
  | [] => none
  | .tags names :: rest => some (.tags (names ++ rest.flatMap Part.names))
  | part :: _ => some part

/-- Two rows of merged parts put one behind the other: tag parts that meet at the seam are joined,
and nothing else changes. -/
inductive Seam : List Part → List Part → List Part → Prop where
  | joined (front back : List Part) (names others : List Text) :
      Seam (front ++ [.tags names]) (.tags others :: back)
        (front ++ .tags (names ++ others) :: back)
  | apart {first second : List Part}
      (turns : ∀ last ∈ first.getLast?, ∀ next ∈ second.head?, last.joins next = false) :
      Seam first second (first ++ second)

/-! The seam. -/

theorem consMerged_append (part : Part) (front back : List Part) (shown : front ≠ []) :
    consMerged part (front ++ back) = consMerged part front ++ back := by
  obtain ⟨next, later, rfl⟩ := List.exists_cons_of_ne_nil shown
  cases part <;> cases next <;> rfl

theorem consMerged_head_sort (part : Part) (rest : List Part) :
    (consMerged part rest).head?.map Part.sort = some part.sort := by
  rcases consMerged_cases part rest with ⟨names, others, later, rfl, -, merged⟩ | ⟨-, merged⟩ <;>
    rw [merged] <;> rfl

theorem consMerged_last_sort (part : Part) (rest : List Part) (shown : rest ≠ []) :
    (consMerged part rest).getLast?.map Part.sort = rest.getLast?.map Part.sort := by
  obtain ⟨next, later, rfl⟩ := List.exists_cons_of_ne_nil shown
  rcases consMerged_cases part (next :: later) with
    ⟨names, others, behind, -, cut, merged⟩ | ⟨-, merged⟩
  · rw [merged, cut]
    cases behind <;> simp [Part.sort]
  · simp [merged]

theorem consMerged_seam (part : Part) {first second whole : List Part}
    (seam : Seam first second whole) :
    Seam (consMerged part first) second (consMerged part whole) := by
  cases seam with
  | joined front back names others =>
      cases front with
      | nil =>
          cases part with
          | tags earlier => simpa [consMerged] using Seam.joined [] back (earlier ++ names) others
          | prose text => exact .joined [.prose text] back names others
          | code text => exact .joined [.code text] back names others
      | cons next later =>
          rw [consMerged_append part _ _ (by simp), consMerged_append part _ _ (by simp)]
          exact .joined _ back names others
  | apart turns =>
      by_cases shown : first = []
      · subst shown
        rcases consMerged_cases part second with
          ⟨names, others, later, rfl, rfl, merged⟩ | ⟨turn, merged⟩
        · exact .joined [] later names others
        · have alone : consMerged part [] = [part] := by cases part <;> rfl
          rw [List.nil_append, merged, alone, ← List.singleton_append]
          refine .apart ?_
          intro last isLast next isNext
          obtain rfl : part = last := by simpa using isLast
          rw [Part.joins_eq_false_iff]
          exact fun isTags => turn isTags next isNext
      · rw [consMerged_append part first second shown]
        refine .apart ?_
        intro last isLast next isNext
        have sorts := consMerged_last_sort part first shown
        rw [Option.mem_def.mp isLast, Option.map_some, eq_comm, Option.map_eq_some_iff] at sorts
        obtain ⟨same, isSame, sort⟩ := sorts
        have apart := turns same isSame next isNext
        rwa [Part.joins, sort] at apart

theorem mergeTags_seam (parts more : List Part) :
    Seam (mergeTags parts) (mergeTags more) (mergeTags (parts ++ more)) := by
  induction parts with
  | nil =>
      rw [mergeTags, List.nil_append, ← List.nil_append (mergeTags more)]
      exact .apart (by simp)
  | cons part rest ih => exact consMerged_seam part ih

/-! The runs. -/

theorem mergeTags_head_sort (parts : List Part) :
    (mergeTags parts).head?.map Part.sort = parts.head?.map Part.sort := by
  cases parts with
  | nil => rfl
  | cons part rest => exact consMerged_head_sort part (mergeTags rest)

theorem mergeTags_last_sort (parts : List Part) :
    (mergeTags parts).getLast?.map Part.sort = parts.getLast?.map Part.sort := by
  induction parts with
  | nil => rfl
  | cons part rest ih =>
      cases rest with
      | nil => cases part <;> rfl
      | cons next later =>
          have shown : mergeTags (next :: later) ≠ [] := by
            intro empty
            simpa [empty] using mergeTags_head_sort (next :: later)
          rw [mergeTags, consMerged_last_sort part _ shown, ih, List.getLast?_cons_cons]

theorem mergeTags_append (parts more : List Part)
    (turns : ∀ last ∈ parts.getLast?, ∀ next ∈ more.head?, last.joins next = false) :
    mergeTags (parts ++ more) = mergeTags parts ++ mergeTags more := by
  have seam := mergeTags_seam parts more
  have lastSort := mergeTags_last_sort parts
  have headSort := mergeTags_head_sort more
  generalize mergeTags parts = first at seam lastSort ⊢
  generalize mergeTags more = second at seam headSort ⊢
  generalize mergeTags (parts ++ more) = whole at seam ⊢
  cases seam with
  | apart _ => rfl
  | joined front back names others =>
      simp only [List.getLast?_concat, List.head?_cons, Option.map_some, eq_comm,
        Option.map_eq_some_iff] at lastSort headSort
      obtain ⟨last, isLast, lastTags⟩ := lastSort
      obtain ⟨next, isNext, nextTags⟩ := headSort
      have apart := (Part.joins_eq_false_iff last next).mp (turns last isLast next isNext)
      exact absurd nextTags (apart lastTags)

theorem mergeTags_apart (parts : List Part) :
    (mergeTags parts).IsChain fun upper lower => upper.joins lower = false := by
  induction parts with
  | nil => exact .nil
  | cons part rest ih =>
      rw [mergeTags]
      rcases consMerged_cases part (mergeTags rest) with
        ⟨names, others, later, -, cut, merged⟩ | ⟨turn, merged⟩
      · rw [cut, List.isChain_cons] at ih
        rw [merged, List.isChain_cons]
        exact ih
      · rw [merged, List.isChain_cons]
        refine ⟨fun next isNext => ?_, ih⟩
        rw [Part.joins_eq_false_iff]
        exact fun isTags => turn isTags next isNext

theorem mergeTags_run (run : List Part) (shown : run ≠ [])
    (together : run.IsChain fun upper lower => upper.joins lower = true) :
    ∃ part, mergeTags run = [part] ∧ runPart? run = some part := by
  induction run with
  | nil => contradiction
  | cons part rest ih =>
      cases rest with
      | nil =>
          refine ⟨part, ?_, ?_⟩ <;> cases part <;> simp [mergeTags, consMerged, runPart?]
      | cons next later =>
          rw [List.isChain_cons] at together
          have joins := together.1 next rfl
          obtain ⟨below, merged, isBelow⟩ := ih (by simp) together.2
          cases part with
          | prose text => simp [Part.joins, Part.sort] at joins
          | code text => simp [Part.joins, Part.sort] at joins
          | tags names =>
              cases next with
              | prose text => simp [Part.joins, Part.sort] at joins
              | code text => simp [Part.joins, Part.sort] at joins
              | tags others =>
                  obtain rfl : Part.tags _ = below := Option.some.inj isBelow
                  refine ⟨_, ?_, rfl⟩
                  rw [mergeTags, merged]
                  rfl

theorem mergeTags_flatten (runs : List (List Part)) (shown : [] ∉ runs)
    (together : ∀ run ∈ runs, run.IsChain fun upper lower => upper.joins lower = true)
    (apart : runs.IsChain fun upper lower =>
      ∃ isUpper isLower, (upper.getLast isUpper).joins (lower.head isLower) = false) :
    (mergeTags runs.flatten).map some = runs.map runPart? := by
  induction runs with
  | nil => rfl
  | cons run rest ih =>
      rw [List.mem_cons, not_or] at shown
      rw [List.isChain_cons] at apart
      obtain ⟨part, merged, isPart⟩ :=
        mergeTags_run run (Ne.symm shown.1) (together run (by simp))
      have behind := ih shown.2 (fun other member => together other (List.mem_cons_of_mem run member))
        apart.2
      have turns : ∀ last ∈ run.getLast?, ∀ next ∈ rest.flatten.head?, last.joins next = false := by
        intro last isLast next isNext
        cases rest with
        | nil => simp at isNext
        | cons lower others =>
            obtain ⟨isUpper, isLower, different⟩ := apart.1 lower rfl
            rw [List.getLast?_eq_some_getLast isUpper, Option.mem_some] at isLast
            rw [List.flatten_cons, List.head?_append_of_ne_nil _ isLower,
              List.head?_eq_some_head isLower, Option.mem_some] at isNext
            rwa [← isLast, ← isNext]
      rw [List.flatten_cons, mergeTags_append run rest.flatten turns, merged, List.map_append, behind,
        List.map_singleton, List.map_cons, isPart]
      rfl

theorem mergeTags_eq_runs (parts : List Part) :
    (mergeTags parts).map some = (tagRuns parts).map runPart? := by
  have runs := mergeTags_flatten (tagRuns parts) (List.nil_notMem_splitBy _ _)
    (fun _ => List.isChain_of_mem_splitBy) (List.isChain_getLast_head_splitBy _ _)
  rwa [tagRuns, List.flatten_splitBy, ← tagRuns] at runs

/-! The arrangement. -/

def Part.arranged (width offset : Nat) : Part → ArrangedPart
  | .prose text => .prose text
  | .code text => .code text
  | .tags names => .tagLines (Packing.ofNames width offset names).lines

theorem arrangeMerged_parts (width offset : Nat) (parts : List Part) :
    (arrangeMerged width offset parts).parts = mapFrom (Part.arranged width) offset parts := by
  induction parts generalizing offset with
  | nil => rfl
  | cons part rest ih =>
      rw [arrangeMerged, Arrangement.append, ih, ← mapFrom_zero, mapFrom]
      cases part <;> rfl

/-- Tag parts make one group exactly if they follow each other. The groups are the same on every
page, and each merged part is arranged by itself. -/
theorem tagGroups_of_runs (parts : List Part) :
    let merged := mergeTags parts
    let groups := merged.flatMap Part.groups
    (tagRuns parts).flatten = parts ∧
      merged.map some = (tagRuns parts).map runPart? ∧
      merged.IsChain (fun upper lower => upper.joins lower = false) ∧
      mergeTags merged = merged ∧
      (∀ more, Seam merged (mergeTags more) (mergeTags (parts ++ more))) ∧
      ∀ width,
        (∀ offset, (Arrangement.ofParts width offset parts).groups = groups ∧
          (Arrangement.ofParts width offset parts).parts =
            mapFrom (Part.arranged width) offset merged) ∧
        (∀ arranged journal, arrange? width parts = .ok (arranged, journal) →
          arranged = Arrangement.ofParts width 0 parts) ∧
        (∀ printed, (⟨parts⟩ : Comment .file).print? ⟨width⟩ = .ok printed →
          printed.groups = groups) ∧
        (partsVolume parts + 10 < columnLimit →
          (∃ arranged journal, arrange? width parts = .ok (arranged, journal)) ∧
            ((∀ part ∈ parts, part.Unbroken) →
              ∃ printed, (⟨parts⟩ : Comment .file).print? ⟨width⟩ = .ok printed)) := by
  intro merged groups
  have sameGroups (width offset : Nat) :
      (Arrangement.ofParts width offset parts).groups = groups :=
    arrangeMerged_groups width offset merged
  refine ⟨List.flatten_splitBy _ _, mergeTags_eq_runs parts, mergeTags_apart parts,
    mergeTags_of_apart merged (mergeTags_apart parts), mergeTags_seam parts, fun width =>
      ⟨fun offset => ⟨sameGroups width offset, arrangeMerged_parts width offset merged⟩, ?_, ?_, ?_⟩⟩
  · intro arranged journal ok
    obtain ⟨-, same⟩ := (withinColumns_eq_ok_iff _ _ _).mp ok
    exact (congrArg Prod.fst same).symm
  · intro printed ok
    obtain ⟨-, -, -, rfl⟩ := (Comment.print?_eq_ok_iff _ _ _).mp ok
    exact sameGroups width (columns openLead)
  · intro small
    exact ⟨⟨_, _, arrange?_ok width parts small⟩, fun unbroken =>
      ⟨_, Comment.print?_unbroken ⟨parts⟩ width unbroken small⟩⟩

end CommentFormat
