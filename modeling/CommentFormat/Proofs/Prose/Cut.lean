import CommentFormat.Proofs.Prose.Marks

/-! The cut: prose taken apart from the top, one passage after the other. A scan finds the same
passages. -/

namespace CommentFormat

/-- The first passage of lines of which the first is not blank, and the lines after it. -/
def firstPassage (line : Text) (rest : List Text) : Passage × List Text :=
  if isFence line then
    match rest.dropWhile fun inner => !isFence inner with
    | [] => (.fenced (line :: rest), [])
    | closing :: after =>
        (.fenced (line :: (rest.takeWhile fun inner => !isFence inner) ++ [closing]), after)
  else if isHeading line then (.heading line, rest)
  else (.run (line :: rest.takeWhile continuesRun), rest.dropWhile continuesRun)

theorem firstPassage_length (line : Text) (rest : List Text) :
    (firstPassage line rest).2.length ≤ rest.length := by
  unfold firstPassage
  split
  · split
    · simp
    · next closing after dropped =>
        have bound := List.length_dropWhile_le (fun inner => !isFence inner) rest
        rw [dropped, List.length_cons] at bound
        simp only
        omega
  · split
    · simp
    · exact List.length_dropWhile_le continuesRun rest

def gapBefore (rest : List Text) : List Passage :=
  if rest.head?.any isBlank && !rest.all isBlank then [.blank] else []

def passagesOf (lines : List Text) : List Passage :=
  match lines with
  | [] => []
  | line :: rest =>
      if isBlank line then passagesOf rest
      else
        let found := firstPassage line rest
        found.1 :: gapBefore found.2 ++ passagesOf found.2
termination_by lines.length
decreasing_by
  · simp
  · have shorter := firstPassage_length line rest
    simp only [List.length_cons]
    omega

/-- A line that is not blank and the lines after it start with the passage and go on with
`later`. -/
inductive Begins : Text → List Text → Passage → List Text → Prop where
  | unclosed {line : Text} {inner : List Text} (fence : isFence line = true)
      (within : ∀ other ∈ inner, isFence other = false) :
      Begins line inner (.fenced (line :: inner)) []
  | closed {line closing : Text} {inner later : List Text} (fence : isFence line = true)
      (within : ∀ other ∈ inner, isFence other = false) (closes : isFence closing = true) :
      Begins line (inner ++ closing :: later) (.fenced (line :: inner ++ [closing])) later
  | heading {line : Text} {later : List Text} (unfenced : isFence line = false)
      (heads : isHeading line = true) : Begins line later (.heading line) later
  | run {line : Text} {more later : List Text} (unfenced : isFence line = false)
      (plain : isHeading line = false) (continues : ∀ other ∈ more, continuesRun other = true)
      (ended : ∀ next ∈ later.head?, continuesRun next = false) :
      Begins line (more ++ later) (.run (line :: more)) later

theorem begins_firstPassage (line : Text) (rest : List Text) :
    Begins line rest (firstPassage line rest).1 (firstPassage line rest).2 := by
  unfold firstPassage
  split
  · next fence =>
      have within := of_mem_takeWhile (fun inner => !isFence inner) rest
      simp only [Bool.not_eq_true'] at within
      have cut := List.takeWhile_append_dropWhile (p := fun inner => !isFence inner) (l := rest)
      split
      · next noFence =>
          rw [noFence, List.append_nil] at cut
          exact .unclosed fence (cut ▸ within)
      · next closing after found =>
          have closes : isFence closing = true := by
            simpa using stop_dropWhile (fun inner => !isFence inner) rest closing (by simp [found])
          rw [found] at cut
          nth_rewrite 1 [← cut]
          exact .closed fence within closes
  · next unfenced =>
      rw [Bool.not_eq_true] at unfenced
      split
      · next heads => exact .heading unfenced heads
      · next plain =>
          rw [Bool.not_eq_true] at plain
          nth_rewrite 1 [← List.takeWhile_append_dropWhile (p := continuesRun) (l := rest)]
          exact .run unfenced plain (of_mem_takeWhile continuesRun rest)
            (stop_dropWhile continuesRun rest)

namespace Begins

variable {line : Text} {rest : List Text} {passage : Passage} {later : List Text}

theorem firstPassage_eq (begins : Begins line rest passage later) :
    firstPassage line rest = (passage, later) := by
  unfold firstPassage
  cases begins with
  | unclosed fence within =>
      have noFence : rest.dropWhile (fun inner => !isFence inner) = [] := by
        rw [List.dropWhile_eq_nil_iff]
        simpa using within
      rw [if_pos fence, noFence]
  | @closed closing inner _ fence within closes =>
      have inside : ∀ other ∈ inner, (!isFence other) = true := by simpa using within
      have stop : ∀ other ∈ (closing :: later).head?, (!isFence other) = false := by
        simpa using closes
      rw [if_pos fence, dropWhile_stretch _ inner _ inside stop,
        takeWhile_stretch _ inner _ inside stop]
  | heading unfenced heads => rw [if_neg (by simp [unfenced]), if_pos heads]
  | @run more _ unfenced plain continues ended =>
      rw [if_neg (by simp [unfenced]), if_neg (by simp [plain]),
        takeWhile_stretch _ more _ continues ended, dropWhile_stretch _ more _ continues ended]

theorem ne_blank (begins : Begins line rest passage later) : passage ≠ .blank := by
  cases begins <;> simp

theorem passagesOf_eq (begins : Begins line rest passage later) (shown : isBlank line = false) :
    passagesOf (line :: rest) = passage :: gapBefore later ++ passagesOf later := by
  rw [passagesOf, if_neg (by simp [shown]), begins.firstPassage_eq]

end Begins

theorem passagesOf_blank (line : Text) (rest : List Text) (blank : isBlank line = true) :
    passagesOf (line :: rest) = passagesOf rest := by
  rw [passagesOf, if_pos blank]

@[elab_as_elim]
theorem passagesOf_induction {motive : List Text → Prop} (nil : motive [])
    (blank : ∀ line rest, isBlank line = true → motive rest → motive (line :: rest))
    (passage : ∀ line rest passage later, isBlank line = false →
      Begins line rest passage later → motive later → motive (line :: rest))
    (lines : List Text) : motive lines := by
  fun_induction passagesOf lines with
  | case1 => exact nil
  | case2 line rest isBlank ih => exact blank line rest isBlank ih
  | case3 line rest shown found ih =>
      exact passage line rest found.1 found.2 (by simpa using shown)
        (begins_firstPassage line rest) ih

theorem of_mem_passagesOf (lines : List Text) :
    ∀ passage ∈ passagesOf lines, passage = .blank ∨
      ∃ line rest later, isBlank line = false ∧ Begins line rest passage later := by
  induction lines using passagesOf_induction with
  | nil => simp [passagesOf]
  | blank line rest blank ih => rwa [passagesOf_blank line rest blank]
  | passage line rest passage later shown begins ih =>
      intro other member
      rw [begins.passagesOf_eq shown, List.cons_append, List.mem_cons, List.mem_append] at member
      rcases member with rfl | gap | behind
      · exact .inr ⟨line, rest, later, shown, begins⟩
      · unfold gapBefore at gap
        split at gap <;> simp_all
      · exact ih other behind

theorem passagesOf_eq_nil (lines : List Text) (blank : ∀ line ∈ lines, isBlank line = true) :
    passagesOf lines = [] := by
  induction lines with
  | nil => rw [passagesOf]
  | cons line rest ih =>
      rw [passagesOf_blank line rest (blank line (by simp))]
      exact ih fun other member => blank other (List.mem_cons_of_mem line member)

/-! Blanks behind the passages that a scan has found. -/

theorem withBlank_concat (found : List Passage) {last : Passage} (shown : last ≠ .blank) :
    withBlank (found ++ [last]) = found ++ [last] ++ [.blank] := by
  unfold withBlank
  rw [List.getLast?_concat]
  cases last with
  | blank => contradiction
  | run lines => rfl
  | heading line => rfl
  | fenced lines => rfl

theorem withBlank_blank (found : List Passage) :
    withBlank (found ++ [.blank]) = found ++ [.blank] := by
  unfold withBlank
  rw [List.getLast?_concat]

theorem withoutBlanks_concat (found : List Passage) {last : Passage} (shown : last ≠ .blank) :
    withoutBlanks (found ++ [last]) = found ++ [last] := by
  simp [withoutBlanks, shown]

theorem withoutBlanks_blank (found : List Passage) :
    withoutBlanks (found ++ [.blank]) = withoutBlanks found := by
  simp [withoutBlanks]

theorem withBlank_cases (found : List Passage) :
    withBlank found = found ∨ withBlank found = found ++ [.blank] := by
  unfold withBlank
  split
  · exact .inl rfl
  · exact .inl rfl
  · exact .inr rfl

theorem withBlank_withBlank (found : List Passage) :
    withBlank (withBlank found) = withBlank found := by
  rcases withBlank_cases found with same | added
  · rw [same, same]
  · rw [added, withBlank_blank]

theorem withoutBlanks_withBlank (found : List Passage) :
    withoutBlanks (withBlank found) = withoutBlanks found := by
  rcases withBlank_cases found with same | added
  · rw [same]
  · rw [added, withoutBlanks_blank]

/-! The scan: lines of an open fence, lines of an open run, and what stands between passages. -/

namespace Scan

theorem take_fence (line : Text) (fence : isFence line = true) (found : List Passage) :
    Scan.take ⟨found, [], none⟩ line = ⟨found, [], some [line]⟩ := by
  simp [Scan.take, fence, Scan.closeRun]

theorem foldl_take_inside (inner : List Text) (within : ∀ line ∈ inner, isFence line = false)
    (found : List Passage) (run held : List Text) :
    inner.foldl Scan.take ⟨found, run, some held⟩ = ⟨found, run, some (held ++ inner)⟩ := by
  induction inner generalizing held with
  | nil => simp
  | cons line rest ih =>
      have kept : Scan.take ⟨found, run, some held⟩ line = ⟨found, run, some (held ++ [line])⟩ := by
        simp [Scan.take, within line (by simp)]
      rw [List.foldl_cons, kept, ih fun other member => within other (by simp [member])]
      simp

theorem foldl_take_continues (more : List Text)
    (continues : ∀ line ∈ more, continuesRun line = true) (found : List Passage)
    (run : List Text) :
    more.foldl Scan.take ⟨found, run, none⟩ = ⟨found, run ++ more, none⟩ := by
  induction more generalizing run with
  | nil => simp
  | cons line rest ih =>
      have goesOn := continues line (by simp)
      obtain ⟨shown, unfenced, joined⟩ := (continuesRun_iff line).mp goesOn
      have plain : isHeading line = false := by
        simp only [standsApart, Bool.or_eq_false_iff] at joined
        exact joined.1.1.2
      have longer : Scan.take ⟨found, run, none⟩ line = ⟨found, run ++ [line], none⟩ := by
        simp [Scan.take, goesOn, shown, unfenced, plain]
      rw [List.foldl_cons, longer, ih fun other member => continues other (by simp [member])]
      simp

theorem complete_run (found : List Passage) (line : Text) (more later : List Text)
    (ended : ∀ next ∈ later.head?, continuesRun next = false) :
    Scan.complete ⟨found, line :: more, none⟩ later =
      Scan.complete ⟨found ++ [.run (line :: more)], [], none⟩ later := by
  unfold Scan.complete
  cases later with
  | nil => rfl
  | cons next rest =>
      have stops := ended next (by simp)
      have same : Scan.take ⟨found, line :: more, none⟩ next =
          Scan.take ⟨found ++ [.run (line :: more)], [], none⟩ next := by
        simp [Scan.take, stops, Scan.closeRun]
      rw [List.foldl_cons, List.foldl_cons, same]

theorem complete_begins {line : Text} {rest : List Text} {passage : Passage} {later : List Text}
    (begins : Begins line rest passage later) (shown : isBlank line = false)
    (found : List Passage) :
    Scan.complete ⟨found, [], none⟩ (line :: rest) =
      Scan.complete ⟨found ++ [passage], [], none⟩ later := by
  cases begins with
  | unclosed fence within =>
      unfold Scan.complete
      rw [List.foldl_cons, take_fence line fence, foldl_take_inside rest within]
      simp [Scan.finish, Scan.closeRun]
  | @closed closing inner _ fence within closes =>
      unfold Scan.complete
      rw [List.foldl_cons, take_fence line fence, List.foldl_append,
        foldl_take_inside inner within, List.foldl_cons]
      simp [Scan.take, closes]
  | heading unfenced heads =>
      unfold Scan.complete
      rw [List.foldl_cons]
      simp [Scan.take, unfenced, shown, heads, Scan.closeRun]
  | @run more _ unfenced plain continues ended =>
      have opened : Scan.take ⟨found, [], none⟩ line = ⟨found, [line], none⟩ := by
        simp [Scan.take, unfenced, shown, plain, Scan.closeRun]
      rw [← complete_run found line more later ended]
      unfold Scan.complete
      rw [List.foldl_cons, opened, List.foldl_append, foldl_take_continues more continues]
      rfl

/-- What becomes of the passages found when only `lines` are still to come. -/
def seam (found : List Passage) (lines : List Text) : List Passage :=
  if lines.all isBlank then withoutBlanks found
  else if lines.head?.any isBlank then withBlank found
  else found

theorem seam_blank (found : List Passage) (line : Text) (rest : List Text)
    (blank : isBlank line = true) : seam (withBlank found) rest = seam found (line :: rest) := by
  unfold seam
  simp only [List.all_cons, List.head?_cons, Option.any_some, blank, Bool.true_and, if_true]
  by_cases all : rest.all isBlank = true
  · rw [if_pos all, if_pos all, withoutBlanks_withBlank]
  · rw [if_neg all, if_neg all, withBlank_withBlank, ite_self]

theorem seam_concat (found : List Passage) {last : Passage} (shown : last ≠ .blank)
    (lines : List Text) : seam (found ++ [last]) lines = found ++ last :: gapBefore lines := by
  unfold seam gapBefore
  by_cases all : lines.all isBlank = true
  · simp [all, withoutBlanks_concat found shown]
  · by_cases gap : lines.head?.any isBlank = true
    · simp [all, gap, withBlank_concat found shown]
    · simp [all, gap]

theorem complete_eq (lines : List Text) :
    ∀ found, Scan.complete ⟨found, [], none⟩ lines = seam found lines ++ passagesOf lines := by
  induction lines using passagesOf_induction with
  | nil =>
      intro found
      simp [Scan.complete, Scan.finish, Scan.closeRun, seam, passagesOf]
  | blank line rest blank ih =>
      intro found
      have stays : Scan.take ⟨found, [], none⟩ line = ⟨withBlank found, [], none⟩ := by
        simp [Scan.take, isFence_of_isBlank line blank, blank, Scan.closeRun]
      have onward : Scan.complete ⟨found, [], none⟩ (line :: rest) =
          Scan.complete ⟨withBlank found, [], none⟩ rest := by
        rw [Scan.complete, List.foldl_cons, stays, Scan.complete]
      rw [onward, ih, seam_blank found line rest blank, passagesOf_blank line rest blank]
  | passage line rest passage later shown begins ih =>
      intro found
      have starts : seam found (line :: rest) = found := by
        simp [seam, shown]
      rw [complete_begins begins shown, ih, seam_concat found begins.ne_blank, starts,
        begins.passagesOf_eq shown]
      simp

end Scan

theorem passages_eq (text : Text) : passages text = passagesOf (lines text) := by
  have nothing : Scan.seam [] (lines text) = [] := by
    unfold Scan.seam
    split
    · rfl
    · split <;> rfl
  rw [passages, Scan.complete_eq, nothing, List.nil_append]

end CommentFormat
