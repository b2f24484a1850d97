import CommentFormat.Proofs.Body.Names
import CommentFormat.Proofs.Body.Reading
import CommentFormat.Proofs.Layout.Greedy

/-! Tag groups: how parts are merged into them, and what the lines they are packed on are read
as. -/

namespace CommentFormat

theorem consMerged_cases (part : Part) (rest : List Part) :
    (∃ names others later, part = .tags names ∧ rest = .tags others :: later ∧
      consMerged part rest = .tags (names ++ others) :: later) ∨
    ((part.sort = .tags → ∀ next ∈ rest.head?, next.sort ≠ .tags) ∧
      consMerged part rest = part :: rest) := by
  cases part with
  | prose text => exact .inr ⟨by simp [Part.sort], rfl⟩
  | code text => exact .inr ⟨by simp [Part.sort], rfl⟩
  | tags names =>
      cases rest with
      | nil => exact .inr ⟨by simp, rfl⟩
      | cons next later =>
          cases next with
          | prose text => exact .inr ⟨by simp [Part.sort], rfl⟩
          | code text => exact .inr ⟨by simp [Part.sort], rfl⟩
          | tags others => exact .inl ⟨names, others, later, rfl, rfl, rfl⟩

theorem mergeTags_forall (good : Part → Prop)
    (joins : ∀ names others, good (.tags names) → good (.tags others) → good (.tags (names ++ others)))
    (parts : List Part) (each : ∀ part ∈ parts, good part) : ∀ part ∈ mergeTags parts, good part := by
  induction parts with
  | nil => simp [mergeTags]
  | cons part rest ih =>
      have partGood := each part (by simp)
      have restGood := ih fun other member => each other (List.mem_cons_of_mem part member)
      rw [mergeTags]
      rcases consMerged_cases part (mergeTags rest) with
        ⟨names, others, later, isTags, cut, merged⟩ | ⟨-, merged⟩
      · rw [cut] at restGood
        rw [merged]
        intro other member
        rcases List.mem_cons.mp member with same | behind
        · rw [same]
          exact joins names others (isTags ▸ partGood) (restGood _ (by simp))
        · exact restGood other (List.mem_cons_of_mem _ behind)
      · rw [merged]
        intro other member
        rcases List.mem_cons.mp member with same | behind
        · rwa [same]
        · exact restGood other behind

theorem flatMap_mergeTags {α : Type} (view : Part → List α)
    (joins : ∀ names others, view (.tags (names ++ others)) = view (.tags names) ++ view (.tags others))
    (parts : List Part) : (mergeTags parts).flatMap view = parts.flatMap view := by
  induction parts with
  | nil => rfl
  | cons part rest ih =>
      rw [mergeTags, List.flatMap_cons, ← ih]
      rcases consMerged_cases part (mergeTags rest) with
        ⟨names, others, later, isTags, cut, merged⟩ | ⟨-, merged⟩
      · rw [merged, isTags, cut, List.flatMap_cons, List.flatMap_cons, joins, List.append_assoc]
      · rw [merged, List.flatMap_cons]

theorem mem_mergeTags_prose (text : Text) (parts : List Part) :
    Part.prose text ∈ mergeTags parts ↔ Part.prose text ∈ parts := by
  induction parts with
  | nil => rfl
  | cons part rest ih =>
      rw [mergeTags, List.mem_cons, ← ih]
      rcases consMerged_cases part (mergeTags rest) with
        ⟨names, others, later, isTags, cut, merged⟩ | ⟨-, merged⟩
      · rw [merged, isTags, cut]
        simp
      · rw [merged, List.mem_cons]

theorem mergeTags_sorts (parts : List Part) (apart : parts.IsChain Part.Apart) :
    ((mergeTags parts).map Part.sort).IsChain (· ≠ ·) ∧
      (mergeTags parts).head?.map Part.sort = parts.head?.map Part.sort := by
  induction parts with
  | nil => simp [mergeTags]
  | cons part rest ih =>
      obtain ⟨chain, sameHead⟩ := ih apart.tail
      rw [mergeTags]
      rcases consMerged_cases part (mergeTags rest) with
        ⟨names, others, later, isTags, cut, merged⟩ | ⟨turns, merged⟩
      · rw [merged]
        rw [cut] at chain
        exact ⟨chain, by simp [isTags, Part.sort]⟩
      · rw [merged]
        refine ⟨?_, by simp⟩
        rw [List.map_cons, List.isChain_cons]
        refine ⟨?_, chain⟩
        intro next isNext same
        rw [List.head?_map] at isNext
        have isTags : part.sort = .tags := by
          have nextSort := isNext
          rw [sameHead] at nextSort
          obtain ⟨second, isSecond, secondSort⟩ := Option.map_eq_some_iff.mp nextSort
          have order := (List.isChain_cons.mp apart).1 second isSecond
          exact order (same.trans secondSort.symm)
        obtain ⟨second, isSecond, secondSort⟩ := Option.map_eq_some_iff.mp isNext
        exact turns isTags second isSecond (by rw [secondSort, ← same, isTags])

def Part.joins (upper lower : Part) : Bool :=
  upper.sort = .tags && lower.sort = .tags

theorem Part.joins_eq_false_iff (upper lower : Part) :
    upper.joins lower = false ↔ (upper.sort = .tags → lower.sort ≠ .tags) := by
  simp [Part.joins]

theorem mergeTags_of_apart (parts : List Part)
    (apart : parts.IsChain fun upper lower => upper.joins lower = false) :
    mergeTags parts = parts := by
  induction parts with
  | nil => rfl
  | cons part rest ih =>
      rw [List.isChain_cons] at apart
      rw [mergeTags, ih apart.2]
      rcases consMerged_cases part rest with ⟨names, others, later, isTags, cut, -⟩ | ⟨-, merged⟩
      · have met := apart.1 (.tags others) (by simp [cut])
        simp [isTags, Part.joins, Part.sort] at met
      · exact merged

theorem mergeTags_eq_self (parts : List Part) (turns : (parts.map Part.sort).IsChain (· ≠ ·)) :
    mergeTags parts = parts := by
  refine mergeTags_of_apart parts ((List.isChain_map Part.sort).mp turns |>.imp ?_)
  intro upper lower different
  rw [Part.joins_eq_false_iff]
  exact fun isTags alsoTags => different (isTags.trans alsoTags.symm)

/-! Packing. -/

def tagLine (names : List Text) : Text :=
  tagOpening ++ nameSeparator.intercalate names

theorem packOnto_lines (width : Nat) (names : List Text) (room : Room) (line : Text)
    (on : room.On width) :
    (packOnto width room line names).lines =
      packFrom width nameSeparator tagOpening line room.used names := by
  induction names generalizing room line with
  | nil => rfl
  | cons name rest ih =>
      have separator : nameSeparator.length = 2 := rfl
      have fits : room.fits (columns (nameSeparator ++ name)) = true ↔
          room.used + columns (nameSeparator ++ name) ≤ width := by
        rw [Room.On] at on
        simp only [Room.fits, on, decide_eq_true_eq, columns, List.length_append, separator]
        omega
      rw [packOnto, packFrom]
      by_cases beside : room.used + columns (nameSeparator ++ name) ≤ width
      · rw [if_pos beside, if_pos (fits.mpr beside)]
        exact ih _ _ (Room.take_on width room _ on)
      · rw [if_neg beside, if_neg (by rwa [fits])]
        have below := ih _ (tagOpening ++ name)
          (Room.take_on width _ (columns (tagOpening ++ name)) (Room.startLine_on width 0))
        simp only [Room.take_used, Room.startLine, Room.ofWidth, Nat.zero_add] at below
        simp only [Packing.reaching, Packing.afterLine, Room.startLine, Room.ofWidth, below]

theorem ofNames_greedy (width offset : Nat) (names : List Text) (nonempty : names ≠ []) :
    ∃ chunks : List (List Text), (Packing.ofNames width offset names).lines = chunks.map tagLine ∧
      chunks.flatten = names ∧ Greedy width nameSeparator tagOpening offset chunks := by
  obtain ⟨name, rest, rfl⟩ := List.exists_cons_of_ne_nil nonempty
  obtain ⟨more, chunks, packed, cut, greedy⟩ :=
    packFrom_greedy width nameSeparator tagOpening rest offset [name] (by simp) (by simp)
  have lines := packOnto_lines width rest _ (tagOpening ++ name)
    (Room.take_on width _ (columns (tagOpening ++ name)) (Room.startLine_on width offset))
  refine ⟨_, ?_, by simpa using cut, greedy⟩
  rw [packedLine_singleton] at packed
  simp only [Room.take_used, Room.startLine, Room.ofWidth, Nat.zero_add, packed] at lines
  exact lines

theorem ofNames_lines (width offset : Nat) (names : List Text) (nonempty : names ≠ []) :
    ∃ chunks : List (List Text), (Packing.ofNames width offset names).lines = chunks.map tagLine ∧
      chunks.flatten = names ∧ ∀ chunk ∈ chunks, chunk ≠ [] := by
  obtain ⟨chunks, lines, flat, greedy⟩ := ofNames_greedy width offset names nonempty
  exact ⟨chunks, lines, flat, greedy.shown⟩

theorem not_mem_tagLine (character : Char) (opening : character ∉ tagOpening)
    (separator : character ∉ nameSeparator) (names : List Text)
    (lack : ∀ name ∈ names, character ∉ name) : character ∉ tagLine names := by
  rw [tagLine, List.mem_append, not_or]
  refine ⟨opening, fun inside => ?_⟩
  rcases mem_intercalate _ _ _ inside with between | ⟨name, member, here⟩
  · exact separator between
  · exact lack name member here

theorem ofNames_lacks (character : Char) (opening : character ∉ tagOpening)
    (separator : character ∉ nameSeparator) (names : List Text)
    (lack : ∀ name ∈ names, character ∉ name) (width offset : Nat) :
    ∀ line ∈ (Packing.ofNames width offset names).lines, character ∉ line := by
  intro line member
  cases names with
  | nil =>
      rw [List.mem_singleton.mp member]
      exact fun inside => opening (List.mem_append_left _ inside)
  | cons name rest =>
      obtain ⟨chunks, cut, flat, -⟩ := ofNames_lines width offset (name :: rest) (by simp)
      rw [cut] at member
      obtain ⟨chunk, inChunks, rfl⟩ := List.mem_map.mp member
      refine not_mem_tagLine character opening separator chunk fun inner inside => ?_
      exact lack inner (flat ▸ List.mem_flatten.mpr ⟨chunk, inChunks, inside⟩)

theorem exists_mem_ofNames (character : Char) (names : List Text) (name : Text) (member : name ∈ names)
    (inside : character ∈ name) (width offset : Nat) :
    ∃ line ∈ (Packing.ofNames width offset names).lines, character ∈ line := by
  obtain ⟨chunks, cut, flat, -⟩ := ofNames_lines width offset names (List.ne_nil_of_mem member)
  rw [← flat, List.mem_flatten] at member
  obtain ⟨chunk, inChunks, inChunk⟩ := member
  refine ⟨tagLine chunk, cut ▸ List.mem_map.mpr ⟨chunk, inChunks, rfl⟩, ?_⟩
  exact List.mem_append_right _ ((infix_intercalate _ _ _ inChunk).subset inside)

theorem ofNames_rests (width offset : Nat) (names : List Text) :
    ∃ rests, (Packing.ofNames width offset names).lines = rests.map (tagWord ++ ·) ∧ rests ≠ [] ∧
      (∀ rest ∈ rests, ∀ character ∈ rest.head?, isSpace character = true) ∧
      rests.flatMap tagNames = names.flatMap tagNames := by
  cases names with
  | nil => exact ⟨[[]], by simp [Packing.ofNames], by simp, by simp, rfl⟩
  | cons name rest =>
      obtain ⟨chunks, lines, flat, -⟩ := ofNames_lines width offset (name :: rest) (by simp)
      have space : isSpace ' ' = true := by decide
      have nonempty : chunks ≠ [] := by
        rintro rfl
        simp at flat
      refine ⟨chunks.map fun chunk => ' ' :: nameSeparator.intercalate chunk, ?_,
        by simpa using nonempty, by simpa using fun _ _ => space, ?_⟩
      · simp [lines, tagLine, tagOpening]
      · rw [List.flatMap_map, ← flat, ← List.flatMap_id, List.flatMap_assoc]
        simp only [tagNames_spread, id]

theorem readsAs_ofNames (width offset : Nat) (names : List Text)
    (named : ∀ name ∈ names, IsName name) :
    ReadsAs (Packing.ofNames width offset names).lines (.tags names) := by
  obtain ⟨rests, lines, nonempty, ending, same⟩ := ofNames_rests width offset names
  have reads := readsAs_tags rests nonempty ending
  rwa [← lines, same, flatMap_tagNames names named] at reads

end CommentFormat
