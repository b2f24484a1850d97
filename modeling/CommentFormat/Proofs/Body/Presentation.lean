import CommentFormat.Proofs.Body.TabStops

/-! Presentation: line ends, tabs in front of lines, what blank lines hold and how many of them
stand above and below a body are no part of what it says. -/

namespace CommentFormat

def withReturns (text : Text) : Text :=
  text.flatMap fun character => if character = '\n' then ['\r', '\n'] else [character]

def detabLines (text : Text) : Text :=
  joinLines ((text.splitOn '\n').map detab)

def BlankAlike (line other : Text) : Prop :=
  other = line ∨ isBlank line = true ∧ isBlank other = true

instance : DecidableRel BlankAlike := fun line other =>
  inferInstanceAs (Decidable (other = line ∨ isBlank line = true ∧ isBlank other = true))

/-- The texts that changes of presentation make of a body, in any order and number. Returns are put
in front of its line feeds once at most, which `returned` tells: a second one would be part of its
line. -/
inductive Restyled (body : Text) : Bool → Text → Prop where
  | asWritten : Restyled body false body
  | returnsAdded {text : Text} (styled : Restyled body false text) :
      Restyled body true (withReturns text)
  | tabsReplaced {returned : Bool} {text : Text} (styled : Restyled body returned text) :
      Restyled body returned (detabLines text)
  | blanksReplaced {returned : Bool} {text other : Text} (styled : Restyled body returned text)
      (alike : List.Forall₂ BlankAlike (text.splitOn '\n') (other.splitOn '\n')) :
      Restyled body returned other
  -- White space that is added may hold several lines.
  | blanksAbove {returned : Bool} {text added : Text} (styled : Restyled body returned text)
      (blank : isBlank added = true) : Restyled body returned (added ++ '\n' :: text)
  | blanksBelow {returned : Bool} {text added : Text} (styled : Restyled body returned text)
      (blank : isBlank added = true) : Restyled body returned (text ++ '\n' :: added)

/-! Blank lines around others. -/

theorem gather_blanks_above (above lines : List Line) (blank : ∀ line ∈ above, line = .blank) :
    gather none (above ++ lines) = gather none lines := by
  induction above with
  | nil => rfl
  | cons line rest ih =>
      rw [blank line (by simp), List.cons_append, gather, Block.opening?]
      exact ih fun other member => blank other (List.mem_cons_of_mem line member)

theorem gather_append_blank (lines : List Line) (current : Option Block) :
    gather current (lines ++ [.blank]) = gather current lines := by
  induction lines generalizing current with
  | nil =>
      cases current with
      | none => rfl
      | some block =>
          rw [List.nil_append, gather, gather]
          cases extended : block.extend? .blank with
          | none => rfl
          | some longer => simp [gather, Block.close_extend?_blank extended]
  | cons line rest ih =>
      cases current with
      | none => exact ih (Block.opening? line)
      | some block => simp only [List.cons_append, gather, ih]

theorem gather_blanks_below (lines below : List Line) (blank : ∀ line ∈ below, line = .blank) :
    gather none (lines ++ below) = gather none lines := by
  induction below generalizing lines with
  | nil => rw [List.append_nil]
  | cons line rest ih =>
      have longer := ih (lines ++ [line]) fun other member =>
        blank other (List.mem_cons_of_mem line member)
      rw [blank line (by simp), gather_append_blank] at longer
      rw [blank line (by simp), ← longer]
      simp

/-! One line, with the return that may stand in front of its line feed. -/

def readEnded (baseIndent : Nat) (line : Text) : Line :=
  Line.read baseIndent (detab (dropReturn line))

def ShowsNoReturn (line : Text) : Prop :=
  isBlank line = true ∨ '\r' ∉ line

theorem readEnded_blank (baseIndent : Nat) (line : Text) (blank : isBlank line = true) :
    readEnded baseIndent line = .blank := by
  rw [readEnded, Line.read_eq_blank_iff, isBlank_detab]
  exact isBlank_dropReturn line blank

theorem ShowsNoReturn.readEnded_eq {line : Text} (plain : ShowsNoReturn line) (baseIndent : Nat) :
    readEnded baseIndent line = Line.read baseIndent (detab line) := by
  rcases plain with blank | noReturn
  · have unread := (Line.read_eq_blank_iff baseIndent (detab line)).mpr (by rwa [isBlank_detab])
    rw [readEnded_blank baseIndent line blank, unread]
  · rw [readEnded, dropReturn_of_not_mem line noReturn]

theorem ShowsNoReturn.readEnded_return {line : Text} (plain : ShowsNoReturn line)
    (baseIndent : Nat) :
    readEnded baseIndent (line ++ ['\r']) = readEnded baseIndent line := by
  rw [plain.readEnded_eq, readEnded, dropReturn_append_return]

theorem ShowsNoReturn.indented {line : Text} (plain : ShowsNoReturn line) :
    ShowsNoReturn (detab line) := by
  rcases plain with blank | noReturn
  · exact .inl (by rwa [isBlank_detab])
  · right
    intro inside
    rcases mem_detab '\r' line inside with space | here
    · contradiction
    · exact noReturn here

theorem BlankAlike.readEnded_eq {line other : Text} (alike : BlankAlike line other)
    (baseIndent : Nat) : readEnded baseIndent other = readEnded baseIndent line := by
  rcases alike with rfl | ⟨blank, otherBlank⟩
  · rfl
  · rw [readEnded_blank baseIndent line blank, readEnded_blank baseIndent other otherBlank]

theorem BlankAlike.showsNoReturn {line other : Text} (alike : BlankAlike line other)
    (plain : ShowsNoReturn line) : ShowsNoReturn other := by
  rcases alike with rfl | ⟨-, otherBlank⟩
  · exact plain
  · exact .inl otherBlank

theorem dropReturn_detab (line : Text) : dropReturn (detab line) = detab (dropReturn line) := by
  obtain ⟨run, indents⟩ := TabRun.exists_text _ (of_mem_takeWhile isIndent line)
  have runIndents := of_mem_takeWhile isIndent line
  rw [indents] at runIndents
  have noReturn : '\r' ∉ run.text := by
    intro inside
    have indent := runIndents '\r' inside
    contradiction
  have cut : line = run.text ++ line.dropWhile isIndent := by
    rw [← indents, List.takeWhile_append_dropWhile]
  have dropped : dropReturn line = run.text ++ dropReturn (line.dropWhile isIndent) := by
    rw [← dropReturn_append _ _ noReturn, ← cut]
  have stop : ∀ character ∈ (dropReturn (line.dropWhile isIndent)).head?,
      isIndent character = false := by
    intro character isFirst
    apply stop_dropWhile isIndent line
    exact head?_dropReturn _ character isFirst
  have sameRun : (dropReturn line).takeWhile isIndent = run.text := by
    rw [dropped, takeWhile_stretch isIndent _ _ runIndents stop]
  have sameRest : (dropReturn line).dropWhile isIndent = dropReturn (line.dropWhile isIndent) := by
    rw [dropped, dropWhile_stretch isIndent _ _ runIndents stop]
  rw [TabRun.detab_eq_columns indents, TabRun.detab_eq_columns sameRun, sameRest,
    dropReturn_append _ _ (by simp)]

theorem readEnded_detab (baseIndent : Nat) (line : Text) :
    readEnded baseIndent (detab line) = readEnded baseIndent line := by
  rw [readEnded, readEnded, dropReturn_detab, detab_detab]

/-! All lines of a text. -/

def endedBodyLines (baseIndent : Nat) (text : Text) : List Line :=
  (text.splitOn '\n').map (readEnded baseIndent)

theorem exists_endedLines (baseIndent : Nat) (texts : List Text)
    (last : ∀ text ∈ texts.getLast?, ShowsNoReturn text) :
    ∃ below, texts.map (readEnded baseIndent) =
        (endedLines texts).map (fun line => Line.read baseIndent (detab line)) ++ below ∧
      ∀ line ∈ below, line = .blank := by
  induction texts with
  | nil => exact ⟨[], rfl, by simp⟩
  | cons text rest ih =>
      cases rest with
      | nil =>
          by_cases empty : text = []
          · have unread := readEnded_blank baseIndent [] rfl
            exact ⟨[.blank], by simp [endedLines, empty, unread], by simp⟩
          · have plain := last text (by simp)
            exact ⟨[], by simp [endedLines, empty, plain.readEnded_eq], by simp⟩
      | cons next later =>
          obtain ⟨below, cut, blank⟩ := ih (by simpa using last)
          refine ⟨below, ?_, blank⟩
          rw [List.map_cons, cut]
          rfl

theorem gather_endedBodyLines (baseIndent : Nat) (text : Text)
    (last : ∀ line ∈ (text.splitOn '\n').getLast?, ShowsNoReturn line) :
    gather none (endedBodyLines baseIndent text) = bodyParts baseIndent text := by
  obtain ⟨below, cut, blank⟩ := exists_endedLines baseIndent (text.splitOn '\n') last
  rw [endedBodyLines, cut, gather_blanks_below _ below blank]
  rfl

theorem endedBodyLines_blank (baseIndent : Nat) (text : Text) (blank : isBlank text = true) :
    ∀ line ∈ endedBodyLines baseIndent text, line = .blank := by
  intro line member
  obtain ⟨piece, inText, rfl⟩ := List.mem_map.mp member
  exact readEnded_blank baseIndent piece (isBlank_of_mem_splitOn '\n' text piece blank inText)

theorem endedBodyLines_append (baseIndent : Nat) (upper lower : Text) :
    endedBodyLines baseIndent (upper ++ '\n' :: lower) =
      endedBodyLines baseIndent upper ++ endedBodyLines baseIndent lower := by
  rw [endedBodyLines, List.splitOn_append_cons_self, List.map_append]
  rfl

theorem splitOn_detabLines (text : Text) :
    (detabLines text).splitOn '\n' = (text.splitOn '\n').map detab := by
  apply splitOn_joinLines
  · simp [List.splitOn_ne_nil]
  · intro line member inside
    obtain ⟨piece, inText, rfl⟩ := List.mem_map.mp member
    rcases mem_detab '\n' piece inside with space | here
    · contradiction
    · exact separator_not_mem_of_mem_splitOn '\n' text piece inText here

theorem withReturns_append (upper lower : Text) :
    withReturns (upper ++ lower) = withReturns upper ++ withReturns lower := by
  simp [withReturns]

theorem withReturns_of_not_mem (line : Text) (single : '\n' ∉ line) : withReturns line = line := by
  have kept : ∀ character ∈ line,
      (if character = '\n' then ['\r', '\n'] else [character]) = [character] := by
    intro character inside
    rw [if_neg]
    rintro rfl
    exact single inside
  rw [withReturns, List.flatMap_congr kept, List.flatMap_singleton']

theorem splitOn_withReturns (earlier : List Text) (last : Text)
    (single : ∀ line ∈ earlier ++ [last], '\n' ∉ line) :
    (withReturns (joinLines (earlier ++ [last]))).splitOn '\n' =
      earlier.map (· ++ ['\r']) ++ [last] := by
  induction earlier with
  | nil =>
      have lastSingle := single last (by simp)
      rw [List.nil_append, joinLines_singleton, withReturns_of_not_mem last lastSingle]
      simp [List.splitOn_eq_singleton, lastSingle]
  | cons line rest ih =>
      have lineSingle := single line (by simp)
      have behind := ih fun other member => single other (List.mem_cons_of_mem line member)
      have joined : joinLines (line :: rest ++ [last]) =
          line ++ '\n' :: joinLines (rest ++ [last]) := by
        simpa using joinLines_append [line] (rest ++ [last]) (by simp) (by simp)
      have ended : withReturns (line ++ '\n' :: joinLines (rest ++ [last])) =
          (line ++ ['\r']) ++ '\n' :: withReturns (joinLines (rest ++ [last])) := by
        rw [withReturns_append, withReturns_of_not_mem line lineSingle]
        simp [withReturns]
      have one : (line ++ ['\r']).splitOn '\n' = [line ++ ['\r']] := by
        simp [List.splitOn_eq_singleton, lineSingle]
      rw [joined, ended, List.splitOn_append_cons_self, one, behind]
      rfl

/-! What every change keeps. -/

/-- A text with the parts of a body, which stay the same if more lines follow and, as long as
`returned` is not set, if its lines get returns. -/
structure Presents (baseIndent : Nat) (body : Text) (returned : Bool) (text : Text) : Prop where
  parts : gather none (endedBodyLines baseIndent text) =
    gather none (endedBodyLines baseIndent body)
  plain : returned = false → ∀ line ∈ text.splitOn '\n', ShowsNoReturn line
  last : ∀ line ∈ (text.splitOn '\n').getLast?, ShowsNoReturn line

theorem showsNoReturn_of_mem_splitOn (text line : Text) (absent : '\r' ∉ text)
    (member : line ∈ text.splitOn '\n') : ShowsNoReturn line := by
  right
  intro inside
  exact absent (of_mem_splitOn '\n' text line member '\r' inside).2

theorem showsNoReturn_of_isBlank (text : Text) (blank : isBlank text = true) :
    ∀ line ∈ text.splitOn '\n', ShowsNoReturn line := by
  intro line member
  exact .inl (isBlank_of_mem_splitOn '\n' text line blank member)

theorem presents_self (baseIndent : Nat) (body : Text) (absent : '\r' ∉ body) :
    Presents baseIndent body false body := by
  refine ⟨rfl, ?_, ?_⟩
  · intro _ line member
    exact showsNoReturn_of_mem_splitOn body line absent member
  · intro line isLast
    exact showsNoReturn_of_mem_splitOn body line absent (List.mem_of_getLast? isLast)

theorem map_readEnded_alike {texts others : List Text}
    (alike : List.Forall₂ BlankAlike texts others) (baseIndent : Nat) :
    others.map (readEnded baseIndent) = texts.map (readEnded baseIndent) := by
  induction alike with
  | nil => rfl
  | cons here _ ih => rw [List.map_cons, List.map_cons, here.readEnded_eq, ih]

namespace Presents

variable {baseIndent : Nat} {body text : Text} {returned : Bool}

theorem returnsAdded (presents : Presents baseIndent body false text) :
    Presents baseIndent body true (withReturns text) := by
  obtain ⟨earlier, last, cut⟩ : ∃ earlier last, text.splitOn '\n' = earlier ++ [last] :=
    ⟨_, _, (List.dropLast_concat_getLast (List.splitOn_ne_nil '\n' text)).symm⟩
  have plain := presents.plain rfl
  have pieces := splitOn_withReturns earlier last
    (cut ▸ separator_not_mem_of_mem_splitOn '\n' text)
  rw [← cut, joinLines_splitOn] at pieces
  have same : endedBodyLines baseIndent (withReturns text) =
      endedBodyLines baseIndent text := by
    have each : ∀ line ∈ earlier, readEnded baseIndent (line ++ ['\r']) =
        readEnded baseIndent line := by
      intro line member
      exact (plain line (by simp [cut, member])).readEnded_return baseIndent
    simpa [endedBodyLines, pieces, cut] using each
  refine ⟨same ▸ presents.parts, by simp, ?_⟩
  intro line isLast
  have isLine : last = line := by simpa [pieces] using isLast
  exact plain line (by simp [cut, isLine])

theorem tabsReplaced (presents : Presents baseIndent body returned text) :
    Presents baseIndent body returned (detabLines text) := by
  have same : endedBodyLines baseIndent (detabLines text) =
      endedBodyLines baseIndent text := by
    simp [endedBodyLines, splitOn_detabLines, readEnded_detab]
  refine ⟨same ▸ presents.parts, ?_, ?_⟩
  · intro notReturned line member
    rw [splitOn_detabLines] at member
    obtain ⟨piece, inText, rfl⟩ := List.mem_map.mp member
    exact (presents.plain notReturned piece inText).indented
  · intro line isLast
    rw [splitOn_detabLines, List.getLast?_map] at isLast
    obtain ⟨piece, isPiece, rfl⟩ := Option.map_eq_some_iff.mp isLast
    exact (presents.last piece isPiece).indented

theorem blanksReplaced {other : Text} (presents : Presents baseIndent body returned text)
    (alike : List.Forall₂ BlankAlike (text.splitOn '\n') (other.splitOn '\n')) :
    Presents baseIndent body returned other := by
  have same : endedBodyLines baseIndent other = endedBodyLines baseIndent text :=
    map_readEnded_alike alike baseIndent
  refine ⟨same ▸ presents.parts, ?_, ?_⟩
  · intro notReturned line member
    obtain ⟨piece, inText, lineAlike⟩ := exists_of_mem_forall₂ alike line member
    exact lineAlike.showsNoReturn (presents.plain notReturned piece inText)
  · intro line isLast
    obtain ⟨piece, isPiece, lineAlike⟩ := getLast?_forall₂ alike line isLast
    exact lineAlike.showsNoReturn (presents.last piece isPiece)

theorem blanksAbove {added : Text} (presents : Presents baseIndent body returned text)
    (blank : isBlank added = true) :
    Presents baseIndent body returned (added ++ '\n' :: text) := by
  have addedPlain := showsNoReturn_of_isBlank added blank
  refine ⟨?_, ?_, ?_⟩
  · rw [endedBodyLines_append,
      gather_blanks_above _ _ (endedBodyLines_blank baseIndent added blank), presents.parts]
  · intro notReturned line member
    rw [List.splitOn_append_cons_self, List.mem_append] at member
    exact member.elim (addedPlain line) (presents.plain notReturned line)
  · rw [List.splitOn_append_cons_self,
      List.getLast?_append_of_ne_nil _ (List.splitOn_ne_nil '\n' text)]
    exact presents.last

theorem blanksBelow {added : Text} (presents : Presents baseIndent body returned text)
    (blank : isBlank added = true) :
    Presents baseIndent body returned (text ++ '\n' :: added) := by
  have addedPlain := showsNoReturn_of_isBlank added blank
  refine ⟨?_, ?_, ?_⟩
  · rw [endedBodyLines_append,
      gather_blanks_below _ _ (endedBodyLines_blank baseIndent added blank), presents.parts]
  · intro notReturned line member
    rw [List.splitOn_append_cons_self, List.mem_append] at member
    exact member.elim (presents.plain notReturned line) (addedPlain line)
  · rw [List.splitOn_append_cons_self,
      List.getLast?_append_of_ne_nil _ (List.splitOn_ne_nil '\n' added)]
    intro line isLast
    exact addedPlain line (List.mem_of_getLast? isLast)

end Presents

theorem Restyled.presents {body text : Text} {returned : Bool}
    (restyled : Restyled body returned text) (absent : '\r' ∉ body) (baseIndent : Nat) :
    Presents baseIndent body returned text := by
  induction restyled with
  | asWritten => exact presents_self baseIndent body absent
  | returnsAdded _ ih => exact ih.returnsAdded
  | tabsReplaced _ ih => exact ih.tabsReplaced
  | blanksReplaced _ alike ih => exact ih.blanksReplaced alike
  | blanksAbove _ blank ih => exact ih.blanksAbove blank
  | blanksBelow _ blank ih => exact ih.blanksBelow blank

theorem bodyParts_restyled {body text : Text} {returned : Bool}
    (restyled : Restyled body returned text) (absent : '\r' ∉ body) (baseIndent : Nat) :
    bodyParts baseIndent text = bodyParts baseIndent body := by
  have presents := restyled.presents absent baseIndent
  have self := presents_self baseIndent body absent
  rw [← gather_endedBodyLines baseIndent text presents.last,
    ← gather_endedBodyLines baseIndent body self.last, presents.parts]

/-- A body without carriage returns keeps its parts however it is presented. -/
theorem parse?_restyled (kind : Kind) (baseIndent : Nat) (body text : Text) (returned : Bool)
    (absent : '\r' ∉ body) (small : baseIndent ≤ columnLimit - 5)
    (restyled : Restyled body returned text) :
    ∃ parsed parsedText, parse? kind baseIndent body = .ok parsed ∧
      parse? kind baseIndent text = .ok parsedText ∧ parsedText.comment = parsed.comment := by
  obtain ⟨parsed, read, comment⟩ := parse?_ok kind baseIndent body small
  obtain ⟨parsedText, readText, commentText⟩ := parse?_ok kind baseIndent text small
  refine ⟨parsed, parsedText, read, readText, ?_⟩
  rw [comment, commentText, bodyParts_restyled restyled absent baseIndent]

theorem parse?_restyled_mixed :
    let body := "\ta\n \n@docs b\nc".toList
    let text := "\r\n    a\r\n\t\n@docs b\r\nc\r\n ".toList
    '\r' ∉ body ∧ 0 ≤ columnLimit - 5 ∧ Restyled body true text ∧
      ∃ parsed parsedText, parse? .doc 0 body = .ok parsed ∧
        parse? .doc 0 text = .ok parsedText ∧ parsedText.comment = parsed.comment ∧
        parsedText.comment.parts = [.code ['a'], .tags [['b']], .prose ['c']] := by
  intro body text
  have absent : '\r' ∉ body := by decide
  have ended : Restyled body true (withReturns (body ++ ['\n'])) :=
    .returnsAdded (.blanksBelow .asWritten rfl)
  have spaced : Restyled body true "    a\r\n\t\n@docs b\r\nc\r\n ".toList :=
    .blanksReplaced (.tabsReplaced ended) (by decide)
  have restyled : Restyled body true text :=
    @Restyled.blanksAbove body true _ ['\r'] spaced rfl
  obtain ⟨parsed, parsedText, read, readText, same⟩ :=
    parse?_restyled .doc 0 body text true absent (by decide) restyled
  refine ⟨absent, by decide, restyled, parsed, parsedText, read, readText, same, ?_⟩
  have parts : (parse? .doc 0 body).map (·.comment.parts) =
      .ok [.code ['a'], .tags [['b']], .prose ['c']] := by
    decide +kernel
  rw [read] at parts
  rw [same]
  exact Except.ok.inj parts

end CommentFormat
