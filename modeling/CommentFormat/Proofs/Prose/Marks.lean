import CommentFormat.Proofs.Body.Line
import CommentFormat.Proofs.Text.Opening
import CommentFormat.Prose.Flow

/-! Marks: what the opening of a line says about the passage it belongs to. -/

namespace CommentFormat

def isListMark (word : Text) : Bool :=
  (bullets.any fun bullet => word = [bullet]) || isNumberMark word

theorem isSpace_of_isDigit (character : Char) (digit : character.isDigit = true) :
    isSpace character = false := by
  simp only [Char.isDigit, Bool.and_eq_true, decide_eq_true_eq] at digit
  have lower : 48 ≤ character.toNat := UInt32.le_iff_toNat_le.mp digit.1
  have upper : character.toNat ≤ 57 := UInt32.le_iff_toNat_le.mp digit.2
  simp only [isSpace, spaceRanges, CodeRanges.holds, List.any_cons, List.any_nil, Bool.or_false,
    Bool.or_eq_false_iff, Bool.and_eq_false_iff, decide_eq_false_iff_not]
  omega

theorem isNumberMark_iff (word : Text) :
    isNumberMark word = true ↔ ∃ digits mark, word = digits ++ [mark] ∧ digits ≠ [] ∧
      (∀ character ∈ digits, character.isDigit = true) ∧ (mark = '.' ∨ mark = ')') := by
  constructor
  · intro marked
    have shown : word ≠ [] := by
      intro empty
      simp [isNumberMark, empty] at marked
    have cut := List.dropLast_append_getLast shown
    simp only [isNumberMark, List.getLast?_eq_some_getLast shown, Option.some.injEq,
      Bool.and_eq_true, Bool.or_eq_true, decide_eq_true_eq, Bool.not_eq_true',
      List.isEmpty_eq_false_iff, List.all_eq_true] at marked
    exact ⟨word.dropLast, word.getLast shown, cut.symm, marked.1.2, marked.2, marked.1.1⟩
  · rintro ⟨digits, mark, rfl, shown, allDigits, dot | bracket⟩
    · simpa [isNumberMark, dot, shown] using allDigits
    · simpa [isNumberMark, bracket, shown] using allDigits

theorem isWord_singleton (character : Char) (solid : isSpace character = false) :
    IsWord [character] :=
  ⟨by simp, by simpa using solid⟩

theorem isWord_fence : IsWord fence :=
  ⟨by simp [fence], by simp [fence, isSpace, spaceRanges, CodeRanges.holds]⟩

theorem isWord_tagWord : IsWord tagWord :=
  ⟨by simp [tagWord], by simp [tagWord, isSpace, spaceRanges, CodeRanges.holds]⟩

theorem isWord_of_isListMark (word : Text) (marked : isListMark word = true) : IsWord word := by
  simp only [isListMark, Bool.or_eq_true] at marked
  rcases marked with bullet | number
  · simp only [bullets, List.any_cons, List.any_nil, Bool.or_false, Bool.or_eq_true,
      decide_eq_true_eq] at bullet
    rcases bullet with rfl | rfl | rfl <;> exact isWord_singleton _ rfl
  · obtain ⟨digits, mark, rfl, -, allDigits, ends⟩ := (isNumberMark_iff word).mp number
    refine ⟨by simp, ?_⟩
    intro character inside
    rcases List.mem_append.mp inside with digit | last
    · exact isSpace_of_isDigit character (allDigits character digit)
    · rw [List.mem_singleton.mp last]
      rcases ends with rfl | rfl <;> decide

theorem isListMark_unlike (word : Text) (marked : isListMark word = true) :
    fence.isPrefixOf word = false ∧ ['#'].isPrefixOf word = false ∧
      ['>'].isPrefixOf word = false := by
  simp only [isListMark, Bool.or_eq_true] at marked
  rcases marked with bullet | number
  · simp only [bullets, List.any_cons, List.any_nil, Bool.or_false, Bool.or_eq_true,
      decide_eq_true_eq] at bullet
    rcases bullet with rfl | rfl | rfl <;> decide
  · obtain ⟨digits, mark, rfl, shown, allDigits, -⟩ := (isNumberMark_iff word).mp number
    obtain ⟨first, rest, rfl⟩ := List.exists_cons_of_ne_nil shown
    have digit := allDigits first (by simp)
    have different (sign : Char) (other : sign.isDigit = false) : (sign == first) = false := by
      rw [beq_eq_false_iff_ne]
      rintro rfl
      rw [other] at digit
      contradiction
    simp [fence, List.isPrefixOf, different '\x60' rfl, different '#' rfl, different '>' rfl]

theorem isBulletItem_iff (line : Text) :
    isBulletItem line = true ↔
      ∃ bullet ∈ bullets, ∃ rest, trimStart line = [bullet] ++ ' ' :: rest := by
  simp only [isBulletItem, List.any_eq_true, List.isPrefixOf_iff_prefix]
  constructor
  · rintro ⟨bullet, isBullet, rest, cut⟩
    exact ⟨bullet, isBullet, rest, by simpa using cut.symm⟩
  · rintro ⟨bullet, isBullet, rest, cut⟩
    exact ⟨bullet, isBullet, rest, by simpa using cut.symm⟩

theorem isNumberedItem_iff (line : Text) :
    isNumberedItem line = true ↔
      ∃ mark rest, isNumberMark mark = true ∧ trimStart line = mark ++ ' ' :: rest := by
  generalize content : trimStart line = text
  constructor
  · intro number
    simp only [isNumberedItem, content, Bool.and_eq_true, Bool.not_eq_true',
      List.isEmpty_eq_false_iff, Bool.or_eq_true, List.isPrefixOf_iff_prefix] at number
    obtain ⟨shown, ends⟩ := number
    have cut := List.takeWhile_append_dropWhile (p := Char.isDigit) (l := text)
    have marked (last : Char) (known : last = '.' ∨ last = ')')
        (starts : [last, ' '] <+: text.dropWhile Char.isDigit) :
        ∃ mark rest, isNumberMark mark = true ∧ text = mark ++ ' ' :: rest := by
      obtain ⟨rest, behind⟩ := starts
      refine ⟨text.takeWhile Char.isDigit ++ [last], rest, ?_, ?_⟩
      · rw [isNumberMark_iff]
        exact ⟨_, last, rfl, shown, of_mem_takeWhile Char.isDigit text, known⟩
      · rw [← behind] at cut
        simpa using cut.symm
    rcases ends with dot | bracket
    · exact marked '.' (.inl rfl) dot
    · exact marked ')' (.inr rfl) bracket
  · rintro ⟨mark, rest, number, rfl⟩
    obtain ⟨digits, last, rfl, shown, allDigits, ends⟩ := (isNumberMark_iff mark).mp number
    have stop : ∀ character ∈ (last :: ' ' :: rest).head?, character.isDigit = false := by
      rcases ends with rfl | rfl <;> simp
    have taken := takeWhile_stretch Char.isDigit digits (last :: ' ' :: rest) allDigits stop
    have dropped := dropWhile_stretch Char.isDigit digits (last :: ' ' :: rest) allDigits stop
    simp only [isNumberedItem, content, List.append_assoc, List.singleton_append, taken, dropped]
    rcases ends with rfl | rfl <;> simp [shown, List.isPrefixOf]

theorem startsWith_listMark_iff (line : Text) :
    (isBulletItem line || isNumberedItem line) = true ↔
      ∃ mark rest, isListMark mark = true ∧ trimStart line = mark ++ ' ' :: rest := by
  rw [Bool.or_eq_true, isBulletItem_iff, isNumberedItem_iff]
  simp only [isListMark, Bool.or_eq_true, List.any_eq_true, decide_eq_true_eq]
  constructor
  · rintro (⟨bullet, isBullet, rest, cut⟩ | ⟨mark, rest, number, cut⟩)
    · exact ⟨[bullet], rest, .inl ⟨bullet, isBullet, rfl⟩, cut⟩
    · exact ⟨mark, rest, .inr number, cut⟩
  · rintro ⟨mark, rest, ⟨bullet, isBullet, rfl⟩ | number, cut⟩
    · exact .inl ⟨bullet, isBullet, rest, cut⟩
    · exact .inr ⟨mark, rest, number, cut⟩

theorem isFence_of_isBlank (line : Text) (blank : isBlank line = true) : isFence line = false := by
  have content := (trimStart_eq_nil_iff line).mpr blank
  simp [isFence, content, fence]

theorem continuesRun_iff (line : Text) :
    continuesRun line = true ↔
      isBlank line = false ∧ isFence line = false ∧ standsApart line = false := by
  simp only [continuesRun, Bool.not_eq_true', Bool.or_eq_false_iff]
  tauto

namespace Opening

variable {line lead word tail : Text} (opening : Opening line lead word tail)

include opening

theorem isFence_eq : isFence line = fence.isPrefixOf word :=
  opening.isPrefixOf_trimStart fence isWord_fence.solid

theorem isHeading_eq : isHeading line = ['#'].isPrefixOf word :=
  opening.isPrefixOf_trimStart ['#'] (isWord_singleton '#' rfl).solid

theorem isQuote_eq : isQuote line = ['>'].isPrefixOf word :=
  opening.isPrefixOf_trimStart ['>'] (isWord_singleton '>' rfl).solid

theorem word_unique (other rest : Text) (solid : ∀ character ∈ other, isSpace character = false)
    (ending : ∀ character ∈ rest.head?, isSpace character = true)
    (same : word ++ tail = other ++ rest) : word = other ∧ tail = rest := by
  have first := takeWhile_stretch (fun character => !isSpace character) word tail
    (fun character inside => by simp [opening.isWord.solid character inside])
    (fun character inside => by simp [opening.ending character inside])
  have second := takeWhile_stretch (fun character => !isSpace character) other rest
    (fun character inside => by simp [solid character inside])
    (fun character inside => by simp [ending character inside])
  have equal : word = other := by rw [← first, ← second, same]
  exact ⟨equal, List.append_cancel_left (equal ▸ same)⟩

theorem isListItem_iff :
    (isBulletItem line || isNumberedItem line) = true ↔
      isListMark word = true ∧ tail.head? = some ' ' := by
  rw [startsWith_listMark_iff, opening.trimStart_eq]
  constructor
  · rintro ⟨mark, rest, marked, cut⟩
    have space : isSpace ' ' = true := by decide
    obtain ⟨sameWord, sameTail⟩ := opening.word_unique mark (' ' :: rest)
      (isWord_of_isListMark mark marked).solid (by simpa using space) cut
    exact ⟨sameWord ▸ marked, by simp [sameTail]⟩
  · rintro ⟨marked, spaced⟩
    obtain ⟨rest, cut⟩ := List.head?_eq_some_iff.mp spaced
    exact ⟨word, rest, marked, by rw [cut]⟩

theorem standsApart_iff :
    standsApart line = true ↔ ['#'].isPrefixOf word = true ∨ ['>'].isPrefixOf word = true ∨
      (isListMark word = true ∧ tail.head? = some ' ') := by
  have item := opening.isListItem_iff
  rw [← opening.isHeading_eq, ← opening.isQuote_eq, ← item]
  simp only [standsApart, Bool.or_eq_true]
  tauto

theorem indent_eq :
    line.takeWhile isIndent = lead.takeWhile isIndent ∧
      line.dropWhile isIndent = lead.dropWhile isIndent ++ (word ++ tail) := by
  have cut : line = lead.takeWhile isIndent ++ (lead.dropWhile isIndent ++ (word ++ tail)) := by
    rw [opening.cut, ← List.append_assoc (lead.takeWhile isIndent), List.takeWhile_append_dropWhile]
  have stop : ∀ character ∈ (lead.dropWhile isIndent ++ (word ++ tail)).head?,
      isIndent character = false := by
    intro character inside
    cases left : lead.dropWhile isIndent with
    | nil =>
        obtain ⟨first, rest, start, shown⟩ := opening.word_eq_cons
        have same : first = character := by simpa [left, start] using inside
        rw [← same]
        cases indent : isIndent first with
        | false => rfl
        | true =>
            simp only [isIndent, Bool.or_eq_true, decide_eq_true_eq] at indent
            rcases indent with rfl | rfl <;> contradiction
    | cons first rest =>
        rw [left, List.cons_append, List.head?_cons] at inside
        exact stop_dropWhile isIndent lead character (by rw [left]; exact inside)
  have taken := takeWhile_stretch isIndent _ _ (of_mem_takeWhile isIndent lead) stop
  have dropped := dropWhile_stretch isIndent _ _ (of_mem_takeWhile isIndent lead) stop
  exact ⟨by rw [cut, taken], by rw [cut, dropped]⟩

theorem opensTags_iff :
    OpensTags (line.dropWhile isIndent) ↔ lead.dropWhile isIndent = [] ∧ word = tagWord := by
  rw [opening.indent_eq.2]
  constructor
  · rintro ⟨rest, cut, ending⟩
    cases left : lead.dropWhile isIndent with
    | nil =>
        rw [left, List.nil_append] at cut
        exact ⟨rfl, (opening.word_unique tagWord rest isWord_tagWord.solid ending cut).1⟩
    | cons first behind =>
        have white := opening.white first ((List.dropWhile_sublist isIndent).subset (by simp [left]))
        have sign : first = '@' := by
          rw [left] at cut
          exact (List.cons.inj cut).1
        have shown : isSpace '@' = false := by decide
        rw [sign, shown] at white
        contradiction
  · rintro ⟨flush, tagged⟩
    exact ⟨tail, by rw [flush, tagged, List.nil_append], opening.ending⟩

theorem isProseLine_iff :
    IsProseLine line ↔
      (∃ count < indentStep, lead.takeWhile isIndent = List.replicate count ' ') ∧
        ¬ (lead.dropWhile isIndent = [] ∧ word = tagWord) := by
  rw [← opening.opensTags_iff, ← opening.indent_eq.1]
  exact ⟨fun prose => ⟨prose.shallow, prose.untagged⟩,
    fun ⟨shallow, untagged⟩ => ⟨opening.isBlank_eq, shallow, untagged⟩⟩

theorem continuesRun_of_mustFollow (free : mustFollow word = false) : continuesRun line = true := by
  simp only [mustFollow, Bool.or_eq_false_iff] at free
  obtain ⟨⟨⟨⟨⟨-, notFence⟩, notBullet⟩, notHeading⟩, notQuote⟩, notNumber⟩ := free
  have apart : standsApart line = false := by
    rw [Bool.eq_false_iff, ne_eq, opening.standsApart_iff]
    simp [notHeading, notQuote, isListMark, notBullet, notNumber]
  simp [continuesRun, opening.isFence_eq, notFence, opening.isBlank_eq, apart]

theorem continuesRun_of_lone (marked : isListMark word = true) (lone : tail = []) :
    continuesRun line = true := by
  obtain ⟨notFence, notHeading, notQuote⟩ := isListMark_unlike word marked
  have apart : standsApart line = false := by
    rw [Bool.eq_false_iff, ne_eq, opening.standsApart_iff]
    simp [notHeading, notQuote, lone]
  simp [continuesRun, opening.isFence_eq, notFence, opening.isBlank_eq, apart]

end Opening

theorem Opening.isProseLine_of_mustFollow {line word tail : Text}
    (opening : Opening line [] word tail) (free : mustFollow word = false) : IsProseLine line := by
  refine opening.isProseLine_iff.mpr ⟨⟨0, by decide, rfl⟩, ?_⟩
  rintro ⟨-, tagged⟩
  simp [mustFollow, tagged] at free

end CommentFormat
