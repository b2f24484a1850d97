import CommentFormat.Proofs.Layout.Wrap

/-! Greedy packing: items go on with a line as long as they fit, and one that does not starts the
next line. Both the fills of a layout and the names of a tag group are packed in this way. -/

namespace CommentFormat

def packedLine (separator opening : Text) (items : List Text) : Text :=
  opening ++ separator.intercalate items

@[simp] theorem packedLine_singleton (separator opening item : Text) :
    packedLine separator opening [item] = opening ++ item := by
  simp [packedLine]

theorem packedLine_append (separator opening : Text) (items : List Text) (item : Text)
    (shown : items ≠ []) :
    packedLine separator opening (items ++ [item]) =
      packedLine separator opening items ++ (separator ++ item) := by
  rw [packedLine, packedLine, List.append_assoc]
  induction items with
  | nil => contradiction
  | cons first rest ih =>
      cases rest with
      | nil => simp
      | cons second later => simpa using ih (by simp)

def packFrom (width : Nat) (separator opening line : Text) (column : Nat) :
    List Text → List Text
  | [] => [line]
  | item :: rest =>
      if column + columns (separator ++ item) ≤ width then
        packFrom width separator opening (line ++ (separator ++ item))
          (column + columns (separator ++ item)) rest
      else line :: packFrom width separator opening (opening ++ item) (columns (opening ++ item)) rest

/-- The items of each line, if the first line starts at column `offset` and every other one at 0:
two items share a line only within the page, and a line ends only where the next item would have
run past it. -/
inductive Greedy (width : Nat) (separator opening : Text) : Nat → List (List Text) → Prop where
  | last {offset : Nat} {items : List Text} (shown : items ≠ [])
      (fits : 1 < items.length → offset + columns (packedLine separator opening items) ≤ width) :
      Greedy width separator opening offset [items]
  | full {offset : Nat} {items more : List Text} {next : Text} {rest : List (List Text)}
      (shown : items ≠ [])
      (fits : 1 < items.length → offset + columns (packedLine separator opening items) ≤ width)
      (exceeds : width <
        offset + columns (packedLine separator opening items) + columns (separator ++ next))
      (below : Greedy width separator opening 0 ((next :: more) :: rest)) :
      Greedy width separator opening offset (items :: (next :: more) :: rest)

theorem Greedy.shown {width offset : Nat} {separator opening : Text} {rows : List (List Text)}
    (greedy : Greedy width separator opening offset rows) : ∀ items ∈ rows, items ≠ [] := by
  induction greedy with
  | last shown fits => simpa using shown
  | full shown fits exceeds below ih => exact List.forall_mem_cons.mpr ⟨shown, ih⟩

theorem Greedy.ne_nil {width offset : Nat} {separator opening : Text} {rows : List (List Text)}
    (greedy : Greedy width separator opening offset rows) : rows ≠ [] := by
  cases greedy <;> simp

theorem packFrom_greedy (width : Nat) (separator opening : Text) (items : List Text) (offset : Nat)
    (begun : List Text) (shown : begun ≠ [])
    (fits : 1 < begun.length → offset + columns (packedLine separator opening begun) ≤ width) :
    ∃ more rest,
      packFrom width separator opening (packedLine separator opening begun)
          (offset + columns (packedLine separator opening begun)) items =
        ((begun ++ more) :: rest).map (packedLine separator opening) ∧
      more ++ rest.flatten = items ∧
      Greedy width separator opening offset ((begun ++ more) :: rest) := by
  induction items generalizing offset begun with
  | nil => exact ⟨[], [], by simp [packFrom], rfl, by simpa using .last shown fits⟩
  | cons item items ih =>
      have longer := packedLine_append separator opening begun item shown
      rw [packFrom]
      by_cases beside : offset + columns (packedLine separator opening begun) +
          columns (separator ++ item) ≤ width
      · have column : offset + columns (packedLine separator opening (begun ++ [item])) =
            offset + columns (packedLine separator opening begun) + columns (separator ++ item) := by
          simp only [longer, columns, List.length_append]
          omega
        obtain ⟨more, rest, packed, cut, greedy⟩ := ih offset (begun ++ [item]) (by simp)
          (fun _ => by omega)
        rw [if_pos beside, ← longer, ← column, packed]
        refine ⟨item :: more, rest, by simp, by simp [cut], by simpa using greedy⟩
      · obtain ⟨more, rest, packed, cut, greedy⟩ := ih 0 [item] (by simp) (by simp)
        rw [packedLine_singleton, Nat.zero_add] at packed
        rw [if_neg beside, packed]
        refine ⟨[], (item :: more) :: rest, by simp, by simpa using cut, ?_⟩
        rw [List.append_nil]
        exact .full shown fits (by omega) greedy

/-! Fills. -/

theorem wrapFrom_eq_packFrom (width : Nat) (items : List Text) (line : Text) (column : Nat) :
    wrapFrom width line column items = packFrom width [' '] [] line column items := by
  induction items generalizing line column with
  | nil => rfl
  | cons item rest ih =>
      have reach : column + columns ([' '] ++ item) = column + 1 + item.length := by
        simp only [columns, List.length_append, List.length_singleton]
        omega
      rw [wrapFrom, packFrom, reach, ih, ih]
      rfl

theorem wrapItems_greedy (width offset : Nat) (items : List Text) (shown : items ≠ []) :
    ∃ rows, wrapItems width offset items = rows.map (packedLine [' '] []) ∧
      rows.flatten = items ∧ Greedy width [' '] [] offset rows := by
  obtain ⟨item, rest, rfl⟩ := List.exists_cons_of_ne_nil shown
  obtain ⟨more, rows, packed, cut, greedy⟩ :=
    packFrom_greedy width [' '] [] rest offset [item] (by simp) (by simp)
  refine ⟨_, ?_, by simpa using cut, greedy⟩
  rw [← packed, wrapItems, wrapFrom_eq_packFrom, packedLine_singleton, List.nil_append]

end CommentFormat
