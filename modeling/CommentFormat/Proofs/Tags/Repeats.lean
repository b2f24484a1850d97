import CommentFormat.Proofs.Print.Idempotence
import CommentFormat.Proofs.Print.Narrow

/-! Repeats: a group is reported for the names that it lists more than once, and for no others. -/

namespace CommentFormat

/-- What the two sets hold once `earlier` was met. -/
structure Sightings.Counts (sightings : Sightings) (earlier : List Text) : Prop where
  seen_iff : ∀ name, name ∈ sightings.seen ↔ 1 ≤ earlier.count name
  reported_iff : ∀ name, name ∈ sightings.reported ↔ 2 ≤ earlier.count name

theorem mem_cons_iff_le_count {set earlier : List Text} {bound : Nat} {first : Text}
    (kept : ∀ name, name ∈ set ↔ bound + 1 ≤ earlier.count name)
    (now : earlier.count first = bound) (name : Text) :
    name ∈ first :: set ↔ bound + 1 ≤ (first :: earlier).count name := by
  by_cases same : name = first
  · subst same
    rw [List.count_cons_self, now]
    simp
  · rw [List.count_cons_of_ne (Ne.symm same), ← kept]
    simp [same]

theorem mem_iff_le_count_cons {set earlier : List Text} {bound : Nat} {first : Text}
    (kept : ∀ name, name ∈ set ↔ bound + 1 ≤ earlier.count name)
    (other : earlier.count first ≠ bound) (name : Text) :
    name ∈ set ↔ bound + 1 ≤ (first :: earlier).count name := by
  rw [kept]
  by_cases same : name = first
  · subst same
    rw [List.count_cons_self]
    omega
  · rw [List.count_cons_of_ne (Ne.symm same)]

theorem Sightings.Counts.meet {sightings : Sightings} {earlier : List Text}
    (counts : sightings.Counts earlier) (name : Text) :
    (sightings.meet name).2.Counts (name :: earlier) ∧
      ((sightings.meet name).1 = true ↔ earlier.count name = 1) := by
  have seen := counts.seen_iff name
  have reported := counts.reported_iff name
  unfold Sightings.meet
  by_cases met : name ∈ sightings.seen
  · by_cases told : name ∈ sightings.reported
    · have often := reported.mp told
      simp only [met, told, not_true, if_false]
      refine ⟨⟨?_, ?_⟩, by simp; omega⟩
      · exact mem_iff_le_count_cons counts.seen_iff (by omega)
      · exact mem_iff_le_count_cons counts.reported_iff (by omega)
    · have once : earlier.count name = 1 := by
        have least := seen.mp met
        rw [reported] at told
        omega
      simp only [met, told, not_true, not_false_eq_true, if_false, if_true]
      refine ⟨⟨?_, ?_⟩, by simp [once]⟩
      · exact mem_iff_le_count_cons counts.seen_iff (by omega)
      · exact mem_cons_iff_le_count counts.reported_iff once
  · have never : earlier.count name = 0 := by
      rw [seen] at met
      omega
    simp only [met, not_false_eq_true, if_true]
    refine ⟨⟨?_, ?_⟩, by simp [never]⟩
    · exact mem_cons_iff_le_count counts.seen_iff never
    · exact mem_iff_le_count_cons counts.reported_iff (by omega)

example : repeatedNames [['a'], ['b'], ['c'], ['b'], ['a'], ['b']] = [['b'], ['a']] := by decide

/-! Reports. -/

end CommentFormat
