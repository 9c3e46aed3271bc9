import Mathlib.Data.List.Nodup

/-! Lists of entries, each with a key. -/

namespace SourceIndex

variable {Key Value : Type} [BEq Key] [LawfulBEq Key] {entries : List (Key × Value)}

/-- Where every key occurs once, each entry is found by its key. -/
theorem lookup_of_mem (distinct : (entries.map (·.1)).Nodup) {key : Key} {value : Value}
    (member : (key, value) ∈ entries) : entries.lookup key = some value := by
  induction entries with
  | nil => exact absurd member List.not_mem_nil
  | cons entry entries induction =>
      rw [List.map_cons, List.nodup_cons] at distinct
      rcases List.mem_cons.mp member with rfl | member
      · rw [List.lookup_cons_self]
      · have different : key ≠ entry.1 := by
          rintro rfl
          exact distinct.1 (List.mem_map.mpr ⟨_, member, rfl⟩)
        rw [List.lookup_cons, beq_eq_false_iff_ne.mpr different]
        exact induction distinct.2 member

omit [LawfulBEq Key] in
/-- Where all values are changed in the same way, a key finds the changed value. -/
theorem lookup_map_value {Changed : Type} (change : Value → Changed) (entries : List (Key × Value))
    (key : Key) : (entries.map fun entry => (entry.1, change entry.2)).lookup key =
      (entries.lookup key).map change := by
  induction entries with
  | nil => rfl
  | cons entry entries induction =>
      rw [List.map_cons, List.lookup_cons, List.lookup_cons, induction]
      cases key == entry.1 <;> rfl

/-- Without the entries of a key, nothing is found by it, and by other keys what was found before. -/
theorem lookup_filter_ne [DecidableEq Key] (entries : List (Key × Value)) (gone key : Key) :
    (entries.filter (·.1 != gone)).lookup key = if key = gone then none else entries.lookup key := by
  induction entries with
  | nil => rw [List.filter_nil, List.lookup_nil, ite_self]
  | cons entry entries induction =>
      by_cases isGone : entry.1 = gone
      · rw [List.filter_cons_of_neg (by simp [isGone]), induction, List.lookup_cons]
        by_cases same : key = gone
        · rw [if_pos same, if_pos same]
        · rw [if_neg same, if_neg same, isGone, beq_eq_false_iff_ne.mpr same]
      · rw [List.filter_cons_of_pos (by simp [isGone]), List.lookup_cons, List.lookup_cons,
          induction]
        by_cases same : key = entry.1
        · simp only [same, beq_self_eq_true, if_neg isGone]
        · rw [beq_eq_false_iff_ne.mpr same]

end SourceIndex
