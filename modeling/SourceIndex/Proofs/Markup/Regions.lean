import Mathlib.Data.List.Pairwise
import SourceIndex.Markup.Region

/-! How documents are carved into regions. A cursor goes down the lines: a line that opens a region
takes it behind the last line of the region, any other line to the next one. The cursor always
advances and no region reaches over the end of the document, so that the regions lie one behind the
other on the lines of the document. -/

namespace SourceIndex.Region

/-! ## The region that opens on a line -/

section Opened

variable {index : Nat} {line : List Char} {later : List (List Char)} {region : Region}

theorem lt_of_balancedEnd? {tag : List Char} {balance : Int} {lines : List (List Char)}
    {extent : Nat} (isEnd : balancedEnd? tag balance lines = some extent) :
    extent < lines.length := by
  induction lines generalizing balance extent with
  | nil => cases isEnd
  | cons line lines induction =>
      simp only [balancedEnd?] at isEnd
      split at isEnd
      · cases isEnd
        exact Nat.zero_lt_succ _
      · rcases Option.map_eq_some_iff.mp isEnd with ⟨later, isLater, rfl⟩
        exact Nat.succ_lt_succ (induction isLater)

/-- Whether a region starts on a line and ends on it or on one of a number of lines below. -/
structure StartsAt (index below : Nat) (region : Region) : Prop where
  start : region.start = index
  order : index ≤ region.stop
  stop : region.stop ≤ index + below

theorem startsAt_of_special? (opens : special? index line later = some region) :
    region.StartsAt index later.length := by
  simp only [special?, Option.bind_eq_bind, Option.bind_eq_some_iff] at opens
  rcases opens with ⟨found, -, made⟩
  cases made
  refine ⟨rfl, Nat.le_add_right _ _, Nat.add_le_add_left ?_ index⟩
  split
  · exact Nat.zero_le _
  · split
    · next distance isDistance =>
        rcases List.findIdx?_eq_some_iff_getElem.mp isDistance with ⟨short, -⟩
        exact short
    · exact Nat.le_refl _

theorem startsAt_of_structural? (opens : structural? index line later = some region) :
    region.StartsAt index later.length := by
  simp only [structural?, Option.bind_eq_bind, Option.bind_eq_some_iff] at opens
  rcases opens with ⟨found, -, extent, isEnd, made⟩
  cases made
  have short := lt_of_balancedEnd? isEnd
  rw [List.length_cons] at short
  exact ⟨rfl, Nat.le_add_right _ _, Nat.add_le_add_left (Nat.le_of_lt_succ short) index⟩

end Opened

/-- The region that opens on a line of a document. -/
def openedAt? (lines : List (List Char)) (index : Nat) : Option Region :=
  match lines.drop index with
  | [] => none
  | line :: later =>
    match special? index line later with
    | some region => some region
    | none => structural? index line later

variable {lines : List (List Char)} {cursor : Nat} {region : Region} {regions : List Region}

/-- A region ends within the document, and not above the line on which it opens. -/
theorem within_of_openedAt? (opens : openedAt? lines cursor = some region) :
    region.start = cursor ∧ cursor ≤ region.stop ∧ region.stop < lines.length := by
  unfold openedAt? at opens
  split at opens
  · cases opens
  · next line later rest =>
      have startsAt : region.StartsAt cursor later.length := by
        split at opens
        · next found special =>
            cases opens
            exact startsAt_of_special? special
        · exact startsAt_of_structural? opens
      have length := congrArg List.length rest
      rw [List.length_drop, List.length_cons] at length
      have stop := startsAt.stop
      exact ⟨startsAt.start, startsAt.order, by omega⟩

/-! ## The way of the cursor -/

/-- The regions that a cursor meets on its way down a document. -/
inductive Carves (lines : List (List Char)) : (cursor : Nat) → List Region → Prop
  | stops {cursor : Nat} : lines.length ≤ cursor → Carves lines cursor []
  | passes {cursor : Nat} {regions : List Region} : cursor < lines.length →
    openedAt? lines cursor = none → Carves lines (cursor + 1) regions →
    Carves lines cursor regions
  | takes {cursor : Nat} {region : Region} {regions : List Region} :
    openedAt? lines cursor = some region → Carves lines (region.stop + 1) regions →
    Carves lines cursor (region :: regions)

/-- Regions that lie one behind the other on the lines from one line up to another. -/
structure InOrder (low high : Nat) (regions : List Region) : Prop where
  apart : regions.Pairwise fun region later => region.stop < later.start
  within : ∀ region ∈ regions,
    low ≤ region.start ∧ region.start ≤ region.stop ∧ region.stop < high

/-- Wherever the cursor starts, it meets the same regions on every way down. -/
theorem Carves.unique {others : List Region} (carves : Carves lines cursor regions)
    (alsoCarves : Carves lines cursor others) : regions = others := by
  induction carves generalizing others with
  | stops behind =>
      cases alsoCarves with
      | stops => rfl
      | passes inside => omega
      | takes opens => have := within_of_openedAt? opens; omega
  | passes inside none _ induction =>
      cases alsoCarves with
      | stops behind => omega
      | passes _ _ later => exact induction later
      | takes opens => rw [none] at opens; cases opens
  | takes opens _ induction =>
      cases alsoCarves with
      | stops behind => have := within_of_openedAt? opens; omega
      | passes _ none => rw [opens] at none; cases none
      | takes same later =>
          cases opens.symm.trans same
          rw [induction later]

theorem Carves.inOrder (carves : Carves lines cursor regions) :
    InOrder cursor lines.length regions := by
  induction carves with
  | stops => exact ⟨.nil, nofun⟩
  | passes _ _ _ induction =>
      refine ⟨induction.apart, fun region member => ?_⟩
      have := induction.within region member
      omega
  | takes opens _ induction =>
      have own := within_of_openedAt? opens
      refine ⟨List.pairwise_cons.mpr ⟨fun other member => ?_, induction.apart⟩, ?_⟩
      · have := induction.within other member
        omega
      · intro other member
        rcases List.mem_cons.mp member with rfl | member
        · omega
        · have := induction.within other member
          omega

/-- The search, which is done line by line, meets what the cursor meets. The lines that it leaves
out are those of the region that it has found last. -/
theorem carves_findFrom (index skip : Nat) (rest : List (List Char))
    (isRest : lines.drop index = rest) :
    Carves lines (index + skip) (findFrom index skip rest) := by
  have drop : ∀ {index line later}, lines.drop index = line :: later →
      lines.drop (index + 1) = later := by
    intro index line later isRest
    rw [← List.tail_drop, isRest, List.tail_cons]
  fun_induction findFrom index skip rest with
  | case1 => exact .stops (Nat.le_add_right_of_le (List.drop_eq_nil_iff.mp isRest))
  | case2 index skip line later induction =>
      have carves := induction (drop isRest)
      rwa [Nat.add_right_comm] at carves
  | case3 index line later region? region isRegion induction =>
      have opens : openedAt? lines index = some region := by
        rw [openedAt?, isRest]
        exact isRegion
      have own := within_of_openedAt? opens
      have carves := induction (drop isRest)
      rw [show index + 1 + (region.stop - region.start) = region.stop + 1 by omega] at carves
      exact .takes opens carves
  | case4 index line later region? noRegion induction =>
      have opens : openedAt? lines index = none := by
        rw [openedAt?, isRest]
        exact noRegion
      have inside : index < lines.length := by
        have length := congrArg List.length isRest
        rw [List.length_drop, List.length_cons] at length
        omega
      exact .passes inside opens (induction (drop isRest))

/-! ## Documents -/

/-- A line belongs to one region at most. -/
theorem InOrder.eq_of_mem {low high : Nat} {regions : List Region} {other : Region}
    (inOrder : InOrder low high regions) (line : Nat) (isRegion : region ∈ regions)
    (isOther : other ∈ regions) (inside : region.start ≤ line ∧ line ≤ region.stop)
    (alsoInside : other.start ≤ line ∧ line ≤ other.stop) : region = other := by
  have one : ∀ region ∈ regions, ∀ other ∈ regions, (region.start ≤ line ∧ line ≤ region.stop) →
      (other.start ≤ line ∧ line ≤ other.stop) → region = other := by
    refine List.Pairwise.forall_of_forall_of_flip (fun _ _ _ _ => rfl) ?_ ?_
    · exact inOrder.apart.imp fun apart inside alsoInside => by omega
    · exact inOrder.apart.imp fun apart inside alsoInside => by omega
  exact one region isRegion other isOther inside alsoInside

theorem InOrder.tail {low high : Nat} {regions : List Region}
    (inOrder : InOrder low high (region :: regions)) : InOrder (region.stop + 1) high regions where
  apart := inOrder.apart.of_cons
  within other member := by
    have behind := List.rel_of_pairwise_cons inOrder.apart member
    have := inOrder.within other (List.mem_cons_of_mem _ member)
    omega

theorem carves_findAll (lines : List (List Char)) : Carves lines 0 (findAll lines) :=
  carves_findFrom 0 0 lines List.drop_zero

theorem inOrder_findAll (lines : List (List Char)) : InOrder 0 lines.length (findAll lines) :=
  (carves_findAll lines).inOrder

theorem innerLines?_eq_some_iff {first last : Nat} : region.innerLines? = some (first, last) ↔
    region.start + 1 = first ∧ first ≤ last ∧ last + 1 = region.stop := by
  unfold innerLines?
  split
  · rw [Option.some.injEq, Prod.mk.injEq]
    omega
  · refine ⟨nofun, fun between => ?_⟩
    omega

/-- The search comes to its end for every document, and what it finds are the regions that a cursor
meets from the first line on: they lie one behind the other on the lines of the document. The inner
lines of a region lie strictly between its first and its last line. -/
theorem findAll_carves_document (lines : List (List Char)) :
    (∀ regions, Carves lines 0 regions ↔ regions = findAll lines) ∧
      InOrder 0 lines.length (findAll lines) ∧
      ∀ region ∈ findAll lines, ∀ first last, region.innerLines? = some (first, last) →
        first ≤ last ∧
          ∀ line, first ≤ line ∧ line ≤ last ↔ region.start < line ∧ line < region.stop := by
  refine ⟨fun regions => ⟨fun carves => carves.unique (carves_findAll lines), ?_⟩,
    inOrder_findAll lines, fun region _ first last inner => ?_⟩
  · rintro rfl
    exact carves_findAll lines
  · rw [innerLines?_eq_some_iff] at inner
    refine ⟨inner.2.1, fun line => ?_⟩
    omega

/-- An unbalanced element is passed over, and the script inside a section belongs to it. -/
example : (findAll ["<nav>".toList, "<section>".toList, "<script>".toList, "</script>".toList,
    "</section>".toList, "<style>".toList]).map (fun region => (region.start, region.stop)) =
      [(1, 4), (5, 5)] := by decide +kernel

end SourceIndex.Region
