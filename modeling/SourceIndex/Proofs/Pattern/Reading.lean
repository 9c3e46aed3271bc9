import SourceIndex.Pattern.Basic

/-! What a pattern may read, as a relation between the places in front of and behind what is read.
The matcher tries the ways to read in the pattern's order of preference and hands each place it
reaches to what follows; whatever it finds, it has found by reading. -/

namespace SourceIndex.Pattern

/-- The pattern leads from one place in a text to another. -/
inductive Reads : Pattern → Cursor → Cursor → Prop
  | nothing {cursor : Cursor} : Reads .nothing cursor cursor
  | oneOf {set : CharacterSet} {cursor reached : Cursor} :
      cursor.read? set = some reached → Reads (.oneOf set) cursor reached
  | run {set : CharacterSet} {greedy : Bool} {cursor reached : Cursor} :
      reached ∈ Cursor.reachable set cursor.captures cursor.before cursor.rest cursor.offset [] →
      Reads (.run set greedy) cursor reached
  | seq {first second : Pattern} {cursor middle reached : Cursor} :
      Reads first cursor middle → Reads second middle reached →
      Reads (.seq first second) cursor reached
  | first {first second : Pattern} {cursor reached : Cursor} :
      Reads first cursor reached → Reads (.either first second) cursor reached
  | second {first second : Pattern} {cursor reached : Cursor} :
      Reads second cursor reached → Reads (.either first second) cursor reached
  | enough {body : Pattern} {greedy : Bool} {cursor : Cursor} :
      Reads (.rounds body greedy) cursor cursor
  | again {body : Pattern} {greedy : Bool} {cursor middle reached : Cursor} :
      Reads body cursor middle → Reads (.rounds body greedy) middle reached →
      Reads (.rounds body greedy) cursor reached
  | named {name : String} {body : Pattern} {cursor reached : Cursor} :
      Reads body cursor reached →
      Reads (.named name body) cursor (reached.remember name cursor)
  | textStart {cursor : Cursor} : cursor.before = none → Reads .textStart cursor cursor
  | textEnd {cursor : Cursor} : cursor.rest = [] → Reads .textEnd cursor cursor
  | wordEdge {cursor : Cursor} : cursor.atWordEdge = true → Reads .wordEdge cursor cursor

/-! ## The matcher reads -/

/-- What `step` finds it has found at a place that it leads to. -/
def IsSound (leads : Cursor → Cursor → Prop)
    (step : Cursor → (Cursor → Option Cursor) → Option Cursor) : Prop :=
  ∀ (cursor result : Cursor) (next : Cursor → Option Cursor), step cursor next = some result →
    ∃ reached, leads cursor reached ∧ next reached = some result

private theorem eq_some_or_of_orElse {α : Type} {first : Option α} {second : Unit → Option α}
    {found : α} (either : first.orElse second = some found) :
    first = some found ∨ second () = some found := by
  cases first with
  | none => exact .inr either
  | some value => exact .inl either

theorem repeatStep_sound {body : Pattern} (sound : IsSound body.Reads body.follow) (greedy : Bool)
    (limit : Nat) :
    IsSound (Reads (.rounds body greedy)) (repeatStep body.follow greedy limit) := by
  induction limit with
  | zero => exact fun cursor result next found => ⟨cursor, .enough, found⟩
  | succ limit induction =>
      intro cursor result next found
      have rounds : ∀ {found : Cursor}, (body.follow cursor fun reached =>
            if reached.offset = cursor.offset then none
            else repeatStep body.follow greedy limit reached next) = some found →
          ∃ reached, Reads (.rounds body greedy) cursor reached ∧ next reached = some found := by
        intro result found
        rcases sound _ _ _ found with ⟨middle, reads, found⟩
        split at found
        · cases found
        · rcases induction _ _ _ found with ⟨reached, later, found⟩
          exact ⟨reached, .again reads later, found⟩
      unfold repeatStep at found
      cases greedy with
      | true =>
          rcases eq_some_or_of_orElse found with found | found
          · exact rounds found
          · exact ⟨cursor, .enough, found⟩
      | false =>
          rcases eq_some_or_of_orElse found with found | found
          · exact ⟨cursor, .enough, found⟩
          · exact rounds found

theorem follow_sound (pattern : Pattern) : IsSound pattern.Reads pattern.follow := by
  induction pattern with
  | nothing => exact fun cursor result next found => ⟨cursor, .nothing, found⟩
  | oneOf set =>
      intro cursor result next found
      rcases Option.bind_eq_some_iff.mp found with ⟨reached, read, found⟩
      exact ⟨reached, .oneOf read, found⟩
  | run set greedy =>
      intro cursor result next found
      rcases List.exists_of_findSome?_eq_some found with ⟨reached, member, found⟩
      refine ⟨reached, .run ?_, found⟩
      cases greedy with
      | true => exact member
      | false => exact List.mem_reverse.mp member
  | seq first second firstSound secondSound =>
      intro cursor result next found
      rcases firstSound _ _ _ found with ⟨middle, reads, found⟩
      rcases secondSound _ _ _ found with ⟨reached, later, found⟩
      exact ⟨reached, .seq reads later, found⟩
  | either first second firstSound secondSound =>
      intro cursor result next found
      rcases eq_some_or_of_orElse found with found | found
      · rcases firstSound _ _ _ found with ⟨reached, reads, found⟩
        exact ⟨reached, .first reads, found⟩
      · rcases secondSound _ _ _ found with ⟨reached, reads, found⟩
        exact ⟨reached, .second reads, found⟩
  | rounds body greedy sound =>
      exact fun cursor => repeatStep_sound sound greedy cursor.rest.length cursor
  | named name body sound =>
      intro cursor result next found
      rcases sound _ _ _ found with ⟨reached, reads, found⟩
      exact ⟨_, .named reads, found⟩
  | textStart =>
      intro cursor result next found
      unfold follow at found
      split at found
      · next isStart => exact ⟨cursor, .textStart (Option.isNone_iff_eq_none.mp isStart), found⟩
      · cases found
  | textEnd =>
      intro cursor result next found
      unfold follow at found
      split at found
      · next isEnd => exact ⟨cursor, .textEnd (List.isEmpty_iff.mp isEnd), found⟩
      · cases found
  | wordEdge =>
      intro cursor result next found
      unfold follow at found
      split at found
      · next isEdge => exact ⟨cursor, .wordEdge isEdge, found⟩
      · cases found

/-! ## Matches are readings -/

/-- A match is a reading of the text from one of its places on. -/
theorem find?_eq_some {pattern : Pattern} {text : List Char} {found : Match}
    (matched : pattern.find? text = some found) :
    ∃ front rest reached, text = front ++ rest ∧
      pattern.Reads ⟨front.getLast?, rest, front.length, []⟩ reached ∧
      found = ⟨front.length, reached.offset, reached.captures⟩ := by
  have fromPlace : ∀ rest front before offset, before = front.getLast? → offset = front.length →
      pattern.findFrom before rest offset = some found →
      ∃ first later reached, front ++ rest = first ++ later ∧
        pattern.Reads ⟨first.getLast?, later, first.length, []⟩ reached ∧
        found = ⟨first.length, reached.offset, reached.captures⟩ := by
    intro rest
    have atPlace : ∀ {rest : List Char} front before offset, before = front.getLast? →
        offset = front.length → pattern.matchAt before rest offset = some found →
        ∃ first later reached, front ++ rest = first ++ later ∧
          pattern.Reads ⟨first.getLast?, later, first.length, []⟩ reached ∧
          found = ⟨first.length, reached.offset, reached.captures⟩ := by
      rintro rest front _ _ rfl rfl matched
      rcases Option.map_eq_some_iff.mp matched with ⟨reached, followed, rfl⟩
      rcases pattern.follow_sound _ _ _ followed with ⟨place, reads, same⟩
      cases same
      exact ⟨front, rest, reached, rfl, reads, rfl⟩
    induction rest with
    | nil => exact atPlace
    | cons character rest induction =>
        intro front before offset isBefore isOffset matched
        rcases eq_some_or_of_orElse matched with matched | matched
        · exact atPlace front before offset isBefore isOffset matched
        · rw [List.append_cons]
          refine induction (front ++ [character]) _ _ ?_ ?_ matched
          · rw [List.getLast?_concat]
          · rw [isOffset, List.length_append, List.length_singleton]
  exact fromPlace text [] none 0 rfl rfl matched

/-! ## Names -/

/-- The names under which a pattern may remember what it has read. -/
def names : Pattern → List String
  | .seq first second | .either first second => first.names ++ second.names
  | .rounds body _ => body.names
  | .named name body => name :: body.names
  | _ => []

theorem captures_of_mem_reachable {set : CharacterSet} {captures : List (String × Capture)}
    {before : Option Char} {rest : List Char} {offset : Nat} {found : List Cursor}
    (same : ∀ cursor ∈ found, cursor.captures = captures) {reached : Cursor}
    (member : reached ∈ Cursor.reachable set captures before rest offset found) :
    reached.captures = captures := by
  induction rest generalizing before offset found with
  | nil =>
      rcases List.mem_cons.mp member with rfl | member
      · rfl
      · exact same reached member
  | cons character rest induction =>
      have here : ∀ cursor ∈ (⟨before, character :: rest, offset, captures⟩ : Cursor) :: found,
          cursor.captures = captures := by
        intro cursor member
        rcases List.mem_cons.mp member with rfl | member
        · rfl
        · exact same cursor member
      unfold Cursor.reachable at member
      simp only at member
      split at member
      · exact induction here member
      · exact here reached member

theorem Reads.mem_captures {pattern : Pattern} {cursor reached : Cursor}
    (reads : pattern.Reads cursor reached) {entry : String × Capture}
    (member : entry ∈ reached.captures) :
    entry ∈ cursor.captures ∨ entry.1 ∈ pattern.names := by
  induction reads with
  | nothing | enough | textStart | textEnd | wordEdge => exact .inl member
  | oneOf read =>
      left
      unfold Cursor.read? at read
      split at read
      · cases read
      · split at read
        · cases read
          exact member
        · cases read
  | run inRun =>
      rw [captures_of_mem_reachable (fun _ none => by cases none) inRun] at member
      exact .inl member
  | seq _ _ first second =>
      rcases second member with member | named
      · exact (first member).imp_right (List.mem_append_left _)
      · exact .inr (List.mem_append_right _ named)
  | first _ induction => exact (induction member).imp_right (List.mem_append_left _)
  | second _ induction => exact (induction member).imp_right (List.mem_append_right _)
  | again _ _ first later =>
      rcases later member with member | named
      · exact first member
      · exact .inr named
  | named _ induction =>
      rcases List.mem_cons.mp member with rfl | member
      · exact .inr (List.mem_cons_self ..)
      · exact (induction member).imp_right (List.mem_cons_of_mem _)

/-- A part that a pattern does not have takes part in none of its matches. -/
theorem capture?_eq_none {pattern : Pattern} {text : List Char} {found : Match} {name : String}
    (matched : pattern.find? text = some found) (foreign : name ∉ pattern.names) :
    found.capture? name = none := by
  rcases find?_eq_some matched with ⟨front, rest, reached, rfl, reads, rfl⟩
  refine List.lookup_eq_none_iff.mpr fun entry member => ?_
  rcases reads.mem_captures member with member | named
  · cases member
  · exact bne_iff_ne.mpr fun same => foreign (same ▸ named)

end SourceIndex.Pattern
