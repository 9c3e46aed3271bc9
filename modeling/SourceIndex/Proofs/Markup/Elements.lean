import Mathlib.Algebra.GroupWithZero.Nat
import Mathlib.Algebra.Ring.Int.Defs
import SourceIndex.Proofs.Markup.Regions
import SourceIndex.Proofs.Pattern.Stretches
import SourceIndex.Proofs.Text.Pieces

/-! How the elements that give a document its structure lie in it. An element is open as long as its
own opening tags outnumber the closing tags that name it, and a closing tag of a longer name that
starts with its name counts among these. Where the opening tag itself has a longer name, the element
ends on the line of that tag. -/

namespace SourceIndex.Region

open Pattern

/-! ## Tags of a name -/

/-- How many tags on a line have exactly the given name, of those that start with the mark. -/
def tagsNamed (mark name line : List Char) : Nat :=
  Text.countPlaces (fun rest => (Text.dropLead? (mark ++ name) rest).any endsTagName) line

/-- How many tags on a line have a name that starts with the given one and goes on. -/
def tagsBeyond (mark name line : List Char) : Nat :=
  Text.countPlaces (fun rest => (Text.dropLead? (mark ++ name) rest).any (! endsTagName ·)) line

/-- How many elements of exactly the given name lines open, less those that they close. -/
def balance (name : List Char) (lines : List (List Char)) : Int :=
  (lines.map fun line => (tagsNamed ['<'] name (lowerCase line) : Int)
    - tagsNamed ['<', '/'] name (lowerCase line)).sum

/-- How many closing tags on some lines have a name that goes on behind the given one. -/
def strayClosings (name : List Char) (lines : List (List Char)) : Nat :=
  (lines.map fun line => tagsBeyond ['<', '/'] name (lowerCase line)).sum

theorem countOpenings_eq (name line : List Char) :
    countOpenings name line = tagsNamed ['<'] name line := by
  induction line with
  | nil => rfl
  | cons character line induction =>
      have same : opensTag name (character :: line) =
          (Text.dropLead? (['<'] ++ name) (character :: line)).any endsTagName := by
        rw [opensTag, List.singleton_append]
        cases Text.dropLead? ('<' :: name) (character :: line) <;> rfl
      rw [countOpenings, tagsNamed, Text.countPlaces_cons, induction, same]
      rfl

/-- Every tag that starts with a mark and a name has exactly this name or one that goes on. -/
theorem countPlaces_startsWith (mark name line : List Char) :
    Text.countPlaces (Text.startsWith · (mark ++ name)) line =
      tagsNamed mark name line + tagsBeyond mark name line := by
  rw [tagsNamed, tagsBeyond, ← Text.countPlaces_add]
  · congr 1
    funext rest
    rw [Text.startsWith]
    cases Text.dropLead? (mark ++ name) rest with
    | none => rfl
    | some behind => exact (Bool.or_not_self _).symm
  · intro rest exact
    cases isRest : Text.dropLead? (mark ++ name) rest with
    | none => rfl
    | some behind => simpa [isRest] using exact

theorem countOccurrences_closingTag {name : List Char} (apart : '<' ∉ name) (line : List Char) :
    Text.countOccurrences (closingTag name) line =
      tagsNamed ['<', '/'] name line + tagsBeyond ['<', '/'] name line := by
  rw [closingTag, Text.countOccurrences_eq (by simpa using apart)]
  exact countPlaces_startsWith ['<', '/'] name line

/-! ## Where an element ends -/

variable {name : List Char}

@[simp] theorem balance_nil : balance name [] = 0 := rfl

@[simp] theorem strayClosings_nil : strayClosings name [] = 0 := rfl

theorem balance_cons (line : List Char) (lines : List (List Char)) :
    balance name (line :: lines) = tagsNamed ['<'] name (lowerCase line)
      - tagsNamed ['<', '/'] name (lowerCase line) + balance name lines := rfl

theorem strayClosings_cons (line : List Char) (lines : List (List Char)) :
    strayClosings name (line :: lines) =
      tagsBeyond ['<', '/'] name (lowerCase line) + strayClosings name lines := rfl

/-- The search for the end goes on as long as the openings outnumber the closings, those of longer
names included. -/
theorem balancedEnd?_eq_some (apart : '<' ∉ name) {start : Int} {lines : List (List Char)}
    {extent : Nat} (isEnd : balancedEnd? name start lines = some extent) :
    start + balance name (lines.take (extent + 1)) ≤ strayClosings name (lines.take (extent + 1)) ∧
      ∀ earlier < extent, strayClosings name (lines.take (earlier + 1)) <
        start + balance name (lines.take (earlier + 1)) := by
  induction lines generalizing start extent with
  | nil => cases isEnd
  | cons line lines induction =>
      rw [balancedEnd?, countOpenings_eq, countOccurrences_closingTag apart] at isEnd
      split at isEnd
      · next closed =>
          cases isEnd
          refine ⟨?_, fun earlier less => absurd less (Nat.not_lt_zero _)⟩
          rw [List.take_succ_cons, List.take_zero, balance_cons, strayClosings_cons, balance_nil,
            strayClosings_nil]
          push_cast at closed ⊢
          omega
      · next isOpen =>
          rcases Option.map_eq_some_iff.mp isEnd with ⟨later, isLater, rfl⟩
          rcases induction isLater with ⟨closes, isOpenBefore⟩
          refine ⟨?_, fun earlier less => ?_⟩
          · rw [List.take_succ_cons, balance_cons, strayClosings_cons]
            push_cast at closes ⊢
            omega
          · rw [List.take_succ_cons, balance_cons, strayClosings_cons]
            cases earlier with
            | zero =>
                rw [List.take_zero, balance_nil, strayClosings_nil]
                push_cast at isOpen ⊢
                omega
            | succ earlier =>
                have before := isOpenBefore earlier (Nat.lt_of_succ_lt_succ less)
                push_cast at before ⊢
                omega

/-! ## The opening tag -/

/-- The names of the elements that give a document its structure. -/
def structuralNames : List String :=
  ["template", "section", "article", "main", "header", "footer", "nav", "aside", "form", "table"]

/-- Whether a text spells a word, in letters of either case. -/
def Spells (word : String) (text : List Char) : Prop :=
  List.Forall₂ (fun letter character => (among (caseVariants letter)).has character = true)
    word.toList text

theorem spells_of_reads_anyCase {word : String} {cursor reached : Cursor}
    (reads : (anyCase word).Reads cursor reached) :
    ∃ stretch, Spells word stretch ∧ cursor.Spans reached stretch := by
  have letters : ∀ (letters : List Char) (cursor : Cursor),
      (all (letters.map fun letter => .oneOf (among (caseVariants letter)))).Reads cursor reached →
      ∃ stretch, List.Forall₂ (fun letter character =>
        (among (caseVariants letter)).has character = true) letters stretch ∧
        cursor.Spans reached stretch := by
    intro letters
    induction letters with
    | nil =>
        rintro cursor ⟨⟩
        exact ⟨[], .nil, Cursor.Spans.nil _⟩
    | cons letter letters induction =>
        intro cursor reads
        cases letters with
        | nil =>
            rcases Reads.oneOf_inv reads with ⟨character, has, spans⟩
            exact ⟨_, .cons has .nil, spans⟩
        | cons next letters =>
            rcases Reads.seq_inv reads with ⟨middle, first, later⟩
            rcases Reads.oneOf_inv first with ⟨character, has, spans⟩
            rcases induction middle later with ⟨stretch, spelled, spansLater⟩
            exact ⟨_, .cons has spelled, spans.append spansLater⟩
  exact letters word.toList cursor reads

/-- The letters of the names, in either case, are no marks of tags, and the last one is a character
of words. -/
theorem isOne_of_mem_structuralNames : ∀ word ∈ structuralNames, word.toList ≠ [] ∧
    (word.toList.all fun letter => (caseVariants letter).all (·.isOne (· ≠ '<'))) = true ∧
    (word.toList.getLast?.all fun letter => (caseVariants letter).all (·.isOne Text.isWord)) =
      true := by
  decide +kernel

theorem Spells.noMark {word : String} (member : word ∈ structuralNames) {text : List Char}
    (spells : Spells word text) : '<' ∉ text := by
  have ones := (isOne_of_mem_structuralNames word member).2.1
  rw [Spells] at spells
  generalize word.toList = letters at spells ones
  induction spells with
  | nil => exact List.not_mem_nil
  | cons has _ induction =>
      rw [List.all_cons, Bool.and_eq_true] at ones
      have other := of_decide_eq_true (CharacterSet.passes_of_has ones.1 has)
      exact List.not_mem_cons_of_ne_of_not_mem other.symm (induction ones.2)

theorem Spells.isWord_getLast? {word : String} (member : word ∈ structuralNames) {text : List Char}
    (spells : Spells word text) :
    ∃ character, text.getLast? = some character ∧ Text.isWord character = true := by
  rcases isOne_of_mem_structuralNames word member with ⟨some, -, ones⟩
  rw [Spells] at spells
  generalize word.toList = letters at spells some ones
  induction spells with
  | nil => exact absurd rfl some
  | @cons letter character letters text has later induction =>
      cases later with
      | nil =>
          exact ⟨character, rfl, CharacterSet.passes_of_has ones has⟩
      | cons next later =>
          rw [List.getLast?_cons_cons] at ones ⊢
          exact induction (List.cons_ne_nil _ _) ones

theorem exists_spells_of_reads {cursor reached : Cursor}
    (reads : (anyOf (structuralNames.map anyCase)).Reads cursor reached) :
    ∃ word ∈ structuralNames, ∃ stretch, Spells word stretch ∧ cursor.Spans reached stretch := by
  rcases exists_reads_of_anyOf reads with ⟨choice, member, reads⟩
  rcases List.mem_map.mp member with ⟨word, isName, rfl⟩
  exact ⟨word, isName, spells_of_reads_anyCase reads⟩

/-- The tag that opens a structural element: the character behind its name, if there is one, is no
character of words. -/
theorem exists_of_structuralOpening {line : List Char} {found : Match}
    (matched : structuralOpening.find? line = some found) :
    ∃ front name behind, line = front ++ '<' :: name ++ behind ∧ found.text? "tag" = some name ∧
      '<' ∉ name ∧ ∀ character, behind.head? = some character → Text.isWord character = false := by
  rcases find?_eq_some matched with ⟨front, rest, reached, rfl, reads, rfl⟩
  rcases Reads.seq_inv reads with ⟨opened, mark, reads⟩
  rcases Reads.seq_inv reads with ⟨place, tag, reads⟩
  rcases Reads.oneOf_inv mark with ⟨character, isMark, markSpans⟩
  rcases Reads.named_inv tag with ⟨behind, name, reading, spans, isPlace⟩
  rcases exists_spells_of_reads reading with ⟨word, isName, stretch, spells, sameSpans⟩
  rcases Reads.seq_inv reads with ⟨edge, isEdge, later⟩
  cases CharacterSet.eq_of_has_single isMark
  have same : stretch = name := List.append_cancel_right (sameSpans.rest.symm.trans spans.rest)
  rcases spells.isWord_getLast? isName with ⟨last, isLast, isWord⟩
  rw [same] at isLast
  refine ⟨front, name, behind.rest, ?_, ?_, same ▸ spells.noMark isName, ?_⟩
  · have whole := markSpans.rest
    rw [spans.rest] at whole
    rw [List.append_assoc]
    exact congrArg (front ++ ·) whole
  · cases isEdge
    have captures := later.captures_eq rfl
    rw [isPlace] at captures
    rw [Match.text?, Match.capture?, captures]
    rfl
  · cases isEdge with
    | wordEdge atEdge =>
        intro next isNext
        rw [isPlace, Cursor.atWordEdge, spans.before, isLast, isNext] at atEdge
        simpa [isWord] using atEdge

/-! ## Letters in lower case -/

theorem asciiLower_of_not_isWord {character : Char} (noWord : Text.isWord character = false) :
    Text.asciiLower character = character := by
  rw [Text.asciiLower, if_neg]
  intro upper
  have bounds : 'A' ≤ character ∧ character ≤ 'Z' := by simpa [Text.isAsciiUpper] using upper
  have ascii : Text.isAscii character = true :=
    decide_eq_true (Nat.lt_of_le_of_lt (show character.toNat ≤ 90 from bounds.2) (by decide))
  simp [Text.isWord, ascii, Text.isAsciiAlphanumeric, upper] at noWord

theorem asciiLower_ne_mark {character : Char} (other : character ≠ '<') :
    Text.asciiLower character ≠ '<' := by
  rw [Text.asciiLower]
  split
  · next upper =>
      have bounds : 'A' ≤ character ∧ character ≤ 'Z' := by simpa [Text.isAsciiUpper] using upper
      have low : 65 ≤ character.toNat := bounds.1
      have high : character.toNat ≤ 90 := bounds.2
      have letters : ∀ code ∈ List.range' 65 26, Char.ofNat (code + 32) ≠ '<' := by decide
      exact letters character.toNat (List.mem_range'_1.mpr ⟨low, by omega⟩)
  · exact other

theorem not_mem_lowerCase {name : List Char} (noMark : '<' ∉ name) : '<' ∉ lowerCase name := by
  intro member
  rcases List.mem_map.mp member with ⟨character, inName, same⟩
  exact asciiLower_ne_mark (fun isMark => noMark (isMark ▸ inName)) same

/-! ## Structural regions -/

variable {lines : List (List Char)} {region : Region}

theorem Carves.openedAt? {cursor : Nat} {regions : List Region}
    (carves : Carves lines cursor regions) (member : region ∈ regions) :
    Region.openedAt? lines region.start = some region := by
  induction carves with
  | stops => cases member
  | passes _ _ _ induction => exact induction member
  | takes opens _ induction =>
      rcases List.mem_cons.mp member with rfl | member
      · rwa [(within_of_openedAt? opens).1]
      · exact induction member

section Opened

variable {index : Nat} {line : List Char} {later : List (List Char)}

theorem kind_ne_of_special? (opens : special? index line later = some region) :
    region.kind ≠ .structural := by
  simp only [special?, Option.bind_eq_bind, Option.bind_eq_some_iff] at opens
  rcases opens with ⟨found, -, made⟩
  cases made
  simp only
  split <;> decide

/-- Whether an opening tag stands on a line, in letters of either case: the character behind its
name, if there is one, is no character of words. -/
def OpensOn (line tag : List Char) : Prop :=
  ∃ front behind, lowerCase line = front ++ '<' :: tag ++ behind ∧
    ∀ character, behind.head? = some character → Text.isWord character = false

theorem of_structural? (opens : structural? index line later = some region) :
    '<' ∉ region.tag ∧ OpensOn line region.tag ∧ ∃ extent,
      balancedEnd? region.tag 0 (line :: later) = some extent ∧ region.stop = index + extent := by
  simp only [structural?, Option.bind_eq_bind, Option.bind_eq_some_iff] at opens
  rcases opens with ⟨found, matched, extent, isEnd, made⟩
  rcases exists_of_structuralOpening matched with ⟨front, name, behind, rfl, isTag, noMark, edge⟩
  simp only [isTag, Option.getD_some] at isEnd made
  cases made
  refine ⟨not_mem_lowerCase noMark, ⟨lowerCase front, lowerCase behind, ?_, ?_⟩, extent, isEnd, rfl⟩
  · simp only [lowerCase, List.map_append, List.map_cons]
    rfl
  · intro character isNext
    rw [lowerCase, List.head?_map, Option.map_eq_some_iff] at isNext
    rcases isNext with ⟨next, isNext, rfl⟩
    rw [asciiLower_of_not_isWord (edge next isNext)]
    exact edge next isNext

end Opened

theorem OpensOn.tags_pos {line tag : List Char} (opensOn : OpensOn line tag) :
    0 < tagsNamed ['<'] tag (lowerCase line) + tagsBeyond ['<'] tag (lowerCase line) := by
  rcases opensOn with ⟨front, behind, parts, -⟩
  have starts : Text.startsWith ('<' :: tag ++ behind) (['<'] ++ tag) = true :=
    Text.startsWith_iff.mpr (List.prefix_append _ _)
  rw [← countPlaces_startsWith, parts, List.append_assoc]
  exact Text.countPlaces_pos starts

/-- A structural region as the search meets it: its tag opens on its first line, and its last line
is the end that is found for the tag. -/
theorem exists_of_structural (opens : openedAt? lines region.start = some region)
    (isStructural : region.kind = .structural) :
    ∃ line later, lines.drop region.start = line :: later ∧ '<' ∉ region.tag ∧
      OpensOn line region.tag ∧ ∃ extent, balancedEnd? region.tag 0 (line :: later) = some extent ∧
        region.stop = region.start + extent := by
  unfold openedAt? at opens
  split at opens
  · cases opens
  · next line later rest =>
      split at opens
      · next found special =>
          cases opens
          exact absurd isStructural (kind_ne_of_special? special)
      · exact ⟨line, later, rest, of_structural? opens⟩

/-- The lines of a document from one line to another. -/
def linesBetween (lines : List (List Char)) (first last : Nat) : List (List Char) :=
  lines.extract first (last + 1)

/-- Whether a line is the first one behind which the elements of a name that are opened from a line
on are all closed. -/
structure BalancesFirst (name : List Char) (lines : List (List Char)) (first last : Nat) :
    Prop where
  order : first ≤ last
  balanced : balance name (linesBetween lines first last) ≤ 0
  openBefore : ∀ line, first ≤ line → line < last → 0 < balance name (linesBetween lines first line)

/-- On its first line, a structural region has an opening tag of just its name, or else it has one
of a longer name and consists of this line. Up to its last line, the opening tags of just its name
outnumber the closing tags of its name and of longer names that start with it; on its last line they
do not any more. So it ends where its own tags balance, unless closing tags of longer names make up
for openings that are still to be closed. -/
theorem structural_balances_up_to_strays (isRegion : region ∈ findAll lines)
    (isStructural : region.kind = .structural) :
    let between := linesBetween lines region.start
    (∃ line, lines[region.start]? = some line ∧ OpensOn line region.tag ∧
      (0 < tagsNamed ['<'] region.tag (lowerCase line) ∨
        0 < tagsBeyond ['<'] region.tag (lowerCase line) ∧ region.stop = region.start)) ∧
      (∀ line, region.start ≤ line → line < region.stop →
        strayClosings region.tag (between line) < balance region.tag (between line)) ∧
      balance region.tag (between region.stop) ≤ strayClosings region.tag (between region.stop) ∧
      (BalancesFirst region.tag lines region.start region.stop ↔
        balance region.tag (between region.stop) ≤ 0) := by
  intro between
  rcases exists_of_structural ((carves_findAll lines).openedAt? isRegion) isStructural with
    ⟨line, later, rest, noMark, opensOn, extent, isEnd, isStop⟩
  have isBetween : ∀ distance,
      between (region.start + distance) = (line :: later).take (distance + 1) := by
    intro distance
    rw [← rest]
    simp only [between, linesBetween, List.extract_eq_take_drop]
    congr 1
    omega
  rcases balancedEnd?_eq_some noMark isEnd with ⟨closes, isOpen⟩
  rw [Int.zero_add] at closes
  have before : ∀ line, region.start ≤ line → line < region.stop →
      strayClosings region.tag (between line) < balance region.tag (between line) := by
    intro line above below
    rcases Nat.exists_eq_add_of_le above with ⟨distance, rfl⟩
    have open_ := isOpen distance (by omega)
    rwa [Int.zero_add, ← isBetween] at open_
  rw [← isBetween, ← isStop] at closes
  refine ⟨⟨line, ?_, opensOn, ?_⟩, before, closes, ?_⟩
  · rw [← List.head?_drop, rest, List.head?_cons]
  · have tags := opensOn.tags_pos
    by_cases named : 0 < tagsNamed ['<'] region.tag (lowerCase line)
    · exact .inl named
    · refine .inr ⟨by omega, ?_⟩
      by_contra moreLines
      have open_ := before region.start (Nat.le_refl _) (by omega)
      have first := isBetween 0
      rw [Nat.add_zero, List.take_succ_cons, List.take_zero] at first
      rw [first, balance_cons, balance_nil] at open_
      omega
  · constructor
    · exact fun balances => balances.balanced
    · intro balanced
      refine ⟨by omega, balanced, fun line above below => ?_⟩
      exact Int.lt_of_le_of_lt (Int.natCast_nonneg _) (before line above below)

/-- A closing tag of a longer name ends a region while its own element is open. -/
theorem structural_balances_up_to_strays_of_longerName :
    let lines := ["<nav>".toList, "</nav-item>".toList, "</nav>".toList]
    let region : Region := ⟨"nav".toList, .structural, 0, 1, none, false⟩
    region ∈ findAll lines ∧ region.kind = .structural ∧
      ¬ BalancesFirst region.tag lines region.start region.stop := by
  intro lines region
  have isRegion : region ∈ findAll lines := by decide +kernel
  refine ⟨isRegion, rfl, fun balances => ?_⟩
  have balanced := (structural_balances_up_to_strays isRegion rfl).2.2.2.mp balances
  exact absurd balanced (by decide +kernel)

end SourceIndex.Region
