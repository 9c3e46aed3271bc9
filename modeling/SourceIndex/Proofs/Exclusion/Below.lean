import Mathlib.Data.List.Basic
import SourceIndex.Proofs.Exclusion.Reading
import SourceIndex.Proofs.File.Spelling

/-! What is left out with all that lies below it. Every pattern is read together with its extension
by a slash and a double star. That extension fits below whatever the pattern fits, so that a walk
which does not enter what is left out passes over nothing else. -/

namespace SourceIndex

namespace Glob

/-! ## Fitting more text -/

theorem and_of_and {test fits later : Bool} (both : (test && fits) = true)
    (goesOn : fits = true → later = true) : (test && later) = true := by
  rw [Bool.and_eq_true] at both ⊢
  exact both.imp_right goesOn

theorem or_of_or {fits otherFits later otherLater : Bool} (either : (fits || otherFits) = true)
    (goesOn : fits = true → later = true) (otherGoesOn : otherFits = true → otherLater = true) :
    (later || otherLater) = true := by
  rw [Bool.or_eq_true] at either ⊢
  exact either.imp goesOn otherGoesOn

section

variable {keepsSlashes : Bool} {next later : List UInt8 → Bool} {rest : List UInt8}
  (goesOn : ∀ text, next text = true → later (text ++ rest) = true)

include goesOn

theorem skipBytes_append {passes : UInt8 → Bool} {text : List UInt8}
    (fits : skipBytes passes next text = true) : skipBytes passes later (text ++ rest) = true := by
  induction text with
  | nil =>
      have here : later rest = true := goesOn [] fits
      cases rest with
      | nil => exact here
      | cons byte rest => exact Bool.or_eq_true_iff.mpr (.inl here)
  | cons byte text induction =>
      exact or_of_or fits (goesOn _) fun passed => and_of_and passed induction

theorem behindSlash_append {text : List UInt8} (fits : behindSlash next text = true) :
    behindSlash later (text ++ rest) = true := by
  induction text with
  | nil => cases fits
  | cons byte text induction =>
      exact or_of_or fits (fun here => and_of_and here (goesOn _)) induction

end

mutual

/-- A piece that fits in front of one text fits in front of another one too if what is asked of the
rest goes on to hold. -/
theorem fitsPiece_append {keepsSlashes : Bool} {next later : List UInt8 → Bool} {rest : List UInt8}
    (goesOn : ∀ text, next text = true → later (text ++ rest) = true) :
    ∀ {piece : GlobPiece} {text : List UInt8}, fitsPiece keepsSlashes next piece text = true →
      fitsPiece keepsSlashes later piece (text ++ rest) = true
  | .literal _, _ :: _, fits => and_of_and fits (goesOn _)
  | .anyByte, _ :: _, fits => and_of_and fits (goesOn _)
  | .anyBytes, _, fits => skipBytes_append goesOn fits
  | .anyLead, _, fits => or_of_or fits (goesOn _) (behindSlash_append goesOn)
  | .anyBelow, _ :: _, fits => and_of_and fits (skipBytes_append goesOn)
  | .anyBetween, _ :: _, fits =>
    and_of_and fits fun either => or_of_or either (goesOn _) (behindSlash_append goesOn)
  | .oneOf _ _, _ :: _, fits => and_of_and fits (goesOn _)
  | .alternatives [], _, fits => goesOn _ fits
  | .alternatives (_ :: _), _, fits => fitsBranches_append goesOn fits

theorem fitsBranches_append {keepsSlashes : Bool} {next later : List UInt8 → Bool}
    {rest : List UInt8} (goesOn : ∀ text, next text = true → later (text ++ rest) = true) :
    ∀ {branches : List (List GlobPiece)} {text : List UInt8},
      fitsBranches keepsSlashes next branches text = true →
      fitsBranches keepsSlashes later branches (text ++ rest) = true
  | _ :: _, _, fits => or_of_or fits (fitsPieces_append goesOn) (fitsBranches_append goesOn)

theorem fitsPieces_append {keepsSlashes : Bool} {next later : List UInt8 → Bool}
    {rest : List UInt8} (goesOn : ∀ text, next text = true → later (text ++ rest) = true) :
    ∀ {pieces : List GlobPiece} {text : List UInt8},
      fitsPieces keepsSlashes next pieces text = true →
      fitsPieces keepsSlashes later pieces (text ++ rest) = true
  | [], text, fits => goesOn text fits
  | _ :: _, _, fits => fitsPiece_append (fun _ => fitsPieces_append goesOn) fits

end

theorem fitsPieces_of_append (keepsSlashes : Bool) (next : List UInt8 → Bool)
    (front back : List GlobPiece) :
    fitsPieces keepsSlashes next (front ++ back) =
      fitsPieces keepsSlashes (fitsPieces keepsSlashes next back) front := by
  induction front with
  | nil => rfl
  | cons piece front induction =>
      funext text
      rw [List.cons_append, fitsPieces, fitsPieces, induction]

/-! ## Globs of what lies below -/

theorem skipBytes_isEmpty (text : List UInt8) :
    skipBytes (fun _ => true) List.isEmpty text = true := by
  induction text with
  | nil => rfl
  | cons byte text induction => exact Bool.or_eq_true_iff.mpr (.inr induction)

theorem not_endsInExtension_below (front : List GlobPiece) :
    endsInExtension (front ++ [.anyBelow]) = false := by
  unfold endsInExtension
  rw [List.reverse_append]
  rfl

theorem not_isLiteral_below (front : List GlobPiece) :
    (front ++ [GlobPiece.anyBelow]).all isLiteral = false := by
  rw [List.all_append]
  exact Bool.and_false _

theorem not_asksForExtension_below (keepsSlashes : Bool) (front : List GlobPiece) :
    asksForExtension keepsSlashes (front ++ [.anyBelow]) = false := by
  unfold asksForExtension
  split
  · next rest same =>
      -- The star is not the piece at the end, so that the rest ends like the whole.
      rcases List.append_eq_cons_iff.mp same with ⟨-, same⟩ | ⟨front, -, rfl⟩
      · cases same
      · rw [not_isLiteral_below, Bool.false_and]
        exact not_endsInExtension_below front
  · exact not_endsInExtension_below front

theorem not_asksForName_below (front : List GlobPiece) :
    asksForName ⟨front ++ [.anyBelow], false⟩ = false := by
  unfold asksForName
  simp only
  split
  · next rest same =>
      rcases List.append_eq_cons_iff.mp same with ⟨-, same⟩ | ⟨front, -, rfl⟩
      · cases same
      · rw [not_isLiteral_below]
        exact not_asksForExtension_below false front
  · rw [not_asksForExtension_below, Bool.and_false]

theorem fits_eq_of_below (front : List GlobPiece) (path : List UInt8) :
    fits ⟨front ++ [.anyBelow], false⟩ path =
      fitsPieces false List.isEmpty (front ++ [.anyBelow]) path := by
  unfold fits
  split
  · next same =>
      rcases List.append_eq_singleton_iff.mp same with ⟨-, same⟩ | ⟨-, same⟩
      all_goals cases same
  · rw [not_asksForName_below]
    rfl

/-- The extension of a glob fits all that lies below what the glob fits. -/
theorem fits_below_of_fitsPieces {front : List GlobPiece} {path : List UInt8}
    (fitting : fitsPieces false List.isEmpty front path = true) (below : List UInt8) :
    fits ⟨front ++ [.anyBelow], false⟩ (path ++ slash :: below) = true := by
  rw [fits_eq_of_below, fitsPieces_of_append]
  refine fitsPieces_append ?_ fitting
  intro text isEnd
  rw [List.isEmpty_iff.mp isEnd]
  exact skipBytes_isEmpty below

/-- What ends with a slash and anything behind it fits all that lies below what it fits. -/
theorem fits_below_of_fits {front : List GlobPiece} {path : List UInt8}
    (fitting : fits ⟨front ++ [.anyBelow], false⟩ path = true) (below : List UInt8) :
    fits ⟨front ++ [.anyBelow], false⟩ (path ++ slash :: below) = true := by
  rw [fits_eq_of_below, fitsPieces_of_append] at fitting ⊢
  refine fitsPieces_append ?_ fitting
  intro text isBelow
  cases text with
  | nil => cases isBelow
  | cons byte text =>
      exact and_of_and isBelow fun _ => skipBytes_isEmpty (text ++ slash :: below)

/-- Pieces of what lies below what other pieces fit: these with a slash and anything behind them, or
the same if they reach all that lies below anyway. -/
inductive Extends : (pieces extended : List GlobPiece) → Prop
  | below (pieces : List GlobPiece) : Extends pieces (pieces ++ [.anyBelow])
  | everything : Extends [.anyLead] [.anyLead]
  | reachesBelow (front : List GlobPiece) :
      Extends (front ++ [.anyBelow]) (front ++ [.anyBelow])

theorem Extends.fits_below {pieces extended : List GlobPiece} (extension : Extends pieces extended)
    {path : List UInt8} (fitting : fits ⟨pieces, false⟩ path = true) (below : List UInt8) :
    fits ⟨pieces, false⟩ (path ++ slash :: below) = true ∨
      fits ⟨extended, false⟩ (path ++ slash :: below) = true := by
  cases extension with
  | everything => exact .inl rfl
  | reachesBelow front => exact .inl (fits_below_of_fits fitting below)
  | below =>
      unfold fits at fitting
      split at fitting
      · next same =>
          have all : pieces = [.anyLead] := same
          exact .inl (all ▸ rfl)
      · exact .inr (fits_below_of_fitsPieces ((Bool.and_eq_true _ _).mp fitting).2 below)

theorem Extends.extended_fits_below {pieces extended : List GlobPiece}
    (extension : Extends pieces extended) {path : List UInt8}
    (fitting : fits ⟨extended, false⟩ path = true) (below : List UInt8) :
    fits ⟨extended, false⟩ (path ++ slash :: below) = true := by
  cases extension with
  | everything => rfl
  | reachesBelow front => exact fits_below_of_fits fitting below
  | below => exact fits_below_of_fits fitting below

/-- What has been read as a glob can be read with its extension. -/
theorem readPieces_append_below {text : List Char} {pieces : List GlobPiece}
    (reads : readPieces false text = .ok pieces) :
    ∃ extended, readPieces false (text ++ belowText) = .ok extended ∧ Extends pieces extended := by
  rcases readPieces_eq_ok.mp reads with ⟨final, draftReads, closed, rfl⟩
  rcases readFrom_append_below (Nat.zero_le _) draftReads with
    ⟨extended, again, rfl | ⟨rfl, reaches⟩⟩
  · refine ⟨_, readPieces_eq_ok.mpr ⟨_, again, closed, rfl⟩, ?_⟩
    have last : (final.push .anyBelow).current.pieces.reverse =
        final.current.pieces.reverse ++ [.anyBelow] := List.reverse_cons
    rw [last]
    exact .below _
  · refine ⟨_, readPieces_eq_ok.mpr ⟨_, again, closed, rfl⟩, ?_⟩
    rcases reaches with ⟨earlier, same | same⟩
    · have empty : ({} : Draft).LeadStandsFirst := nofun
      have alone : earlier = [] := leadStandsFirst_readFrom empty draftReads earlier same
      rw [same, alone]
      exact .everything
    · rw [same, List.reverse_cons]
      exact .reachesBelow _

end Glob

namespace ExclusionRules

/-! ## Rules -/

theorem readGlobs_cons_eq_ok {text : List Char} {texts : List (List Char)} {globs : List Glob} :
    readGlobs (text :: texts) = .ok globs ↔
      ∃ glob later, Glob.read text = .ok glob ∧ readGlobs texts = .ok later ∧
        globs = glob :: later := by
  rw [readGlobs]
  cases Glob.read text with
  | error fault => exact ⟨nofun, fun ⟨_, _, reads, _⟩ => nomatch reads⟩
  | ok glob =>
      cases readGlobs texts with
      | error fault => exact ⟨nofun, fun ⟨_, _, _, reads, _⟩ => nomatch reads⟩
      | ok later =>
          constructor
          · rintro ⟨⟩
            exact ⟨glob, later, rfl, rfl, rfl⟩
          · rintro ⟨_, _, ⟨⟩, ⟨⟩, rfl⟩
            rfl

theorem exists_of_mem_readGlobs {texts : List (List Char)} {globs : List Glob}
    (reads : readGlobs texts = .ok globs) {glob : Glob} (member : glob ∈ globs) :
    ∃ text ∈ texts, Glob.read text = .ok glob := by
  induction texts generalizing globs with
  | nil =>
      cases reads
      exact absurd member List.not_mem_nil
  | cons text texts induction =>
      rcases readGlobs_cons_eq_ok.mp reads with ⟨first, later, firstReads, laterRead, rfl⟩
      rcases List.mem_cons.mp member with rfl | member
      · exact ⟨text, List.mem_cons_self, firstReads⟩
      · rcases induction laterRead member with ⟨other, inside, otherReads⟩
        exact ⟨other, List.mem_cons_of_mem _ inside, otherReads⟩

theorem exists_mem_of_readGlobs {texts : List (List Char)} {globs : List Glob}
    (reads : readGlobs texts = .ok globs) {text : List Char} (member : text ∈ texts) :
    ∃ glob ∈ globs, Glob.read text = .ok glob := by
  induction texts generalizing globs with
  | nil => exact absurd member List.not_mem_nil
  | cons first texts induction =>
      rcases readGlobs_cons_eq_ok.mp reads with ⟨glob, later, firstReads, laterRead, rfl⟩
      rcases List.mem_cons.mp member with rfl | member
      · exact ⟨glob, List.mem_cons_self, firstReads⟩
      · rcases induction laterRead member with ⟨other, inside, otherReads⟩
        exact ⟨other, List.mem_cons_of_mem _ inside, otherReads⟩

/-- Every glob of a pattern stands beside its extension, or is one. -/
theorem below_mem_globTexts {pattern text : List Char} (member : text ∈ globTexts pattern) :
    text ++ Glob.belowText ∈ globTexts pattern ∨
      ∃ front ∈ globTexts pattern, text = front ++ Glob.belowText := by
  have ofTwo (front : List Char) (inside : text ∈ [front, front ++ Glob.belowText]) :
      text ++ Glob.belowText ∈ [front, front ++ Glob.belowText] ∨
        ∃ other ∈ [front, front ++ Glob.belowText], text = other ++ Glob.belowText := by
    rw [List.mem_pair] at inside
    rcases inside with rfl | rfl
    · exact .inl (List.mem_cons_of_mem _ List.mem_cons_self)
    · exact .inr ⟨front, List.mem_cons_self, rfl⟩
  unfold globTexts at member ⊢
  simp only at member ⊢
  split
  · next anchored same =>
      rw [same] at member
      exact ofTwo anchored member
  · next notAnchored =>
      split at member
      · next anchored same => exact absurd same (notAnchored anchored)
      · split
        · next slashed =>
            rw [if_pos slashed] at member
            exact ofTwo _ member
        · next plain =>
            rw [if_neg plain] at member
            rcases List.mem_cons.mp member with rfl | member
            · exact .inl (by simp [Glob.belowText])
            · rcases List.mem_cons.mp member with rfl | member
              · exact .inl (by simp [Glob.belowText])
              · rcases List.mem_pair.mp member with rfl | rfl
                · exact .inr ⟨_, List.mem_cons_of_mem _ List.mem_cons_self, rfl⟩
                · exact .inr ⟨_, List.mem_cons_self, rfl⟩

/-- Whether some of the globs fit all that lies below what one of them fits. -/
def ReachBelow (globs : List Glob) : Prop :=
  ∀ path below : List UInt8, globs.any (·.fits path) = true →
    globs.any (·.fits (path ++ Glob.slash :: below)) = true

theorem reachBelow_append {globs others : List Glob} (reach : ReachBelow globs)
    (othersReach : ReachBelow others) : ReachBelow (globs ++ others) := by
  intro path below fitting
  rw [List.any_append] at fitting ⊢
  exact Glob.or_of_or fitting (reach path below) (othersReach path below)

theorem reachBelow_readGlobs {pattern : List Char} {globs : List Glob}
    (reads : readGlobs (globTexts pattern) = .ok globs) : ReachBelow globs := by
  intro path below fitting
  rw [List.any_eq_true] at fitting ⊢
  rcases fitting with ⟨glob, member, fits⟩
  rcases exists_of_mem_readGlobs reads member with ⟨text, textMember, textReads⟩
  rcases Glob.read_eq_ok.mp textReads with ⟨pieces, piecesRead, rfl⟩
  rcases below_mem_globTexts textMember with extendedMember | ⟨front, frontMember, rfl⟩
  · rcases Glob.readPieces_append_below piecesRead with ⟨extended, extendedRead, extension⟩
    rcases exists_mem_of_readGlobs reads extendedMember with ⟨other, otherMember, otherReads⟩
    have same : other = ⟨extended, false⟩ :=
      Except.ok.inj (otherReads.symm.trans (Glob.read_eq_ok.mpr ⟨extended, extendedRead, rfl⟩))
    rcases extension.fits_below fits below with again | extendedFits
    · exact ⟨_, member, again⟩
    · exact ⟨other, otherMember, same ▸ extendedFits⟩
  · -- The glob is the extension of another one, and needs no further extension.
    rcases exists_mem_of_readGlobs reads frontMember with ⟨other, -, otherReads⟩
    rcases Glob.read_eq_ok.mp otherReads with ⟨frontPieces, frontRead, -⟩
    rcases Glob.readPieces_append_below frontRead with ⟨extended, extendedRead, extension⟩
    have same : extended = pieces := Except.ok.inj (extendedRead.symm.trans piecesRead)
    exact ⟨_, member, (same ▸ extension).extended_fits_below fits below⟩

/-- Whether rules include nothing, and leave out all that lies below what they leave out. -/
structure LeavesOutBelow (rules : ExclusionRules) : Prop where
  including : rules.including = []
  excluding : ReachBelow rules.excluding

theorem leavesOutBelow_addPattern {rules next : ExclusionRules} (leavesOut : rules.LeavesOutBelow)
    {pattern : String} (noMark : (Text.trim pattern.toList).head? ≠ some '!')
    (adds : addPattern rules pattern = .ok next) : next.LeavesOutBelow := by
  unfold addPattern at adds
  split at adds
  · cases adds; exact leavesOut
  · cases adds; exact leavesOut
  · next included same =>
      rw [same] at noMark
      exact absurd rfl noMark
  · cases reads : readGlobs (globTexts (Text.trim pattern.toList)) with
    | error fault => rw [reads] at adds; cases adds
    | ok globs =>
        rw [reads] at adds
        cases adds
        exact ⟨leavesOut.including,
          reachBelow_append leavesOut.excluding (reachBelow_readGlobs reads)⟩

theorem leavesOutBelow_foldlM {patterns : List String} {rules next : ExclusionRules}
    (leavesOut : rules.LeavesOutBelow)
    (noMark : ∀ pattern ∈ patterns, (Text.trim pattern.toList).head? ≠ some '!')
    (adds : patterns.foldlM addPattern rules = .ok next) : next.LeavesOutBelow := by
  induction patterns generalizing rules with
  | nil => cases adds; exact leavesOut
  | cons pattern patterns induction =>
      rw [List.foldlM_cons] at adds
      cases first : addPattern rules pattern with
      | error fault => rw [first] at adds; cases adds
      | ok middle =>
          rw [first] at adds
          exact induction (leavesOutBelow_addPattern leavesOut (noMark _ List.mem_cons_self) first)
            (fun other inside => noMark other (List.mem_cons_of_mem _ inside)) adds

theorem leavesOutBelow_ofPatterns {patterns : List String} {rules : ExclusionRules}
    (noMark : ∀ pattern ∈ patterns, (Text.trim pattern.toList).head? ≠ some '!')
    (isRead : ofPatterns patterns = .ok rules) : rules.LeavesOutBelow := by
  have empty : LeavesOutBelow {} := ⟨rfl, fun _ _ fitting => nomatch fitting⟩
  exact leavesOutBelow_foldlM empty noMark isRead

theorem LeavesOutBelow.excludes_below {rules : ExclusionRules} (leavesOut : rules.LeavesOutBelow)
    {path : String} (excluded : rules.excludes path = true) (below : String) :
    rules.excludes (path ++ "/" ++ below) = true := by
  have bytes : (path ++ "/" ++ below).toUTF8.toList =
      path.toUTF8.toList ++ Glob.slash :: below.toUTF8.toList := by
    rw [toList_toUTF8, toList_toUTF8, toList_toUTF8, bytesOf_append, bytesOf_append,
      List.append_assoc]
    rfl
  unfold excludes at excluded ⊢
  simp only [leavesOut.including, List.any_nil, Bool.not_false, Bool.and_true] at excluded ⊢
  rw [bytes]
  exact leavesOut.excluding _ _ excluded

end ExclusionRules

/-! ## Walks -/

theorem joinSegments_append_singleton {place : List String} (isBelow : place ≠ []) (name : String) :
    joinSegments (place ++ [name]) = joinSegments place ++ "/" ++ name := by
  have notEmpty : place ++ [name] ≠ [] := List.append_ne_nil_of_left_ne_nil isBelow [name]
  have spelled := FileTree.spell_append place [name]
  rw [FileTree.spell_eq_cons notEmpty, FileTree.spell_eq_cons isBelow,
    FileTree.spell_eq_cons (List.cons_ne_nil name []), List.cons_append, List.cons.injEq] at spelled
  rw [← String.toList_inj, spelled.2, String.toList_append, String.toList_append, List.append_assoc]
  simp [joinSegments]

namespace FileTree

/-- The policy that leaves out no directory. -/
def amongFiles (policy : ExclusionPolicy) : ExclusionPolicy := fun path isDirectory =>
  !isDirectory && policy path isDirectory

/-- Whether a policy leaves out what lies in the directories that it leaves out. -/
def CoversBelow (policy : ExclusionPolicy) : Prop :=
  ∀ (place : List String) (name : String) (isDirectory : Bool), place ≠ [] →
    policy (joinSegments place) true = true →
    policy (joinSegments (place ++ [name])) isDirectory = true

section

variable {options : WalkOptions} {policy : ExclusionPolicy}

mutual

/-- Nothing is found in a directory that is entered though it is left out. -/
theorem walkFrom_eq_nil (covers : CoversBelow policy) {scopes : List IgnoreScope}
    {place : List String} (isBelow : place ≠ [])
    (excluded : policy (joinSegments place) true = true) :
    (tree : FileTree) → walkFrom options (amongFiles policy) scopes place tree = []
  | .file _ => rfl
  | .directory entries => by
      rw [walkFrom]
      split
      · exact walkEntries_eq_nil covers isBelow excluded entries
      · rfl

theorem walkEntries_eq_nil (covers : CoversBelow policy) {scopes : List IgnoreScope}
    {place : List String} (isBelow : place ≠ [])
    (excluded : policy (joinSegments place) true = true) :
    (entries : List (String × FileTree)) →
      walkEntries options (amongFiles policy) scopes place entries = []
  | [] => rfl
  | (name, tree) :: entries => by
      have isExcluded (isDirectory : Bool) :
          policy (joinSegments (place ++ [name])) isDirectory = true :=
        covers place name isDirectory isBelow excluded
      unfold walkEntries
      simp only
      rw [walkEntries_eq_nil covers isBelow excluded entries]
      split
      · rfl
      · next entered =>
          cases tree with
          | file content =>
              rw [isPassedOver, amongFiles, isDirectory, isExcluded] at entered
              exact absurd (Bool.or_true _) entered
          | directory below =>
              have notEmpty : place ++ [name] ≠ [] := List.append_ne_nil_of_left_ne_nil isBelow _
              simp only
              rw [walkFrom_eq_nil covers notEmpty (isExcluded true), List.nil_append]

end

mutual

theorem walkFrom_amongFiles (covers : CoversBelow policy) {scopes : List IgnoreScope}
    {place : List String} :
    (tree : FileTree) → walkFrom options policy scopes place tree =
      walkFrom options (amongFiles policy) scopes place tree
  | .file _ => rfl
  | .directory entries => by
      rw [walkFrom, walkFrom]
      simp only [walkEntries_amongFiles covers entries]

theorem walkEntries_amongFiles (covers : CoversBelow policy) {scopes : List IgnoreScope}
    {place : List String} :
    (entries : List (String × FileTree)) → walkEntries options policy scopes place entries =
      walkEntries options (amongFiles policy) scopes place entries
  | [] => rfl
  | (name, .file content) :: entries => by
      unfold walkEntries
      simp only
      rw [walkEntries_amongFiles covers entries]
      rfl
  | (name, .directory below) :: entries => by
      unfold walkEntries
      simp only
      rw [walkEntries_amongFiles covers entries, walkFrom_amongFiles covers (.directory below)]
      cases excluded : policy (joinSegments (place ++ [name])) true with
      | false => simp only [isPassedOver, amongFiles, excluded, isDirectory]; rfl
      | true =>
          -- Only one of the walks enters the directory, and it finds nothing there.
          have notEmpty : place ++ [name] ≠ [] :=
            List.append_ne_nil_of_right_ne_nil place (List.cons_ne_nil name [])
          rw [walkFrom_eq_nil covers notEmpty excluded, List.nil_append]
          simp only [ite_self]

end

end

end FileTree

namespace ExclusionRules

/-- Rules that include nothing leave out all that lies below what they leave out. A walk that enters
every directory finds no other files than one that does not. -/
theorem excludes_all_below {patterns : List String} {rules : ExclusionRules}
    (isRead : ofPatterns patterns = .ok rules)
    (noMark : ∀ pattern ∈ patterns, (Text.trim pattern.toList).head? ≠ some '!') :
    (∀ path below : String, rules.excludes path = true →
      rules.excludes (path ++ "/" ++ below) = true) ∧
    ∀ (options : WalkOptions) (tree : FileTree),
      tree.walk options rules.policy = tree.walk options (FileTree.amongFiles rules.policy) := by
  have leavesOut := leavesOutBelow_ofPatterns noMark isRead
  refine ⟨fun path below excluded => leavesOut.excludes_below excluded below, ?_⟩
  intro options tree
  have covers : FileTree.CoversBelow rules.policy := by
    intro place name isDirectory isBelow excluded
    rw [joinSegments_append_singleton isBelow]
    exact leavesOut.excludes_below excluded name
  rw [FileTree.walk, FileTree.walk, FileTree.walkFrom_amongFiles covers]

def samplePatterns : List String := ["node_modules", "*.min.js", "/build/", "src/**/test\x7bs,\x7d"]

/-- Whether patterns can be read and leave out a path. -/
def excludesPath (patterns : List String) (path : String) : Bool :=
  match ofPatterns patterns with
  | .ok rules => rules.excludes path
  | .error _ => false

theorem exists_of_excludesPath {patterns : List String} {path : String}
    (excluded : excludesPath patterns path = true) :
    ∃ rules, ofPatterns patterns = .ok rules ∧ rules.excludes path = true := by
  unfold excludesPath at excluded
  split at excluded
  · next rules isRead => exact ⟨rules, isRead, excluded⟩
  · cases excluded

theorem excludes_all_below_sample : ∃ rules, ofPatterns samplePatterns = .ok rules ∧
    (∀ pattern ∈ samplePatterns, (Text.trim pattern.toList).head? ≠ some '!') ∧
    rules.excludes "web/node_modules" = true ∧
    rules.excludes ("web/node_modules" ++ "/" ++ "react/index.js") = true := by
  have excluded : excludesPath samplePatterns "web/node_modules" = true := by decide +kernel
  have noMark : ∀ pattern ∈ samplePatterns, (Text.trim pattern.toList).head? ≠ some '!' := by
    decide +kernel
  rcases exists_of_excludesPath excluded with ⟨rules, isRead, excluded⟩
  exact ⟨rules, isRead, noMark, excluded, (excludes_all_below isRead noMark).1 _ _ excluded⟩

example : (ofPatterns ["src/**/test\x7bs,\x7d"]).toOption.any (·.excludes "src/web/tests/page.js") =
    true := by
  decide +kernel

end ExclusionRules

end SourceIndex
