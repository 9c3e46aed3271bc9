import SourceIndex.Proofs.Definition.Headings

/-! Text in strings and comments, and what it defines. Other text in front of the mark that closes a
string or comment changes neither the depth of a scan nor the mode in which it goes on. But a
definition is recognized on the line as it stands: where code follows the mark, the outline of a
file stays the same only if the same heading is made out on the line with the other text. -/

namespace SourceIndex

namespace BraceScan

variable {language : Language} {input : ScanInput}

/-- The scan behind lines at the start of an input. -/
def behind (language : Language) (input : ScanInput) (above : List (List Char)) : BraceScan :=
  above.foldl (take language input) { lineNumber := input.firstLine }

@[simp] theorem lineNumber_behind (above : List (List Char)) :
    (behind language input above).lineNumber = input.firstLine + above.length := by
  suffices counts : ∀ scan : BraceScan,
      (above.foldl (take language input) scan).lineNumber = scan.lineNumber + above.length from
    counts _
  induction above with
  | nil => exact fun _ => rfl
  | cons line above induction =>
      intro scan
      rw [List.foldl_cons, induction, lineNumber_take, List.length_cons]
      omega

/-- Headings that are found in front of a line start above it. -/
theorem startLine_lt_of_behind {above : List (List Char)} {heading : Heading}
    (member : heading ∈ (behind language input above).findings.headings) :
    heading.startLine < (behind language input above).lineNumber := by
  rcases headings_foldl language input above
    { lineNumber := input.firstLine } with ⟨added, headings, bounds⟩
  rw [behind, headings] at member
  rw [lineNumber_behind]
  exact (bounds heading member).2

/-- A line without code is taken by its code and mode alone. -/
theorem take_of_blank (scan : BraceScan) {line changed : List Char}
    (strips : language.lexicon.StripsAlike scan.mode changed line)
    (blank : Text.trim (language.lexicon.strip scan.mode line).code = []) :
    scan.take language input changed = scan.take language input line := by
  simp only [take, strips.code, strips.mode, blank, List.isEmpty_nil, if_true]

/-! The other lines of an input are not looked at. -/

theorem take_lines (lines : List (List Char)) :
    take language { input with lines } = take language input := rfl

theorem outline?_lines (lines : List (List Char)) :
    outline? language { input with lines } = outline? language input := rfl

theorem behind_lines (lines above : List (List Char)) :
    behind language { input with lines } above = behind language input above := rfl

end BraceScan

section Line

variable {language : Language} {input : ScanInput} {above below : List (List Char)}
  {line : List Char}

theorem headings_scanBraces (isFile : input.lines = above ++ line :: below) :
    (scanBraces language input).map (·.heading) =
      (below.foldl (BraceScan.take language input)
        ((BraceScan.behind language input above).take language input line)).findings.headings := by
  simp only [scanBraces, isFile, List.foldl_append, List.foldl_cons]
  exact Findings.shown_closeAll _ Findings.passesOverEnds_heading _

/-- On each line a file defines what is made out there. -/
theorem filter_headings_scanBraces (isFile : input.lines = above ++ line :: below) :
    ((scanBraces language input).map (·.heading)).filter
        (·.startLine = (BraceScan.behind language input above).lineNumber) =
      (((BraceScan.behind language input above).outline? language input line).map
        (·.1)).toList := by
  rcases BraceScan.headings_foldl language input below
    ((BraceScan.behind language input above).take language input line) with
    ⟨later, headings, bounds⟩
  rw [headings_scanBraces isFile, headings, BraceScan.headings_take]
  have none_above : ∀ heading ∈ (BraceScan.behind language input above).findings.headings,
      heading.startLine ≠ (BraceScan.behind language input above).lineNumber :=
    fun heading member => Nat.ne_of_lt (BraceScan.startLine_lt_of_behind member)
  have none_below : ∀ heading ∈ later,
      heading.startLine ≠ (BraceScan.behind language input above).lineNumber := by
    intro heading member
    have bound := (bounds heading member).1
    rw [BraceScan.lineNumber_take] at bound
    omega
  generalize BraceScan.behind language input above = scan at none_above none_below ⊢
  have here : ∀ heading ∈ ((scan.outline? language input line).map (·.1)).toList,
      heading.startLine = scan.lineNumber := by
    intro heading member
    rw [Option.mem_toList, Option.map_eq_some_iff] at member
    rcases member with ⟨⟨found, opensBlock⟩, isFound, rfl⟩
    exact BraceScan.startLine_of_outline? isFound
  generalize ((scan.outline? language input line).map (·.1)).toList = made at here ⊢
  rw [List.filter_append, List.filter_append,
    List.filter_eq_nil_iff.mpr (by simpa using none_above),
    List.filter_eq_self.mpr (by simpa using here),
    List.filter_eq_nil_iff.mpr (by simpa using none_below), List.nil_append, List.append_nil]

/-! ## One line in place of another -/

variable {changed : List Char}

theorem scanBraces_of_blank (isFile : input.lines = above ++ line :: below)
    (strips : language.lexicon.StripsAlike (BraceScan.behind language input above).mode changed
      line)
    (blank : Text.trim
      (language.lexicon.strip (BraceScan.behind language input above).mode line).code = []) :
    scanBraces language { input with lines := above ++ changed :: below } =
      scanBraces language input := by
  have last : ({ input with lines := above ++ changed :: below } : ScanInput).lastLine =
      input.lastLine := by
    simp only [ScanInput.lastLine, isFile, List.length_append, List.length_cons]
  simp only [scanBraces, last]
  rw [isFile, BraceScan.take_lines, List.foldl_append, List.foldl_append, List.foldl_cons,
    List.foldl_cons, ← BraceScan.behind, BraceScan.take_of_blank _ strips blank]

theorem headings_eq_of_outline?_eq (isFile : input.lines = above ++ line :: below)
    (strips : language.lexicon.StripsAlike (BraceScan.behind language input above).mode changed
      line)
    (same : (BraceScan.behind language input above).outline? language input changed =
      (BraceScan.behind language input above).outline? language input line) :
    (scanBraces language { input with lines := above ++ changed :: below }).map (·.heading) =
      (scanBraces language input).map (·.heading) := by
  rw [headings_scanBraces isFile, headings_scanBraces rfl, BraceScan.take_lines,
    BraceScan.behind_lines]
  exact (((BraceScan.Alike.refl _).take strips same).takeAll below).findings.headings

theorem outline?_eq_of_headings_eq (isFile : input.lines = above ++ line :: below)
    (same : (scanBraces language { input with lines := above ++ changed :: below }).map
        (·.heading) = (scanBraces language input).map (·.heading)) :
    ((BraceScan.behind language input above).outline? language input changed).map (·.1) =
      ((BraceScan.behind language input above).outline? language input line).map (·.1) := by
  have latter := @filter_headings_scanBraces language
    { input with lines := above ++ changed :: below } above below changed rfl
  rw [same, BraceScan.behind_lines, BraceScan.outline?_lines,
    filter_headings_scanBraces isFile] at latter
  apply Option.ext
  intro heading
  rw [← Option.mem_toList, ← latter, Option.mem_toList]

end Line

/-- A line that starts inside a string or comment ends in what stands from the mark on that closes
it. Other text in front of that, without a backslash and without the mark, changes nothing at all
where no code follows the mark on the line. Elsewhere the outline stays the same if the scan makes
out the same on the line with the other text, and it stays the same only if the name and the kind of
what is made out are the same. -/
theorem scanBraces_refilled (language : Language) (input : ScanInput)
    (above below : List (List Char)) (line other : List Char)
    (isFile : input.lines = above ++ line :: below)
    (inside : (BraceScan.behind language input above).mode ≠ .code)
    (fills : language.lexicon.Fills (BraceScan.behind language input above).mode other
      (language.lexicon.fromClosing (BraceScan.behind language input above).mode 0 line)) :
    let scan := BraceScan.behind language input above
    let kept := language.lexicon.fromClosing scan.mode 0 line
    let changed := other ++ kept
    let refilled : ScanInput := { input with lines := above ++ changed :: below }
    kept <:+ line ∧
    (Text.trim (language.lexicon.strip scan.mode line).code = [] →
      scanBraces language refilled = scanBraces language input) ∧
    (scan.outline? language input changed = scan.outline? language input line →
      (scanBraces language refilled).map (·.heading) =
        (scanBraces language input).map (·.heading)) ∧
    ((scanBraces language refilled).map (·.heading) =
        (scanBraces language input).map (·.heading) →
      (scan.outline? language input changed).map (·.1) =
        (scan.outline? language input line).map (·.1)) := by
  intro scan kept changed refilled
  have strips := fills.stripsAlike inside
  refine ⟨?_, fun blank => ?_, fun same => ?_, fun same => ?_⟩
  · exact language.lexicon.fromClosing_suffix scan.mode 0 line
  · exact scanBraces_of_blank isFile strips blank
  · exact headings_eq_of_outline?_eq isFile strips same
  · exact outline?_eq_of_headings_eq isFile same

/-- Other words in a comment in front of a statement in a class. -/
theorem scanBraces_reworded :
    let above := ["class A \x7b".toList, "/* a".toList]
    let below := ["run() \x7b".toList, "\x7d".toList, "\x7d".toList]
    let input : ScanInput := ⟨"f", 1, none, above ++ "comment */ x = 1;".toList :: below⟩
    let reworded : ScanInput := { input with
      lines := above ++ "new words */ x = 1;".toList :: below }
    (scanBraces .typescript reworded).map (·.heading) =
      (scanBraces .typescript input).map (·.heading) := by
  intro above below input reworded
  have isComment : (BraceScan.behind .typescript input above).mode = .blockComment := by
    decide +kernel
  have inside : (BraceScan.behind .typescript input above).mode ≠ .code := by
    rw [isComment]
    decide
  have fills := @Lexicon.fills_of_not_contains Language.typescript.lexicon _ inside ['*', '/']
    "new words ".toList "comment */ x = 1;".toList (by rw [isComment]; rfl) (by decide) (by decide)
    (by decide)
  have line : "new words ".toList ++ Language.typescript.lexicon.fromClosing .blockComment 0
      "comment */ x = 1;".toList = "new words */ x = 1;".toList := by decide +kernel
  have refilled := (scanBraces_refilled .typescript input above below _ _ rfl inside fills).2.2.1
  rw [isComment, line] at refilled
  exact refilled (by decide +kernel)

/-- A definition in a comment counts if code follows the comment on its line. -/
example : (extractDefinitions .javascript "f" "/*\nfunction f() \x7b */ g();\n").map (·.heading) =
    [⟨"f", .function, 2⟩] := by decide +kernel

end SourceIndex
