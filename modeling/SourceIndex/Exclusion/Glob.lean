/-! Globs: patterns with wildcards that fit whole paths. They work on the bytes of a path, so a
question mark stands for one byte. -/

namespace SourceIndex

/-- One piece of a glob. -/
inductive GlobPiece
  | literal (byte : UInt8)
  | anyByte
  | anyBytes
  /-- Nothing, or anything up to a slash. -/
  | anyLead
  /-- A slash and anything behind it. -/
  | anyBelow
  /-- A slash, or anything from a slash to a slash. -/
  | anyBetween
  | oneOf (negated : Bool) (ranges : List (UInt8 × UInt8))
  /-- One of several branches. Without branches it stands for nothing at all. -/
  | alternatives (branches : List (List GlobPiece))
  deriving Inhabited

/-- A glob in pieces. In some globs only the double stars reach across slashes. -/
structure Glob where
  pieces : List GlobPiece
  keepsSlashes : Bool := false

namespace Glob

def slash : UInt8 := 0x2f

/-! ## Fitting -/

/-- Whether `next` holds of the text or of what is left behind some of its first bytes, all of which
satisfy `passes`. -/
def skipBytes (passes : UInt8 → Bool) (next : List UInt8 → Bool) : List UInt8 → Bool
  | [] => next []
  | byte :: rest => next (byte :: rest) || (passes byte && skipBytes passes next rest)

/-- Whether `next` holds of what is left behind one of the slashes. -/
def behindSlash (next : List UInt8 → Bool) : List UInt8 → Bool
  | [] => false
  | byte :: rest => (byte == slash && next rest) || behindSlash next rest

def inRanges (ranges : List (UInt8 × UInt8)) (byte : UInt8) : Bool :=
  ranges.any fun (low, high) => low ≤ byte && byte ≤ high

mutual

def fitsPiece (keepsSlashes : Bool) (next : List UInt8 → Bool) :
    GlobPiece → List UInt8 → Bool
  | .literal expected, text =>
    match text with
    | byte :: rest => byte == expected && next rest
    | [] => false
  | .anyByte, text =>
    match text with
    | byte :: rest => !(keepsSlashes && byte == slash) && next rest
    | [] => false
  | .anyBytes, text => skipBytes (fun byte => !(keepsSlashes && byte == slash)) next text
  | .anyLead, text => next text || behindSlash next text
  | .anyBelow, text =>
    match text with
    | byte :: rest => byte == slash && skipBytes (fun _ => true) next rest
    | [] => false
  | .anyBetween, text =>
    match text with
    | byte :: rest => byte == slash && (next rest || behindSlash next rest)
    | [] => false
  | .oneOf negated ranges, text =>
    match text with
    | byte :: rest => inRanges ranges byte != negated && next rest
    | [] => false
  | .alternatives [], text => next text
  | .alternatives (branch :: branches), text =>
    fitsBranches keepsSlashes next (branch :: branches) text

def fitsBranches (keepsSlashes : Bool) (next : List UInt8 → Bool) :
    List (List GlobPiece) → List UInt8 → Bool
  | [], _ => false
  | branch :: branches, text =>
    fitsPieces keepsSlashes next branch text || fitsBranches keepsSlashes next branches text

def fitsPieces (keepsSlashes : Bool) (next : List UInt8 → Bool) :
    List GlobPiece → List UInt8 → Bool
  | [], text => next text
  | piece :: pieces, text =>
    fitsPiece keepsSlashes (fitsPieces keepsSlashes next pieces) piece text

end

/-! ## Names

A glob that starts with wildcards and ends with the text of a name asks for the name at the end of a
path. The parent directory, written as two dots, is no name. -/

def dot : UInt8 := 0x2e

def endsInParent (path : List UInt8) : Bool :=
  match path.reverse with
  | [last, before] => last == dot && before == dot
  | last :: before :: separator :: _ => last == dot && before == dot && separator == slash
  | _ => false

def isLiteral : GlobPiece → Bool
  | .literal _ => true
  | _ => false

def isNameByte : GlobPiece → Bool
  | .literal byte => byte != slash
  | _ => false

def isStemByte : GlobPiece → Bool
  | .literal byte => byte != slash && byte != dot
  | _ => false

/-- Whether pieces are an extension: a dot and what follows the last dot of a name. -/
def isExtension : List GlobPiece → Bool
  | .literal byte :: rest => byte == dot && rest.all isStemByte
  | _ => false

/-- Whether the last of some pieces are an extension. -/
def endsInExtension (pieces : List GlobPiece) : Bool :=
  match pieces.reverse.dropWhile isStemByte with
  | .literal byte :: _ => byte == dot
  | _ => false

/-- Whether pieces ask for an extension behind what they start with. A star that reaches across
slashes in front of other text asks for the end of the path and for no name. -/
def asksForExtension (keepsSlashes : Bool) : List GlobPiece → Bool
  | .anyBytes :: rest =>
    if rest.all isLiteral && !keepsSlashes then isExtension rest else endsInExtension rest
  | pieces => endsInExtension pieces

/-- Whether a glob asks for the name at the end of a path: for all of it, or for its extension. A
glob without wildcards asks for the whole path. -/
def asksForName (glob : Glob) : Bool :=
  match glob.pieces with
  | .anyLead :: rest =>
    if rest.all isLiteral then !rest.isEmpty && rest.all isNameByte
    else asksForExtension glob.keepsSlashes rest
  | pieces => !pieces.all isLiteral && asksForExtension glob.keepsSlashes pieces

/-- Whether a glob fits a whole path. A double star alone fits every path, and a glob that asks
for a name fits no path that ends in the parent directory. -/
def fits (glob : Glob) (path : List UInt8) : Bool :=
  match glob.pieces with
  | [.anyLead] => true
  | pieces =>
    !(glob.asksForName && endsInParent path)
      && fitsPieces glob.keepsSlashes List.isEmpty pieces path

/-! ## Reading -/

inductive Fault
  | unclosedClass
  | invalidRange (low high : Char)
  | unopenedGroup
  | unclosedGroup
  | danglingEscape
  deriving DecidableEq, Repr

def Fault.message : Fault → String
  | unclosedClass => "unclosed character class; missing ']'"
  | invalidRange low high =>
    "invalid range; '" ++ String.singleton low ++ "' > '" ++ String.singleton high ++ "'"
  | unopenedGroup =>
    "unopened alternate group; missing '\x7b' (maybe escape '\x7d' with '[\x7d]'?)"
  | unclosedGroup =>
    "unclosed alternate group; missing '\x7d' (maybe escape '\x7b' with '[\x7b]'?)"
  | danglingEscape => "dangling '\\'"

def utf8Bytes (character : Char) : List UInt8 := (String.singleton character).toUTF8.toList

/-- The ranges of bytes that stand for a range of characters. Of characters that take several
bytes only the neighbouring bytes make a range; the others stand for themselves. -/
def byteRanges (range : Char × Char) : List (UInt8 × UInt8) :=
  let (low, high) := range
  let single := fun (byte : UInt8) => (byte, byte)
  if low = high then (utf8Bytes low).map single
  else
    match (utf8Bytes low).reverse, utf8Bytes high with
    | last :: before, first :: after =>
      before.reverse.map single ++ (last, first) :: after.map single
    | _, _ => []

/-- Reads a class of characters behind its opening bracket, and whether it is negated has been
told. The ranges have the last one first; `inRange` tells that a hyphen may be widening it. Yields
the ranges and the number of characters up to the closing bracket, or nothing if there is no such
bracket. -/
def readClass (ranges : List (Char × Char)) (isFirst inRange : Bool) :
    List Char → Except Fault (Option (List (Char × Char) × Nat))
  | [] => .ok none
  | character :: rest =>
    let more := fun (result : Option (List (Char × Char) × Nat)) =>
      result.map fun (ranges, count) => (ranges, count + 1)
    if character = ']' && !isFirst then
      .ok (some ((if inRange then ('-', '-') :: ranges else ranges).reverse, 1))
    else if character = '-' && !isFirst && !inRange then
      (readClass ranges false true rest).map more
    else
      match inRange, ranges with
      | true, (low, _) :: others =>
        if character < low then .error (.invalidRange low character)
        else (readClass ((low, character) :: others) false false rest).map more
      | _, _ => (readClass ((character, character) :: ranges) false false rest).map more

/-- The class behind an opening bracket, and the number of characters that write it. -/
def readClass? (text : List Char) : Except Fault (Option (GlobPiece × Nat)) :=
  let piece := fun (negated : Bool) (ranges : List (Char × Char)) =>
    GlobPiece.oneOf negated (ranges.flatMap byteRanges)
  match text with
  | '!' :: rest | '^' :: rest =>
    (readClass [] true false rest).map fun result =>
      result.map fun (ranges, count) => (piece true ranges, count + 1)
  | rest =>
    (readClass [] true false rest).map fun result =>
      result.map fun (ranges, count) => (piece false ranges, count)

/-- A branch that is being read: its pieces, and the branches of its group before it. Both have
the last one first. -/
structure OpenBranch where
  pieces : List GlobPiece := []
  earlier : List (List GlobPiece) := []

/-- A glob that is being read: the branch at hand, and those in whose groups it lies. -/
structure Draft where
  current : OpenBranch := {}
  outer : List OpenBranch := []
  /-- Whether a bracket that nothing closes has been met; from then on brackets stand for
  themselves. -/
  literalBrackets : Bool := false

namespace Draft

def push (draft : Draft) (piece : GlobPiece) : Draft :=
  { draft with current := { draft.current with pieces := piece :: draft.current.pieces } }

def pushCharacter (draft : Draft) (character : Char) : Draft :=
  (utf8Bytes character).foldl (fun draft byte => draft.push (.literal byte)) draft

/-- Puts a piece in the place of the last one. -/
def replaceLast (draft : Draft) (piece : GlobPiece) : Draft :=
  { draft with current := { draft.current with pieces := piece :: draft.current.pieces.drop 1 } }

def openGroup (draft : Draft) : Draft :=
  { draft with current := {}, outer := draft.current :: draft.outer }

def nextBranch (draft : Draft) : Draft :=
  { draft with
    current := { earlier := draft.current.pieces.reverse :: draft.current.earlier } }

def isVoid (branch : List GlobPiece) : Bool :=
  branch.all fun piece => match piece with
    | .alternatives [] => true
    | _ => false

/-- Closes the group at hand. Branches that say nothing are left out. -/
def closeGroup (draft : Draft) : Except Fault Draft :=
  match draft.outer with
  | [] => .error .unopenedGroup
  | branch :: outer =>
    let branches := (draft.current.pieces.reverse :: draft.current.earlier).reverse
    let group := GlobPiece.alternatives (branches.filter (!isVoid ·))
    .ok ({ draft with current := branch, outer }.push group)

/-- Takes a double star behind other pieces that stands alone between slashes: it absorbs the
slash in front of it, or joins the double star in front of it. -/
def pushDoubleStar (draft : Draft) (piece : GlobPiece) : Draft :=
  match draft.current.pieces with
  | .anyLead :: _ | .anyBelow :: _ => draft
  | _ => draft.replaceLast piece

/-- Takes a star behind `previous`, and tells how many of the characters that follow belong to it.
-/
def takeStar (draft : Draft) (previous : Option Char) (text : List Char) : Draft × Nat :=
  let isGrouped := !draft.outer.isEmpty
  let twoStars := ((draft.push .anyBytes).push .anyBytes, 1)
  match text with
  | '*' :: after =>
    if draft.current.pieces.isEmpty then
      match after with
      | [] => (draft.push .anyLead, 1)
      | '/' :: _ => (draft.push .anyLead, 2)
      | _ :: _ => twoStars
    else if previous ≠ some '/'
        ∧ !(isGrouped && (previous == some ',' || previous == some '\x7b')) then twoStars
    else
      match after with
      | [] => (draft.pushDoubleStar .anyBelow, 1)
      | '/' :: _ => (draft.pushDoubleStar .anyBetween, 2)
      | ',' :: _ | '\x7d' :: _ => if isGrouped then (draft.pushDoubleStar .anyBelow, 1) else twoStars
      | _ :: _ => twoStars
  | _ => (draft.push .anyBytes, 0)

end Draft

/-- Reads the text of a glob behind `previous`, leaving out characters that have been taken
already. If `keepsBrackets`, a bracket that nothing closes stands for itself. -/
def readFrom (keepsBrackets : Bool) (draft : Draft) (previous : Option Char) :
    (skip : Nat) → List Char → Except Fault Draft
  | _, [] => .ok draft
  | skip + 1, character :: rest => readFrom keepsBrackets draft (some character) skip rest
  | 0, character :: rest =>
    match character with
    | '?' => readFrom keepsBrackets (draft.push .anyByte) (some character) 0 rest
    | '*' =>
      let (draft, taken) := draft.takeStar previous rest
      readFrom keepsBrackets draft (some character) taken rest
    | '[' =>
      if draft.literalBrackets then
        readFrom keepsBrackets (draft.pushCharacter '[') (some character) 0 rest
      else
        match readClass? rest with
        | .error fault => .error fault
        | .ok (some (piece, taken)) =>
          readFrom keepsBrackets (draft.push piece) (some character) taken rest
        | .ok none =>
          if keepsBrackets then
            let draft := { draft.pushCharacter '[' with literalBrackets := true }
            readFrom keepsBrackets draft (some character) 0 rest
          else .error .unclosedClass
    | '\x7b' => readFrom keepsBrackets draft.openGroup (some character) 0 rest
    | '\x7d' =>
      match draft.closeGroup with
      | .ok draft => readFrom keepsBrackets draft (some character) 0 rest
      | .error fault => .error fault
    | ',' =>
      let draft := if draft.outer.isEmpty then draft.pushCharacter ',' else draft.nextBranch
      readFrom keepsBrackets draft (some character) 0 rest
    | '\\' =>
      match rest with
      | [] => .error .danglingEscape
      | escaped :: _ => readFrom keepsBrackets (draft.pushCharacter escaped) (some character) 1 rest
    | other => readFrom keepsBrackets (draft.pushCharacter other) (some other) 0 rest

def readPieces (keepsBrackets : Bool) (text : List Char) : Except Fault (List GlobPiece) :=
  match readFrom keepsBrackets {} none 0 text with
  | .error fault => .error fault
  | .ok draft =>
    if draft.outer.isEmpty then .ok draft.current.pieces.reverse else .error .unclosedGroup

def read (text : List Char) : Except Fault Glob := (readPieces false text).map (⟨·, false⟩)

/-- Reads a glob of an ignore file. There only double stars reach across slashes, and a bracket that
nothing closes is no fault. -/
def readWithin (text : List Char) : Except Fault Glob := (readPieces true text).map (⟨·, true⟩)

end Glob

end SourceIndex
