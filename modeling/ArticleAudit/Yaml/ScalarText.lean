import ArticleAudit.Text.Quoted
import ArticleAudit.Unicode.Ranges
import ArticleAudit.Yaml.Token

/-!
# The text of scalars

Plain scalars run over lines as long as these are indented; quoted scalars end at their quote; block
scalars take the lines below their header. In plain and quoted scalars one line break between words
becomes a space and further ones are kept; folded block scalars do so between lines that start with
no blank.
-/

set_option autoImplicit false

namespace ArticleAudit.Yaml

/-- Characters read, and the text after them. -/
abbrev Read := Except Fault (List Char × List Char)

/-! ## Folding -/

/-- What the line breaks between two words become. -/
def foldBreaks : List Char → List Char
  | [] => []
  | '\n' :: [] => [' ']
  | '\n' :: more => more
  | breaks => breaks

/-- What the blanks and line breaks between two words become. -/
def foldGap (gap : List Char) : List Char :=
  match breaksOf gap with
  | [] => gap
  | breaks => foldBreaks breaks

/-- The characters after the last line break. -/
def lastLine (cs : List Char) : List Char :=
  (cs.reverse.takeWhile fun c => !isBreak c).reverse

/-- A tab stands in the indentation: on a later line of a gap, left of column `indent`. -/
def tabInIndent (indent : Nat) (gap : List Char) : Bool :=
  go none gap
where
  /-- Walks over a gap; `column` is known once a line break was passed. -/
  go (column : Option Nat) : List Char → Bool
    | [] => false
    | c :: rest =>
      if isBreak c then go (some 0) rest
      else
        match column with
        | none => go none rest
        | some n => (c == '\t' && n < indent) || go (some (n + 1)) rest

/-! ## Plain scalars -/

/-- Reads up to a blank, a line break, a colon before one of them, or a flow mark in a flow. -/
def plainWord (inFlow : Bool) : List Char → Read
  | [] => .ok ([], [])
  | c :: rest =>
    if isSpace c then .ok ([], c :: rest)
    else if inFlow && c == ':' && (rest.head?.any fun d => isFlowMark d || d == '?') then
      .error .token
    else if (c == ':' && atSpace rest) || (inFlow && isFlowMark c) then .ok ([], c :: rest)
    else (plainWord inFlow rest).map fun (word, rest) => (c :: word, rest)

/-- A plain scalar: its text, the text after it, and whether a line break was passed at its end. -/
structure Plain where
  text : List Char
  rest : List Char
  endsLine : Bool
  deriving Repr, Inhabited

/-- The scalar may go on after a gap: not at a comment, not at a document mark in the first column,
and outside flows only at column `indent` or beyond. -/
def plainGoesOn (inFlow : Bool) (indent : Nat) (gap rest : List Char) : Bool :=
  let column := (lastLine gap).length
  let newLine := gap.any isBreak
  !(rest.head? == some '#') && !(newLine && column == 0 && atDocumentMark rest) &&
    (inFlow || !newLine || indent ≤ column)

/-- Reads a plain scalar whose lines are indented by `indent` columns or more. -/
def readPlain (inFlow : Bool) (indent : Nat) (cs : List Char) : Except Fault Plain := do
  let (word, afterWord) ← plainWord inFlow cs
  let gap := afterWord.takeWhile isSpace
  let rest := afterWord.dropWhile isSpace
  if tabInIndent indent gap then throw .tabIndent
  let done : Plain := ⟨word, rest, gap.any isBreak⟩
  if gap.isEmpty || !plainGoesOn inFlow indent gap rest then return done
  if _h : rest.length < cs.length then
    let more ← readPlain inFlow indent rest
    if more.text.isEmpty then return done
    return { more with text := word ++ foldGap gap ++ more.text }
  else return done
termination_by cs.length

/-! ## Quoted scalars -/

/-- The character that a one-letter escape stands for. -/
def escapeChar? (c : Char) : Option Char :=
  match c with
  | '0' => some (Char.ofNat 0)
  | 'a' => some (Char.ofNat 7)
  | 'b' => some (Char.ofNat 8)
  | 't' => some '\t'
  | '\t' => some '\t'
  | 'n' => some '\n'
  | 'v' => some (Char.ofNat 11)
  | 'f' => some (Char.ofNat 12)
  | 'r' => some '\r'
  | 'e' => some (Char.ofNat 27)
  | ' ' => some ' '
  | '"' => some '"'
  | '/' => some '/'
  | '\\' => some '\\'
  | 'N' => some (Char.ofNat 0x85)
  | '_' => some (Char.ofNat 0xA0)
  | 'L' => some (Char.ofNat 0x2028)
  | 'P' => some (Char.ofNat 0x2029)
  | _ => none

/-- The number of hexadecimal digits after an escape letter. -/
def escapeWidth? (c : Char) : Option Nat :=
  match c with
  | 'x' => some 2
  | 'u' => some 4
  | 'U' => some 8
  | _ => none

/-- The character that an escape stands for and the number of characters after the backslash. -/
def readEscape (cs : List Char) : Except Fault (Char × Nat) :=
  match cs with
  | [] => .error .escape
  | c :: rest =>
    match escapeChar? c, escapeWidth? c with
    | some d, _ => .ok (d, 1)
    | none, none => .error .escape
    | none, some width =>
      let digits := rest.take width
      let n := Unicode.hexValue digits
      if digits.length < width || !digits.all (fun d => (Unicode.hexDigit? d).isSome) ||
          (0xD800 ≤ n && n ≤ 0xDFFF) || n > 0x10FFFF then .error .escape
      else .ok (Char.ofNat n, width + 1)

/-- The run of a quoted scalar up to a blank, a line break or the closing quote. A backslash at the
end of a line joins the lines and is answered as such. -/
def quotedWord (quote : Char) (cs : List Char) : Except Fault (List Char × List Char × Bool) :=
  match cs with
  | [] => .ok ([], [], false)
  | c :: rest =>
    if isSpace c then .ok ([], c :: rest, false)
    else if c == quote then
      match rest with
      | d :: more =>
        if quote == '\'' && d == '\'' then
          (quotedWord quote more).map fun (word, rest, joined) => ('\'' :: word, rest, joined)
        else .ok ([], c :: rest, false)
      | [] => .ok ([], c :: rest, false)
    else if quote == '"' && c == '\\' then
      if (rest.head?.any isBreak) then .ok ([], dropBreak rest, true)
      else
        match readEscape rest with
        | .error e => .error e
        | .ok (d, length) =>
          (quotedWord quote (rest.drop length)).map fun (word, rest, joined) =>
            (d :: word, rest, joined)
    else (quotedWord quote rest).map fun (word, rest, joined) => (c :: word, rest, joined)
termination_by cs.length
decreasing_by
  all_goals simp only [List.length_drop, List.length_cons]
  all_goals omega

/-- What a gap in a quoted scalar becomes; after a joined line its breaks are all further ones. -/
def quotedGap (joined : Bool) (gap : List Char) : List Char :=
  if joined then breaksOf gap else foldGap gap

/-- Reads a quoted scalar after its opening quote; `newLine` tells that the text starts a line. -/
def readQuoted (quote : Char) (newLine : Bool) (cs : List Char) : Read := do
  if newLine && atDocumentMark cs then throw .unclosedQuote
  if cs.isEmpty then throw .unclosedQuote
  let (word, afterWord, joined) ← quotedWord quote cs
  if afterWord.head? == some quote && !joined then return (word, afterWord.tail)
  let gap := afterWord.takeWhile isSpace
  let rest := afterWord.dropWhile isSpace
  let startsLine := if gap.any isBreak then (lastLine gap).isEmpty else joined && gap.isEmpty
  if _h : rest.length < cs.length then
    let (more, after) ← readQuoted quote startsLine rest
    return (word ++ quotedGap joined gap ++ more, after)
  else throw .unclosedQuote
termination_by cs.length

/-! ## Block scalars -/

/-- What happens to the line breaks at the end of a block scalar. -/
inductive Chomping
  | strip
  | clip
  | keep
  deriving DecidableEq, Repr, Inhabited

/-- The chomping that a header character asks for. -/
def chomping? (c : Char) : Option Chomping :=
  if c == '+' then some .keep else if c == '-' then some .strip else none

/-- An indentation digit of a header; zero is refused. -/
def increment? (c : Char) : Option Nat :=
  if c.isDigit then some (c.toNat - '0'.toNat) else none

/-- Reads the header of a block scalar after its mark: chomping and indentation in either order, a
comment, and the end of the line. -/
def readBlockHeader (cs : List Char) : Except Fault (Chomping × Option Nat × List Char) := do
  let (chomp, indent, rest) := match cs with
    | [] => (none, none, [])
    | a :: rest =>
      match chomping? a, increment? a with
      | some c, _ =>
        match rest with
        | b :: more => match increment? b with
          | some n => (some c, some n, more)
          | none => (some c, none, rest)
        | [] => (some c, none, [])
      | none, some n =>
        match rest with
        | b :: more => match chomping? b with
          | some c => (some c, some n, more)
          | none => (none, some n, rest)
        | [] => (none, some n, [])
      | none, none => (none, none, cs)
  if indent == some 0 then throw .blockHeader
  let afterBlanks := rest.dropWhile isBlank
  let afterComment := if afterBlanks.head? == some '#' then
      afterBlanks.dropWhile fun c => !isBreak c
    else afterBlanks
  if !atLineEnd afterComment then throw .blockHeader
  return (chomp.getD .clip, indent, dropBreak afterComment)

/-- The empty lines before a line of a block scalar: how many columns the widest run of spaces has,
the line breaks passed, the column reached and the text there. -/
structure Margin where
  widest : Nat
  breaks : List Char
  column : Nat
  rest : List Char
  deriving Repr, Inhabited

/-- Passes empty lines; no more than `indent` spaces are taken, or all of them while the indentation
is not known. -/
def readMargin (indent : Option Nat) (cs : List Char) : Except Fault Margin := do
  let spaces := cs.takeWhile (· == ' ')
  let column := match indent with
    | some n => min n spaces.length
    | none => spaces.length
  let rest := cs.drop column
  let short := match indent with
    | some n => column < n
    | none => true
  if short && rest.head? == some '\t' then throw .tabIndent
  match rest with
  | c :: _ =>
    if isBreak c then
      if _h : (dropBreak rest).length < cs.length then
        let more ← readMargin indent (dropBreak rest)
        return { more with
          widest := max column more.widest, breaks := normalBreak c :: more.breaks }
      else throw .blockHeader
    else return ⟨column, [], column, rest⟩
  | [] => return ⟨column, [], column, rest⟩
termination_by cs.length

/-- The parts of a block scalar that are not yet in its text: the break after the last line and the
breaks of the empty lines after it, and whether that line started with a blank. -/
structure Pending where
  lineBreak : List Char
  emptyLines : List Char
  startsBlank : Bool
  deriving Repr, Inhabited

/-- What stands between two lines of a block scalar. -/
def blockGap (folded : Bool) (pending : Pending) (nextStartsBlank : Bool) : List Char :=
  let joins := folded && pending.lineBreak == ['\n'] && !pending.startsBlank && !nextStartsBlank
  let line := if joins then (if pending.emptyLines.isEmpty then [' '] else [])
    else pending.lineBreak
  line ++ pending.emptyLines

/-- Reads the lines of a block scalar that start at column `indent`; `column` is where `cs` stands.
The breaks at the end are answered apart. -/
def readBlockLines (folded : Bool) (indent column : Nat) (pending : Pending) (cs : List Char) :
    Except Fault (List Char × Pending × List Char) := do
  if cs.isEmpty || column != indent then return ([], pending, cs)
  let startsBlank := cs.head?.any isBlank
  let gap := blockGap folded pending startsBlank
  let line := cs.takeWhile fun c => !isBreak c
  let afterLine := cs.dropWhile fun c => !isBreak c
  let margin ← readMargin (some indent) (dropBreak afterLine)
  let next : Pending := ⟨breaksOf (afterLine.take 1), margin.breaks, startsBlank⟩
  if _h : margin.rest.length < cs.length then
    let (more, last, rest) ← readBlockLines folded indent margin.column next margin.rest
    return (gap ++ line ++ more, last, rest)
  else throw .blockHeader
termination_by cs.length

/-- Reads a block scalar after its mark, below a parent at column `parent`, if there is one. -/
def readBlockScalar (folded : Bool) (parent : Option Nat) (cs : List Char) : Read := do
  let (chomp, increment, body) ← readBlockHeader cs
  let floor := match parent with
    | some n => n + 1
    | none => 0
  let known := increment.map fun n => (parent.getD 0) + n
  let margin ← readMargin known body
  let indent := known.getD (max 1 (max floor margin.widest))
  let (text, last, rest) ←
    readBlockLines folded indent margin.column ⟨[], margin.breaks, false⟩ margin.rest
  let ending := match chomp with
    | .strip => []
    | .clip => last.lineBreak
    | .keep => last.lineBreak ++ last.emptyLines
  return (text ++ ending, rest)

end ArticleAudit.Yaml
