import ArticleAudit.Text.Slice
import ArticleAudit.Text.Blank

/-!
# Inline text

Inline text is cut into code spans, links and plain text. A scan moves from left to right; a
backslash protects the next character, a code span is tried before a link, and what neither
recognizes is plain text. A recognized construct is kept as the pieces it consists of, so that
their concatenation is its source and its spans follow from their sizes.
-/

set_option autoImplicit false

namespace ArticleAudit.Markdown

open ArticleAudit.Text

/-- A node of inline text with its spans in the document. -/
inductive Inline
  | text (full : Span)
  | codeSpan (full inner : Span)
  | link (full text target : Span) (image : Bool)
  deriving DecidableEq, Repr, Inhabited

/-- The whole span of a node. -/
def Inline.full : Inline → Span
  | .text full => full
  | .codeSpan full _ => full
  | .link full _ _ _ => full

/-- The mark of code spans. -/
def tick : Char := '\x60'

/-! ## Code spans -/

/-- The text up to a run of exactly `run` ticks; longer and shorter runs belong to the text. -/
def codeInner? (run : Nat) (cs : List Char) : Option (List Char) :=
  match cs with
  | [] => none
  | c :: rest =>
    if c == tick then
      let length := (rest.takeWhile (· == tick)).length
      if length + 1 == run then some []
      else (codeInner? run (rest.drop length)).map (List.replicate (length + 1) tick ++ ·)
    else (codeInner? run rest).map (c :: ·)
termination_by cs.length
decreasing_by
  · simp only [List.length_drop, List.length_cons]
    omega
  · simp

/-! ## Links -/

/-- The text of a link, up to the bracket that closes it; brackets nest, and a backslash protects
the next character. -/
def linkText? (depth : Nat) : List Char → Option (List Char)
  | [] => none
  | ['\\'] => none
  | '\\' :: c :: rest => (linkText? depth rest).map ('\\' :: c :: ·)
  | '[' :: rest => (linkText? (depth + 1) rest).map ('[' :: ·)
  | ']' :: rest =>
    match depth with
    | 0 => some []
    | depth + 1 => (linkText? depth rest).map (']' :: ·)
  | c :: rest => (linkText? depth rest).map (c :: ·)

/-- The target of a link, up to a blank or the parenthesis that closes the link; parentheses nest,
and a line feed or the end of the text leaves the link open. -/
def linkTarget? (depth : Nat) : List Char → Option (List Char)
  | [] => none
  | '\n' :: _ => none
  | ' ' :: _ => some []
  | '\t' :: _ => some []
  | '(' :: rest => (linkTarget? (depth + 1) rest).map ('(' :: ·)
  | ')' :: rest =>
    match depth with
    | 0 => some []
    | depth + 1 => (linkTarget? depth rest).map (')' :: ·)
  | c :: rest => (linkTarget? depth rest).map (c :: ·)

/-- The closing parenthesis of a link and the blanks before it. -/
def linkClose? (cs : List Char) : Option (List Char) :=
  match cs.dropWhile isIndent with
  | ')' :: _ => some (cs.takeWhile isIndent ++ [')'])
  | _ => none

/-- A quoted title: the quote, text on one line without that quote, and the quote again. -/
def linkTitle? : List Char → Option (List Char)
  | [] => none
  | quote :: rest =>
    if quote == '"' || quote == '\'' then
      let title := rest.takeWhile fun c => c != quote && c != '\n'
      if (rest.drop title.length).head? == some quote then some (quote :: title ++ [quote])
      else none
    else none

/-- What follows the target: blanks, a title if a quote comes next, blanks and the parenthesis. -/
def linkTail? (cs : List Char) : Option (List Char) :=
  let blanks := cs.takeWhile isIndent
  let rest := cs.dropWhile isIndent
  if rest.head? == some '"' || rest.head? == some '\'' then
    (linkTitle? rest).bind fun title =>
      (linkClose? (rest.drop title.length)).map (blanks ++ title ++ ·)
  else linkClose? cs

/-- The pieces of a link in the order they are written. -/
structure LinkParts where
  image : Bool
  text : List Char
  spaces : List Char
  target : List Char
  tail : List Char
  deriving DecidableEq, Repr, Inhabited

namespace LinkParts

/-- What opens the link: a bracket, after an exclamation mark when it is an image. -/
def opening (l : LinkParts) : List Char :=
  if l.image then ['!', '['] else ['[']

/-- What stands before the target, from the opening on. -/
def head (l : LinkParts) : List Char :=
  l.opening ++ l.text ++ [']', '('] ++ l.spaces

/-- The link as it is written. -/
def source (l : LinkParts) : List Char :=
  l.head ++ l.target ++ l.tail

/-- The node of a link that starts at `position`. -/
def node (l : LinkParts) (position : Nat) : Inline :=
  let textStart := position + byteSize l.opening
  let targetStart := position + byteSize l.head
  .link ⟨position, position + byteSize l.source⟩ ⟨textStart, textStart + byteSize l.text⟩
    ⟨targetStart, targetStart + byteSize l.target⟩ l.image

end LinkParts

/-- Reads a link whose text starts with `cs`. -/
def linkParts? (image : Bool) (cs : List Char) : Option LinkParts := do
  let text ← linkText? 0 cs
  match cs.drop text.length with
  | ']' :: '(' :: rest =>
    let spaces := rest.takeWhile (· == ' ')
    let body := rest.dropWhile (· == ' ')
    let target ← linkTarget? 0 body
    let tail ← linkTail? (body.drop target.length)
    return ⟨image, text, spaces, target, tail⟩
  | _ => none

/-- Reads a link or an image at the start of a text. -/
def linkAt? : List Char → Option LinkParts
  | '!' :: '[' :: rest => linkParts? true rest
  | '[' :: rest => linkParts? false rest
  | _ => none

/-! ## The scan -/

/-- A construct that the scan recognizes: ticks around an inner text, or a link. -/
inductive Construct
  | code (run : Nat) (inner : List Char)
  | link (parts : LinkParts)
  deriving DecidableEq, Repr, Inhabited

namespace Construct

/-- The construct as it is written. -/
def source : Construct → List Char
  | code run inner => List.replicate run tick ++ inner ++ List.replicate run tick
  | link parts => parts.source

/-- The node of a construct that starts at `position`. -/
def node (position : Nat) : Construct → Inline
  | code run inner =>
    let start := position + run
    .codeSpan ⟨position, start + byteSize inner + run⟩ ⟨start, start + byteSize inner⟩
  | link parts => parts.node position

end Construct

/-- Reads a code span at the start of a text. -/
def codeAt? (cs : List Char) : Option Construct :=
  let run := (cs.takeWhile (· == tick)).length
  if run == 0 then none else (codeInner? run (cs.dropWhile (· == tick))).map (.code run)

/-- Reads a construct at the start of a text; a code span goes before a link. -/
def constructAt? (cs : List Char) : Option Construct :=
  (codeAt? cs).orElse fun _ => (linkAt? cs).map .link

/-- The plain text between two offsets, if there is any. -/
def plainText (start stop : Nat) : List Inline :=
  if start < stop then [.text ⟨start, stop⟩] else []

/-- Scans a text of which `cs` is left at `position` and plain text is pending from `start` on;
`read` recognizes the constructs. -/
def scanInline (read : List Char → Option Construct) (start position : Nat) (cs : List Char) :
    List Inline :=
  match cs with
  | [] => plainText start position
  | ['\\'] => plainText start (position + 1)
  | '\\' :: c :: rest => scanInline read start (position + 1 + c.utf8Size) rest
  | c :: rest =>
    match read (c :: rest) with
    | some construct =>
      let stop := (construct.node position).full.stop
      plainText start position ++ construct.node position ::
        scanInline read stop stop (rest.drop (construct.source.length - 1))
    | none => scanInline read start (position + c.utf8Size) rest
termination_by cs.length
decreasing_by
  all_goals simp only [List.length_drop, List.length_cons]
  all_goals omega

/-- The inline nodes of a text that stands at `base` in the document. -/
def parseInline (base : Nat) (cs : List Char) : List Inline :=
  scanInline constructAt? base base cs

end ArticleAudit.Markdown
