import ArticleAudit.Yaml.ScalarText

/-!
# Cutting a stream into tokens

The scanner keeps its place, the tokens so far, the columns of the open block collections, and for
each open flow collection the place where a simple key may have started. A simple key is confirmed
by a colon on its line and within 1024 characters; its key token is then put where it started.
-/

set_option autoImplicit false

namespace ArticleAudit.Yaml

/-- A place where a simple key may have started. A required one stands in the column of its mapping
and must be followed by a colon. -/
structure SimpleKey where
  tokenIndex : Nat
  required : Bool
  index : Nat
  line : Nat
  column : Nat
  deriving Repr, Inhabited

/-- The scanner between two tokens. `columns` has the innermost open block collection first, and
`keys` the innermost open flow collection, with the block context last. -/
structure Scan where
  place : Place
  tokens : Array Token
  columns : List Nat
  keys : List (Option SimpleKey)
  allowsKey : Bool
  deriving Repr, Inhabited

namespace Scan

/-- The most characters a simple key has. -/
def maxKeyLength : Nat := 1024

/-- The scanner at the start of a text. -/
def start (cs : List Char) : Scan :=
  ⟨.ofText cs, #[.streamStart], [], [none], true⟩

/-- The scanner is inside a flow collection. -/
def inFlow (s : Scan) : Bool :=
  s.keys.length > 1

/-- Adds a token. -/
def push (s : Scan) (t : Token) : Scan :=
  { s with tokens := s.tokens.push t }

/-- Moves past `n` characters. -/
def skip (s : Scan) (n : Nat) : Scan :=
  { s with place := s.place.advance n }

/-- Says whether a simple key may start next. -/
def allow (s : Scan) (allowsKey : Bool) : Scan :=
  { s with allowsKey }

/-! ## Indentation -/

/-- Closes the block collections right of a column, or all of them. Flow collections ignore
indentation. -/
def closeBlocks (s : Scan) (column : Option Nat) : Scan :=
  if s.inFlow then s
  else
    let open? (n : Nat) : Bool := match column with
      | some c => n > c
      | none => true
    let closed := s.columns.takeWhile open?
    { s with
      tokens := s.tokens ++ (closed.map fun _ => Token.blockEnd).toArray
      columns := s.columns.dropWhile open? }

/-- Opens a block collection at a column, unless one is open there or further right. The token goes
to the end, or to the given index. -/
def openBlock (s : Scan) (column : Nat) (index : Option Nat) (t : Token) : Scan :=
  let deeper := match s.columns.head? with
    | some c => c < column
    | none => true
  if s.inFlow || !deeper then s
  else
    { s with
      columns := column :: s.columns
      tokens := match index with
        | some i => s.tokens.insertIdxIfInBounds i t
        | none => s.tokens.push t }

/-! ## Simple keys -/

/-- Gives up the simple key of the current context; a required one must not be lost. -/
def dropKey (s : Scan) : Except Fault Scan :=
  match s.keys with
  | some key :: outer =>
    if key.required then .error .keyWithoutColon else .ok { s with keys := none :: outer }
  | _ => .ok s

/-- Notes that a simple key may start here. -/
def saveKey (s : Scan) : Except Fault Scan :=
  if s.allowsKey then do
    let required := !s.inFlow && s.columns.head? == some s.place.column
    let key : SimpleKey :=
      ⟨s.tokens.size, required, s.place.index, s.place.line, s.place.column⟩
    let s ← s.dropKey
    return { s with keys := some key :: s.keys.tail }
  else .ok s

/-- Gives up the simple keys that started on an earlier line or too far back. -/
def dropStaleKeys (s : Scan) : Except Fault Scan := do
  let fresh (key : SimpleKey) : Bool :=
    s.place.line ≤ key.line && s.place.index ≤ key.index + maxKeyLength
  let keys ← s.keys.mapM fun key =>
    match key with
    | none => Except.ok none
    | some key =>
      if fresh key then .ok (some key)
      else if key.required then .error Fault.keyWithoutColon
      else .ok none
  return { s with keys }

/-! ## Between tokens -/

/-- Passes blanks, comments and line breaks; `fuel` bounds the number of lines. Tabs are passed only
where no simple key may start, or inside flow collections. -/
def passGaps : Nat → Scan → Scan
  | 0, s => s
  | fuel + 1, s =>
    let s := if s.place.index == 0 && s.place.rest.head? == some (Char.ofNat 0xFEFF) then s.skip 1
      else s
    let passes (c : Char) : Bool := c == ' ' || ((s.inFlow || !s.allowsKey) && c == '\t')
    let afterBlanks := s.place.rest.dropWhile passes
    let afterComment := if afterBlanks.head? == some '#' then
        afterBlanks.dropWhile fun c => !isBreak c
      else afterBlanks
    let s := { s with place := s.place.goto afterComment }
    match afterComment with
    | [] => s
    | c :: _ =>
      if isBreak c then
        let s := { s with place := s.place.goto (dropBreak afterComment) }
        passGaps fuel (if s.inFlow then s else s.allow true)
      else s

/-! ## Directives, anchors and tags -/

/-- The digits of a version number; there are one to nine. -/
def readNumber (cs : List Char) : Except Fault (Nat × List Char) :=
  let digits := cs.takeWhile Char.isDigit
  if digits.isEmpty || digits.length > 9 then .error .directive
  else .ok (digits.foldl (fun n c => 10 * n + (c.toNat - '0'.toNat)) 0, cs.dropWhile Char.isDigit)

/-- The octet that two hexadecimal digits after a percent sign stand for. -/
def readOctet (cs : List Char) : Except Fault (UInt8 × List Char) :=
  match cs with
  | '%' :: a :: b :: rest =>
    match Unicode.hexDigit? a, Unicode.hexDigit? b with
    | some x, some y => .ok ((16 * x + y).toUInt8, rest)
    | _, _ => .error .tag
  | _ => .error .tag

/-- Reads `n` octets. -/
def readOctets : Nat → List Char → Except Fault (List UInt8 × List Char)
  | 0, cs => .ok ([], cs)
  | n + 1, cs => do
    let (octet, rest) ← readOctet cs
    let (octets, rest) ← readOctets n rest
    return (octet :: octets, rest)

/-- The number of octets of a character that starts with the given octet. -/
def octetCount (first : UInt8) : Nat :=
  if first < 0x80 then 1 else if first < 0xE0 then 2 else if first < 0xF0 then 3 else 4

/-- Reads one character written as percent-encoded octets. -/
def readPercent (cs : List Char) : Except Fault (List Char × List Char) := do
  let (first, _) ← readOctet cs
  let (octets, rest) ← readOctets (octetCount first) cs
  match String.fromUTF8? ⟨octets.toArray⟩ with
  | some s => return (s.toList, rest)
  | none => throw .tag

/-- The characters of a tag; inside angle brackets and directives flow marks are among them. -/
def isTagChar (verbatim : Bool) (c : Char) : Bool :=
  isNameChar c || ";/?:@&=+$.%!~*'()".toList.contains c ||
    (verbatim && ",[]".toList.contains c)

/-- Reads the characters of a tag. -/
def readTagChars (verbatim : Bool) (cs : List Char) : Read := do
  match cs with
  | [] => return ([], [])
  | c :: rest =>
    if !isTagChar verbatim c then return ([], c :: rest)
    else if c == '%' then
      let (decoded, after) ← readPercent (c :: rest)
      if _h : after.length < (c :: rest).length then
        let (more, after) ← readTagChars verbatim after
        return (decoded ++ more, after)
      else throw .tag
    else
      let (more, after) ← readTagChars verbatim rest
      return (c :: more, after)
termination_by cs.length
decreasing_by
  · exact _h
  · simp

/-- Reads a tag handle: an exclamation mark, or a name between two. -/
def readHandle (inDirective : Bool) (cs : List Char) : Read :=
  match cs with
  | '!' :: rest =>
    let name := rest.takeWhile isNameChar
    match rest.dropWhile isNameChar with
    | '!' :: after => .ok ('!' :: name ++ ['!'], after)
    | after => if inDirective && !name.isEmpty then .error .tag else .ok ('!' :: name, after)
  | _ => .error .tag

/-- Reads a tag. -/
def readTag (inFlow : Bool) (cs : List Char) : Except Fault (TagText × List Char) := do
  let (tag, rest) ← match cs with
    | '!' :: '<' :: body => do
      let (suffix, after) ← readTagChars true body
      match after with
      | '>' :: after =>
        if suffix.isEmpty then throw Fault.tag
        else pure (TagText.mk "" (String.ofList suffix), after)
      | _ => throw Fault.tag
    | _ => do
      let (handle, after) ← readHandle false cs
      let (suffix, rest) ← readTagChars false after
      if handle.length > 1 && handle.getLast? == some '!' then
        if suffix.isEmpty then throw Fault.tag
        else pure (TagText.mk (String.ofList handle) (String.ofList suffix), rest)
      else
        let whole := handle.tail ++ suffix
        if whole.isEmpty then pure (TagText.mk "" "!", rest)
        else pure (TagText.mk "!" (String.ofList whole), rest)
  let ends := (inFlow && rest.head? == some ',') || atSpace rest
  if ends then return (tag, rest) else throw .tag

/-- The characters that may follow an anchor or an alias. -/
def endsAnchor (cs : List Char) : Bool :=
  match cs with
  | [] => true
  | c :: _ => isSpace c || "?:,]\x7d%@\x60".toList.contains c

/-- Reads the name of an anchor or an alias. -/
def readAnchor (cs : List Char) : Read :=
  let name := cs.takeWhile isNameChar
  let rest := cs.dropWhile isNameChar
  if name.isEmpty || !endsAnchor rest then .error .anchor else .ok (name, rest)

/-- Reads a directive after its percent sign; it takes its line. -/
def readDirective (cs : List Char) : Except Fault (Token × List Char) := do
  let name := cs.takeWhile isNameChar
  let rest := cs.dropWhile isNameChar
  if name.isEmpty || !atSpace rest then throw .directive
  let body := rest.dropWhile isBlank
  let (token, rest) ←
    if name == "YAML".toList then do
      let (major, rest) ← readNumber body
      match rest with
      | '.' :: rest =>
        let (minor, rest) ← readNumber rest
        pure (Token.version major minor, rest)
      | _ => throw Fault.directive
    else if name == "TAG".toList then do
      let (handle, rest) ← readHandle true body
      if !(rest.head?.any isBlank) then throw Fault.directive
      let (tagPrefix, rest) ← readTagChars true (rest.dropWhile isBlank)
      if tagPrefix.isEmpty || !atSpace rest then throw Fault.directive
      pure (Token.tagDirective (String.ofList handle) (String.ofList tagPrefix), rest)
    else throw Fault.directive
  let afterBlanks := rest.dropWhile isBlank
  let afterComment := if afterBlanks.head? == some '#' then
      afterBlanks.dropWhile fun c => !isBreak c
    else afterBlanks
  if !atLineEnd afterComment then throw .directive
  return (token, dropBreak afterComment)

/-! ## One token -/

/-- A token that closes all blocks and gives up the simple key: a directive or a document mark. -/
def fetchDocumentLevel (s : Scan) (t : Token) (rest : List Char) : Except Fault Scan := do
  let s ← (s.closeBlocks none).dropKey
  return { (s.allow false).push t with place := s.place.goto rest }

/-- The start of a flow collection. -/
def fetchFlowStart (s : Scan) (t : Token) : Except Fault Scan := do
  let s ← s.saveKey
  return (({ s with keys := none :: s.keys }.allow true).push t).skip 1

/-- The end of a flow collection. -/
def fetchFlowEnd (s : Scan) (t : Token) : Except Fault Scan := do
  let s ← s.dropKey
  let keys := if s.inFlow then s.keys.tail else s.keys
  return (({ s with keys }.allow false).push t).skip 1

/-- The comma of a flow collection. -/
def fetchFlowEntry (s : Scan) : Except Fault Scan := do
  let s ← s.dropKey
  return ((s.allow true).push .flowEntry).skip 1

/-- The dash of a block sequence. -/
def fetchEntry (s : Scan) : Except Fault Scan := do
  if !s.inFlow && !s.allowsKey then throw .misplacedEntry
  let s ← (s.openBlock s.place.column none .blockSequence).dropKey
  return ((s.allow true).push .entry).skip 1

/-- The question mark of a key. -/
def fetchKey (s : Scan) : Except Fault Scan := do
  if !s.inFlow && !s.allowsKey then throw .misplacedKey
  let s ← (s.openBlock s.place.column none .blockMapping).dropKey
  return ((s.allow (!s.inFlow)).push .key).skip 1

/-- The colon of a value; it confirms the simple key before it. -/
def fetchValue (s : Scan) : Except Fault Scan := do
  match s.keys with
  | some key :: outer =>
    let s := { s with
      tokens := s.tokens.insertIdxIfInBounds key.tokenIndex .key, keys := none :: outer }
    let s := s.openBlock key.column (some key.tokenIndex) .blockMapping
    return ((s.allow false).push .value).skip 1
  | _ =>
    if !s.inFlow && !s.allowsKey then throw .misplacedValue
    let s := s.openBlock s.place.column none .blockMapping
    return ((s.allow (!s.inFlow)).push .value).skip 1

/-- A token that may be a simple key, or the start of one. -/
def fetchNode (s : Scan) (read : List Char → Except Fault (Token × List Char)) :
    Except Fault Scan := do
  let s ← s.saveKey
  let (token, rest) ← read s.place.rest
  return { (s.allow false).push token with place := s.place.goto rest }

/-- A block scalar. -/
def fetchBlockScalar (s : Scan) (folded : Bool) : Except Fault Scan := do
  let s ← s.dropKey
  let (text, rest) ← readBlockScalar folded s.columns.head? s.place.rest.tail
  return { (s.allow true).push (.scalar (String.ofList text) false) with
    place := s.place.goto rest }

/-- A plain scalar. -/
def fetchPlain (s : Scan) : Except Fault Scan := do
  let s ← s.saveKey
  let indent := match s.columns.head? with
    | some c => c + 1
    | none => 0
  let plain ← readPlain s.inFlow indent s.place.rest
  return { (s.allow plain.endsLine).push (.scalar (String.ofList plain.text) true) with
    place := s.place.goto plain.rest }

/-- Reads a quoted scalar together with its opening quote. -/
def readQuotedToken (cs : List Char) : Except Fault (Token × List Char) :=
  match cs with
  | quote :: body =>
    (readQuoted quote false body).map fun (text, rest) => (.scalar (String.ofList text) false, rest)
  | [] => .error .unclosedQuote

/-- The end of the stream. -/
def fetchEnd (s : Scan) : Except Fault Scan := do
  let s ← (s.closeBlocks none).dropKey
  return s.push .streamEnd

/-- A plain scalar can start with these characters. -/
def startsPlain (inFlow : Bool) (c : Char) (rest : List Char) : Bool :=
  !(isSpace c || isIndicator c) || (c == '-' && !(rest.head?.any isBlank)) ||
    (!inFlow && (c == '?' || c == ':') && !atSpace rest)

/-- Reads the next token, not at the end of the stream. -/
def fetch (s : Scan) (c : Char) (rest : List Char) : Except Fault Scan :=
  let cs := c :: rest
  let first := s.place.column == 0
  if first && c == '%' then do
    let (token, after) ← readDirective rest
    s.fetchDocumentLevel token after
  else if first && isDocumentMark '-' cs then s.fetchDocumentLevel .documentStart (cs.drop 3)
  else if first && isDocumentMark '.' cs then s.fetchDocumentLevel .documentEnd (cs.drop 3)
  else if c == '[' then s.fetchFlowStart .flowSequence
  else if c == '\x7b' then s.fetchFlowStart .flowMapping
  else if c == ']' then s.fetchFlowEnd .flowSequenceEnd
  else if c == '\x7d' then s.fetchFlowEnd .flowMappingEnd
  else if c == ',' then s.fetchFlowEntry
  else if c == '-' && atSpace rest then s.fetchEntry
  else if c == '?' && (s.inFlow || atSpace rest) then s.fetchKey
  else if c == ':' && (s.inFlow || atSpace rest) then s.fetchValue
  else if c == '*' then
    s.fetchNode fun cs => (readAnchor cs.tail).map fun (n, r) => (.alias (String.ofList n), r)
  else if c == '&' then
    s.fetchNode fun cs => (readAnchor cs.tail).map fun (n, r) => (.anchor (String.ofList n), r)
  else if c == '!' then s.fetchNode fun cs => (readTag s.inFlow cs).map fun (t, r) => (.tag t, r)
  else if c == '|' && !s.inFlow then s.fetchBlockScalar false
  else if c == '>' && !s.inFlow then s.fetchBlockScalar true
  else if c == '\'' || c == '"' then s.fetchNode readQuotedToken
  else if startsPlain s.inFlow c rest then s.fetchPlain
  else .error .token

/-- Scans to the end of the stream; every token takes at least one character. -/
def run : Nat → Scan → Except Fault (Array Token)
  | 0, _ => .error .token
  | fuel + 1, s => do
    let s ← (passGaps (s.place.rest.length + 1) s).dropStaleKeys
    match s.place.rest with
    | [] =>
      let s ← s.fetchEnd
      return s.tokens
    | c :: rest =>
      let s ← (s.closeBlocks (some s.place.column)).fetch c rest
      run fuel s

end Scan

/-- The tokens of a text. -/
def tokensOf (cs : List Char) : Except Fault (List Token) :=
  if cs.all isAllowed then (Scan.run (cs.length + 2) (.start cs)).map Array.toList
  else .error .character

end ArticleAudit.Yaml
