import ArticleAudit.Markdown.Fence
import ArticleAudit.Markdown.Field
import ArticleAudit.Markdown.Heading
import ArticleAudit.Metadata.Basic
import ArticleAudit.Text.Line

/-!
# Scanning for fields

Where front matter cannot be read, the field lines before the first heading still tell something.
Lines in fenced code are skipped, quotes around a value are dropped, and the first value of a key
counts.
-/

set_option autoImplicit false

namespace ArticleAudit.Metadata

open ArticleAudit.Text ArticleAudit.Markdown

/-- Drops a pair of equal quotes around a value. -/
def unquote (value : List Char) : List Char :=
  ((inner? '"').orElse fun _ => inner? '\'').getD value
where
  /-- What stands between two quotes. -/
  inner? (quote : Char) : Option (List Char) :=
    match value with
    | first :: second :: rest =>
      if first == quote && (second :: rest).getLast? == some quote then
        some (second :: rest).dropLast
      else none
    | _ => none

/-- The key and value of a field line; a line whose value is empty counts for nothing. -/
def fieldOf? (line : List Char) : Option (String × String) :=
  (Field.ofLine? line).bind fun field =>
    let value := unquote (trim field.value)
    if value.isEmpty then none else some (String.ofList field.key, String.ofList value)

/-- The fields of lines, in order, up to the first strict heading outside fences. `opening` is the
fence that is open. -/
def scanLines : Option Fence → List (List Char) → List (String × String)
  | _, [] => []
  | some opening, line :: rest =>
    scanLines (if opening.isClosedBy (Fence.ofLine? line) then none else some opening) rest
  | none, line :: rest =>
    match Fence.ofLine? line with
    | some fence => scanLines (some fence) rest
    | none =>
      if (Heading.ofLine? true line).isSome then []
      else (fieldOf? line).toList ++ scanLines none rest

/-- The text without a byte order mark at its start. -/
def dropByteOrderMark (source : List Char) : List Char :=
  match source with
  | c :: rest => if c == byteOrderMark then rest else source
  | [] => []

/-- The metadata found by scanning a text. -/
def scan (source : List Char) : Metadata :=
  let lines := (splitLines (dropByteOrderMark source)).map dropTerminator
  (scanLines none lines).foldl (fun m (key, value) => m.insertIfAbsent key value) empty

end ArticleAudit.Metadata
