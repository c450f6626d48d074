import ArticleAudit.Document
import ArticleAudit.Text.Case

/-!
# Where metadata stand

A Markdown document has its metadata in front matter; a YAML document has them under the top-level
key `metadata`, indented, and they are read without the common indentation.
-/

set_option autoImplicit false

namespace ArticleAudit.Metadata

open ArticleAudit.Text

/-- The file name is that of a YAML document. -/
def isYamlFile (fileName : String) : Bool :=
  let lower := lowerAscii fileName.toList
  ".yml".toList.isSuffixOf lower || ".yaml".toList.isSuffixOf lower

/-- The line belongs to the value of a top-level key. -/
def isIndented (line : List Char) : Bool :=
  (trim line).isEmpty || line.head?.any isIndent

/-- The lines under the first top-level key `metadata`. -/
def bodyLines (lines : List (List Char)) : List (List Char) :=
  ((lines.dropWhile fun l => trimEnd l != "metadata:".toList).drop 1).takeWhile isIndented

/-- The number of bytes by which a line is indented. -/
def indentBytes (line : List Char) : Nat :=
  byteSize line - byteSize (trimStart line)

/-- The least indentation of the lines that are not blank. -/
def commonIndent (lines : List (List Char)) : Nat :=
  (((lines.filter fun l => !(trim l).isEmpty).map indentBytes).min?).getD 0

/-- Lines without their common indentation and trailing white space. -/
def dedent (lines : List (List Char)) : List (List Char) :=
  lines.map fun l => trimEnd ((dropBytes? (commonIndent lines) l).getD [])

/-- The text of a document's metadata; empty when it has none. -/
def textOf (fileName : String) (source : List Char) : List Char :=
  if isYamlFile fileName then
    (dedent (bodyLines ((splitLines source).map dropTerminator))).flatMap fun l => l ++ ['\n']
  else
    match Document.frontMatter? source with
    | some fm => slice source fm.body
    | none => []

end ArticleAudit.Metadata
