import ArticleAudit.Files.Path
import ArticleAudit.Markdown.LineFacts
import ArticleAudit.Text.Case

/-!
# Tables of contents

A document is a table of contents by its file name, or because its first meaningful line starts an
item with a name or is the key `items`. In YAML files comments are not meaningful.
-/

set_option autoImplicit false

namespace ArticleAudit.Toc

open ArticleAudit.Text ArticleAudit.Markdown

/-- The last part of a file name, in ASCII small letters. -/
def baseName (fileName : String) : String :=
  String.ofList (lowerAscii (((Files.Path.ofString fileName).fileName?.getD fileName).toList))

/-- The name is that of a YAML file. -/
def isYamlName (name : String) : Bool :=
  ".yml".toList.isSuffixOf name.toList || ".yaml".toList.isSuffixOf name.toList

/-- The line is a comment. -/
def isComment (l : LineFacts) : Bool :=
  (trimStart l.text).head? == some '#'

/-- The line starts like an item, or opens the list of items. -/
def looksLikeToc (l : LineFacts) : Bool :=
  let text := trim l.text
  "- name:".toList.isPrefixOf text || text == "items:".toList

/-- The document is a table of contents. -/
def isToc (fileName : String) (lines : List LineFacts) : Bool :=
  let name := baseName fileName
  if name == "toc.yml" || name == "toc.yaml" then true
  else
    let meaningful := lines.find? fun l => !l.isBlank && !(isYamlName name && isComment l)
    (meaningful.map looksLikeToc).getD false

end ArticleAudit.Toc
