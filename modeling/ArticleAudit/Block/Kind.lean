import ArticleAudit.Text.Case

/-!
# Kinds of blocks

A kind is written by its name. Names are looked up without regard to case and underscores, and
`null` stands for the kind that targets no structure.
-/

set_option autoImplicit false

namespace ArticleAudit

/-- What a block of a document is. -/
inductive BlockKind
  /-- A heading line. -/
  | header
  /-- A table of pipes. -/
  | table
  /-- A cell of a table's first row. -/
  | tableColumn
  /-- A later row of a table. -/
  | tableRow
  /-- A cell of a later row. -/
  | tableRowValue
  /-- A list with bullets. -/
  | bulletedList
  /-- A further line of a list item. -/
  | listRow
  /-- A list with numbers. -/
  | numberedList
  /-- An item of a list. -/
  | listItem
  /-- A link or an image. -/
  | link
  /-- Lines of plain text. -/
  | paragraph
  /-- The front matter of a document. -/
  | metadata
  /-- A field of the front matter. -/
  | metadataField
  /-- An alert. -/
  | note
  /-- A top-level item of a table of contents that has items of its own. -/
  | tocTopNode
  /-- A nested item of a table of contents that has items of its own. -/
  | tocNode
  /-- A nested item of a table of contents without items. -/
  | tocEntry
  /-- A top-level item of a table of contents without items. -/
  | tocTopEntry
  /-- Fenced code. -/
  | codeFence
  /-- The file an item of a table of contents refers to. -/
  | fileName
  /-- A heading that is a link to a tab. -/
  | conceptualTab
  /-- A zone. -/
  | zonePivot
  /-- A resource type named in fenced code. -/
  | resourceType
  /-- The provider namespace of a resource type. -/
  | resourceNamespace
  /-- No block. -/
  | nothing
  deriving DecidableEq, Repr, Inhabited

namespace BlockKind

/-- All kinds. -/
def all : List BlockKind :=
  [header, table, tableColumn, tableRow, tableRowValue, bulletedList, listRow, numberedList,
    listItem, link, paragraph, metadata, metadataField, note, tocTopNode, tocNode, tocEntry,
    tocTopEntry, codeFence, fileName, conceptualTab, zonePivot, resourceType, resourceNamespace,
    nothing]

/-- The name of a kind in rules, outlines and messages. -/
def name : BlockKind → String
  | header => "Header"
  | table => "Table"
  | tableColumn => "TableColumn"
  | tableRow => "TableRow"
  | tableRowValue => "TableRowValue"
  | bulletedList => "BulletedList"
  | listRow => "ListRow"
  | numberedList => "NumberedList"
  | listItem => "ListItem"
  | link => "Link"
  | paragraph => "Paragraph"
  | metadata => "Metadata"
  | metadataField => "MetadataField"
  | note => "Note"
  | tocTopNode => "TocTopNode"
  | tocNode => "TocNode"
  | tocEntry => "TocEntry"
  | tocTopEntry => "TocTopEntry"
  | codeFence => "CodeFence"
  | fileName => "FileName"
  | conceptualTab => "ConceptualTab"
  | zonePivot => "ZonePivot"
  | resourceType => "CodeFenceArmResourceType"
  | resourceNamespace => "CodeFenceArmNamespace"
  | nothing => "None"

/-- A name as it is compared: without underscores, every character lowered by itself. -/
def looseName (name : String) : List Char :=
  (name.toList.filter (· != '_')).flatMap Text.lowerChar

/-- The kind with a loosely written name. -/
def ofName? (name : String) : Option BlockKind :=
  let wanted := looseName name
  if wanted == "null".toList then some nothing
  else all.find? fun kind => looseName kind.name == wanted

end BlockKind

end ArticleAudit
