import ArticleAudit.Block.Walk
import ArticleAudit.Files.FileTree
import ArticleAudit.Metadata.Resolve
import ArticleAudit.Metadata.SiteDefaults
import ArticleAudit.Rule.Basic

/-!
# Documents with what surrounds them

A document to audit is a text under a file name, with values that its host lays over or under its
own metadata. Loading one from a file takes the defaults of the nearest site configuration along; a
configuration that cannot be read is passed over.
-/

set_option autoImplicit false

namespace ArticleAudit

open ArticleAudit.Files ArticleAudit.Text

/-- A document to audit. -/
structure SourceDocument where
  fileName : String
  text : String
  overrides : List Metadata.Override
  defaults : Metadata
  deriving DecidableEq, Repr, Inhabited

/-- Why a file could not be loaded. -/
inductive FileError
  | notFound (path : String)
  | unreadable
  | siteConfiguration
  deriving DecidableEq, Repr, Inhabited

/-- The message of an error that has one of its own. -/
def FileError.message? : FileError → Option String
  | .notFound path => some ("File not found: " ++ path)
  | _ => none

namespace SourceDocument

/-- A document by itself. -/
def plain (fileName text : String) : SourceDocument :=
  ⟨fileName, text, [], .empty⟩

/-- The metadata that count. -/
def metadata (doc : SourceDocument) : Metadata :=
  Metadata.resolve doc.fileName doc.text.toList doc.overrides doc.defaults

/-- The blocks of the document. -/
def blocks (doc : SourceDocument) (strict : Bool) : List Block :=
  Document.segment doc.fileName doc.text.toList strict

/-- What rules may look at. -/
def context (doc : SourceDocument) (strict : Bool) : AuditContext :=
  let blocks := doc.blocks strict
  ⟨doc.fileName, doc.text.toList, doc.metadata, blocks, (Block.Walk.ofBlocks blocks).toList⟩

/-! ## Loading -/

/-- Reads a document; its file name is the path as given. -/
def read (files : FileTree) (path : String) : Except FileError SourceDocument :=
  if !files.pathExists path then .error (.notFound path)
  else
    match files.readText? path with
    | some text => .ok (plain path text)
    | none => .error .unreadable

/-- The name of a site's configuration. -/
def siteFileName : String := "docfx.json"

/-- The nearest site configuration in the directory of a document or above it. -/
def findSite? (files : FileTree) (path : String) : Option String :=
  ((Path.ofString path).ancestors.map fun dir => joinPath dir.toString siteFileName).find?
    files.isFile

/-- The defaults of a site configuration. -/
def readSite (files : FileTree) (path : String) : Except FileError Metadata :=
  match files.readText? path with
  | none => .error .unreadable
  | some text =>
    match Metadata.ofSiteText? text.toList with
    | some m => .ok m
    | none => .error .siteConfiguration

/-- Loads a document with the defaults of its site. -/
def load (files : FileTree) (path : String) : Except FileError SourceDocument := do
  let doc ← read files path
  match (findSite? files path).map (readSite files) with
  | some (.ok defaults) => return { doc with defaults }
  | _ => return doc

end SourceDocument

end ArticleAudit
