import ArticleAudit.Proofs.Document.Origins
import ArticleAudit.Proofs.Document.Sections
import ArticleAudit.Proofs.Markdown.Brackets
import ArticleAudit.Proofs.Rule.Order

/-!
# The targets that a check sees

The check of link targets looks at the link blocks of a document. In a paragraph these are the links
at the brackets that no other link holds: `Check.linkTargets_sees` says so of every construct that
is not escaped and not in code, and that a document which passes has no forbidden target among them.
The construct of an image in the text of a link has no block, so its target is not looked at
(`Check.linkTargets_passes_linkedImage`).
-/

set_option autoImplicit false

namespace ArticleAudit.Document

open ArticleAudit.Block ArticleAudit.Text ArticleAudit.Markdown

variable {source : List Char} {fileName : String} {strict : Bool} {p : Block}

/-- The children of a paragraph are the links of its text. -/
theorem children_of_paragraph (hp : p ∈ preorderAll (segment fileName source strict))
    (hkind : p.kind = .paragraph) : p.children = linkBlocks p.span.start p.text.toList := by
  cases htoc : Toc.isToc fileName (LineFacts.ofText strict source) with
  | false =>
    obtain ⟨_, haround⟩ := exists_standsAmong htoc p hp
    obtain ⟨s, hs⟩ := (origin_of_standsAmong htoc haround (by simp [hkind])).paragraph hkind
    have hp := List.mem_singleton.mp hs
    have hchildren : p.children = linkBlocks s.start (slice source s) := by rw [hp]; rfl
    have hstart : p.span.start = s.start := by rw [hp]; rfl
    have htext : p.text = String.ofList (slice source s) := by rw [hp]; rfl
    rw [hchildren, hstart, htext, String.toList_ofList]
  | true =>
    -- A table of contents has no paragraphs.
    have htocBlock := tocBlock_segment htoc p hp
    rw [Toc.TocBlock, hkind] at htocBlock
    exact absurd htocBlock (by decide)

end ArticleAudit.Document

namespace ArticleAudit.Check

open ArticleAudit.Block ArticleAudit.Text ArticleAudit.Markdown ArticleAudit.Pattern

variable {engine : Engine} {ruleNum : UInt32} {forbid : String} {strategy : Strategy} {p : Block}
  {l : LinkParts} {before after : List Char}

/-- The check passes when no link has a forbidden target. -/
theorem isIn_eq_false_of_passes {ctx : AuditContext} {b : Block} {target : List Char}
    (hcompile : (linkTargets forbid).compile ruleNum engine = .ok strategy)
    (hpasses : strategy ctx = .ok (.pass [])) (hb : b ∈ ctx.allBlocks) (hkind : b.kind = .link)
    (htarget : b.targetText? = some (String.ofList target)) :
    ∃ pattern, patternOf engine ruleNum false forbid = .ok pattern ∧
      pattern.isIn target = false := by
  obtain ⟨pattern, hpattern, hstrategy⟩ := exists_of_bind_eq_ok hcompile
  obtain rfl := Except.ok.inj hstrategy
  refine ⟨pattern, hpattern, ?_⟩
  have hnone := failIfAny_eq_pass_iff.mp (Except.ok.inj hpasses)
  have hbad := List.filterMap_eq_nil_iff.mp hnone b hb
  obtain ⟨s, hs, -⟩ := Option.bind_eq_some_iff.mp htarget
  rw [badTarget?, if_pos (by simp [hkind]), hs, htarget] at hbad
  simpa using hbad

theorem badTarget?_eq_none {pattern : Finder} {b : Block}
    (h : ∀ text ∈ b.targetText?, pattern.isIn text.toList = false) :
    badTarget? pattern b = none := by
  unfold badTarget?
  split
  · split
    · next htext => rw [h _ htext]; rfl
    · rfl
  · rfl

/-- Of the constructs in a paragraph that are not escaped and not in code, exactly those that stand
in no other link have a link block. If the document passes, their targets do not fit the pattern. -/
theorem linkTargets_sees (engine : Engine) (doc : SourceDocument) (strict : Bool)
    (metadata : Metadata)
    (hcompile : (linkTargets forbid).compile ruleNum engine = .ok strategy)
    (hp : p ∈ preorderAll (doc.blocks strict)) (hkind : p.kind = .paragraph) (hl : l.IsLink)
    (htext : p.text.toList = before ++ (l.bare.source ++ after)) (hescape : ¬ EscapesNext before)
    (hcode : ∀ full inner, Inline.codeSpan full inner ∈ parseInline p.span.start p.text.toList →
      ¬ HoldsByte full (p.span.start + byteSize before)) :
    let ctx : AuditContext := { doc.context strict with metadata }
    let bracket := p.span.start + byteSize before
    let free := ∀ n ∈ parseInline p.span.start p.text.toList, ¬ n.Holds bracket
    ((∃ b ∈ p.children, IsLinkBlock b l bracket) ↔ free) ∧
      (strategy ctx = .ok (.pass []) → free →
        ∃ pattern, patternOf engine ruleNum false forbid = .ok pattern ∧
          pattern.isIn l.target = false) := by
  intro ctx bracket free
  have hsees : (∃ b ∈ p.children, IsLinkBlock b l bracket) ↔ free := by
    rw [htext] at hcode
    rw [Document.children_of_paragraph hp hkind]
    show _ ↔ ∀ n ∈ parseInline p.span.start p.text.toList, ¬ n.Holds bracket
    rw [htext, exists_isLinkBlock_iff_hasLinkAt, hasLinkAt_iff _ hl hescape hcode]
  -- The block of the link is one of the document, so the check has looked at its target.
  refine ⟨hsees, fun hpasses hfree => ?_⟩
  obtain ⟨b, hb, hlink⟩ := hsees.mpr hfree
  have hmem : b ∈ ctx.allBlocks := by
    show b ∈ (doc.context strict).allBlocks
    rw [allBlocks_context]
    exact mem_preorderAll_of_mem_children hp hb
  exact isIn_eq_false_of_passes hcompile hpasses hmem hlink.kind hlink.targetText

/-- A document that is one paragraph. -/
theorem exists_paragraph {blocks : List Block} {start : Nat} {text : String}
    (h : blocks.map (fun b => (b.kind, b.span.start, b.text)) = [(.paragraph, start, text)]) :
    ∃ p ∈ preorderAll blocks, p.kind = .paragraph ∧ p.span.start = start ∧ p.text = text := by
  obtain ⟨p, rfl, hfields⟩ := List.map_eq_singleton_iff.mp h
  obtain ⟨hkind, hrest⟩ := Prod.mk.inj hfields
  obtain ⟨hstart, htext⟩ := Prod.mk.inj hrest
  refine ⟨p, ?_, hkind, hstart, htext⟩
  rw [preorderAll_cons, preorder_eq]
  exact List.mem_cons_self

/-- An image behind a bracket that opens no link. -/
theorem linkTargets_sees_image :
    let doc : SourceDocument := .plain "a.md" "[x ![a](c.md)"
    ∃ strategy l, ∃ p ∈ preorderAll (doc.blocks false),
      (linkTargets "draft").compile 1 .threaded = .ok strategy ∧
      LinkParts.target l = "c.md".toList ∧ ∃ b ∈ p.children, IsLinkBlock b l 4 := by
  intro doc
  obtain ⟨strategy, hcompile⟩ :
      ∃ strategy, (linkTargets "draft").compile 1 .threaded = .ok strategy := ⟨_, rfl⟩
  have hmarkdown : Toc.isToc "a.md"
      (LineFacts.ofText false "[x ![a](c.md)".toList) = false := by
    decide
  have hblocks : (doc.blocks false).map (fun b => (b.kind, b.span.start, b.text)) =
      [(.paragraph, 0, "[x ![a](c.md)")] := by
    rw [show doc.blocks false = _ from Document.segment_eq_of_markdown hmarkdown]
    cbv
  obtain ⟨p, hp, hkind, hstart, htext⟩ := exists_paragraph hblocks
  have hread : linkAt? "![a](c.md)".toList =
      some ⟨true, "a".toList, [], "c.md".toList, [')']⟩ := by
    decide
  have hnodes : parseInline p.span.start p.text.toList =
      [.text ⟨0, 3⟩, .link ⟨3, 13⟩ ⟨5, 6⟩ ⟨8, 12⟩ true] := by
    rw [hstart, htext]
    decide +kernel
  have hcode : ∀ full inner,
      Inline.codeSpan full inner ∉ parseInline p.span.start p.text.toList := by
    intro full inner
    rw [hnodes]
    simp
  have hcs : p.text.toList = "[x !".toList ++
      (LinkParts.source (LinkParts.bare ⟨true, "a".toList, [], "c.md".toList, [')']⟩) ++ []) := by
    rw [htext]
    decide
  have hsees := (linkTargets_sees .threaded doc false .empty hcompile hp hkind
    (linkAt?_eq_some_iff.mp hread).1 hcs (by decide)
    (fun full inner h => absurd h (hcode full inner))).1
  rw [hnodes, hstart] at hsees
  exact ⟨strategy, _, p, hp, hcompile, rfl, hsees.mpr (by decide)⟩

/-- The target of an image in the text of a link fits the pattern, and the document passes. -/
theorem linkTargets_passes_linkedImage :
    let doc : SourceDocument := .plain "a.md" "[![a](b)](c)"
    ∃ strategy pattern l, ∃ p ∈ preorderAll (doc.blocks false), p.kind = .paragraph ∧
      LinkParts.IsLink l ∧ l.image = true ∧ l.target = "b".toList ∧
      p.text.toList = "[!".toList ++ (l.bare.source ++ "](c)".toList) ∧
      ¬ EscapesNext "[!".toList ∧
      parseInline p.span.start p.text.toList = [.link ⟨0, 12⟩ ⟨1, 8⟩ ⟨10, 11⟩ false] ∧
      (∀ b ∈ p.children, b.targetText? ≠ some "b") ∧
      (linkTargets "b").compile 1 .threaded = .ok strategy ∧
      strategy (doc.context false) = .ok (.pass []) ∧
      patternOf .threaded 1 false "b" = .ok pattern ∧ pattern.isIn l.target = true := by
  intro doc
  have hmarkdown : Toc.isToc "a.md"
      (LineFacts.ofText false "[![a](b)](c)".toList) = false := by
    decide
  have hsegment : doc.blocks false = _ := Document.segment_eq_of_markdown hmarkdown
  have hblocks : (doc.blocks false).map (fun b => (b.kind, b.span.start, b.text)) =
      [(.paragraph, 0, "[![a](b)](c)")] := by
    rw [hsegment]
    cbv
  have htargets : (preorderAll (doc.blocks false)).map (·.targetText?) = [none, some "c"] := by
    rw [hsegment]
    cbv
  -- All the links of the document have the target of the outer one.
  obtain ⟨p, hp, hkind, hstart, htext⟩ := exists_paragraph hblocks
  have hread : linkAt? "![a](b)".toList = some ⟨true, "a".toList, [], "b".toList, [')']⟩ := by
    decide
  have hfits : (Engine.threaded.compile? false "b").map
      (fun pattern => (pattern.isIn "b".toList, pattern.isIn "c".toList)) = some (true, false) := by
    cbv
  obtain ⟨pattern, hcompile, hfits⟩ := Option.map_eq_some_iff.mp hfits
  obtain ⟨hfit, hnot⟩ := Prod.mk.inj hfits
  have hpattern : patternOf .threaded 1 false "b" = .ok pattern := by
    rw [patternOf, hcompile]
  have htarget : ∀ b ∈ preorderAll (doc.blocks false), ∀ text ∈ b.targetText?, text = "c" := by
    intro b hb text htext
    have hmem : b.targetText? ∈ (preorderAll (doc.blocks false)).map (·.targetText?) :=
      List.mem_map_of_mem hb
    rw [htargets, Option.mem_def.mp htext] at hmem
    simpa using hmem
  refine ⟨always (linkTargetsOutcome pattern), pattern, _, p, hp, hkind,
    (linkAt?_eq_some_iff.mp hread).1, rfl, rfl, ?_, by decide, ?_, ?_, ?_, ?_, hpattern, hfit⟩
  · rw [htext]
    decide
  · rw [hstart, htext]
    decide +kernel
  · intro b hb htext
    exact absurd (htarget b (mem_preorderAll_of_mem_children hp hb) "b" htext) (by decide)
  · rw [compile, hpattern]
    rfl
  · refine congrArg Except.ok (failIfAny_eq_pass_iff.mpr (List.filterMap_eq_nil_iff.mpr ?_))
    intro b hb
    rw [allBlocks_context] at hb
    refine badTarget?_eq_none fun text htext => ?_
    rw [htarget b hb text htext, hnot]

end ArticleAudit.Check
