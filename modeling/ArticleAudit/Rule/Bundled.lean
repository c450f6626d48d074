import ArticleAudit.Rule.Check

/-!
# The bundled rules

The rules that count where no others are given, for the topics of learning articles.
-/

set_option autoImplicit false

namespace ArticleAudit

/-- The set of rules that counts where no other is given. -/
def defaultRuleSet : String := "MVC"

namespace Bundled

/-- A rule of the default set. -/
def rule (ruleNum : UInt32) (ruleGroup : String) (dependsOn : Option UInt32) (title : String)
    (check : Check) : RuleDescriptor :=
  ⟨ruleNum, defaultRuleSet, ruleGroup, dependsOn, title, check⟩

/-- The bundled rules. -/
def rules : List RuleDescriptor :=
  [rule 1 "overview" none "Overview has an H1 heading"
     (.requireBlock "Header" (some 1) 1),
   rule 2 "overview" none "Overview has no more than one H1 heading"
     (.maxBlocks "Header" (some 1) 1),
   rule 3 "overview" none "Overview has required metadata"
     (.requireMetadata ["title", "description", "ms.date"]),
   rule 4 "overview" none "Overview ends with Next steps"
     (.requireSection "^next steps$" (some 2)),
   rule 5 "overview" none "Headings don't skip levels"
     (.headingHierarchy),
   rule 6 "overview" none "Links don't hard-code a locale"
     (.linkTargets "(?i)^https?://(docs|learn)\\.microsoft\\.com/[a-z]\x7b2\x7d-[a-z]\x7b2\x7d/"),
   rule 7 "overview" (some 4) "Next steps links to a follow-up article"
     (.requireBlock "Link" none 1),
   rule 1 "quickstart" none "Quickstart title starts with Quickstart"
     (.metadataMatches "title" "(?i)^quickstart"),
   rule 2 "quickstart" none "Quickstart has Prerequisites"
     (.requireSection "^prerequisites$" (some 2)),
   rule 3 "quickstart" none "Quickstart has Clean up resources"
     (.requireSection "^clean up resources$" (some 2)),
   rule 4 "quickstart" none "Quickstart ends with Next steps"
     (.requireSection "^next steps$" (some 2)),
   rule 1 "how-to" none "How-to has numbered steps"
     (.requireBlock "NumberedList" none 1),
   rule 2 "how-to" none "Headings don't skip levels"
     (.headingHierarchy),
   rule 1 "tutorial" none "Tutorial has Prerequisites"
     (.requireSection "^prerequisites$" (some 2)),
   rule 2 "tutorial" none "Tutorial has numbered steps"
     (.requireBlock "NumberedList" none 1),
   rule 3 "tutorial" none "Tutorial has no TODO markers"
     (.forbidPattern "\\bTODO\\b" []),
   rule 1 "conceptual" none "Conceptual article has an H1 heading"
     (.requireBlock "Header" (some 1) 1),
   rule 2 "conceptual" none "Conceptual article has at most five code blocks"
     (.maxBlocks "CodeFence" none 5)]

end Bundled

end ArticleAudit
