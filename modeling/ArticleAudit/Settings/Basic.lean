import ArticleAudit.Toml.Reader
import ArticleAudit.Toml.Writer

/-!
# Settings

What a user can settle once for all runs. As text, settings are TOML: one line each, where a line
that is missing leaves the value that counts without settings.
-/

set_option autoImplicit false

namespace ArticleAudit

/-- The settings of a run. -/
structure Settings where
  rulesPath? : Option String
  ruleSet : String
  strict : Bool
  verbose : Bool
  deriving DecidableEq, Repr, Inhabited

namespace Settings

/-- The settings that count where nothing is settled. -/
def default : Settings :=
  ⟨none, "MVC", false, false⟩

/-! ## Text -/

/-- The lines of settings. -/
def toChars (s : Settings) : List Char :=
  (match s.rulesPath? with
    | some path => Toml.writeMember "rules_path" (Toml.writeText path.toList)
    | none => []) ++
  Toml.writeMember "rule_set" (Toml.writeText s.ruleSet.toList) ++
  Toml.writeMember "strict" (Toml.writeBool s.strict) ++
  Toml.writeMember "verbose" (Toml.writeBool s.verbose)

/-- The text of settings. -/
def toText (s : Settings) : String :=
  String.ofList s.toChars

/-- The member of a name, or a value of its own where there is none; a member must be of the kind
that is read. -/
def readMember? {α : Type} (members : List (String × Toml.Value)) (name : String) (otherwise : α)
    (read : Toml.Value → Option α) : Option α :=
  match members.lookup name with
  | none => some otherwise
  | some v => read v

/-- The settings of a table. Members of other names are passed over. -/
def ofMembers? (members : List (String × Toml.Value)) : Option Settings := do
  return ⟨← readMember? members "rules_path" default.rulesPath? fun v => v.string?.map some,
    ← readMember? members "rule_set" default.ruleSet Toml.Value.string?,
    ← readMember? members "strict" default.strict Toml.Value.boolean?,
    ← readMember? members "verbose" default.verbose Toml.Value.boolean?⟩

/-- The settings of a text. -/
def ofChars? (cs : List Char) : Option Settings :=
  (Toml.read? cs).bind ofMembers?

end Settings

end ArticleAudit
