import ArticleAudit.Rule.Registry
import Mathlib.Data.List.Forall2

/-!
# Rules are loaded once

A call of a registry names a source. What the source declares is one matter (`LoadCall.Declares`),
whether all of it compiles another (`LoadCall.Provides`, `LoadCall.FailsWith`). One call on an empty
registry loads what its source provides or leaves the registry empty, and a call on a loaded one
changes nothing; so after any history of calls the rules are those of the first source that provides
some (`Registry.loaded_afterAll`). `Registry.load_once` says what one more call does then.
-/

set_option autoImplicit false

namespace ArticleAudit

open ArticleAudit.Files ArticleAudit.Pattern

/-! ## Compiling a list of rules -/

section Traversal

variable {α β ε : Type} {f : α → Except ε β}

/-- A list is mapped when each of its members is. -/
theorem mapM_eq_ok_iff {xs : List α} {ys : List β} :
    xs.mapM f = .ok ys ↔ List.Forall₂ (fun x y => f x = .ok y) xs ys := by
  induction xs generalizing ys with
  | nil => cases ys <;> simp [pure, Except.pure]
  | cons x rest ih =>
    rw [List.mapM_cons]
    cases hx : f x with
    | error e => cases ys <;> simp [bind, Except.bind, hx]
    | ok y =>
      cases hrest : rest.mapM f with
      | error e => cases ys <;> simp [bind, Except.bind, hx, ← ih, hrest]
      | ok zs => cases ys <;> simp [bind, Except.bind, pure, Except.pure, hx, ← ih, hrest]

/-- A list is not mapped because of the first member that is not. -/
theorem mapM_eq_error_iff {xs : List α} {e : ε} :
    xs.mapM f = .error e ↔ ∃ before x after, xs = before ++ x :: after ∧
      (∀ b ∈ before, ∃ y, f b = .ok y) ∧ f x = .error e := by
  induction xs with
  | nil => simp [pure, Except.pure]
  | cons x rest ih =>
    rw [List.mapM_cons]
    constructor
    · intro h
      cases hx : f x with
      | error e' =>
        obtain rfl : e' = e := by simpa [bind, Except.bind, hx] using h
        exact ⟨[], x, rest, rfl, nofun, hx⟩
      | ok y =>
        obtain ⟨before, z, after, rfl, hbefore, hz⟩ : ∃ before z after,
            rest = before ++ z :: after ∧ (∀ b ∈ before, ∃ y, f b = .ok y) ∧ f z = .error e := by
          refine ih.mp ?_
          cases hrest : rest.mapM f with
          | error e' => simpa [bind, Except.bind, hx, hrest] using h
          | ok ys => simp [bind, Except.bind, pure, Except.pure, hx, hrest] at h
        exact ⟨x :: before, z, after, rfl, List.forall_mem_cons.mpr ⟨⟨y, hx⟩, hbefore⟩, hz⟩
    · rintro ⟨before, z, after, hsplit, hbefore, hz⟩
      cases before with
      | nil =>
        obtain ⟨rfl, -⟩ := List.cons.inj hsplit
        simp [bind, Except.bind, hz]
      | cons b before =>
        obtain ⟨rfl, hrest⟩ := List.cons.inj hsplit
        obtain ⟨⟨y, hx⟩, hbefore⟩ := List.forall_mem_cons.mp hbefore
        have herror := ih.mpr ⟨before, z, after, hrest, hbefore, hz⟩
        simp [bind, Except.bind, hx, herror]

end Traversal

/-! ## What a source holds -/

/-- A call of a registry: the source of rules, and the files as they are when the call is made. -/
structure LoadCall where
  files : FileTree
  source : RuleSource

namespace LoadCall

/-- The rules that the source declares: those that its text reads as, or the bundled ones. -/
inductive Declares : LoadCall → List RuleDescriptor → Prop
  | file {files : FileTree} {path text : String} {ds : List RuleDescriptor} :
    files.readText? path = some text → RuleDescriptor.listOfText? text.toList = some ds →
    Declares ⟨files, .file path⟩ ds
  | json {files : FileTree} {text : String} {ds : List RuleDescriptor} :
    RuleDescriptor.listOfText? text.toList = some ds → Declares ⟨files, .json text⟩ ds
  | bundled {files : FileTree} : Declares ⟨files, .bundled⟩ Bundled.rules

/-- The rules can be loaded from the source: all that it declares compile to them. -/
def Provides (engine : Engine) (c : LoadCall) (rules : List Rule) : Prop :=
  ∃ ds, c.Declares ds ∧ List.Forall₂ (fun d r => Rule.ofDescriptor engine d = .ok r) ds rules

/-- Why nothing can be loaded from the source: its file or its text cannot be read, or a rule that
it declares, the first such one, does not compile. -/
inductive FailsWith (engine : Engine) : LoadCall → LoadError → Prop
  | unreadable {files : FileTree} {path : String} :
    files.readText? path = none → FailsWith engine ⟨files, .file path⟩ .unreadable
  | fileText {files : FileTree} {path text : String} :
    files.readText? path = some text → RuleDescriptor.listOfText? text.toList = none →
    FailsWith engine ⟨files, .file path⟩ .json
  | json {files : FileTree} {text : String} :
    RuleDescriptor.listOfText? text.toList = none → FailsWith engine ⟨files, .json text⟩ .json
  | compile {c : LoadCall} {before after : List RuleDescriptor} {d : RuleDescriptor}
      {e : LoadError} :
    c.Declares (before ++ d :: after) → (∀ b ∈ before, ∃ r, Rule.ofDescriptor engine b = .ok r) →
    Rule.ofDescriptor engine d = .error e → FailsWith engine c e

/-- Nothing can be loaded from the source. -/
def Fails (engine : Engine) (c : LoadCall) : Prop :=
  ∃ e, c.FailsWith engine e

variable {engine : Engine} {c : LoadCall} {rules : List Rule}

/-- What a source declares is determined. -/
theorem Declares.unique {ds ds' : List RuleDescriptor} (h : c.Declares ds) (h' : c.Declares ds') :
    ds = ds' := by
  cases h with
  | file htext hds =>
    cases h' with
    | file htext' hds' =>
      obtain rfl := Option.some.inj (htext.symm.trans htext')
      exact Option.some.inj (hds.symm.trans hds')
  | json hds =>
    cases h' with
    | json hds' => exact Option.some.inj (hds.symm.trans hds')
  | bundled =>
    cases h' with
    | bundled => rfl

/-- The rules of a source that declares some are these, compiled one after the other. -/
theorem Declares.rules_eq {ds : List RuleDescriptor} (h : c.Declares ds) :
    c.source.rules engine c.files = ds.mapM (Rule.ofDescriptor engine) := by
  cases h with
  | file htext hds => simp only [RuleSource.rules, RuleSource.ofText, htext, hds]
  | json hds => simp only [RuleSource.rules, RuleSource.ofText, hds]
  | bundled => rfl

/-- A source declares rules, or it cannot be read. -/
theorem declares_or_fails (engine : Engine) (c : LoadCall) :
    (∃ ds, c.Declares ds) ∨ c.Fails engine := by
  obtain ⟨files, source⟩ := c
  cases source with
  | file path =>
    cases htext : files.readText? path with
    | none => exact .inr ⟨_, .unreadable htext⟩
    | some text =>
      cases hds : RuleDescriptor.listOfText? text.toList with
      | none => exact .inr ⟨_, .fileText htext hds⟩
      | some ds => exact .inl ⟨ds, .file htext hds⟩
  | json text =>
    cases hds : RuleDescriptor.listOfText? text.toList with
    | none => exact .inr ⟨_, .json hds⟩
    | some ds => exact .inl ⟨ds, .json hds⟩
  | bundled => exact .inl ⟨_, .bundled⟩

theorem Provides.rules_eq (h : c.Provides engine rules) :
    c.source.rules engine c.files = .ok rules := by
  obtain ⟨ds, hds, hall⟩ := h
  rw [hds.rules_eq]
  exact mapM_eq_ok_iff.mpr hall

theorem FailsWith.rules_eq {e : LoadError} (h : c.FailsWith engine e) :
    c.source.rules engine c.files = .error e := by
  cases h with
  | unreadable htext => simp only [RuleSource.rules, htext]
  | fileText htext hds => simp only [RuleSource.rules, RuleSource.ofText, htext, hds]
  | json hds => simp only [RuleSource.rules, RuleSource.ofText, hds]
  | compile hds hbefore hd =>
    rw [hds.rules_eq]
    exact mapM_eq_error_iff.mpr ⟨_, _, _, rfl, hbefore, hd⟩

/-- A source provides rules, or there is a reason why it does not. -/
theorem provides_or_fails (engine : Engine) (c : LoadCall) :
    (∃ rules, c.Provides engine rules) ∨ c.Fails engine := by
  rcases c.declares_or_fails engine with ⟨ds, hds⟩ | hfails
  · cases hrules : ds.mapM (Rule.ofDescriptor engine) with
    | ok rules => exact .inl ⟨rules, ds, hds, mapM_eq_ok_iff.mp hrules⟩
    | error e =>
      obtain ⟨before, d, after, rfl, hbefore, hd⟩ := mapM_eq_error_iff.mp hrules
      exact .inr ⟨e, .compile hds hbefore hd⟩
  · exact .inr hfails

/-- A source that declares a rule which does not compile provides none. -/
theorem Declares.fails {ds : List RuleDescriptor} (h : c.Declares ds) {d : RuleDescriptor}
    (hd : d ∈ ds) {e : LoadError} (he : Rule.ofDescriptor engine d = .error e) :
    c.Fails engine := by
  refine (c.provides_or_fails engine).resolve_left ?_
  rintro ⟨rules, ds', hds', hall⟩
  obtain rfl := h.unique hds'
  obtain ⟨i, hi, rfl⟩ := List.mem_iff_getElem.mp hd
  have hok := List.Forall₂.get hall hi (hall.length_eq ▸ hi)
  cases he.symm.trans hok

end LoadCall

/-! ## Histories of calls -/

namespace Registry

variable {engine : Engine} {r : Registry} {c : LoadCall} {rules : List Rule}

/-- Makes a call. -/
def call (engine : Engine) (r : Registry) (c : LoadCall) : Except LoadError Nat × Registry :=
  r.load c.files c.source engine

/-- The registry after calls. -/
def afterAll (engine : Engine) (r : Registry) (calls : List LoadCall) : Registry :=
  calls.foldl (fun r c => (r.call engine c).2) r

/-- A loaded registry does not look at the source. -/
theorem call_of_loaded (h : r.loaded = some rules) (c : LoadCall) :
    r.call engine c = (.ok rules.length, r) := by
  simp only [call, load, h]

theorem call_of_provides (h : r.loaded = none) (hc : c.Provides engine rules) :
    r.call engine c = (.ok rules.length, ofRules rules) := by
  simp only [call, load, h, hc.rules_eq]

theorem call_of_failsWith {e : LoadError} (h : r.loaded = none) (hc : c.FailsWith engine e) :
    r.call engine c = (.error e, r) := by
  simp only [call, load, h, hc.rules_eq]

/-- A call fails only on an empty registry, for a reason of its own source, and changes nothing. -/
theorem of_call_eq_error {e : LoadError} (h : (r.call engine c).1 = .error e) :
    r.loaded = none ∧ c.FailsWith engine e ∧ (r.call engine c).2 = r := by
  cases hloaded : r.loaded with
  | some rules =>
    rw [call_of_loaded hloaded] at h
    cases h
  | none =>
    rcases c.provides_or_fails engine with ⟨rules, hc⟩ | ⟨e', hc⟩
    · rw [call_of_provides hloaded hc] at h
      cases h
    · rw [call_of_failsWith hloaded hc] at h ⊢
      obtain rfl := Except.error.inj h
      exact ⟨rfl, hc, rfl⟩

/-- A call whose source fails changes nothing, and fails on an empty registry. -/
theorem call_of_fails (r : Registry) (hc : c.Fails engine) :
    (r.call engine c).2 = r ∧ (r.loaded = none → ∃ e, (r.call engine c).1 = .error e) := by
  obtain ⟨e, hc⟩ := hc
  cases hloaded : r.loaded with
  | some rules =>
    rw [call_of_loaded hloaded]
    exact ⟨rfl, nofun⟩
  | none =>
    rw [call_of_failsWith hloaded hc]
    exact ⟨rfl, fun _ => ⟨e, rfl⟩⟩

theorem afterAll_of_loaded (h : r.loaded = some rules) (calls : List LoadCall) :
    r.afterAll engine calls = r := by
  induction calls with
  | nil => rfl
  | cons c rest ih =>
    show (r.call engine c).2.afterAll engine rest = r
    rw [call_of_loaded h]
    exact ih

theorem afterAll_append (engine : Engine) (r : Registry) (before after : List LoadCall) :
    r.afterAll engine (before ++ after) = (r.afterAll engine before).afterAll engine after :=
  List.foldl_append

/-- Of the sources of calls, the first that provides rules provides these. -/
def FirstProvided (engine : Engine) (calls : List LoadCall) (rules : List Rule) : Prop :=
  ∃ before c after, calls = before ++ c :: after ∧ (∀ b ∈ before, b.Fails engine) ∧
    c.Provides engine rules

/-- Of calls, one is the first whose source provides rules, or all of them fail. -/
theorem fails_or_firstProvided (engine : Engine) (calls : List LoadCall) :
    (∀ c ∈ calls, c.Fails engine) ∨ ∃ rules, FirstProvided engine calls rules := by
  induction calls with
  | nil => exact .inl nofun
  | cons c rest ih =>
    rcases c.provides_or_fails engine with ⟨rules, hc⟩ | hc
    · exact .inr ⟨rules, [], c, rest, rfl, nofun, hc⟩
    · rcases ih with hall | ⟨rules, before, first, after, rfl, hbefore, hfirst⟩
      · exact .inl (List.forall_mem_cons.mpr ⟨hc, hall⟩)
      · exact .inr ⟨rules, c :: before, first, after, rfl,
          List.forall_mem_cons.mpr ⟨hc, hbefore⟩, hfirst⟩

/-- Calls that fail leave the registry as it is. -/
theorem afterAll_of_fails (h : r.loaded = none) {calls : List LoadCall}
    (hcalls : ∀ c ∈ calls, c.Fails engine) : r.afterAll engine calls = r := by
  induction calls with
  | nil => rfl
  | cons c rest ih =>
    obtain ⟨⟨e, hc⟩, hrest⟩ := List.forall_mem_cons.mp hcalls
    show (r.call engine c).2.afterAll engine rest = r
    rw [call_of_failsWith h hc]
    exact ih hrest

/-- Calls load the rules of the first source that provides some. -/
theorem loaded_afterAll (h : r.loaded = none) {calls : List LoadCall}
    (hcalls : FirstProvided engine calls rules) : r.afterAll engine calls = ofRules rules := by
  obtain ⟨before, first, after, rfl, hbefore, hfirst⟩ := hcalls
  rw [afterAll_append, afterAll_of_fails h hbefore]
  show (r.call engine first).2.afterAll engine after = ofRules rules
  rw [call_of_provides h hfirst]
  exact afterAll_of_loaded rfl after

theorem loaded_of_firstProvided {calls : List LoadCall}
    (hcalls : FirstProvided engine calls rules) :
    (empty.afterAll engine calls).loaded = some rules :=
  congrArg loaded (loaded_afterAll rfl hcalls)

theorem loaded_of_fails {calls : List LoadCall} (hcalls : ∀ c ∈ calls, c.Fails engine) :
    (empty.afterAll engine calls).loaded = none :=
  congrArg loaded (afterAll_of_fails rfl hcalls)

/-- A registry is empty after calls only if all of them fail. -/
theorem fails_of_loaded_eq_none {calls : List LoadCall}
    (h : (empty.afterAll engine calls).loaded = none) : ∀ c ∈ calls, c.Fails engine := by
  refine (fails_or_firstProvided engine calls).resolve_right ?_
  rintro ⟨rules, hcalls⟩
  cases h.symm.trans (loaded_of_firstProvided hcalls)

theorem isLoaded_eq_false_iff : r.isLoaded = false ↔ r.loaded = none := by
  cases h : r.loaded <;> simp [isLoaded, h]

/-- After any calls of a new registry, its rules are those of the first source that could be read
and compiled as a whole, and none if there was no such source. One more call then does this:

* if it fails, there is no such source yet and its own source has a reason to fail; what the
  registry shows is unchanged, and a later call can still load what its source provides;
* if it is the first whose source provides rules, it answers their number and loads them;
* if a call before it was, it answers the number of the rules that are loaded, whatever its source;
* if a rule that its source declares does not compile, it loads none of them. -/
theorem load_once (engine : Engine) (calls : List LoadCall) (c : LoadCall) :
    let r := empty.afterAll engine calls
    let next := (r.call engine c).2
    (((∀ b ∈ calls, b.Fails engine) ∧ r.isLoaded = false ∧ r.rules = []) ∨
      ∃ rules, FirstProvided engine calls rules ∧ r.isLoaded = true ∧ r.rules = rules) ∧
    (∀ e, (r.call engine c).1 = .error e →
      (∀ b ∈ calls, b.Fails engine) ∧ c.FailsWith engine e ∧
        next.isLoaded = r.isLoaded ∧ next.rules = r.rules ∧
        (∀ ruleSet topic, next.applicable ruleSet topic = r.applicable ruleSet topic) ∧
        ∀ later rules, later.Provides engine rules →
          next.call engine later = (.ok rules.length, ofRules rules)) ∧
    (∀ rules, (∀ b ∈ calls, b.Fails engine) → c.Provides engine rules →
      r.call engine c = (.ok rules.length, ofRules rules)) ∧
    (∀ rules, FirstProvided engine calls rules → r.call engine c = (.ok rules.length, r)) ∧
    (∀ ds, c.Declares ds → (∃ d ∈ ds, ∃ e, Rule.ofDescriptor engine d = .error e) →
      next = r ∧ (r.isLoaded = false → ∃ e, (r.call engine c).1 = .error e)) := by
  intro r next
  refine ⟨?_, ?_, ?_, ?_, ?_⟩
  · rcases fails_or_firstProvided engine calls with hall | ⟨rules, hfirst⟩
    · left
      have hloaded : r.loaded = none := loaded_of_fails hall
      exact ⟨hall, by simp [isLoaded, hloaded], by simp [Registry.rules, hloaded]⟩
    · right
      have hloaded : r.loaded = some rules := loaded_of_firstProvided hfirst
      exact ⟨rules, hfirst, by simp [isLoaded, hloaded], by simp [Registry.rules, hloaded]⟩
  · intro e he
    obtain ⟨hloaded, hc, hnext⟩ := of_call_eq_error he
    have hsame : next = r := hnext
    rw [hsame]
    exact ⟨fails_of_loaded_eq_none hloaded, hc, rfl, rfl, fun _ _ => rfl,
      fun later rules hlater => call_of_provides hloaded hlater⟩
  · exact fun rules hall hc => call_of_provides (loaded_of_fails hall) hc
  · exact fun rules hfirst => call_of_loaded (loaded_of_firstProvided hfirst) c
  · rintro ds hds ⟨d, hd, e, he⟩
    obtain ⟨hsame, herror⟩ := r.call_of_fails (hds.fails hd he)
    exact ⟨hsame, fun hempty => herror (isLoaded_eq_false_iff.mp hempty)⟩

end Registry

end ArticleAudit
