import ArticleAudit.Proofs.Json.Inverse
import ArticleAudit.Rule.Encoding

/-!
# Rules are read back from their text

A rule is written as an object with all of its fields: what may be left out is written as null or
with its value. Each field is read back as it was written, whatever stands around it, and so is each
kind of check (`Check.ofTree?_toTree`) and each rule (`RuleDescriptor.ofTree?_toTree`). With the
reader of JSON that inverts its writer this gives the texts
(`RuleDescriptor.listOfText?_listToText`).
-/

set_option autoImplicit false

namespace ArticleAudit

open ArticleAudit.Json ArticleAudit.Decimal

/-! ## Fields -/

theorem natOfDigits_toDigits (n : Nat) : natOfDigits (Nat.toDigits 10 n) = n :=
  Nat.ofDigitChars_toDigits (by decide) (by decide)

theorem natBelow?_ofNat {n bound : Nat} (h : n < bound) :
    (Tree.ofNat n).natBelow? bound = some n := by
  simp [Tree.ofNat, Tree.natBelow?, NumberText.natBelow?, NumberText.ofNat, NumberText.isWhole,
    natOfDigits_toDigits, h]

@[simp] theorem readByte?_ofNat (n : UInt8) : readByte? (.ofNat n.toNat) = some n := by
  rw [readByte?, natBelow?_ofNat n.toNat_lt, Option.map_some, UInt8.ofNat_toNat]

@[simp] theorem readWord32?_ofNat (n : UInt32) : readWord32? (.ofNat n.toNat) = some n := by
  rw [readWord32?, natBelow?_ofNat n.toNat_lt, Option.map_some, UInt32.ofNat_toNat]

@[simp] theorem readWord64?_ofNat (n : UInt64) : readWord64? (.ofNat n.toNat) = some n := by
  rw [readWord64?, natBelow?_ofNat n.toNat_lt, Option.map_some, UInt64.ofNat_toNat]

@[simp] theorem text?_ofString (s : String) : (Tree.ofString s).text? = some s :=
  rfl

@[simp] theorem texts?_ofString (texts : List String) :
    (Tree.array (texts.map .ofString)).texts? = some texts := by
  have hread : Tree.text? ∘ Tree.ofString = fun s => pure (id s) := rfl
  rw [Tree.texts?, List.mapM_map, hread, List.mapM_pure, List.map_id]
  rfl

/-- A field that must be there is read back if its value is. -/
@[simp] theorem required?_some {α : Type} (read : Tree → Option α) (t : Tree) :
    Tree.required? read (some t) = read t :=
  rfl

@[simp] theorem defaulted?_some {α : Type} (default : α) (read : Tree → Option α) (t : Tree) :
    Tree.defaulted? default read (some t) = read t :=
  rfl

/-- An optional field is read back: null stands for its absence. -/
theorem optional?_ofOption {α : Type} {write : α → Tree} {read : Tree → Option α}
    (hread : ∀ a, read (write a) = some a) (hnull : ∀ a, write a ≠ .null) (o : Option α) :
    Tree.optional? read (.ofOption write o) = some o := by
  cases o with
  | none => rfl
  | some a =>
    rw [Tree.ofOption, Tree.optional?]
    · rw [hread]
      rfl
    · exact hnull a

@[simp] theorem readLevel?_ofOption (level : Option UInt8) :
    Check.readLevel? (some (.ofOption (fun n => .ofNat n.toNat) level)) = some level :=
  optional?_ofOption readByte?_ofNat nofun level

/-- A member of an object with distinct names is found by its name. -/
theorem lookup_of_mem {members : List (String × Tree)} (h : (members.map Prod.fst).Nodup)
    {m : String × Tree} (hm : m ∈ members) :
    (members.map fun m => (some m.1, m.2)).lookup (some m.1) = some m.2 := by
  induction members with
  | nil => cases hm
  | cons first rest ih =>
    obtain ⟨hfirst, hrest⟩ := List.nodup_cons.mp h
    rcases List.mem_cons.mp hm with rfl | hm
    · simp
    · have hne : m.1 ≠ first.1 := by
        intro heq
        exact hfirst (heq ▸ List.mem_map_of_mem hm)
      rw [List.map_cons, List.lookup_cons, beq_false_of_ne (by simpa using hne)]
      exact ih hrest hm

/-- The fields of a record with distinct names are those of its object. -/
theorem fields?_ofMembers {members : List (String × Tree)} (h : (members.map Prod.fst).Nodup) :
    (Tree.ofMembers members).fields? (members.map Prod.fst) =
      some (members.map fun m => some m.2) := by
  have hkeys : Tree.keys? (members.map fun m => (some m.1, m.2)) = some (members.map Prod.fst) := by
    have hread : (fun m : Option String × Tree => m.1) ∘
        (fun m : String × Tree => (some m.1, m.2)) = fun m => pure m.1 := rfl
    rw [Tree.keys?, List.mapM_map, hread, List.mapM_pure]
    rfl
  have hcount : ((members.map Prod.fst).all fun name =>
      decide ((members.map Prod.fst).count name ≤ 1)) = true := by
    rw [List.all_eq_true]
    exact fun name _ => decide_eq_true (List.nodup_iff_count.mp h name)
  rw [Tree.ofMembers, Tree.fields?, hkeys, Option.bind_some, if_pos hcount, List.map_map]
  exact congrArg some (List.map_congr_left fun m hm => lookup_of_mem h hm)

/-! ## Values that can be read -/

@[simp] theorem isSound_ofString (levels : Nat) (s : String) :
    (Tree.ofString s).isSound levels = true := by
  cases levels <;> rfl

theorem isSound_ofNat {n : Nat} (h : n < UInt64.size) (levels : Nat) :
    (Tree.ofNat n).isSound levels = true := by
  have hword : fitsWord 64 (Int.ofNat n) = true := by
    simpa [fitsWord] using h
  have hnumber : (NumberText.ofNat n).number? = some (.int n) := by
    rw [NumberText.number?]
    simp only [NumberText.ofNat, natOfDigits_toDigits]
    rw [if_pos (by simpa [NumberText.isWhole] using hword)]
  cases levels <;> simp [Tree.ofNat, Tree.isSound, hnumber]

@[simp] theorem isSound_ofWord64 (levels : Nat) (n : UInt64) :
    (Tree.ofNat n.toNat).isSound levels = true :=
  isSound_ofNat n.toNat_lt levels

@[simp] theorem isSound_ofLevel (levels : Nat) (level : Option UInt8) :
    (Tree.ofOption (fun n => .ofNat n.toNat) level).isSound levels = true := by
  cases level with
  | none => cases levels <;> rfl
  | some n => exact isSound_ofNat (Nat.lt_trans n.toNat_lt (by decide)) levels

@[simp] theorem isSound_ofStrings (levels : Nat) (texts : List String) :
    (Tree.array (texts.map .ofString)).isSound (levels + 1) = true := by
  simp [Tree.isSound]

/-! ## Values that can be written -/

theorem written_ofNat (n : Nat) : (Tree.ofNat n).Written :=
  .number (NumberText.isLiteral_ofNat n)

theorem written_ofOption {α : Type} {write : α → Tree} (h : ∀ a, (write a).Written)
    (o : Option α) : (Tree.ofOption write o).Written := by
  cases o with
  | none => exact .null
  | some a => exact h a

theorem written_array {α : Type} {write : α → Tree} (h : ∀ a, (write a).Written) (l : List α) :
    (Tree.array (l.map write)).Written := by
  refine .array fun t ht => ?_
  obtain ⟨a, -, rfl⟩ := List.mem_map.mp ht
  exact h a

/-! ## Checks -/

namespace Check

theorem distinct_fieldTrees (c : Check) : (c.fieldTrees.map Prod.fst).Nodup := by
  cases c <;> simp [fieldTrees]

/-- The fields of a check are read back by its kind. -/
theorem ofFields?_fieldTrees (c : Check) :
    ofFields? c.kindName (.ofMembers c.fieldTrees) = some c := by
  have hfields := fields?_ofMembers (distinct_fieldTrees c)
  cases c <;> simp only [fieldTrees, List.map_cons, List.map_nil] at hfields <;>
    simp [kindName, ofFields?, fieldTrees, hfields]

/-- A check is taken apart into its kind and its fields. -/
theorem splitKind?_toTree (c : Check) :
    splitKind? c.toTree = some (c.kindName, .ofMembers c.fieldTrees) := by
  cases c <;> rfl

/-- All of a check can be read: it has levels for its fields and for the items of an array. -/
theorem isSound_toTree (c : Check) {levels : Nat} (h : 2 ≤ levels) :
    c.toTree.isSound levels = true := by
  obtain ⟨levels, rfl⟩ : ∃ k, levels = k + 2 := ⟨levels - 2, by omega⟩
  have hmembers : ∀ m ∈ ("kind", Tree.ofString c.kindName) :: c.fieldTrees,
      m.2.isSound (levels + 1) = true := by
    cases c <;> simp [fieldTrees]
  rw [toTree, Tree.ofMembers, Tree.isSound, List.all_map, List.all_eq_true]
  exact fun m hm => hmembers m hm

theorem written_toTree (c : Check) : c.toTree.Written := by
  have hstring : ∀ s, (Tree.ofString s).Written := fun s => .text (some s)
  have hlevel : ∀ level : Option UInt8,
      (Tree.ofOption (fun n => .ofNat n.toNat) level).Written :=
    written_ofOption fun n => written_ofNat n.toNat
  have hstrings := written_array hstring
  refine written_ofMembers (List.forall_mem_cons.mpr ⟨hstring _, ?_⟩)
  cases c <;> simp [fieldTrees, hstring, hlevel, hstrings, written_ofNat]

/-- A check is read back, if enough levels are left for it. -/
theorem ofTree?_toTree (c : Check) {depth : Nat} (h : depth + 2 ≤ Tree.maxDepth) :
    ofTree? depth c.toTree = some c := by
  rw [ofTree?, splitKind?_toTree]
  simp only [Option.bind_eq_bind, Option.bind_some, ofFields?_fieldTrees,
    isSound_toTree c (show 2 ≤ Tree.maxDepth - depth by omega), if_true]

end Check

/-! ## Rules -/

namespace RuleDescriptor

/-- A rule is read back. -/
theorem ofTree?_toTree (d : RuleDescriptor) : ofTree? d.toTree = some d := by
  have hfields := @fields?_ofMembers [("ruleNum", .ofNat d.ruleNum.toNat),
    ("ruleSet", .ofString d.ruleSet), ("ruleGroup", .ofString d.ruleGroup),
    ("dependsOn", .ofOption (fun n => .ofNat n.toNat) d.dependsOn),
    ("title", .ofString d.title), ("check", d.check.toTree)] (by simp)
  simp only [List.map_cons, List.map_nil] at hfields
  have hcheck : Check.ofTree? checkDepth d.check.toTree = some d.check :=
    d.check.ofTree?_toTree (by decide)
  have hdepends := optional?_ofOption readWord32?_ofNat nofun d.dependsOn
  simp only [ofTree?, toTree, fieldNames, hfields, Option.bind_eq_bind, Option.bind_some,
    required?_some, defaulted?_some, readWord32?_ofNat, text?_ofString, hcheck, hdepends]
  rfl

theorem written_toTree (d : RuleDescriptor) : d.toTree.Written := by
  have hstring : ∀ s, (Tree.ofString s).Written := fun s => .text (some s)
  have hdepends : (Tree.ofOption (fun n => .ofNat n.toNat) d.dependsOn).Written :=
    written_ofOption (fun n : UInt32 => written_ofNat n.toNat) d.dependsOn
  refine written_ofMembers ?_
  simp [hstring, hdepends, written_ofNat, Check.written_toTree]

/-- The trees of rules are read back. -/
theorem listOfTree?_listToTree (ds : List RuleDescriptor) :
    listOfTree? (listToTree ds) = some ds := by
  have hread : ofTree? ∘ toTree = fun d => pure (id d) := funext ofTree?_toTree
  rw [listToTree, listOfTree?, List.mapM_map, hread, List.mapM_pure, List.map_id]
  rfl

/-- Rules are read back from the text that they are written as. So a text that reads as rules, in
whatever spelling, has the same meaning as the one form in which these rules are written. -/
theorem listOfText?_listToText :
    (∀ ds, listOfText? (listToText ds) = some ds) ∧
      ∀ text ds, listOfText? text = some ds → listOfText? (listToText ds) = some ds := by
  have hback : ∀ ds, listOfText? (listToText ds) = some ds := by
    intro ds
    have hwritten : (listToTree ds).Written := written_array written_toTree ds
    rw [listOfText?, listToText, Tree.ofChars?_write hwritten, Option.bind_some,
      listOfTree?_listToTree]
  exact ⟨hback, fun _ ds _ => hback ds⟩

example : listToText [⟨4, "MVC", "how-to", none, "Steps", .requireBlock "NumberedList" none 1⟩] =
    ("[\x7b\"ruleNum\":4,\"ruleSet\":\"MVC\",\"ruleGroup\":\"how-to\",\"dependsOn\":null," ++
      "\"title\":\"Steps\",\"check\":\x7b\"kind\":\"requireBlock\",\"block\":\"NumberedList\"," ++
      "\"level\":null,\"min\":1\x7d\x7d]").toList := by
  cbv

end RuleDescriptor

end ArticleAudit
