import ArticleAudit.Metadata.Flatten
import ArticleAudit.Proofs.Metadata.Operations
import ArticleAudit.Proofs.Yaml.Blank
import Mathlib

/-!
# Metadata are the leaves of a mapping

The leaves of a YAML value are the values in it that are no mappings. A leaf has an address, the
positions of the members that lead to it, and its keys are those of these members (`HoldsAt`).
Reading a mapping sets one value for each leaf in the order of the addresses: the key is made of the
leaf's keys, joined with underscores from the first one that is not empty, and the value is the leaf
as a text (`read_leaves`).
-/

set_option autoImplicit false

namespace ArticleAudit.Metadata

open ArticleAudit.Text

variable {v leaf : Yaml.Value} {members : List (Yaml.Value × Yaml.Value)} {address : List Nat}
  {keys : List Yaml.Value} {i : Nat}

/-! ## Leaves -/

/-- The value is no mapping. -/
def IsLeaf (v : Yaml.Value) : Prop :=
  ∀ members, v ≠ .mapping members

/-- At an address in a value, below some keys, another value stands. The address names the member to
go into on each level. -/
inductive HoldsAt : Yaml.Value → List Nat → List Yaml.Value → Yaml.Value → Prop
  | here (v : Yaml.Value) : HoldsAt v [] [] v
  | member {members : List (Yaml.Value × Yaml.Value)} {i : Nat} {key value leaf : Yaml.Value}
    {address : List Nat} {keys : List Yaml.Value} (hmember : members[i]? = some (key, value))
    (h : HoldsAt value address keys leaf) :
    HoldsAt (.mapping members) (i :: address) (key :: keys) leaf

/-- A value is a leaf, or a mapping of smaller values. -/
theorem member_induction {P : Yaml.Value → Prop} (leaf : ∀ v, IsLeaf v → P v)
    (mapping : ∀ members, (∀ m ∈ members, P m.2) → P (.mapping members)) (v : Yaml.Value) : P v :=
  match v with
  | .mapping members => mapping members fun m _ => member_induction leaf mapping m.2
  | .null | .bool _ | .int _ | .float _ | .text _ | .sequence _ | .tagged _ _ => leaf _ nofun
termination_by sizeOf v
decreasing_by
  have hm := List.sizeOf_lt_of_mem ‹m ∈ members›
  have hpair : sizeOf m = 1 + sizeOf m.1 + sizeOf m.2 := rfl
  simp only [Yaml.Value.mapping.sizeOf_spec]
  omega

/-- A leaf with its address and its keys. -/
structure Leaf where
  address : List Nat
  keys : List Yaml.Value
  value : Yaml.Value

/-- A leaf of the value of a member, as a leaf of the mapping. -/
def Leaf.below (i : Nat) (key : Yaml.Value) (x : Leaf) : Leaf :=
  ⟨i :: x.address, key :: x.keys, x.value⟩

/-- The leaves of a value, in document order. -/
def placedLeaves : Yaml.Value → List Leaf
  | .mapping members => ofMembers 0 members
  | leaf => [⟨[], [], leaf⟩]
where
  /-- The leaves of members of which the first one is at position `i`. -/
  ofMembers (i : Nat) : List (Yaml.Value × Yaml.Value) → List Leaf
    | [] => []
    | (key, value) :: rest => (placedLeaves value).map (Leaf.below i key) ++ ofMembers (i + 1) rest

theorem placedLeaves_of_isLeaf (h : IsLeaf v) : placedLeaves v = [⟨[], [], v⟩] := by
  cases v with
  | mapping members => exact absurd rfl (h members)
  | _ => rw [placedLeaves]; exact h

theorem mem_ofMembers_iff {x : Leaf} : x ∈ placedLeaves.ofMembers i members ↔
    ∃ j key value y, members[j]? = some (key, value) ∧ y ∈ placedLeaves value ∧
      x = y.below (i + j) key := by
  induction members generalizing i with
  | nil =>
    rw [placedLeaves.ofMembers]
    refine iff_of_false List.not_mem_nil ?_
    rintro ⟨j, key, value, y, hj, -⟩
    cases hj
  | cons member rest ih =>
    obtain ⟨key, value⟩ := member
    rw [placedLeaves.ofMembers, List.mem_append, List.mem_map, ih]
    constructor
    · rintro (⟨y, hy, rfl⟩ | ⟨j, k, v, y, hj, hy, rfl⟩)
      · exact ⟨0, key, value, y, rfl, hy, rfl⟩
      · exact ⟨j + 1, k, v, y, hj, hy, by rw [Nat.add_assoc, Nat.add_comm 1 j]⟩
    · rintro ⟨j, k, v, y, hj, hy, rfl⟩
      cases j with
      | zero =>
        cases hj
        exact .inl ⟨y, hy, rfl⟩
      | succ j => exact .inr ⟨j, k, v, y, hj, hy, by rw [Nat.add_assoc, Nat.add_comm 1 j]⟩

/-- The list has every leaf where the value holds it, and nothing else. -/
theorem mem_placedLeaves_iff {x : Leaf} :
    x ∈ placedLeaves v ↔ HoldsAt v x.address x.keys x.value ∧ IsLeaf x.value := by
  induction v using member_induction generalizing x with
  | leaf v hv =>
    obtain ⟨address, keys, value⟩ := x
    rw [placedLeaves_of_isLeaf hv, List.mem_singleton]
    constructor
    · intro heq
      cases heq
      exact ⟨.here v, hv⟩
    · rintro ⟨h, -⟩
      cases h with
      | here => rfl
      | member => exact absurd rfl (hv _)
  | mapping members ih =>
    rw [placedLeaves, mem_ofMembers_iff]
    constructor
    · rintro ⟨j, key, value, y, hj, hy, rfl⟩
      obtain ⟨hholds, hleaf⟩ := (ih _ (List.mem_of_getElem? hj)).mp hy
      rw [Nat.zero_add]
      exact ⟨.member hj hholds, hleaf⟩
    · obtain ⟨address, keys, value⟩ := x
      rintro ⟨h, hleaf⟩
      cases h with
      | here => exact absurd rfl (hleaf _)
      | @member _ j key inner _ address keys hj h =>
        refine ⟨j, key, inner, ⟨address, keys, value⟩, hj, ?_, ?_⟩
        · exact (ih _ (List.mem_of_getElem? hj)).mpr ⟨h, hleaf⟩
        · rw [Nat.zero_add]
          rfl

/-- The leaves of members that stand from position `i` on. -/
theorem pairwise_ofMembers (hmembers : ∀ m ∈ members,
    (placedLeaves m.2).Pairwise fun x y => x.address < y.address) :
    (placedLeaves.ofMembers i members).Pairwise fun x y => x.address < y.address := by
  induction members generalizing i with
  | nil =>
    rw [placedLeaves.ofMembers]
    exact .nil
  | cons member rest ih =>
    obtain ⟨key, value⟩ := member
    obtain ⟨hvalue, hrest⟩ := List.forall_mem_cons.mp hmembers
    rw [placedLeaves.ofMembers]
    refine List.pairwise_append.mpr ⟨?_, ih hrest, fun x hx y hy => ?_⟩
    · -- Within a member the rest of the address decides, and between members the first position.
      refine List.pairwise_map.mpr (hvalue.imp fun {x y} hlt => ?_)
      exact List.cons_lt_cons_iff.mpr (.inr ⟨rfl, hlt⟩)
    · obtain ⟨x, -, rfl⟩ := List.mem_map.mp hx
      obtain ⟨j, k, v, y, -, -, rfl⟩ := mem_ofMembers_iff.mp hy
      exact List.cons_lt_cons_iff.mpr (.inl (by omega))

theorem pairwise_placedLeaves (v : Yaml.Value) :
    (placedLeaves v).Pairwise fun x y => x.address < y.address := by
  induction v using member_induction with
  | leaf v hv =>
    rw [placedLeaves_of_isLeaf hv]
    exact List.pairwise_singleton _ _
  | mapping members ih =>
    rw [placedLeaves]
    exact pairwise_ofMembers ih

/-! ## Joined keys -/

/-- The key and the value that a leaf gives to metadata. -/
def Leaf.pair (x : Leaf) : String × String :=
  ("_".intercalate ((x.keys.map valueText).dropWhile String.isEmpty), valueText x.value)

/-- Behind a key that is not empty every further one is joined. -/
theorem foldl_joinKey_of_ne_empty {before : String} (hbefore : before ≠ "") (texts : List String) :
    texts.foldl joinKey before = "_".intercalate (before :: texts) := by
  induction texts generalizing before with
  | nil => rfl
  | cons text texts ih =>
    have hjoin : joinKey before text = before ++ "_" ++ text := if_neg (by simpa using hbefore)
    rw [List.foldl_cons, hjoin, ih (by simp [hbefore])]
    rfl

theorem foldl_joinKey (texts : List String) :
    texts.foldl joinKey "" = "_".intercalate (texts.dropWhile String.isEmpty) := by
  induction texts with
  | nil => rfl
  | cons text texts ih =>
    have hjoin : joinKey "" text = text := rfl
    rw [List.foldl_cons, hjoin]
    by_cases htext : text = ""
    · rw [htext, ih]
      rfl
    · rw [foldl_joinKey_of_ne_empty htext, List.dropWhile_cons_of_neg (by simpa using htext)]

/-- What a leaf gives to metadata below a key. -/
def Leaf.pairBelow (before : String) (x : Leaf) : String × String :=
  ((x.keys.map valueText).foldl joinKey before, valueText x.value)

theorem leaves_of_isLeaf (before : String) (h : IsLeaf v) :
    leaves before v = [(before, valueText v)] := by
  cases v with
  | mapping members => exact absurd rfl (h members)
  | _ => rw [leaves]; exact h

theorem memberLeaves_eq (hmembers : ∀ m ∈ members, ∀ before,
    leaves before m.2 = (placedLeaves m.2).map (Leaf.pairBelow before)) (before : String) :
    leaves.memberLeaves before members =
      (placedLeaves.ofMembers i members).map (Leaf.pairBelow before) := by
  induction members generalizing i with
  | nil =>
    rw [leaves.memberLeaves, placedLeaves.ofMembers]
    rfl
  | cons member rest ih =>
    obtain ⟨key, value⟩ := member
    obtain ⟨hvalue, hrest⟩ := List.forall_mem_cons.mp hmembers
    rw [leaves.memberLeaves, placedLeaves.ofMembers, hvalue, ih hrest, List.map_append,
      List.map_map]
    rfl

theorem leaves_eq (before : String) (v : Yaml.Value) :
    leaves before v = (placedLeaves v).map (Leaf.pairBelow before) := by
  induction v using member_induction generalizing before with
  | leaf v hv =>
    rw [leaves_of_isLeaf before hv, placedLeaves_of_isLeaf hv]
    rfl
  | mapping members ih =>
    rw [leaves, placedLeaves]
    exact memberLeaves_eq ih before

/-- The leaves of a value give their pairs in the order of their addresses. -/
theorem leaves_eq_pairs (v : Yaml.Value) : leaves "" v = (placedLeaves v).map Leaf.pair := by
  rw [leaves_eq]
  refine List.map_congr_left fun x _ => ?_
  rw [Leaf.pairBelow, foldl_joinKey, Leaf.pair]

/-! ## The metadata of a mapping -/

/-- Reading a mapping sets one value for each leaf, in the order of the addresses. So of the leaves
of a key the last one counts, and the keys stand where their first leaf stands. -/
theorem read_leaves (members : List (Yaml.Value × Yaml.Value)) :
    ∃ found : List Leaf, found.Pairwise (fun x y => x.address < y.address) ∧
      (∀ x, x ∈ found ↔ HoldsAt (.mapping members) x.address x.keys x.value ∧ IsLeaf x.value) ∧
      ofYaml? (.mapping members) = .ok (empty.insertAll (found.map Leaf.pair)) ∧
      (∀ text, Yaml.Value.ofChars? text = .ok (.mapping members) →
        read text = .ok (empty.insertAll (found.map Leaf.pair))) ∧
      (∀ k, (empty.insertAll (found.map Leaf.pair)).get? k =
        lastValue? (normalizeKey k) (found.map Leaf.pair)) ∧
      (empty.insertAll (found.map Leaf.pair)).keys =
        (normalKeys (found.map Leaf.pair)).eraseDups := by
  have hread : ofYaml? (.mapping members) =
      .ok (empty.insertAll ((placedLeaves (.mapping members)).map Leaf.pair)) := by
    rw [← leaves_eq_pairs]
    rfl
  refine ⟨placedLeaves (.mapping members), pairwise_placedLeaves _, fun x => mem_placedLeaves_iff,
    hread, fun text htext => ?_, fun k => ?_, Records.ofList _⟩
  · -- A blank text is not read at all, but it is no mapping either.
    have htrim : (trim text).isEmpty = false := by
      refine List.isEmpty_eq_false_iff.mpr fun hnil => ?_
      exact Yaml.Value.ofChars?_ne_mapping (trim_eq_nil_iff.mp hnil) members htext
    rw [read, htrim, if_neg (by decide), htext]
    exact hread
  · rw [get?_insertAll]
    exact Option.or_none

/-- A key of a nested mapping, and another key that is joined to the same one. -/
def nestedText : List Char :=
  "a:\n  b: x\nA_b: z\n".toList

/-- What YAML reads. -/
def nestedMembers : List (Yaml.Value × Yaml.Value) :=
  [(.text "a", .mapping [(.text "b", .text "x")]), (.text "A_b", .text "z")]

theorem ofChars?_nestedText :
    Yaml.Value.ofChars? nestedText = .ok (.mapping nestedMembers) := by
  have hnode : Yaml.Node.ofChars? nestedText = .ok (.mapping .empty
      [(.scalar .empty "a" true,
          .mapping .empty [(.scalar .empty "b" true, .scalar .empty "x" true)]),
        (.scalar .empty "A_b" true, .scalar .empty "z" true)]) := by
    cbv
  rw [Yaml.Value.ofChars?, hnode]
  delta Yaml.Value.ofNode
  rfl

theorem read_leaves_nestedText :
    Yaml.Value.ofChars? nestedText = .ok (.mapping nestedMembers) ∧
      ∃ found : List Leaf, found.Pairwise (fun x y => x.address < y.address) ∧
        (∀ x, x ∈ found ↔
          HoldsAt (.mapping nestedMembers) x.address x.keys x.value ∧ IsLeaf x.value) ∧
        read nestedText = .ok (empty.insertAll (found.map Leaf.pair)) := by
  obtain ⟨found, hsorted, hfound, -, hread, -⟩ := read_leaves nestedMembers
  exact ⟨ofChars?_nestedText, found, hsorted, hfound, hread nestedText ofChars?_nestedText⟩

end ArticleAudit.Metadata
