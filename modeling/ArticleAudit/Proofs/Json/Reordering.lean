import ArticleAudit.Json.Tree
import Mathlib.Data.List.Perm.Lattice
import Mathlib.Data.List.Count

/-!
# The order of members

Two trees are the same up to the order of members if members of their objects are exchanged, at any
depth (`Tree.Reordered`). That makes no difference to whether a tree can be read
(`Tree.Reordered.isSound_eq`), and a field of a record, which an object has at most once, is the
same field in the same state (`Tree.Reordered.field`).
-/

set_option autoImplicit false

namespace ArticleAudit.Json.Tree

/-- The same but for the order of members in objects. -/
inductive Reordered : Tree → Tree → Prop
  | same (t : Tree) : Reordered t t
  | trans {t u v : Tree} : Reordered t u → Reordered u v → Reordered t v
  | members {members later : List (Option String × Tree)} :
    members.Perm later → Reordered (.object members) (.object later)
  | value {v w : Tree} (before : List (Option String × Tree)) (key : Option String)
    (after : List (Option String × Tree)) :
    Reordered v w →
    Reordered (.object (before ++ (key, v) :: after)) (.object (before ++ (key, w) :: after))
  | item {v w : Tree} (before after : List Tree) :
    Reordered v w → Reordered (.array (before ++ v :: after)) (.array (before ++ w :: after))

/-! ## Values that can be read -/

/-- Whether a tree can be read does not depend on the order of members. -/
theorem Reordered.isSound_eq {t u : Tree} (h : t.Reordered u) (levels : Nat) :
    t.isSound levels = u.isSound levels := by
  induction h generalizing levels with
  | same t => rfl
  | trans _ _ iht ihu => rw [iht, ihu]
  | members hperm =>
    cases levels with
    | zero => simp [isSound]
    | succ levels =>
      rw [isSound, isSound]
      exact hperm.all_eq
  | value before key after _ ih =>
    cases levels with
    | zero => simp [isSound]
    | succ levels => simp [isSound, ih levels]
  | item before after _ ih =>
    cases levels with
    | zero => simp [isSound]
    | succ levels => simp [isSound, ih levels]

/-! ## Fields -/

section Members

variable {members later : List (Option String × Tree)} {name : String}

/-- The keys of an object, if they are texts, are those of its members. -/
theorem keys?_eq_some {keys : List String} (h : keys? members = some keys) :
    members.map Prod.fst = keys.map some := by
  induction members generalizing keys with
  | nil =>
    cases h
    rfl
  | cons m rest ih =>
    simp only [keys?, List.mapM_cons, Option.pure_def, Option.bind_eq_bind,
      Option.bind_eq_some_iff, Option.some.injEq] at h
    obtain ⟨key, hkey, keys, hkeys, rfl⟩ := h
    rw [List.map_cons, List.map_cons, hkey, ih hkeys]

/-- Otherwise they are not all texts. -/
theorem keys?_eq_none (h : keys? members = none) : (members.all fun m => m.1.isSome) = false := by
  induction members with
  | nil => cases h
  | cons m rest ih =>
    rw [List.all_cons]
    cases hkey : m.1 with
    | none => rfl
    | some key =>
      have hrest : keys? rest = none := by
        cases hkeys : keys? rest with
        | none => rfl
        | some keys =>
          unfold keys? at h hkeys
          simp [List.mapM_cons, hkey, hkeys] at h
      rw [ih hrest, Bool.and_false]

/-- One field of an object: all keys must be texts, and its name must not be repeated. -/
theorem fields?_object (members : List (Option String × Tree)) (name : String) :
    (object members).fields? [name] =
      if (members.all fun m => m.1.isSome) ∧ (members.map Prod.fst).count (some name) ≤ 1 then
        some [members.lookup (some name)]
      else none := by
  rw [fields?]
  cases hkeys : keys? members with
  | none => simp [keys?_eq_none hkeys]
  | some keys =>
    have hmap := keys?_eq_some hkeys
    have hcount : (keys.map some).count (some name) = keys.count name :=
      List.count_map_of_injective keys some (fun _ _ => Option.some.inj) name
    have hall : (members.all fun m => m.1.isSome) = true := by
      have h : ((members.map Prod.fst).all Option.isSome) = true := by simp [hmap]
      rwa [List.all_map] at h
    simp [hmap, hcount, hall]

theorem lookup_eq_head? (members : List (Option String × Tree)) (key : Option String) :
    members.lookup key = ((members.filter fun m => key == m.1).head?).map Prod.snd := by
  induction members with
  | nil => rfl
  | cons m rest ih =>
    rw [List.lookup_cons, List.filter_cons]
    cases key == m.1 with
    | true => rfl
    | false => exact ih

/-- A key that is not repeated has its value in every order of the members. -/
theorem lookup_eq_of_perm {key : Option String} (h : members.Perm later)
    (hcount : (members.map Prod.fst).count key ≤ 1) : members.lookup key = later.lookup key := by
  have hfilter := h.filter fun m => key == m.1
  have hlength : (members.filter fun m => key == m.1).length ≤ 1 := by
    refine Nat.le_trans (Nat.le_of_eq ?_) hcount
    rw [List.count, List.countP_map, List.countP_eq_length_filter]
    congr 1
    exact List.filter_congr fun m _ => by simp [Bool.beq_comm]
  rw [lookup_eq_head?, lookup_eq_head?]
  generalize (members.filter fun m => key == m.1) = found at hlength hfilter
  match found with
  | [] => rw [List.nil_perm.mp hfilter]
  | [m] => rw [List.singleton_perm.mp hfilter]

/-- With another value at its place, a key has the value it had or that value. -/
theorem lookup_value (before after : List (Option String × Tree)) (key other : Option String)
    (v w : Tree) :
    (before ++ (key, v) :: after).lookup other = (before ++ (key, w) :: after).lookup other ∨
      ((before ++ (key, v) :: after).lookup other = some v ∧
        (before ++ (key, w) :: after).lookup other = some w) := by
  rw [List.lookup_append, List.lookup_append]
  cases before.lookup other with
  | some found => exact Or.inl rfl
  | none =>
    rw [List.lookup_cons, List.lookup_cons]
    cases other == key with
    | true => exact Or.inr ⟨rfl, rfl⟩
    | false => exact Or.inl rfl

end Members

/-- A field is the same in both trees, or its values are the same up to the order of members. -/
def SameField (x y : Option (List (Option Tree))) : Prop :=
  x = y ∨ ∃ v w, x = some [some v] ∧ y = some [some w] ∧ v.Reordered w

theorem SameField.trans {x y z : Option (List (Option Tree))} (h : SameField x y)
    (h' : SameField y z) : SameField x z := by
  rcases h with rfl | ⟨v, w, rfl, rfl, hvw⟩
  · exact h'
  · rcases h' with rfl | ⟨w', u, heq, rfl, hwu⟩
    · exact Or.inr ⟨v, w, rfl, rfl, hvw⟩
    · cases heq
      exact Or.inr ⟨v, u, rfl, rfl, hvw.trans hwu⟩

/-- A record has the same field in every order of the members. -/
theorem Reordered.field {t u : Tree} (h : t.Reordered u) (name : String) :
    SameField (t.fields? [name]) (u.fields? [name]) := by
  induction h with
  | same t => exact Or.inl rfl
  | trans _ _ iht ihu => exact iht.trans ihu
  | members hperm =>
    -- An object is a record only if the name is not repeated, so that the order of its members
    -- cannot choose between two values.
    have hkeys := hperm.map Prod.fst
    refine Or.inl ?_
    rw [fields?_object, fields?_object, hperm.all_eq, hkeys.count_eq]
    split
    · next hsound =>
      rw [lookup_eq_of_perm hperm (hkeys.count_eq (some name) ▸ hsound.2)]
    · rfl
  | @value v w before key after hvw _ =>
    have hkeys : (before ++ (key, v) :: after).map Prod.fst =
        (before ++ (key, w) :: after).map Prod.fst := by simp
    have hall : ((before ++ (key, v) :: after).all fun m => m.1.isSome) =
        ((before ++ (key, w) :: after).all fun m => m.1.isSome) := by simp
    rw [fields?_object, fields?_object, hkeys, hall]
    split
    · rcases lookup_value before after key (some name) v w with heq | ⟨hv, hw⟩
      · exact Or.inl (by rw [heq])
      · exact Or.inr ⟨v, w, by rw [hv], by rw [hw], hvw⟩
    · exact Or.inl rfl
  | @item v w before after hvw _ =>
    -- An array is read as a record whose fields are its items, here a single one.
    have hfields : ∀ x : Tree, (array (before ++ x :: after)).fields? [name] =
        if before = [] ∧ after = [] then some [some x] else none := by
      intro x
      cases before with
      | nil => cases after <;> simp [fields?]
      | cons first before => simp [fields?]
    rw [hfields, hfields]
    split
    · exact Or.inr ⟨v, w, rfl, rfl, hvw⟩
    · exact Or.inl rfl

end ArticleAudit.Json.Tree
