import ArticleAudit.Proofs.Json.Inverse
import ArticleAudit.Proofs.Metadata.Operations
import ArticleAudit.Proofs.Metadata.SiteTexts
import ArticleAudit.Proofs.Text.Bytes
import Mathlib

/-!
# The defaults of a site

Members with distinct keys are sorted in one way only, whatever order they come in
(`sortMembers_eq_of_perm`), and so the defaults of a site depend neither on the order of its members
nor on that of any other members in its configuration. Of the members that have a text, each is set
in the order of the bytes of the keys: the largest key of those with one normal form supplies the
value, and the smallest one the place (`SetsInOrder`). `ofSiteText?_orderless` says this of texts,
together with what the text of an array is.
-/

set_option autoImplicit false

namespace ArticleAudit.Metadata

open ArticleAudit.Json ArticleAudit.Text

/-! ## Sorting by key -/

section Sorting

variable {α β : Type} {members later sorted : List (String × α)} {key : String}

/-- The keys increase. -/
def Increasing (members : List (String × α)) : Prop :=
  members.Pairwise fun a b => a.1 < b.1

theorem setSorted_map (f : α → β) (value : α) :
    setSorted key (f value) (members.map fun m => (m.1, f m.2)) =
      (setSorted key value members).map fun m => (m.1, f m.2) := by
  induction members with
  | nil => rfl
  | cons m rest ih =>
    rw [List.map_cons, setSorted, setSorted]
    split
    · rfl
    · split
      · rfl
      · rw [List.map_cons, ih]

/-- Values do not matter for the order of the members. -/
theorem sortMembers_map (f : α → β) (members : List (String × α)) :
    sortMembers (members.map fun m => (m.1, f m.2)) =
      (sortMembers members).map fun m => (m.1, f m.2) := by
  -- The members sorted so far have to be any.
  have hfold : ∀ sorted : List (String × α),
      (members.map fun m => (m.1, f m.2)).foldl (fun sorted m => setSorted m.1 m.2 sorted)
          (sorted.map fun m => (m.1, f m.2)) =
        (members.foldl (fun sorted m => setSorted m.1 m.2 sorted) sorted).map
          fun m => (m.1, f m.2) := by
    induction members with
    | nil => exact fun _ => rfl
    | cons m rest ih =>
      intro sorted
      have hstep := ih (setSorted m.1 m.2 sorted)
      rw [← setSorted_map] at hstep
      exact hstep
  exact hfold []

/-- A new key is put among the others. -/
theorem setSorted_perm (h : key ∉ sorted.map Prod.fst) (value : α) :
    (setSorted key value sorted).Perm ((key, value) :: sorted) := by
  induction sorted with
  | nil => exact .refl _
  | cons m rest ih =>
    rw [List.map_cons, List.mem_cons, not_or] at h
    rw [setSorted]
    split
    · exact .refl _
    · rw [if_neg h.1]
      exact ((ih h.2).cons m).trans (.swap _ _ rest)

theorem increasing_setSorted (h : Increasing sorted) (hnew : key ∉ sorted.map Prod.fst)
    (value : α) : Increasing (setSorted key value sorted) := by
  induction sorted with
  | nil => exact List.pairwise_singleton _ _
  | cons m rest ih =>
    obtain ⟨hm, hrest⟩ := List.pairwise_cons.mp h
    rw [List.map_cons, List.mem_cons, not_or] at hnew
    rw [setSorted]
    split
    · next hlt =>
      refine List.pairwise_cons.mpr ⟨?_, h⟩
      exact List.forall_mem_cons.mpr ⟨hlt, fun x hx => lt_trans hlt (hm x hx)⟩
    · next hnot =>
      rw [if_neg hnew.1]
      refine List.pairwise_cons.mpr ⟨fun x hx => ?_, ih hrest hnew.2⟩
      have hx := (setSorted_perm hnew.2 value).mem_iff.mp hx
      rcases List.mem_cons.mp hx with rfl | hx
      · exact lt_of_le_of_ne (le_of_not_gt hnot) (Ne.symm hnew.1)
      · exact hm x hx

/-- Members with distinct keys, in front of others, are sorted in among them. -/
theorem foldl_setSorted (h : (sorted.map Prod.fst ++ members.map Prod.fst).Nodup)
    (hsorted : Increasing sorted) :
    (members.foldl (fun sorted (k, v) => setSorted k v sorted) sorted).Perm (sorted ++ members) ∧
      Increasing (members.foldl (fun sorted (k, v) => setSorted k v sorted) sorted) := by
  induction members generalizing sorted with
  | nil => exact ⟨by rw [List.append_nil]; exact .refl _, hsorted⟩
  | cons m rest ih =>
    have hnew : m.1 ∉ sorted.map Prod.fst := by
      intro hmem
      exact (List.nodup_append.mp h).2.2 _ hmem _ List.mem_cons_self rfl
    have hperm := setSorted_perm hnew m.2
    have hmiddle : (sorted ++ m :: rest).Perm ((m :: sorted) ++ rest) := List.perm_middle
    have hnodup : ((setSorted m.1 m.2 sorted).map Prod.fst ++ rest.map Prod.fst).Nodup := by
      rw [← List.map_append] at h ⊢
      exact (((hperm.append_right rest).map Prod.fst).trans
        (hmiddle.symm.map Prod.fst)).nodup_iff.mpr h
    obtain ⟨hrest, hincreasing⟩ := ih hnodup (increasing_setSorted hsorted hnew m.2)
    rw [List.foldl_cons]
    exact ⟨hrest.trans ((hperm.append_right rest).trans hmiddle.symm), hincreasing⟩

theorem sortMembers_perm (h : (members.map Prod.fst).Nodup) :
    (sortMembers members).Perm members :=
  (@foldl_setSorted α members [] h List.Pairwise.nil).1

theorem increasing_sortMembers (h : (members.map Prod.fst).Nodup) :
    Increasing (sortMembers members) :=
  (@foldl_setSorted α members [] h List.Pairwise.nil).2

/-- Members with distinct keys are sorted the same way in every order. -/
theorem sortMembers_eq_of_perm (h : (members.map Prod.fst).Nodup) (hperm : members.Perm later) :
    sortMembers members = sortMembers later := by
  have hlater : (later.map Prod.fst).Nodup := (hperm.map Prod.fst).nodup_iff.mp h
  have hsorted : (sortMembers members).Perm (sortMembers later) :=
    (sortMembers_perm h).trans (hperm.trans (sortMembers_perm hlater).symm)
  exact hsorted.eq_of_pairwise (fun _ _ _ _ hab hba => absurd hba (lt_asymm hab))
    (increasing_sortMembers h) (increasing_sortMembers hlater)

end Sorting

/-! ## Members with a text -/

variable {members later : List (String × Tree)}

/-- A member with its text, if it has one. -/
def withText (m : String × Tree) : String × Option String :=
  (m.1, siteText? m.2)

/-- The texts of members, as they are set. -/
def visited (members : List (String × Tree)) : List (String × String) :=
  (sortMembers members).filterMap fun (k, v) => (siteText? v).map fun s => (k, s)

/-- The texts are set in the order of the keys, and depend on keys and texts only. -/
theorem visited_eq (members : List (String × Tree)) :
    visited members =
      (sortMembers (members.map withText)).filterMap fun m => m.2.map fun s => (m.1, s) := by
  unfold withText
  rw [sortMembers_map, List.filterMap_map]
  rfl

theorem ofSiteMembers_eq_of_perm (h : (members.map Prod.fst).Nodup)
    (hperm : (members.map withText).Perm (later.map withText)) :
    ofSiteMembers members = ofSiteMembers later := by
  have hkeys : ((members.map withText).map Prod.fst).Nodup := by
    rw [List.map_map]
    exact h
  have hvisited : visited members = visited later := by
    rw [visited_eq, visited_eq, sortMembers_eq_of_perm hkeys hperm]
  exact congrArg ofList hvisited

/-- The key of a member, with the text of its value. -/
def HasText (members : List (String × Tree)) (key text : String) : Prop :=
  ∃ v, (key, v) ∈ members ∧ siteText? v = some text

/-- The bytes of a key come before those of another one. -/
def BytesBefore (a b : String) : Prop :=
  bytesOf a.toList < bytesOf b.toList

theorem BytesBefore.asymm {a b : String} (h : BytesBefore a b) : ¬ BytesBefore b a :=
  List.lt_asymm h

theorem mem_visited_iff (h : (members.map Prod.fst).Nodup) {key text : String} :
    (key, text) ∈ visited members ↔ HasText members key text := by
  simp [visited, HasText, (sortMembers_perm h).mem_iff]

theorem pairwise_visited (h : (members.map Prod.fst).Nodup) :
    (visited members).Pairwise fun a b => BytesBefore a.1 b.1 := by
  refine List.Pairwise.filterMap _ ?_ (increasing_sortMembers h)
  intro a b hab x hx y hy
  obtain ⟨_, -, rfl⟩ := Option.map_eq_some_iff.mp hx
  obtain ⟨_, -, rfl⟩ := Option.map_eq_some_iff.mp hy
  exact lt_iff_bytesOf_lt.mp hab

/-! ## What is set -/

/-- The members with a text are set in the order of the bytes of their keys. So of several keys with
one normal form the largest supplies the value, and the smallest the place among the keys. -/
structure SetsInOrder (members : List (String × Tree)) (m : Metadata) : Prop where
  visits : ∃ pairs, m = ofList pairs ∧ (pairs.Pairwise fun a b => BytesBefore a.1 b.1) ∧
    ∀ key text, (key, text) ∈ pairs ↔ HasText members key text
  normal : m.IsNormal
  mem_keys : ∀ k, k ∈ m.keys ↔ ∃ key text, HasText members key text ∧ normalizeKey key = k
  value : ∀ key text, HasText members key text →
    (∀ other text', HasText members other text' → normalizeKey other = normalizeKey key →
      other ≠ key → BytesBefore other key) → m.get? key = some text
  place : ∀ key text first text', HasText members key text → HasText members first text' →
    BytesBefore key first →
    (∀ other text'', HasText members other text'' → normalizeKey other = normalizeKey first →
      other ≠ first → BytesBefore first other) →
    [normalizeKey key, normalizeKey first].Sublist m.keys

section Pairs

variable {pairs : List (String × String)} {key text : String}

/-- The last of the pairs for a normal form is the one with the largest key. -/
theorem lastValue?_of_largest (h : pairs.Pairwise fun a b => BytesBefore a.1 b.1)
    (hmem : (key, text) ∈ pairs)
    (hlargest : ∀ pair ∈ pairs, normalizeKey pair.1 = normalizeKey key → pair.1 ≠ key →
      BytesBefore pair.1 key) :
    lastValue? (normalizeKey key) pairs = some text := by
  obtain ⟨before, after, rfl⟩ := List.append_of_mem hmem
  -- A later pair with the same normal form would have a larger key.
  have hafter := (List.pairwise_cons.mp (List.pairwise_append.mp h).2.1).1
  have hnone : (after.filter fun pair => normalizeKey pair.1 == normalizeKey key) = [] := by
    rw [List.filter_eq_nil_iff]
    intro pair hpair hkey
    have hlater := hafter pair hpair
    have hne : pair.1 ≠ key := by
      intro heq
      rw [heq] at hlater
      exact hlater.asymm hlater
    exact hlater.asymm (hlargest pair (List.mem_append_right _ (List.mem_cons_of_mem _ hpair))
      (beq_iff_eq.mp hkey) hne)
  rw [lastValue?, List.filter_append, List.filter_cons_of_pos (by simp), hnone,
    List.getLast?_concat, Option.map_some]

/-- A normal form stands behind that of every smaller key than its smallest one. -/
theorem sublist_normalKeys {first text' : String}
    (h : pairs.Pairwise fun a b => BytesBefore a.1 b.1) (hmem : (key, text) ∈ pairs)
    (hfirst : (first, text') ∈ pairs) (hbefore : BytesBefore key first)
    (hsmallest : ∀ pair ∈ pairs, normalizeKey pair.1 = normalizeKey first → pair.1 ≠ first →
      BytesBefore first pair.1) :
    [normalizeKey key, normalizeKey first].Sublist (normalKeys pairs).eraseDups := by
  -- The pairs are split at the smallest key of the second normal form: the first one is in front,
  -- where the second does not occur yet.
  obtain ⟨front, after, rfl⟩ := List.append_of_mem hfirst
  obtain ⟨-, hlater, hfront⟩ := List.pairwise_append.mp h
  have hkey : (key, text) ∈ front := by
    rcases List.mem_append.mp hmem with hmem | hmem
    · exact hmem
    · rcases List.mem_cons.mp hmem with heq | hmem
      · rw [(Prod.mk.inj heq).1] at hbefore
        exact absurd hbefore hbefore.asymm
      · exact absurd ((List.pairwise_cons.mp hlater).1 _ hmem) hbefore.asymm
  have hnew : normalizeKey first ∉ normalKeys front := by
    intro hold
    obtain ⟨pair, hpair, heq⟩ := List.mem_map.mp hold
    have hlt := hfront pair hpair _ List.mem_cons_self
    have hne : pair.1 ≠ first := by
      intro heq
      rw [heq] at hlt
      exact hlt.asymm hlt
    exact hlt.asymm (hsmallest pair (List.mem_append_left _ hpair) heq hne)
  have hleft : [normalizeKey key].Sublist (normalKeys front).eraseDups :=
    List.singleton_sublist.mpr (List.mem_eraseDups.mpr (List.mem_map.mpr ⟨_, hkey, rfl⟩))
  have hright : [normalizeKey first].Sublist
      ((normalKeys ((first, text') :: after)).removeAll (normalKeys front)).eraseDups := by
    rw [List.singleton_sublist, List.mem_eraseDups, List.removeAll, List.mem_filter]
    exact ⟨List.mem_cons_self, by simpa using hnew⟩
  have hsplit : normalKeys (front ++ (first, text') :: after) =
      normalKeys front ++ normalKeys ((first, text') :: after) := List.map_append
  rw [hsplit, List.eraseDups_append]
  exact hleft.append hright

end Pairs

/-- Members with distinct keys are set in order. -/
theorem setsInOrder (h : (members.map Prod.fst).Nodup) :
    SetsInOrder members (ofSiteMembers members) := by
  have hof : ofSiteMembers members = ofList (visited members) := rfl
  have hvisited := pairwise_visited h
  have hkeys : (ofSiteMembers members).keys = (normalKeys (visited members)).eraseDups := by
    rw [hof]
    exact Records.ofList _
  refine ⟨⟨_, hof, hvisited, fun _ _ => mem_visited_iff h⟩, isNormal_ofList _, ?_, ?_, ?_⟩
  · intro k
    rw [hkeys, List.mem_eraseDups, normalKeys, List.mem_map]
    constructor
    · rintro ⟨pair, hpair, heq⟩
      exact ⟨pair.1, pair.2, (mem_visited_iff h).mp hpair, heq⟩
    · rintro ⟨key, text, htext, heq⟩
      exact ⟨(key, text), (mem_visited_iff h).mpr htext, heq⟩
  · intro key text htext hlargest
    have hlast := lastValue?_of_largest hvisited ((mem_visited_iff h).mpr htext)
      fun pair hpair => hlargest pair.1 pair.2 ((mem_visited_iff h).mp hpair)
    rw [hof, ofList, get?_insertAll, hlast]
    rfl
  · intro key text first text' htext hfirst hbefore hsmallest
    rw [hkeys]
    exact sublist_normalKeys hvisited ((mem_visited_iff h).mpr htext)
      ((mem_visited_iff h).mpr hfirst) hbefore
      fun pair hpair => hsmallest pair.1 pair.2 ((mem_visited_iff h).mp hpair)

/-! ## Configurations -/

/-- The members that a configuration gives its site, if all of it can be read. -/
def siteMembers? (t : Tree) : Option (List (String × Tree)) :=
  match t.fields? ["build"] with
  | some [none] => some []
  | some [some build] =>
    match build.fields? ["globalMetadata"] with
    | some [none] => some []
    | some [some members] => soundMembers? (Tree.maxDepth - siteDepth) members
    | _ => none
  | _ => none

/-- The defaults of a configuration are those of its members. -/
theorem ofSiteTree?_eq (t : Tree) : ofSiteTree? t = (siteMembers? t).map ofSiteMembers := by
  unfold ofSiteTree? siteMembers?
  rcases t.fields? ["build"] with _ | _ | ⟨_ | build, _ | _⟩
  case some.cons.some.nil =>
    dsimp only
    rcases build.fields? ["globalMetadata"] with _ | _ | ⟨_ | members, _ | _⟩ <;> rfl
  all_goals rfl

theorem soundMembers?_object (levels : Nat) (members : List (Option String × Tree)) :
    soundMembers? levels (.object members) =
      if Tree.isSound levels (.object members) then
        some (members.map fun m => (m.1.getD "", m.2))
      else none := by
  rw [soundMembers?]
  split
  · next hsound =>
    have hkeys : ∀ m ∈ members, m.1.isSome = true := by
      cases levels with
      | zero => simp [Tree.isSound] at hsound
      | succ levels =>
        rw [Tree.isSound, List.all_eq_true] at hsound
        exact fun m hm => (Bool.and_eq_true_iff.mp (hsound m hm)).1
    clear hsound
    induction members with
    | nil => rfl
    | cons m rest ih =>
      obtain ⟨hm, hrest⟩ := List.forall_mem_cons.mp hkeys
      obtain ⟨key, hkey⟩ := Option.isSome_iff_exists.mp hm
      rw [List.mapM_cons, ih hrest, List.map_cons]
      simp [hkey]
  · rfl

/-- Members that are read can each be read. -/
theorem isSound_of_soundMembers? {t : Tree} {levels : Nat}
    (h : soundMembers? levels t = some members)
    {m : String × Tree} (hm : m ∈ members) : ∃ levels', m.2.isSound levels' = true := by
  cases t with
  | object inner =>
    rw [soundMembers?_object] at h
    split at h
    · next hsound =>
      cases h
      obtain ⟨member, hmember, rfl⟩ := List.mem_map.mp hm
      cases levels with
      | zero => simp [Tree.isSound] at hsound
      | succ levels =>
        rw [Tree.isSound, List.all_eq_true] at hsound
        exact ⟨levels, (Bool.and_eq_true_iff.mp (hsound member hmember)).2⟩
    · cases h
  | _ => cases h

theorem isSound_of_siteMembers? {t : Tree} (h : siteMembers? t = some members)
    {m : String × Tree} (hm : m ∈ members) : ∃ levels, m.2.isSound levels = true := by
  unfold siteMembers? at h
  split at h
  · cases h
    cases hm
  · split at h
    · cases h
      cases hm
    · exact isSound_of_soundMembers? h hm
    · cases h
  · cases h

/-- What the defaults depend on: the keys and texts of the members, in no order. -/
def texts? (found : Option (List (String × Tree))) :
    Option (Multiset (String × Option String)) :=
  found.map fun members => (members.map withText : Multiset _)

theorem texts?_soundMembers? {t u : Tree} (h : t.Reordered u) (levels : Nat) :
    texts? (soundMembers? levels t) = texts? (soundMembers? levels u) := by
  induction h with
  | same t => rfl
  | trans _ _ iht ihu => rw [iht, ihu]
  | members hperm =>
    have hsound := (Tree.Reordered.members hperm).isSound_eq levels
    rw [soundMembers?_object, soundMembers?_object, hsound]
    split
    · refine congrArg some (Multiset.coe_eq_coe.mpr ?_)
      exact (hperm.map _).map _
    · rfl
  | value before key after hvw _ =>
    have hsound := (Tree.Reordered.value before key after hvw).isSound_eq levels
    rw [soundMembers?_object, soundMembers?_object, hsound]
    split
    · refine congrArg some (congrArg _ ?_)
      simp [withText, siteText?_eq_of_reordered hvw]
    · rfl
  | item => rfl

/-- The order of members, anywhere in a configuration, makes no difference to the texts of its
members. -/
theorem texts?_siteMembers? {t u : Tree} (h : t.Reordered u) :
    texts? (siteMembers? t) = texts? (siteMembers? u) := by
  unfold siteMembers?
  rcases h.field "build" with hbuild | ⟨v, w, hv, hw, hvw⟩
  · rw [hbuild]
  · rw [hv, hw]
    dsimp only
    rcases hvw.field "globalMetadata" with hmembers | ⟨x, y, hx, hy, hxy⟩
    · rw [hmembers]
    · rw [hx, hy]
      exact texts?_soundMembers? hxy _

/-- A configuration with the same members has the same defaults, if their keys are distinct. -/
theorem ofSiteTree?_eq_of_reordered {t u : Tree} (h : t.Reordered u)
    (hmembers : siteMembers? t = some members) (hdistinct : (members.map Prod.fst).Nodup) :
    ofSiteTree? u = some (ofSiteMembers members) := by
  have htexts := texts?_siteMembers? h
  rw [hmembers] at htexts
  rw [ofSiteTree?_eq]
  cases hlater : siteMembers? u with
  | none =>
    rw [hlater] at htexts
    cases htexts
  | some later =>
    rw [hlater] at htexts
    have hperm := Multiset.coe_eq_coe.mp (Option.some.inj htexts)
    rw [Option.map_some, ofSiteMembers_eq_of_perm hdistinct hperm]

/-- A configuration whose members have distinct keys has defaults, and they are the same in every
order of its members and of all other members in it. The members with a text are set in the order of
the bytes of their keys. Those without one are the nulls and objects. The text of an array joins its
parts, which are the scalars at every depth and a blank for each array without parts; that is the
text of the scalars alone exactly when there are as many parts as scalars, or one part where there
are no scalars. -/
theorem ofSiteText?_orderless {text : List Char} {t : Tree} (htext : Tree.ofChars? text = some t)
    (hmembers : siteMembers? t = some members) (hdistinct : (members.map Prod.fst).Nodup) :
    ∃ m, ofSiteText? text = some m ∧
      (∀ later u, Tree.ofChars? later = some u → t.Reordered u → ofSiteText? later = some m) ∧
      SetsInOrder members m ∧
      ∀ member ∈ members,
        (siteText? member.2 = none ↔
          member.2 = .null ∨ ∃ inner, member.2 = .object inner) ∧
        ∀ items, member.2 = .array items →
          siteText? member.2 = some (", ".intercalate (parts member.2)) ∧
          (siteText? member.2 = some (", ".intercalate (scalars member.2)) ↔
            (parts member.2).length = max 1 (scalars member.2).length) := by
  refine ⟨ofSiteMembers members, ?_, ?_, setsInOrder hdistinct, ?_⟩
  · rw [ofSiteText?, htext, Option.bind_some, ofSiteTree?_eq, hmembers, Option.map_some]
  · intro later u hlater hreordered
    rw [ofSiteText?, hlater, Option.bind_some]
    exact ofSiteTree?_eq_of_reordered hreordered hmembers hdistinct
  · intro member hmember
    obtain ⟨levels, hsound⟩ := isSound_of_siteMembers? hmembers hmember
    refine ⟨siteText?_eq_none_iff hsound, ?_⟩
    intro items hitems
    rw [hitems, siteText?_array_eq_parts]
    exact ⟨rfl, Option.some_inj.trans (intercalate_parts_eq_iff items)⟩

/-- A configuration with these members for its site. -/
def siteOf (members : List (String × Tree)) : Tree :=
  Tree.ofMembers [("build", Tree.ofMembers [("globalMetadata", Tree.ofMembers members)])]

/-- Two keys with one normal form, the larger one in front, around another key. -/
def collidingMembers : List (String × Tree) :=
  [("m_X", .array [.ofString "b", .null, .array [.object [], .bool true]]),
    ("a", .ofString "c"), ("M.x", .ofString "d")]

theorem ofSiteText?_orderless_collidingKeys :
    (siteOf collidingMembers).Reordered (siteOf collidingMembers.reverse) ∧
      ofSiteText? (siteOf collidingMembers.reverse).write =
        some (ofList [("m.x", "b, true"), ("a", "c")]) := by
  have hwritten : ∀ m ∈ collidingMembers, m.2.Written := by
    have hinner : ∀ t ∈ [Tree.object [], .bool true], t.Written :=
      List.forall_mem_cons.mpr ⟨.object nofun, List.forall_mem_singleton.mpr (.bool true)⟩
    have hitems : ∀ t ∈ [Tree.ofString "b", .null, .array [.object [], .bool true]], t.Written :=
      List.forall_mem_cons.mpr ⟨.text _, List.forall_mem_cons.mpr ⟨.null,
        List.forall_mem_singleton.mpr (.array hinner)⟩⟩
    exact List.forall_mem_cons.mpr ⟨.array hitems, List.forall_mem_cons.mpr ⟨.text _,
      List.forall_mem_singleton.mpr (.text _)⟩⟩
  have hsite : ∀ members : List (String × Tree), (∀ m ∈ members, m.2.Written) →
      Tree.ofChars? (siteOf members).write = some (siteOf members) := by
    intro members hmembers
    refine Tree.ofChars?_write (written_ofMembers (List.forall_mem_singleton.mpr ?_))
    exact written_ofMembers (List.forall_mem_singleton.mpr (written_ofMembers hmembers))
  have hreordered : (siteOf collidingMembers).Reordered (siteOf collidingMembers.reverse) :=
    .value [] (some "build") [] (.value [] (some "globalMetadata") []
      (.members ((List.reverse_perm collidingMembers).symm.map _)))
  have hmembers : siteMembers? (siteOf collidingMembers) = some collidingMembers := rfl
  obtain ⟨m, hm, hlater, -⟩ := ofSiteText?_orderless (hsite _ hwritten) hmembers (by decide)
  refine ⟨hreordered, ?_⟩
  rw [hlater _ _ (hsite _ fun m hm => hwritten m (List.mem_reverse.mp hm)) hreordered, ← hm,
    ofSiteText?, hsite _ hwritten, Option.bind_some, ofSiteTree?_eq, hmembers, Option.map_some]
  cbv

/-- The array `[[], 1]` has a blank in front of its only scalar. -/
theorem ofSiteText?_emptyItem :
    siteText? (.array [.array [], .ofNat 1]) = some ", 1" ∧
      ", ".intercalate (scalars (.array [.array [], .ofNat 1])) = "1" ∧
      ofSiteText? "\x7b\"build\":\x7b\"globalMetadata\":\x7b\"a\":[[],1]\x7d\x7d\x7d".toList =
        some (ofList [("a", ", 1")]) ∧
      ofList [("a", ", 1")] ≠ ofList [("a", "1")] := by
  decide +kernel

end ArticleAudit.Metadata
