import ArticleAudit.Metadata.Basic
import ArticleAudit.Metadata.Override
import ArticleAudit.Proofs.Text.SmallLetters
import ArticleAudit.Proofs.Text.Trimming

/-!
# What the operations on metadata do

The normal form of a key is its own normal form (`normalizeKey_normalizeKey`): its characters are
small and no point is among them, and neither end is blank because lowering keeps the ends of a
trimmed text from being blank.

Two views describe metadata: the value of a key (`get?`) and the keys in order (`keys`). Setting a
value changes the value of its key alone, and puts the normalized key behind the others unless it is
there already. So the keys are the keys that were ever set, each where it was set first
(`Metadata.Records`), and metadata that are built by the operations are in normal form
(`Metadata.IsNormal`): their keys are distinct, and normalizing leaves them as they are.
-/

set_option autoImplicit false

namespace ArticleAudit.Metadata

open ArticleAudit.Text

variable {cs : List Char}

/-! ## The normal form of keys -/

/-- What normalization makes of a lowered character. -/
def underscored (c : Char) : Char :=
  if c == '.' then '_' else c

theorem underscored_underscored (c : Char) : underscored (underscored c) = underscored c := by
  unfold underscored
  split
  · rfl
  · rfl

theorem isSmall_underscored {c : Char} (h : IsSmall c) : IsSmall (underscored c) := by
  unfold underscored
  split
  · exact isSmall_of_ascii (by decide) (by decide)
  · exact h

theorem isBlank_underscored {c : Char} (h : isBlank c = false) :
    isBlank (underscored c) = false := by
  unfold underscored
  split
  · rfl
  · exact h

theorem toList_normalizeKey (key : String) :
    (normalizeKey key).toList = (lowercase (trim key.toList)).map underscored := by
  rw [normalizeKey, String.toList_ofList]
  rfl

/-- Lowering keeps the first character of a trimmed text from being blank. -/
theorem isBlank_of_head?_lowercase {d : Char} (h : (lowercase (trim cs)).head? = some d) :
    isBlank d = false := by
  cases htrim : trim cs with
  | nil =>
    rw [htrim] at h
    cases h
  | cons c rest =>
    have hc : isBlank c = false := isBlank_of_head?_trim (by rw [htrim]; rfl)
    obtain ⟨small, hsmall, heq⟩ := exists_lowerFrom_cons [] c rest
    rw [htrim, lowercase, heq, List.head?_append_of_ne_nil _ hsmall.ne_nil] at h
    exact hsmall.notBlank hc d (List.mem_of_head? h)

/-- Lowering keeps the last character of a trimmed text from being blank. -/
theorem isBlank_of_getLast?_lowercase {d : Char} (h : (lowercase (trim cs)).getLast? = some d) :
    isBlank d = false := by
  rcases List.eq_nil_or_concat (trim cs) with htrim | ⟨init, c, htrim⟩
  · rw [htrim] at h
    cases h
  · rw [List.concat_eq_append] at htrim
    have hc : isBlank c = false := isBlank_of_getLast?_trim (by rw [htrim, List.getLast?_concat])
    obtain ⟨front, small, hsmall, heq⟩ := exists_lowerFrom_concat [] init c
    rw [htrim, lowercase, heq, List.getLast?_append_of_ne_nil _ hsmall.ne_nil] at h
    exact hsmall.notBlank hc d (List.mem_of_getLast? h)

/-- Normalizing a key twice is normalizing it once. -/
theorem normalizeKey_normalizeKey (key : String) :
    normalizeKey (normalizeKey key) = normalizeKey key := by
  have hsmall : ∀ d ∈ (normalizeKey key).toList, IsSmall d := by
    intro d hd
    rw [toList_normalizeKey] at hd
    obtain ⟨c, hc, rfl⟩ := List.mem_map.mp hd
    exact isSmall_underscored (isSmall_of_mem_lowerFrom hc)
  have htrim : trim (normalizeKey key).toList = (normalizeKey key).toList := by
    rw [toList_normalizeKey]
    apply trim_eq_self
    · intro d hd
      rw [List.head?_map] at hd
      obtain ⟨c, hc, rfl⟩ := Option.map_eq_some_iff.mp hd
      exact isBlank_underscored (isBlank_of_head?_lowercase hc)
    · intro d hd
      rw [List.getLast?_map] at hd
      obtain ⟨c, hc, rfl⟩ := Option.map_eq_some_iff.mp hd
      exact isBlank_underscored (isBlank_of_getLast?_lowercase hc)
  apply String.toList_injective
  rw [toList_normalizeKey (normalizeKey key), htrim, lowercase_of_isSmall hsmall,
    toList_normalizeKey, List.map_map]
  exact List.map_congr_left fun c _ => underscored_underscored c

/-! ## First occurrences -/

section FirstOccurrences

variable {α : Type} [BEq α] [LawfulBEq α]

theorem eraseDups_concat [DecidableEq α] (l : List α) (a : α) :
    (l ++ [a]).eraseDups = if a ∈ l then l.eraseDups else l.eraseDups ++ [a] := by
  rw [List.eraseDups_append, List.removeAll, List.filter_singleton]
  by_cases ha : a ∈ l
  · simp [ha]
  · simp [ha, List.eraseDups_cons]

theorem nodup_eraseDups (l : List α) : l.eraseDups.Nodup := by
  classical
  induction l using List.reverseRecOn with
  | nil => exact List.nodup_nil
  | append_singleton l a ih =>
    rw [eraseDups_concat]
    split
    · exact ih
    · next ha =>
      have hnew : a ∉ l.eraseDups := fun h => ha (List.mem_eraseDups.mp h)
      refine List.nodup_append.mpr ⟨ih, List.pairwise_singleton _ a, ?_⟩
      intro x hx y hy hxy
      rw [List.mem_singleton] at hy
      exact hnew (hy ▸ hxy ▸ hx)

theorem eraseDups_eq_self {l : List α} (h : l.Nodup) : l.eraseDups = l := by
  classical
  induction l using List.reverseRecOn with
  | nil => rfl
  | append_singleton l a ih =>
    obtain ⟨hl, -, hdisjoint⟩ := List.nodup_append.mp h
    have ha : a ∉ l := fun ha => hdisjoint a ha a (List.mem_singleton_self a) rfl
    rw [eraseDups_concat, if_neg ha, ih hl]

end FirstOccurrences

/-! ## One value -/

section Entries

variable {entries : List (String × String)}

theorem lookup_cons_eq (first v k : String) :
    ((first, v) :: entries).lookup k = if k = first then some v else entries.lookup k := by
  by_cases hk : k = first
  · simp [hk]
  · simp [List.lookup_cons, beq_eq_false_iff_ne.mpr hk, hk]

/-- Replacing answers the value that a look-up finds. -/
theorem fst_replaceEntry (key value : String) :
    (replaceEntry key value entries).1 = entries.lookup key := by
  induction entries with
  | nil => rfl
  | cons entry rest ih =>
    obtain ⟨first, v⟩ := entry
    rw [lookup_cons_eq]
    by_cases hfirst : first = key
    · simp [replaceEntry, hfirst]
    · simp [replaceEntry, hfirst, Ne.symm hfirst, ih]

/-- Only the value of the key itself changes. -/
theorem lookup_replaceEntry (key value k : String) :
    (replaceEntry key value entries).2.lookup k =
      if k = key then some value else entries.lookup k := by
  induction entries with
  | nil => exact lookup_cons_eq key value k
  | cons entry rest ih =>
    obtain ⟨first, v⟩ := entry
    by_cases hfirst : first = key
    · subst hfirst
      simp only [replaceEntry, beq_self_eq_true, if_true, lookup_cons_eq]
      split <;> rfl
    · simp only [replaceEntry, beq_iff_eq, hfirst, if_false, lookup_cons_eq, ih]
      by_cases hk : k = first
      · simp [hk, hfirst]
      · simp [hk]

/-- A new key comes last, and the other keys stay where they are. -/
theorem keys_replaceEntry (key value : String) :
    (replaceEntry key value entries).2.map Prod.fst =
      if key ∈ entries.map Prod.fst then entries.map Prod.fst
      else entries.map Prod.fst ++ [key] := by
  induction entries with
  | nil => rfl
  | cons entry rest ih =>
    obtain ⟨k, v⟩ := entry
    by_cases hk : k = key
    · subst hk
      simp [replaceEntry]
    · have hne : ¬ key = k := Ne.symm hk
      simp only [replaceEntry, beq_iff_eq, hk, if_false, List.map_cons, ih, List.mem_cons, hne,
        false_or]
      split <;> rfl

/-- A new key is put behind the entries. -/
theorem replaceEntry_of_not_mem {key : String} (h : key ∉ entries.map Prod.fst) (value : String) :
    (replaceEntry key value entries).2 = entries ++ [(key, value)] := by
  induction entries with
  | nil => rfl
  | cons entry rest ih =>
    rw [List.map_cons, List.mem_cons, not_or] at h
    simp [replaceEntry, Ne.symm h.1, ih h.2]

end Entries

variable {m : Metadata}

/-- A key has a value exactly when its normal form is among the keys. -/
theorem contains_iff {key : String} : m.contains key = true ↔ normalizeKey key ∈ m.keys := by
  rw [contains, get?, List.lookup_isSome_iff, keys, List.mem_map]
  constructor
  · rintro ⟨entry, hentry, heq⟩
    exact ⟨entry, hentry, (beq_iff_eq.mp heq).symm⟩
  · rintro ⟨entry, hentry, heq⟩
    exact ⟨entry, hentry, beq_iff_eq.mpr heq.symm⟩

theorem get?_eq_none_iff {key : String} : m.get? key = none ↔ normalizeKey key ∉ m.keys := by
  rw [← contains_iff, contains, Option.isSome_iff_ne_none, not_not]

theorem fst_replace (m : Metadata) (key value : String) : (m.replace key value).1 = m.get? key :=
  fst_replaceEntry _ _

theorem get?_insert (m : Metadata) (key value k : String) :
    (m.insert key value).get? k =
      if normalizeKey k = normalizeKey key then some value else m.get? k :=
  lookup_replaceEntry _ _ _

theorem keys_insert (m : Metadata) (key value : String) :
    (m.insert key value).keys =
      if normalizeKey key ∈ m.keys then m.keys else m.keys ++ [normalizeKey key] :=
  keys_replaceEntry _ _

theorem fst_offer (m : Metadata) (key value : String) :
    (m.offer key value).1 = (m.get? key).isNone := by
  unfold offer contains
  cases m.get? key <;> rfl

/-- For a key that is there filling in a value changes nothing. -/
theorem insertIfAbsent_of_mem {key : String} (h : normalizeKey key ∈ m.keys) (value : String) :
    m.insertIfAbsent key value = m := by
  rw [insertIfAbsent, offer, if_pos (contains_iff.mpr h)]

/-- For a new key it makes no difference whether a value is set or filled in. -/
theorem insertIfAbsent_of_not_mem {key : String} (h : normalizeKey key ∉ m.keys) (value : String) :
    m.insertIfAbsent key value = m.insert key value := by
  rw [insertIfAbsent, offer, if_neg (contains_iff.not.mpr h)]

/-- A value that is there stays. -/
theorem get?_insertIfAbsent (m : Metadata) (key value k : String) :
    (m.insertIfAbsent key value).get? k =
      (m.get? k).or (if normalizeKey k = normalizeKey key then some value else none) := by
  by_cases hkey : normalizeKey key ∈ m.keys
  · rw [insertIfAbsent_of_mem hkey]
    split
    · next heq =>
      obtain ⟨v, hv⟩ := Option.isSome_iff_exists.mp (contains_iff.mpr (heq ▸ hkey))
      rw [hv, Option.some_or]
    · rw [Option.or_none]
  · rw [insertIfAbsent_of_not_mem hkey, get?_insert]
    split
    · next heq =>
      rw [get?_eq_none_iff.mpr (heq ▸ hkey), Option.none_or]
    · rw [Option.or_none]

/-- Filling in a value affects the keys as setting it does. -/
theorem keys_insertIfAbsent (m : Metadata) (key value : String) :
    (m.insertIfAbsent key value).keys =
      if normalizeKey key ∈ m.keys then m.keys else m.keys ++ [normalizeKey key] := by
  by_cases hkey : normalizeKey key ∈ m.keys
  · rw [insertIfAbsent_of_mem hkey, if_pos hkey]
  · rw [insertIfAbsent_of_not_mem hkey, keys_insert]

/-! ## Many values -/

/-- The normal forms of the keys of pairs. -/
def normalKeys (pairs : List (String × String)) : List String :=
  pairs.map fun pair => normalizeKey pair.1

/-- The last value that pairs give to a normalized key. -/
def lastValue? (k : String) (pairs : List (String × String)) : Option String :=
  ((pairs.filter fun pair => normalizeKey pair.1 == k).getLast?).map Prod.snd

/-- The first value that pairs give to a normalized key. -/
def firstValue? (k : String) (pairs : List (String × String)) : Option String :=
  (pairs.find? fun pair => normalizeKey pair.1 == k).map Prod.snd

theorem lastValue?_cons (k : String) (pair : String × String) (rest : List (String × String)) :
    lastValue? k (pair :: rest) =
      (lastValue? k rest).or (if k = normalizeKey pair.1 then some pair.2 else none) := by
  unfold lastValue?
  by_cases hk : k = normalizeKey pair.1
  · rw [List.filter_cons_of_pos (by simp [hk]), List.getLast?_cons, if_pos hk]
    cases (rest.filter fun pair => normalizeKey pair.1 == k).getLast? <;> rfl
  · rw [List.filter_cons_of_neg (by simpa using Ne.symm hk), if_neg hk, Option.or_none]

theorem firstValue?_cons (k : String) (pair : String × String) (rest : List (String × String)) :
    firstValue? k (pair :: rest) =
      (if k = normalizeKey pair.1 then some pair.2 else none).or (firstValue? k rest) := by
  unfold firstValue?
  by_cases hk : k = normalizeKey pair.1
  · rw [List.find?_cons_of_pos (by simp [hk]), if_pos hk]
    rfl
  · rw [List.find?_cons_of_neg (by simpa using Ne.symm hk), if_neg hk, Option.none_or]

theorem firstValue?_eq_none_iff {k : String} {pairs : List (String × String)} :
    firstValue? k pairs = none ↔ k ∉ normalKeys pairs := by
  simp [firstValue?, normalKeys]

/-- Of several values for one key the last one counts. -/
theorem get?_insertAll (m : Metadata) (pairs : List (String × String)) (k : String) :
    (m.insertAll pairs).get? k = (lastValue? (normalizeKey k) pairs).or (m.get? k) := by
  unfold insertAll
  induction pairs generalizing m with
  | nil => rfl
  | cons pair rest ih =>
    rw [List.foldl_cons, ih, get?_insert, lastValue?_cons, Option.or_assoc]
    split
    · rw [Option.some_or]
    · rw [Option.none_or]

/-- Values that are there stay, and of several values for another key the first one counts. -/
theorem get?_fillFrom (m defaults : Metadata) (k : String) :
    (m.fillFrom defaults).get? k =
      (m.get? k).or (firstValue? (normalizeKey k) defaults.entries) := by
  unfold fillFrom
  induction defaults.entries generalizing m with
  | nil => exact (Option.or_none).symm
  | cons pair rest ih =>
    rw [List.foldl_cons, ih, get?_insertIfAbsent, firstValue?_cons, Option.or_assoc]

/-! ## The order of keys -/

/-- The keys are those of a list of normalized keys, each where it occurs first. -/
def Records (m : Metadata) (written : List String) : Prop :=
  m.keys = written.eraseDups

namespace Records

variable {written : List String}

/-- An operation that puts a new key behind the others records it. -/
theorem note (h : m.Records written) {m' : Metadata} {k : String}
    (hkeys : m'.keys = if k ∈ m.keys then m.keys else m.keys ++ [k]) :
    m'.Records (written ++ [k]) := by
  have hmem : k ∈ m.keys ↔ k ∈ written := by rw [h, List.mem_eraseDups]
  rw [Records, hkeys, eraseDups_concat, ← h]
  simp only [hmem]

/-- A run of such operations records all their keys. -/
theorem foldl (h : m.Records written) {step : Metadata → String × String → Metadata}
    (hstep : ∀ (m : Metadata) (pair : String × String), (step m pair).keys =
      if normalizeKey pair.1 ∈ m.keys then m.keys else m.keys ++ [normalizeKey pair.1])
    (pairs : List (String × String)) :
    (pairs.foldl step m).Records (written ++ normalKeys pairs) := by
  induction pairs generalizing m written with
  | nil => rwa [normalKeys, List.map_nil, List.append_nil]
  | cons pair rest ih =>
    have hrest := ih (h.note (hstep m pair))
    rwa [List.append_assoc] at hrest

theorem insertAll (h : m.Records written) (pairs : List (String × String)) :
    (m.insertAll pairs).Records (written ++ normalKeys pairs) :=
  h.foldl (fun m pair => keys_insert m pair.1 pair.2) pairs

theorem fillFrom (h : m.Records written) (defaults : Metadata) :
    (m.fillFrom defaults).Records (written ++ normalKeys defaults.entries) :=
  h.foldl (fun m pair => keys_insertIfAbsent m pair.1 pair.2) defaults.entries

theorem empty : Metadata.empty.Records [] := rfl

theorem ofList (pairs : List (String × String)) :
    (Metadata.ofList pairs).Records (normalKeys pairs) :=
  empty.insertAll pairs

end Records

/-! ## New keys -/

theorem entries_insert_of_not_mem {key : String} (h : normalizeKey key ∉ m.keys) (value : String) :
    (m.insert key value).entries = m.entries ++ [(normalizeKey key, value)] :=
  replaceEntry_of_not_mem h value

/-- Pairs whose keys are all new and distinct in normal form become the entries behind those that
are there. -/
theorem entries_foldl_of_nodup {step : Metadata → String × String → Metadata}
    (hstep : ∀ (m : Metadata) (pair : String × String), normalizeKey pair.1 ∉ m.keys →
      step m pair = m.insert pair.1 pair.2)
    {pairs : List (String × String)} (h : (m.keys ++ normalKeys pairs).Nodup) :
    (pairs.foldl step m).entries =
      m.entries ++ pairs.map fun pair => (normalizeKey pair.1, pair.2) := by
  induction pairs generalizing m with
  | nil => simp
  | cons pair rest ih =>
    have hnew : normalizeKey pair.1 ∉ m.keys := by
      intro hmem
      exact (List.nodup_append.mp h).2.2 _ hmem _ List.mem_cons_self rfl
    have hentries := entries_insert_of_not_mem hnew pair.2
    have hkeys : (m.insert pair.1 pair.2).keys = m.keys ++ [normalizeKey pair.1] := by
      rw [keys_insert, if_neg hnew]
    have hrest : ((m.insert pair.1 pair.2).keys ++ normalKeys rest).Nodup := by
      rw [hkeys, List.append_assoc]
      exact h
    rw [List.foldl_cons, hstep m pair hnew, ih hrest, hentries, List.append_assoc]
    rfl

/-! ## Normal form -/

/-- The keys are distinct, and each is its own normal form. -/
structure IsNormal (m : Metadata) : Prop where
  nodup : m.keys.Nodup
  fixed : ∀ k ∈ m.keys, normalizeKey k = k

theorem normalizeKey_of_mem_normalKeys {k : String} {pairs : List (String × String)}
    (h : k ∈ normalKeys pairs) : normalizeKey k = k := by
  obtain ⟨pair, -, rfl⟩ := List.mem_map.mp h
  exact normalizeKey_normalizeKey pair.1

/-- Metadata whose keys are those of some pairs are in normal form. -/
theorem Records.isNormal {pairs : List (String × String)} (h : m.Records (normalKeys pairs)) :
    m.IsNormal := by
  constructor
  · rw [h]
    exact nodup_eraseDups _
  · intro k hk
    rw [h, List.mem_eraseDups] at hk
    exact normalizeKey_of_mem_normalKeys hk

theorem isNormal_ofList (pairs : List (String × String)) : (ofList pairs).IsNormal :=
  (Records.ofList pairs).isNormal

namespace IsNormal

/-- Metadata in normal form record their own keys. -/
theorem records (h : m.IsNormal) : m.Records m.keys :=
  (eraseDups_eq_self h.nodup).symm

theorem normalizeKey_fst (h : m.IsNormal) {entry : String × String} (hentry : entry ∈ m.entries) :
    normalizeKey entry.1 = entry.1 :=
  h.fixed entry.1 (List.mem_map_of_mem hentry)

theorem normalKeys_entries (h : m.IsNormal) : normalKeys m.entries = m.keys := by
  unfold normalKeys keys
  rw [List.map_congr_left fun entry hentry => h.normalizeKey_fst hentry]

/-- The first value of a key is its value. -/
theorem firstValue?_entries (h : m.IsNormal) (k : String) :
    firstValue? (normalizeKey k) m.entries = m.get? k := by
  have hfixed : ∀ entry ∈ m.entries, normalizeKey entry.1 = entry.1 :=
    fun _ hentry => h.normalizeKey_fst hentry
  unfold get?
  generalize m.entries = entries at hfixed
  induction entries with
  | nil => rfl
  | cons entry rest ih =>
    obtain ⟨first, v⟩ := entry
    have hfirst : normalizeKey first = first := hfixed (first, v) List.mem_cons_self
    rw [firstValue?_cons, ih fun x hx => hfixed x (List.mem_cons_of_mem _ hx), hfirst,
      lookup_cons_eq]
    split <;> rfl

end IsNormal

end ArticleAudit.Metadata
