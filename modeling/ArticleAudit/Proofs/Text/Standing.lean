import ArticleAudit.Text.Slice

/-!
# Where a part of a text stands

`Stands source offset cs` says that the text `cs` stands in `source` at a byte offset. It is the
form in which every reader of a line is described: a part of what stands at an offset stands at the
offset plus the bytes before it. A span has a slice exactly when a text stands there
(`slice?_eq_some_iff`), and between any two character boundaries in order there is one
(`Boundary.exists_stands`).
-/

set_option autoImplicit false

namespace ArticleAudit.Text

variable {source cs a b c : List Char} {m n : Nat}

/-- The text `cs` stands at byte `offset` of the source. -/
def Stands (source : List Char) (offset : Nat) (cs : List Char) : Prop :=
  ∃ before after, source = before ++ cs ++ after ∧ byteSize before = offset

/-- The offset is on a character boundary of the source. -/
def Boundary (source : List Char) (offset : Nat) : Prop :=
  Stands source offset []

theorem byteSize_pos_of_ne_nil (h : cs ≠ []) : 0 < byteSize cs := by
  cases cs with
  | nil => exact absurd rfl h
  | cons c rest =>
    have hc : 0 < c.utf8Size := c.utf8Size_pos
    simp only [byteSize_cons]
    omega

@[simp] theorem byteSize_eq_zero_iff : byteSize cs = 0 ↔ cs = [] := by
  constructor
  · intro h
    by_cases hcs : cs = []
    · exact hcs
    · have := byteSize_pos_of_ne_nil hcs
      omega
  · rintro rfl
    rfl

/-- A text of one-byte characters has as many bytes as characters. -/
theorem byteSize_eq_length (h : ∀ x ∈ cs, x.utf8Size = 1) : byteSize cs = cs.length := by
  induction cs with
  | nil => rfl
  | cons x rest ih =>
    have hx : x.utf8Size = 1 := h x List.mem_cons_self
    have hrest := ih fun y hy => h y (List.mem_cons_of_mem x hy)
    simp only [byteSize_cons, List.length_cons]
    omega

theorem byteSize_le_of_isPrefix (h : a <+: b) : byteSize a ≤ byteSize b := by
  obtain ⟨rest, rfl⟩ := h
  rw [byteSize_append]
  exact Nat.le_add_right _ _

theorem eq_append_of_isPrefixOf? (h : List.isPrefixOf? a cs = some b) : cs = a ++ b := by
  induction a generalizing cs with
  | nil => exact Option.some.inj h
  | cons x rest ih =>
    cases cs with
    | nil => cases h
    | cons y cs =>
      change (if x == y then List.isPrefixOf? rest cs else none) = some b at h
      simp only [Option.ite_none_right_eq_some, beq_iff_eq] at h
      obtain ⟨rfl, h⟩ := h
      rw [ih h]
      rfl

/-- What follows an initial part, reached from the second character on. -/
theorem drop_of_cons_eq_append {x : Char} (h : x :: cs = a ++ b) (ha : a ≠ []) :
    cs.drop (a.length - 1) = b := by
  obtain ⟨y, rest, rfl⟩ := List.exists_cons_of_ne_nil ha
  simp only [List.cons_append, List.cons.injEq] at h
  rw [h.2, List.length_cons, Nat.add_sub_cancel, List.drop_left]

/-! ## Parts of what stands -/

theorem stands_self (cs : List Char) : Stands cs 0 cs :=
  ⟨[], [], by simp, rfl⟩

namespace Stands

theorem left (h : Stands source n (a ++ b)) : Stands source n a := by
  obtain ⟨before, after, rfl, hn⟩ := h
  exact ⟨before, b ++ after, by simp, hn⟩

theorem right (h : Stands source n (a ++ b)) : Stands source (n + byteSize a) b := by
  obtain ⟨before, after, rfl, hn⟩ := h
  exact ⟨before ++ a, after, by simp, by simp [hn]⟩

/-- The middle part of what stands at an offset stands after the first part. -/
theorem middle (h : Stands source n (a ++ b ++ c)) : Stands source (n + byteSize a) b :=
  h.left.right

theorem of_prefix (h : Stands source n cs) (ha : a <+: cs) : Stands source n a := by
  obtain ⟨rest, rfl⟩ := ha
  exact h.left

/-- What stands in a text that itself stands in the source. -/
theorem trans (h : Stands source n cs) (ha : Stands cs m a) : Stands source (n + m) a := by
  obtain ⟨before, after, rfl, rfl⟩ := ha
  exact h.middle

theorem boundary (h : Stands source n cs) : Boundary source n :=
  of_prefix h List.nil_prefix

theorem boundary_stop (h : Stands source n cs) : Boundary source (n + byteSize cs) := by
  have h' : Stands source n (cs ++ []) := by
    rw [List.append_nil]
    exact h
  exact h'.right

theorem stop_le (h : Stands source n cs) : n + byteSize cs ≤ byteSize source := by
  obtain ⟨before, after, rfl, rfl⟩ := h
  simp only [byteSize_append]
  omega

theorem slice? (h : Stands source n cs) : slice? source ⟨n, n + byteSize cs⟩ = some cs := by
  obtain ⟨before, after, rfl, rfl⟩ := h
  exact slice?_append before cs after

theorem slice (h : Stands source n cs) : slice source ⟨n, n + byteSize cs⟩ = cs := by
  rw [Text.slice, h.slice?]
  rfl

/-- Two texts of one size at one offset are the same. -/
theorem unique (ha : Stands source n a) (hb : Stands source n b)
    (hsize : byteSize a = byteSize b) : a = b := by
  have h := hb.slice?
  rw [← hsize, ha.slice?] at h
  exact Option.some.inj h

end Stands

/-- Of a text cut at one offset in two ways the parts are the same. -/
theorem append_inj_of_byteSize {d : List Char} (h : a ++ b = c ++ d)
    (hsize : byteSize a = byteSize c) : a = c ∧ b = d := by
  have ha : Stands (a ++ b) 0 a := (stands_self _).left
  have hc : Stands (a ++ b) 0 c := by
    rw [h]
    exact (stands_self _).left
  obtain rfl := ha.unique hc hsize
  exact ⟨rfl, List.append_cancel_left h⟩

/-- What stands next to each other stands together. -/
theorem Stands.append (ha : Stands source n a) (hb : Stands source (n + byteSize a) b) :
    Stands source n (a ++ b) := by
  obtain ⟨before, after, rfl, rfl⟩ := ha
  obtain ⟨before', after', hsource, hsize⟩ := hb
  have hfront : before ++ a = before' := by
    have h : Stands (before ++ a ++ after) 0 (before ++ a) := (stands_self _).left
    have h' : Stands (before ++ a ++ after) 0 before' := by
      refine ⟨[], b ++ after', ?_, rfl⟩
      rw [hsource]
      simp
    refine h.unique h' ?_
    rw [hsize, byteSize_append]
  refine ⟨before, after', ?_, rfl⟩
  rw [hsource, ← hfront]
  simp

/-! ## Boundaries and slices -/

theorem boundary_zero (source : List Char) : Boundary source 0 :=
  (stands_self source).boundary

theorem Boundary.le (h : Boundary source n) : n ≤ byteSize source := by
  have := h.stop_le
  simpa using this

/-- Between two boundaries in order there stands a text. -/
theorem Boundary.exists_stands (hm : Boundary source m) (hn : Boundary source n) (h : m ≤ n) :
    ∃ cs, Stands source m cs ∧ m + byteSize cs = n := by
  obtain ⟨before, after, hsource, rfl⟩ := hm
  obtain ⟨before', after', hsource', rfl⟩ := hn
  simp only [List.append_nil] at hsource hsource'
  have hparts : before ++ after = before' ++ after' := hsource.symm.trans hsource'
  rcases List.append_eq_append_iff.mp hparts with ⟨mid, hbefore, -⟩ | ⟨mid, hbefore, hafter⟩
  · refine ⟨mid, ⟨before, after', ?_, rfl⟩, ?_⟩
    · rw [hsource', hbefore]
    · rw [hbefore, byteSize_append]
  · -- The earlier boundary has the longer part before it, so nothing lies between the two.
    have hmid : mid = [] := by
      rw [hbefore, byteSize_append] at h
      exact byteSize_eq_zero_iff.mp (by omega)
    subst hmid
    refine ⟨[], ⟨before, after, ?_, rfl⟩, ?_⟩
    · rw [hsource, List.append_nil]
    · rw [hbefore]
      simp

theorem dropBytes?_eq_some_iff :
    dropBytes? n cs = some b ↔ ∃ a, cs = a ++ b ∧ byteSize a = n := by
  constructor
  · intro h
    induction cs generalizing n with
    | nil =>
      cases n with
      | zero =>
        simp only [dropBytes?, Option.some.injEq] at h
        exact ⟨[], h, rfl⟩
      | succ n => simp [dropBytes?] at h
    | cons x rest ih =>
      cases n with
      | zero =>
        simp only [dropBytes?, Option.some.injEq] at h
        exact ⟨[], h, rfl⟩
      | succ n =>
        simp only [dropBytes?] at h
        split at h
        · next hle =>
          obtain ⟨a, rfl, ha⟩ := ih h
          exact ⟨x :: a, rfl, by simp only [byteSize_cons]; omega⟩
        · simp at h
  · rintro ⟨a, rfl, rfl⟩
    exact dropBytes?_byteSize a b

theorem takeBytes?_eq_some_iff :
    takeBytes? n cs = some a ↔ a <+: cs ∧ byteSize a = n := by
  constructor
  · intro h
    induction cs generalizing n a with
    | nil =>
      cases n with
      | zero =>
        simp only [takeBytes?, Option.some.injEq] at h
        exact ⟨h ▸ List.nil_prefix, by rw [← h]; rfl⟩
      | succ n => simp [takeBytes?] at h
    | cons x rest ih =>
      cases n with
      | zero =>
        simp only [takeBytes?, Option.some.injEq] at h
        exact ⟨h ▸ List.nil_prefix, by rw [← h]; rfl⟩
      | succ n =>
        simp only [takeBytes?] at h
        split at h
        · next hle =>
          obtain ⟨a', ha', rfl⟩ := Option.map_eq_some_iff.mp h
          obtain ⟨hfirst, hsize⟩ := ih ha'
          exact ⟨List.cons_prefix_cons.mpr ⟨rfl, hfirst⟩, by simp only [byteSize_cons]; omega⟩
        · simp at h
  · rintro ⟨⟨rest, rfl⟩, rfl⟩
    exact takeBytes?_byteSize a rest

/-- A span has a slice exactly when a text of its size stands at its start. -/
theorem slice?_eq_some_iff {s : Span} :
    slice? source s = some cs ↔ Stands source s.start cs ∧ s.stop = s.start + byteSize cs := by
  constructor
  · intro h
    unfold Text.slice? at h
    split at h
    · next hle =>
      obtain ⟨rest, hrest, htake⟩ := Option.bind_eq_some_iff.mp h
      obtain ⟨before, rfl, hbefore⟩ := dropBytes?_eq_some_iff.mp hrest
      obtain ⟨⟨after, rfl⟩, hsize⟩ := takeBytes?_eq_some_iff.mp htake
      exact ⟨⟨before, after, by simp, hbefore⟩, by omega⟩
    · simp at h
  · rintro ⟨h, hstop⟩
    have hs : s = ⟨s.start, s.start + byteSize cs⟩ := by rw [← hstop]
    rw [hs]
    exact h.slice?

theorem isValidFor_of_slice? {s : Span} (h : slice? source s = some cs) :
    s.isValidFor (byteSize source) = true := by
  obtain ⟨hstands, hstop⟩ := slice?_eq_some_iff.mp h
  have hle := hstands.stop_le
  exact Span.isValidFor_iff.mpr ⟨by omega, by omega⟩

theorem Boundary.max (hm : Boundary source m) (hn : Boundary source n) :
    Boundary source (max m n) := by
  rcases Nat.le_total m n with h | h
  · rwa [Nat.max_eq_right h]
  · rwa [Nat.max_eq_left h]

theorem Boundary.min (hm : Boundary source m) (hn : Boundary source n) :
    Boundary source (min m n) := by
  rcases Nat.le_total m n with h | h
  · rwa [Nat.min_eq_left h]
  · rwa [Nat.min_eq_right h]

/-- A text that stands between the ends of another one is a part of it. -/
theorem Stands.exists_split (h : Stands source m cs) (ha : Stands source n a) (hle : m ≤ n)
    (hstop : n + byteSize a ≤ m + byteSize cs) :
    ∃ before after, cs = before ++ a ++ after ∧ m + byteSize before = n := by
  obtain ⟨before, hbefore, rfl⟩ := h.boundary.exists_stands ha.boundary hle
  obtain ⟨after, hafter, hsize⟩ := ha.boundary_stop.exists_stands h.boundary_stop hstop
  have hparts : Stands source m (before ++ (a ++ after)) := hbefore.append (ha.append hafter)
  refine ⟨before, after, ?_, rfl⟩
  rw [List.append_assoc]
  refine h.unique hparts ?_
  simp only [byteSize_append] at *
  omega

/-- A character that stands between the ends of a text is a character of the text. -/
theorem Stands.mem {x : Char} (h : Stands source m cs) (hx : Stands source n [x]) (hle : m ≤ n)
    (hlt : n + x.utf8Size ≤ m + byteSize cs) : x ∈ cs := by
  obtain ⟨before, after, rfl, -⟩ := h.exists_split hx hle (by simpa using hlt)
  simp

/-- Of two texts at one offset the shorter one starts the longer one. -/
theorem Stands.isPrefix (ha : Stands source n a) (hb : Stands source n b)
    (h : byteSize a ≤ byteSize b) : a <+: b := by
  obtain ⟨rest, hrest, hsize⟩ :=
    ha.boundary_stop.exists_stands hb.boundary_stop (Nat.add_le_add_left h n)
  refine ⟨rest, (ha.append hrest).unique hb ?_⟩
  rw [byteSize_append]
  omega

theorem Boundary.slice?_eq (hm : Boundary source m) (hn : Boundary source n) (h : m ≤ n) :
    slice? source ⟨m, n⟩ = some (slice source ⟨m, n⟩) := by
  obtain ⟨cs, hcs, rfl⟩ := hm.exists_stands hn h
  rw [hcs.slice?, hcs.slice]

end ArticleAudit.Text
