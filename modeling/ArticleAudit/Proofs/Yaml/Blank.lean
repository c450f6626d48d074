import ArticleAudit.Proofs.Text.Trimming
import ArticleAudit.Yaml.Value

/-!
# Blank texts in YAML

Nothing in a blank text opens a collection or sets a property, so the scanner makes scalars of it at
most (`Scan.Inert`), the reader finds a scalar node, and the value is no mapping
(`Value.ofChars?_ne_mapping`).
-/

set_option autoImplicit false

namespace ArticleAudit.Yaml

/-! ## Steps that may fail -/

section Ensures

variable {α β : Type} {P : α → Prop} {Q : β → Prop} {x : Except Fault α} {f : α → Except Fault β}

/-- What a step answers, if it answers anything, has a property. -/
def Ensures (P : α → Prop) (x : Except Fault α) : Prop :=
  ∀ a, x = .ok a → P a

theorem ensures_error (e : Fault) : Ensures P (.error e) := nofun

theorem ensures_ok {a : α} (h : P a) : Ensures P (.ok a) := by
  rintro b hb
  cases hb
  exact h

theorem Ensures.bind (hx : Ensures P x) (hf : ∀ a, P a → Ensures Q (f a)) :
    Ensures Q (x >>= f) := by
  cases x with
  | error e => exact ensures_error e
  | ok a => exact hf a (hx a rfl)

/-- A step may be followed by others whatever it answers. -/
theorem Ensures.after (x : Except Fault α) (hf : ∀ a, Ensures Q (f a)) : Ensures Q (x >>= f) :=
  Ensures.bind (P := fun _ => True) (fun _ _ => trivial) fun a _ => hf a

theorem Ensures.map (hx : Ensures P x) {g : α → β} (hg : ∀ a, P a → Q (g a)) :
    Ensures Q (x.map g) := by
  cases x with
  | error e => exact ensures_error e
  | ok a => exact ensures_ok (hg a (hx a rfl))

end Ensures

/-! ## Scanning -/

/-- Moving on leaves a final part of the text. -/
theorem Place.advance_isSuffix (n : Nat) (p : Place) : (p.advance n).rest <:+ p.rest := by
  fun_induction Place.advance n p with
  | case1 => exact List.suffix_rfl
  | case2 => exact List.suffix_rfl
  | case3 p rest hrest =>
    rw [hrest]
    exact List.suffix_cons _ _
  | case4 p rest hrest n ih =>
    rw [hrest]
    exact ih.trans ((List.suffix_cons _ _).trans (List.suffix_cons _ _))
  | case5 n p c rest _ hrest _ ih =>
    rw [hrest]
    exact ih.trans (List.suffix_cons _ _)
  | case6 n p c rest _ hrest _ ih =>
    rw [hrest]
    exact ih.trans (List.suffix_cons _ _)

/-- The token is a scalar, or an end of the stream. -/
def Token.IsInert (t : Token) : Prop :=
  t = .streamStart ∨ t = .streamEnd ∨ ∃ text isPlain, t = .scalar text isPlain

namespace Scan

variable {s : Scan}

/-- All that is left is blank, no block is open, and all tokens are inert. -/
structure Inert (s : Scan) : Prop where
  blank : ∀ c ∈ s.place.rest, Text.isBlank c = true
  columns : s.columns = []
  tokens : ∀ t ∈ s.tokens, t.IsInert

theorem inert_start {cs : List Char} (h : ∀ c ∈ cs, Text.isBlank c = true) : (start cs).Inert where
  blank := h
  columns := rfl
  tokens := by
    intro t ht
    simp only [start, List.mem_toArray, List.mem_singleton] at ht
    exact .inl ht

namespace Inert

/-- Simple keys do not matter. -/
theorem withKeys (h : s.Inert) (keys : List (Option SimpleKey)) : Inert { s with keys } :=
  ⟨h.blank, h.columns, h.tokens⟩

theorem allow (h : s.Inert) (allowsKey : Bool) : (s.allow allowsKey).Inert :=
  ⟨h.blank, h.columns, h.tokens⟩

theorem advance (h : s.Inert) (n : Nat) : Inert { s with place := s.place.advance n } :=
  ⟨fun c hc => h.blank c ((Place.advance_isSuffix n s.place).subset hc), h.columns, h.tokens⟩

theorem push (h : s.Inert) {t : Token} (ht : t.IsInert) : (s.push t).Inert where
  blank := h.blank
  columns := h.columns
  tokens := by
    intro u hu
    rcases Array.mem_push.mp hu with hu | rfl
    · exact h.tokens u hu
    · exact ht

theorem closeBlocks (h : s.Inert) (column : Option Nat) : (s.closeBlocks column).Inert := by
  unfold Scan.closeBlocks
  split
  · exact h
  · refine ⟨h.blank, ?_, ?_⟩
    · simp [h.columns]
    · simpa [h.columns] using h.tokens

theorem dropKey (h : s.Inert) : Ensures Inert s.dropKey := by
  unfold Scan.dropKey
  split
  · split
    · exact ensures_error _
    · exact ensures_ok (h.withKeys _)
  · exact ensures_ok h

theorem saveKey (h : s.Inert) : Ensures Inert s.saveKey := by
  unfold Scan.saveKey
  split
  · exact h.dropKey.bind fun s hs => ensures_ok (hs.withKeys _)
  · exact ensures_ok h

theorem dropStaleKeys (h : s.Inert) : Ensures Inert s.dropStaleKeys :=
  Ensures.after _ fun keys => ensures_ok (h.withKeys keys)

theorem passGaps (h : s.Inert) (fuel : Nat) : (passGaps fuel s).Inert := by
  induction fuel generalizing s with
  | zero => exact h
  | succ fuel ih =>
    unfold Scan.passGaps
    extract_lets marked passes afterBlanks afterComment passed broken
    have hmarked : marked.Inert := by
      unfold marked
      split
      · exact h.advance 1
      · exact h
    have hpassed : passed.Inert := hmarked.advance _
    have hbroken : broken.Inert := hpassed.advance _
    clear_value broken passed afterComment
    split
    · exact hpassed
    · split
      · refine ih ?_
        split
        · exact hbroken
        · exact hbroken.allow true
      · exact hpassed

/-- The end of a text adds no token but the end of the stream. -/
theorem fetchEnd (h : s.Inert) : Ensures Inert s.fetchEnd :=
  (h.closeBlocks none).dropKey.bind fun _ hs => ensures_ok (hs.push (.inr (.inl rfl)))

theorem fetchPlain (h : s.Inert) : Ensures Inert s.fetchPlain := by
  unfold Scan.fetchPlain
  refine h.saveKey.bind fun s hs => Ensures.after _ fun plain => ensures_ok ?_
  exact ((hs.advance _).allow _).push (.inr (.inr ⟨_, _, rfl⟩))

/-- No token but a plain scalar starts with a blank. -/
theorem fetch (h : s.Inert) {c : Char} (hc : Text.isBlank c = true) (rest : List Char) :
    Ensures Inert (s.fetch c rest) := by
  have hne : ∀ d, Text.isBlank d = false → (c == d) = false := by
    intro d hd
    refine beq_eq_false_iff_ne.mpr ?_
    rintro rfl
    rw [hc] at hd
    cases hd
  have hmark : ∀ mark, Text.isBlank mark = false → isDocumentMark mark (c :: rest) = false := by
    intro mark hblank
    unfold isDocumentMark
    split
    · next heq =>
      obtain ⟨rfl, -⟩ := List.cons.inj heq
      rw [hne mark hblank, Bool.false_and, Bool.false_and, Bool.false_and]
    · rfl
  unfold Scan.fetch
  simp (disch := decide) only [hne, hmark, Bool.and_false, Bool.false_and, Bool.or_false,
    Bool.false_eq_true, if_false]
  split
  · exact h.fetchPlain
  · exact ensures_error _

theorem run (h : s.Inert) (fuel : Nat) :
    Ensures (fun tokens => ∀ t ∈ tokens, t.IsInert) (run fuel s) := by
  induction fuel generalizing s with
  | zero => exact ensures_error _
  | succ fuel ih =>
    unfold Scan.run
    refine (h.passGaps _).dropStaleKeys.bind fun s hs => ?_
    split
    · exact hs.fetchEnd.bind fun s hs => ensures_ok hs.tokens
    · next c rest hrest =>
      have hc : Text.isBlank c = true := hs.blank c (hrest ▸ List.mem_cons_self)
      exact ((hs.closeBlocks _).fetch hc rest).bind fun s hs => ih hs

end Inert

end Scan

/-- A blank text has no tokens but scalars. -/
theorem ensures_tokensOf {cs : List Char} (h : ∀ c ∈ cs, Text.isBlank c = true) :
    Ensures (fun tokens => ∀ t ∈ tokens, t.IsInert) (tokensOf cs) := by
  unfold tokensOf
  split
  · refine ((Scan.inert_start h).run _).map fun tokens htokens => ?_
    exact fun t ht => htokens t (Array.mem_toList_iff.mp ht)
  · exact ensures_error _

/-! ## Reading -/

/-- The node is a scalar. -/
def Node.IsScalar (n : Node) : Prop :=
  ∃ p text isPlain, n = .scalar p text isPlain

/-- Where no other token comes next, a node is a scalar. -/
theorem ensures_node {tokens : List Token} (h : ∀ t ∈ tokens, t.IsInert) (fuel : Nat)
    (handles : List (String × String)) (anchors : List (String × Nat)) :
    Ensures (fun x => x.1.IsScalar) (ReadNode.node fuel true false ⟨tokens, handles, anchors⟩) := by
  cases fuel with
  | zero => exact ensures_error _
  | succ fuel =>
    unfold ReadNode.node
    cases tokens with
    | nil => exact ensures_error .grammar
    | cons t tokens =>
      rcases h t List.mem_cons_self with rfl | rfl | ⟨text, isPlain, rfl⟩
      · exact ensures_error .grammar
      · exact ensures_error .grammar
      · exact ensures_ok ⟨_, _, _, rfl⟩

/-- A document without directives and marks is one node. -/
theorem ensures_content {tokens : List Token} (h : ∀ t ∈ tokens, t.IsInert) (fuel : Nat) :
    Ensures (fun x => x.1.IsScalar) (do
      let x ← ReadNode.node fuel true false ⟨tokens, ReadNode.defaultHandles, []⟩
      let y ← ReadNode.streamEnd fuel x.2
      return (x.1, y.2)) :=
  (ensures_node h fuel _ _).bind fun _ hx => Ensures.after _ fun _ => ensures_ok hx

theorem ensures_stream {tokens : List Token} (h : ∀ t ∈ tokens, t.IsInert) (fuel : Nat) :
    Ensures (fun x => x.1.IsScalar) (ReadNode.stream fuel ⟨tokens, [], []⟩) := by
  -- The first token is the start of the stream; a stream that ends behind it is an absent scalar.
  match tokens with
  | [] => exact ensures_ok ⟨_, _, _, rfl⟩
  | [_] => exact ensures_ok ⟨_, _, _, rfl⟩
  | _ :: t :: rest =>
    have hrest : ∀ u ∈ t :: rest, u.IsInert := fun u hu => h u (List.mem_cons_of_mem _ hu)
    rcases hrest t List.mem_cons_self with rfl | rfl | ⟨text, isPlain, rfl⟩
    · exact ensures_content hrest fuel
    · exact ensures_ok ⟨_, _, _, rfl⟩
    · exact ensures_content hrest fuel

/-- A blank text has a scalar as its node. -/
theorem ensures_ofChars? {cs : List Char} (h : ∀ c ∈ cs, Text.isBlank c = true) :
    Ensures Node.IsScalar (Node.ofChars? cs) := by
  unfold Node.ofChars?
  refine (ensures_tokensOf h).bind fun tokens htokens => ?_
  exact (ensures_stream htokens _).bind fun x hx => ensures_ok hx

namespace Value

/-- The value is a mapping. -/
def IsMapping (v : Value) : Prop :=
  ∃ members, v = .mapping members

theorem not_isMapping_wrap (p : Properties) {v : Value} (h : ¬ v.IsMapping) :
    ¬ (wrap p v).IsMapping := by
  unfold wrap
  split
  · exact nofun
  · exact h

theorem ensures_ofPlain (s : String) : Ensures (fun v => ¬ v.IsMapping) (ofPlain s) := by
  unfold ofPlain
  split
  · exact ensures_ok nofun
  · exact ensures_ok nofun
  · exact ensures_ok nofun
  · exact ensures_error _
  · exact ensures_ok nofun
  · exact ensures_ok nofun

theorem ensures_ofCoreTag (tag s : String) :
    Ensures (fun v => ¬ v.IsMapping) (ofCoreTag tag s) := by
  unfold ofCoreTag
  split
  · split
    · exact ensures_ok nofun
    · exact ensures_error _
  · split
    · split
      · split
        · exact ensures_ok nofun
        · exact ensures_error _
      · exact ensures_error _
    · split
      · split
        · exact ensures_ok nofun
        · exact ensures_error _
      · split
        · split
          · exact ensures_ok nofun
          · exact ensures_error _
        · exact ensures_ok nofun

/-- A scalar is no mapping. -/
theorem ensures_ofScalar (p : Properties) (s : String) (isPlain : Bool) :
    Ensures (fun v => ¬ v.IsMapping) (ofScalar p s isPlain) := by
  have huntagged :
      Ensures (fun v => ¬ v.IsMapping) (if isPlain then ofPlain s else .ok (.text s)) := by
    split
    · exact ensures_ofPlain s
    · exact ensures_ok nofun
  unfold ofScalar
  split
  · exact huntagged
  · split
    · exact huntagged.map fun v hv => not_isMapping_wrap p hv
    · exact ensures_ofCoreTag _ s

/-- A scalar is read without following aliases, however deep it lies. -/
theorem run_ofNode_scalar (root : Node) (depth : Nat) (p : Properties) (s : String) (isPlain : Bool)
    (n : Nat) : (ofNode root depth (.scalar p s isPlain)).run n =
      (do return (← ofScalar p s isPlain, n)) := by
  -- The equation of the reader cannot be stated for all depths at once, so it is opened by hand.
  delta ofNode
  cases depth with
  | zero => rfl
  | succ depth => rfl

/-- A blank text is no mapping. -/
theorem ofChars?_ne_mapping {cs : List Char} (h : ∀ c ∈ cs, Text.isBlank c = true)
    (members : List (Value × Value)) : ofChars? cs ≠ .ok (.mapping members) := by
  have hvalue : Ensures (fun v => ¬ v.IsMapping) (ofChars? cs) := by
    unfold ofChars?
    refine (ensures_ofChars? h).bind fun root hroot => ?_
    obtain ⟨p, text, isPlain, rfl⟩ := hroot
    rw [run_ofNode_scalar]
    refine Ensures.bind (P := fun x => ¬ x.1.IsMapping) ?_ fun x hx => ensures_ok hx
    exact (ensures_ofScalar p text isPlain).bind fun v hv => ensures_ok hv
  exact fun hmapping => hvalue _ hmapping ⟨members, rfl⟩

end Value

end ArticleAudit.Yaml
