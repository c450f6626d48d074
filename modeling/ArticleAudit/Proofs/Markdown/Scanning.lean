import ArticleAudit.Proofs.Markdown.InlineLineEnds

/-!
# The places a scan comes to

The scan of inline text goes forward in steps: it takes a backslash with the character after it, a
construct that its reader recognizes, or else one character (`Takes`). `Reaches read before rest`
says that in `before ++ rest` these steps take `before` and lead to `rest`: the place is neither
behind a backslash nor inside a construct. The code spans and links of a scan are exactly the
constructs that are read at the places it comes to (`Reaches.mem_scanInline`,
`exists_of_mem_scanInline`), of two places one is come to from the other (`Reaches.total`), and so
no place lies inside what another step takes (`Reaches.outside`). All this holds for any reader that
recognizes initial parts, so for the reader of code spans alone as well.
-/

set_option autoImplicit false

namespace ArticleAudit.Markdown

open ArticleAudit.Text

variable {read : List Char → Option Construct} {part part' before before' rest rest' : List Char}

/-- A reader recognizes an initial part of a text that is not empty and does not start with a
backslash. -/
structure Recognizes (read : List Char → Option Construct) : Prop where
  initial : ∀ {cs : List Char} {construct : Construct}, read cs = some construct →
    construct.source ≠ [] ∧ ∃ after, cs = construct.source ++ after
  escape : ∀ rest : List Char, read ('\\' :: rest) = none

theorem recognizes_constructAt? : Recognizes constructAt? :=
  ⟨constructAt?_eq_some, fun _ => rfl⟩

theorem recognizes_codeAt? : Recognizes codeAt? := by
  refine ⟨fun {cs construct} h => ?_, fun _ => rfl⟩
  have hread : constructAt? cs = some construct := by
    rw [constructAt?, h]
    rfl
  exact constructAt?_eq_some hread

/-- One step of a scan takes `part` when `rest` follows. -/
inductive Takes (read : List Char → Option Construct) : List Char → List Char → Prop
  | escape (c : Char) (rest : List Char) : Takes read ['\\', c] rest
  | lastEscape : Takes read ['\\'] []
  | construct {part rest : List Char} {found : Construct} (h : read (part ++ rest) = some found)
      (hpart : found.source = part) : Takes read part rest
  | plain {c : Char} {rest : List Char} (hc : c ≠ '\\') (h : read (c :: rest) = none) :
      Takes read [c] rest

/-- Scanning `before ++ rest`, whole steps take `before` and lead to `rest`. -/
inductive Reaches (read : List Char → Option Construct) : List Char → List Char → Prop
  | here (rest : List Char) : Reaches read [] rest
  | step {part before rest : List Char} (h : Takes read part (before ++ rest))
      (hrest : Reaches read before rest) : Reaches read (part ++ before) rest

/-! ## One step -/

namespace Takes

theorem ne_nil (hread : Recognizes read) (h : Takes read part rest) : part ≠ [] := by
  cases h with
  | escape c => exact List.cons_ne_nil _ _
  | lastEscape => exact List.cons_ne_nil _ _
  | construct h hpart => exact hpart ▸ (hread.initial h).1
  | plain hc h => exact List.cons_ne_nil _ _

/-- Behind a backslash the step is known. -/
theorem eq_of_slash (hread : Recognizes read) {cs : List Char} (h : Takes read part rest)
    (heq : part ++ rest = '\\' :: cs) : part = '\\' :: cs.take 1 := by
  cases h with
  | escape c =>
    obtain rfl : c :: rest = cs := (List.cons.inj heq).2
    rfl
  | lastEscape =>
    obtain rfl : [] = cs := (List.cons.inj heq).2
    rfl
  | construct h =>
    rw [heq, hread.escape] at h
    cases h
  | plain hc => exact absurd (List.cons.inj heq).1 hc

/-- A construct that is read is taken whole. -/
theorem eq_of_construct (hread : Recognizes read) {found : Construct} (h : Takes read part rest)
    (hfound : read (part ++ rest) = some found) : part = found.source := by
  cases h with
  | escape c =>
    rw [List.cons_append, hread.escape] at hfound
    cases hfound
  | lastEscape =>
    rw [List.append_nil, hread.escape] at hfound
    cases hfound
  | construct h hpart =>
    rw [h] at hfound
    rw [← hpart, Option.some.inj hfound]
  | plain hc h =>
    rw [List.singleton_append, h] at hfound
    cases hfound

/-- Where nothing is read the step takes one character. -/
theorem eq_of_none {c : Char} {cs : List Char} (h : Takes read part rest)
    (heq : part ++ rest = c :: cs) (hc : c ≠ '\\') (hnone : read (c :: cs) = none) :
    part = [c] := by
  cases h with
  | escape c' => exact absurd (List.cons.inj heq).1.symm hc
  | lastEscape => exact absurd (List.cons.inj heq).1.symm hc
  | construct h =>
    rw [heq, hnone] at h
    cases h
  | plain => rw [(List.cons.inj heq).1]

/-- The step from a place is determined by what is left there. -/
theorem unique (hread : Recognizes read) (h : Takes read part rest) (h' : Takes read part' rest')
    (heq : part ++ rest = part' ++ rest') : part = part' := by
  cases h' with
  | escape c => exact h.eq_of_slash hread heq
  | lastEscape => exact h.eq_of_slash hread heq
  | construct h' hpart => exact hpart ▸ h.eq_of_construct hread (heq ▸ h')
  | plain hc h' => exact h.eq_of_none heq hc h'

/-- A step that takes characters from both sides of a place takes a construct, unless it is the step
over an escaped character. -/
theorem exists_of_cut {left right : List Char} (h : Takes read (left ++ right) rest)
    (hleft : left ≠ []) (hright : right ≠ []) (hslash : left ≠ ['\\']) :
    ∃ found, read (left ++ right ++ rest) = some found ∧ found.source = left ++ right := by
  have hpos := List.length_pos_iff.mpr hleft
  have hpos' := List.length_pos_iff.mpr hright
  generalize hpart : left ++ right = part at h
  have hlong : left.length + right.length = part.length := by rw [← hpart, List.length_append]
  cases h with
  | escape c =>
    -- Of the two characters the backslash stands before the place.
    have hone : left.length = 1 := by
      simp only [List.length_cons, List.length_nil] at hlong
      omega
    obtain ⟨d, rfl⟩ := List.length_eq_one_iff.mp hone
    exact absurd (congrArg (fun x => [x]) (List.cons.inj hpart).1) hslash
  | lastEscape =>
    simp only [List.length_cons, List.length_nil] at hlong
    omega
  | plain =>
    simp only [List.length_cons, List.length_nil] at hlong
    omega
  | construct hread hsource => exact ⟨_, hread, hsource⟩

end Takes

/-! ## Places -/

namespace Reaches

theorem single (h : Takes read part rest) : Reaches read part rest := by
  have hstep : Reaches read (part ++ []) rest := .step h (.here rest)
  rwa [List.append_nil] at hstep

theorem trans (h : Reaches read before (before' ++ rest)) (h' : Reaches read before' rest) :
    Reaches read (before ++ before') rest := by
  generalize hleft : before' ++ rest = left at h
  induction h with
  | here => exact h'
  | step htake _ ih =>
    rw [List.append_assoc]
    subst hleft
    refine .step ?_ (ih rfl)
    rwa [List.append_assoc]

theorem snoc (h : Reaches read before (part ++ rest)) (htake : Takes read part rest) :
    Reaches read (before ++ part) rest :=
  h.trans (.single htake)

/-- Induction on the steps from the start of the text, with the last one apart. -/
theorem induction_last {motive : ∀ before rest, Reaches read before rest → Prop}
    (here : ∀ rest, motive [] rest (.here rest))
    (step : ∀ before part rest (h : Reaches read before (part ++ rest))
      (htake : Takes read part rest),
      motive before (part ++ rest) h → motive (before ++ part) rest (h.snoc htake))
    (h : Reaches read before rest) : motive before rest h := by
  have onward : ∀ front, Reaches read front (before ++ rest) →
      (∀ h', motive front (before ++ rest) h') → ∀ h', motive (front ++ before) rest h' := by
    induction h with
    | here =>
      intro front _ hfront
      rwa [List.append_nil]
    | @step part before rest htake _ ih =>
      intro front hfront hmotive
      rw [List.append_assoc] at hfront hmotive
      rw [← List.append_assoc]
      exact ih _ (hfront.snoc htake) fun _ => step _ _ _ hfront htake (hmotive hfront)
  exact onward [] (.here _) (fun _ => here _) h

/-- A place is the first one, or the last step that leads to it is known. -/
theorem cases_last (h : Reaches read before rest) :
    before = [] ∨ ∃ front part, before = front ++ part ∧ Reaches read front (part ++ rest) ∧
      Takes read part rest := by
  induction h with
  | here => exact Or.inl rfl
  | @step part before rest htake hrest ih =>
    refine Or.inr ?_
    rcases ih with rfl | ⟨front, last, rfl, hfront, hlast⟩
    · exact ⟨[], part, (List.append_nil part), .here _, htake⟩
    · refine ⟨part ++ front, last, by rw [List.append_assoc], .step ?_ hfront, hlast⟩
      rwa [List.append_assoc] at htake

/-- Of two places of a scan one is come to from the other. -/
theorem total (hread : Recognizes read) (h : Reaches read before rest)
    (h' : Reaches read before' rest') (heq : before ++ rest = before' ++ rest') :
    (∃ mid, before' = before ++ mid ∧ rest = mid ++ rest' ∧ Reaches read mid rest') ∨
      ∃ mid, before = before' ++ mid ∧ rest' = mid ++ rest ∧ Reaches read mid rest := by
  induction h generalizing before' with
  | here rest => exact Or.inl ⟨before', rfl, heq, h'⟩
  | @step part before rest htake hrest ih =>
    cases h' with
    | here => exact Or.inr ⟨part ++ before, rfl, heq.symm, .step htake hrest⟩
    | @step part' before' _ htake' hrest' =>
      simp only [List.append_assoc] at heq
      -- What is left decides the step, so both scans take the same one.
      obtain rfl := htake.unique hread htake' heq
      rcases ih hrest' (List.append_cancel_left heq) with ⟨mid, rfl, hmid⟩ | ⟨mid, rfl, hmid⟩
      · exact Or.inl ⟨mid, by rw [List.append_assoc], hmid⟩
      · exact Or.inr ⟨mid, by rw [List.append_assoc], hmid⟩

/-- What leads from one place to a later one are steps of the text that is left at the first. -/
theorem of_append (hread : Recognizes read) (h : Reaches read before (before' ++ rest))
    (h' : Reaches read (before ++ before') rest) : Reaches read before' rest := by
  rcases h.total hread h' (List.append_assoc _ _ _).symm with
    ⟨mid, hmid, -, hplace⟩ | ⟨mid, hmid, -⟩
  · rwa [List.append_cancel_left hmid]
  · have hlength := congrArg List.length hmid
    simp only [List.length_append] at hlength
    rw [List.length_eq_zero_iff.mp (show before'.length = 0 by omega)]
    exact .here rest

/-- No place lies inside what the step from another place takes. -/
theorem outside (hread : Recognizes read) (h : Reaches read before (part ++ rest))
    (htake : Takes read part rest) (h' : Reaches read before' rest')
    (heq : before ++ (part ++ rest) = before' ++ rest') :
    before' <+: before ∨ before ++ part <+: before' := by
  rcases h.total hread h' heq with ⟨mid, rfl, hmid, hplace⟩ | ⟨mid, rfl, -⟩
  · cases hplace with
    | here => exact Or.inl ⟨[], by simp⟩
    | step htake' _ =>
      rw [List.append_assoc] at hmid
      obtain rfl := htake.unique hread htake' hmid
      exact Or.inr ⟨_, by rw [List.append_assoc]⟩
  · exact Or.inl (List.prefix_append _ _)

end Reaches

/-! ## The scan in steps -/

/-- Every text is scanned in steps. -/
theorem scan_induction (hread : Recognizes read) {motive : List Char → Prop} (nil : motive [])
    (step : ∀ part rest, Takes read part rest → motive rest → motive (part ++ rest))
    (cs : List Char) : motive cs := by
  induction hn : cs.length using Nat.strong_induction_on generalizing cs with
  | h n ih =>
    subst hn
    have advance : ∀ part rest, cs = part ++ rest → Takes read part rest → motive cs := by
      rintro part rest rfl htake
      have hpos := List.length_pos_iff.mpr (htake.ne_nil hread)
      refine step part rest htake (ih rest.length ?_ rest rfl)
      rw [List.length_append]
      omega
    match cs with
    | [] => exact nil
    | ['\\'] => exact advance ['\\'] [] rfl .lastEscape
    | '\\' :: c :: rest => exact advance ['\\', c] rest rfl (.escape c rest)
    | c :: rest =>
      cases hfound : read (c :: rest) with
      | some found =>
        obtain ⟨-, after, hafter⟩ := hread.initial hfound
        exact advance found.source after hafter (.construct (hafter ▸ hfound) rfl)
      | none =>
        by_cases hc : c = '\\'
        · subst hc
          cases rest with
          | nil => exact advance ['\\'] [] rfl .lastEscape
          | cons d rest => exact advance ['\\', d] rest rfl (.escape d rest)
        · exact advance [c] rest rfl (.plain hc hfound)

/-- A scan comes to a place of the text, or a step of it takes characters from both sides of the
place. -/
theorem Reaches.or_cut (hread : Recognizes read) (before rest : List Char) :
    Reaches read before rest ∨
      ∃ front left right back, before = front ++ left ∧ rest = right ++ back ∧ left ≠ [] ∧
        right ≠ [] ∧ Reaches read front (left ++ right ++ back) ∧
          Takes read (left ++ right) back := by
  generalize hcs : before ++ rest = cs
  induction cs using scan_induction hread generalizing before with
  | nil =>
    obtain ⟨rfl, rfl⟩ := List.append_eq_nil_iff.mp hcs
    exact Or.inl (.here _)
  | step part after htake ih =>
    rcases List.append_eq_append_iff.mp hcs with ⟨right, rfl, rfl⟩ | ⟨mid, rfl, rfl⟩
    · by_cases hbefore : before = []
      · subst hbefore
        exact Or.inl (.here _)
      · by_cases hright : right = []
        · subst hright
          rw [List.append_nil] at htake
          exact Or.inl (.single htake)
        · exact Or.inr ⟨[], before, right, after, rfl, rfl, hbefore, hright, .here _, htake⟩
    · rcases ih mid rfl with hmid | ⟨front, left, right, back, rfl, rfl, hl, hr, hfront, hcut⟩
      · exact Or.inl (.step htake hmid)
      · refine Or.inr ⟨part ++ front, left, right, back, (List.append_assoc ..).symm, rfl, hl, hr,
          .step ?_ hfront, hcut⟩
        simpa only [List.append_assoc] using htake

theorem byteSize_slash_cons (c : Char) (cs : List Char) :
    byteSize ('\\' :: c :: cs) = 1 + c.utf8Size + byteSize cs := by
  have hslash : Char.utf8Size '\\' = 1 := rfl
  rw [byteSize_cons, byteSize_cons, hslash, Nat.add_assoc]

/-- A step over plain text only moves the scan. -/
theorem Takes.scanInline_of_none (h : Takes read part rest) (hnone : read (part ++ rest) = none)
    (start position : Nat) : scanInline read start position (part ++ rest) =
      scanInline read start (position + byteSize part) rest := by
  cases h with
  | escape c =>
    rw [byteSize_slash_cons, byteSize_nil, Nat.add_zero, ← Nat.add_assoc]
    exact scanInline_escape c rest
  | lastEscape =>
    rw [List.append_nil, scanInline, scanInline]
    rfl
  | construct hfound =>
    rw [hfound] at hnone
    cases hnone
  | @plain c rest hc hplain =>
    rw [List.singleton_append, scanInline_text hc hplain]
    rfl

/-- A step over a construct gives the pending text and the node of the construct. -/
theorem scanInline_of_some (hread : Recognizes read) {found : Construct}
    (h : read (found.source ++ rest) = some found) (start position : Nat) :
    scanInline read start position (found.source ++ rest) =
      plainText start position ++ found.node position ::
        scanInline read (position + byteSize found.source) (position + byteSize found.source)
          rest := by
  obtain ⟨hne, -⟩ := hread.initial h
  obtain ⟨c, cs, hcs⟩ := List.exists_cons_of_ne_nil hne
  have hc : c ≠ '\\' := by
    rintro rfl
    rw [hcs, List.cons_append, hread.escape] at h
    cases h
  have hsource : found.source ++ rest = c :: (cs ++ rest) := by rw [hcs, List.cons_append]
  rw [hsource] at h ⊢
  rw [scanInline_construct hc h, drop_of_cons_eq_append hsource.symm hne, full_node]

/-! ## The nodes of a scan -/

theorem not_mem_plainText {n : Inline} (hn : ∀ s, n ≠ .text s) (start stop : Nat) :
    n ∉ plainText start stop := by
  unfold plainText
  split
  · exact fun h => hn _ (List.mem_singleton.mp h)
  · exact List.not_mem_nil

/-- A construct that is read at a place of the scan gives a node of the scan. -/
theorem Reaches.mem_scanInline (hread : Recognizes read) {found : Construct}
    (h : Reaches read before rest) (hfound : read rest = some found) (start position : Nat) :
    found.node (position + byteSize before) ∈
      scanInline read start position (before ++ rest) := by
  induction h generalizing start position with
  | here rest =>
    obtain ⟨-, after, rfl⟩ := hread.initial hfound
    rw [List.nil_append, scanInline_of_some hread hfound]
    exact List.mem_append_right _ List.mem_cons_self
  | @step part before rest htake _ ih =>
    rw [byteSize_append, ← Nat.add_assoc, List.append_assoc]
    cases hpart : read (part ++ (before ++ rest)) with
    | none =>
      rw [htake.scanInline_of_none hpart]
      exact ih hfound _ _
    | some other =>
      obtain rfl := htake.eq_of_construct hread hpart
      rw [scanInline_of_some hread hpart]
      exact List.mem_append_right _ (List.mem_cons_of_mem _ (ih hfound _ _))

/-- A node of the scan is plain text, or the node of a construct at a place of the scan. -/
theorem exists_of_mem_scanInline (hread : Recognizes read) {n : Inline} (hn : ∀ s, n ≠ .text s)
    {cs : List Char} {start position : Nat} (h : n ∈ scanInline read start position cs) :
    ∃ before rest found, cs = before ++ rest ∧ Reaches read before rest ∧
      read rest = some found ∧ n = found.node (position + byteSize before) := by
  induction cs using scan_induction hread generalizing start position with
  | nil =>
    rw [scanInline] at h
    exact absurd h (not_mem_plainText hn start position)
  | step part rest htake ih =>
    have later : ∀ {start'}, n ∈ scanInline read start' (position + byteSize part) rest →
        ∃ before left found, part ++ rest = before ++ left ∧ Reaches read before left ∧
          read left = some found ∧ n = found.node (position + byteSize before) := by
      intro start' hlater
      obtain ⟨before, left, found, rfl, hreaches, hfound, rfl⟩ := ih hlater
      refine ⟨part ++ before, left, found, by rw [List.append_assoc], .step htake hreaches, hfound,
        ?_⟩
      rw [byteSize_append, Nat.add_assoc]
    cases hpart : read (part ++ rest) with
    | none =>
      rw [htake.scanInline_of_none hpart] at h
      exact later h
    | some found =>
      obtain rfl := htake.eq_of_construct hread hpart
      rw [scanInline_of_some hread hpart] at h
      rcases List.mem_append.mp h with hplain | hnode
      · exact absurd hplain (not_mem_plainText hn start position)
      · rcases List.mem_cons.mp hnode with rfl | hlater
        · exact ⟨[], found.source ++ rest, found, rfl, .here _, hpart, rfl⟩
        · exact later hlater

end ArticleAudit.Markdown
