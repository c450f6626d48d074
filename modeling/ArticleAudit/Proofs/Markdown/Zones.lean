import ArticleAudit.Proofs.Markdown.Code

/-!
# Where zones end

A zone ends at the first line after it that ends zones, whatever stands around that line. If fenced
code were raw inside a zone too, a line in code would end nothing: the zone would take the lines of
`RawSplit`. The two agree exactly when the line that ends the zone is not in code
(`RawSplit.eq_zoneInner_iff`). The block of a zone takes its lines (`IsZone`), and the code in it is
read off its inner lines (`isZone_zoneBlock`).
-/

set_option autoImplicit false

namespace ArticleAudit.Markdown

open ArticleAudit.Text

variable {source : List Char} {strict : Bool}

/-! ## Raw code in zones -/

/-- The code that lines open and do not close. -/
def openCode? (lines : List LineFacts) : Option Code :=
  (codesOf lines).getLast?.filter fun c => c.closing?.isNone

/-- What stands between two runs of lines is in code: the lines before it open a fence, and one of
the lines after it closes the fence. -/
def InCode (before after : List LineFacts) : Prop :=
  ∃ c ∈ openCode? before, ∃ u ∈ after, c.fence.isClosedBy u.fence = true

/-- The lines after the opening of a zone, split where the zone ends if code in it is raw: at the
first line that ends zones and is not in code. -/
structure RawSplit (lines inner outer : List LineFacts) : Prop where
  split : lines = inner ++ outer
  raw : ∀ before u after, inner = before ++ u :: after → isZoneEnd u.text = true →
    InCode before (after ++ outer)
  ends : ∀ u after, outer = u :: after → isZoneEnd u.text = true ∧ ¬ InCode inner after

/-- The line that ends a zone is in code. -/
def EndsInCode (lines : List LineFacts) : Prop :=
  ∃ u after, zoneOuter lines = u :: after ∧ InCode (zoneInner lines) after

namespace RawSplit

variable {lines inner outer inner' outer' : List LineFacts}

/-- There is such a split. -/
theorem exists_rawSplit (lines : List LineFacts) : ∃ inner outer, RawSplit lines inner outer := by
  -- The lines that were read so far are inner lines; each step decides on the next one.
  suffices h : ∀ read rest,
      (∀ before u after, read = before ++ u :: after → isZoneEnd u.text = true →
        InCode before (after ++ rest)) →
      ∃ inner outer, RawSplit (read ++ rest) inner outer from h [] lines (by simp)
  intro read rest hread
  induction rest generalizing read with
  | nil => exact ⟨read, [], rfl, hread, nofun⟩
  | cons u rest ih =>
    by_cases hu : isZoneEnd u.text = true ∧ ¬ InCode read rest
    · refine ⟨read, u :: rest, rfl, hread, ?_⟩
      intro v after hv
      obtain ⟨rfl, rfl⟩ := List.cons.inj hv
      exact hu
    · have hread' : ∀ before v after, read ++ [u] = before ++ v :: after →
          isZoneEnd v.text = true → InCode before (after ++ rest) := by
        intro before v after hv hend
        rcases List.eq_nil_or_concat after with rfl | ⟨after, x, rfl⟩
        · obtain ⟨rfl, hsame⟩ := List.append_inj' hv rfl
          obtain rfl : u = v := (List.cons.inj hsame).1
          by_contra hcode
          exact hu ⟨hend, hcode⟩
        · rw [List.concat_eq_append, ← List.cons_append, ← List.append_assoc] at hv
          obtain ⟨hfront, hx⟩ := List.append_inj' hv rfl
          obtain rfl : u = x := (List.cons.inj hx).1
          have hcode := hread before v after hfront hend
          rwa [List.concat_eq_append, List.append_assoc]
      obtain ⟨inner, outer, hsplit⟩ := ih (read ++ [u]) hread'
      rw [List.append_assoc] at hsplit
      exact ⟨inner, outer, hsplit⟩

/-- One of two splits does not end later than the other one. -/
theorem isPrefix (h : RawSplit lines inner outer) (h' : RawSplit lines inner' outer') :
    inner <+: inner' ∨ inner' <+: inner :=
  List.prefix_or_prefix_of_prefix ⟨outer, h.split.symm⟩ ⟨outer', h'.split.symm⟩

theorem eq_of_isPrefix (h : RawSplit lines inner outer) (h' : RawSplit lines inner' outer')
    (hfront : inner <+: inner') : inner = inner' := by
  obtain ⟨more, rfl⟩ := hfront
  have houter : outer = more ++ outer' := by
    have hsplit := h.split.symm.trans h'.split
    rw [List.append_assoc] at hsplit
    exact List.append_cancel_left hsplit
  cases more with
  | nil => rw [List.append_nil]
  | cons u more =>
    -- The line after the shorter part ends the zone for one split, and lies in code for the other.
    obtain ⟨hend, hcode⟩ := h.ends u (more ++ outer') houter
    exact absurd (h'.raw inner u more rfl hend) hcode

/-- The split is unique. -/
theorem unique (h : RawSplit lines inner outer) (h' : RawSplit lines inner' outer') :
    inner = inner' ∧ outer = outer' := by
  have hinner : inner = inner' := by
    rcases h.isPrefix h' with hfront | hfront
    · exact h.eq_of_isPrefix h' hfront
    · exact (h'.eq_of_isPrefix h hfront).symm
  subst hinner
  exact ⟨rfl, List.append_cancel_left (h.split.symm.trans h'.split)⟩

end RawSplit

theorem zoneInner_append_zoneOuter (lines : List LineFacts) :
    zoneInner lines ++ zoneOuter lines = lines :=
  List.takeWhile_append_dropWhile

theorem isZoneEnd_of_mem_zoneInner {u : LineFacts} {lines : List LineFacts}
    (h : u ∈ zoneInner lines) : isZoneEnd u.text = false := by
  simpa using List.mem_takeWhile_imp h

theorem isZoneEnd_of_zoneOuter {u : LineFacts} {lines after : List LineFacts}
    (h : zoneOuter lines = u :: after) : isZoneEnd u.text = true := by
  have hhead := List.head?_dropWhile_not (fun c : LineFacts => !isZoneEnd c.text) lines
  rw [show lines.dropWhile _ = u :: after from h] at hhead
  simpa using hhead

/-- A zone that does not end in code ends where it would if code were raw. -/
theorem rawSplit_of_not_endsInCode {lines : List LineFacts} (h : ¬ EndsInCode lines) :
    RawSplit lines (zoneInner lines) (zoneOuter lines) := by
  refine ⟨(zoneInner_append_zoneOuter lines).symm, ?_, ?_⟩
  · intro before u after hinner hend
    have hmem : u ∈ zoneInner lines := by
      rw [hinner]
      simp
    rw [isZoneEnd_of_mem_zoneInner hmem] at hend
    cases hend
  · intro u after houter
    exact ⟨isZoneEnd_of_zoneOuter houter, fun hcode => h ⟨u, after, houter, hcode⟩⟩

/-- If code is raw, the zone ends where it does exactly when its end is not in code. -/
theorem RawSplit.eq_zoneInner_iff {lines inner outer : List LineFacts}
    (h : RawSplit lines inner outer) :
    (inner = zoneInner lines ∧ outer = zoneOuter lines) ↔ ¬ EndsInCode lines := by
  constructor
  · rintro ⟨rfl, rfl⟩ ⟨u, after, houter, hcode⟩
    exact (h.ends u after houter).2 hcode
  · intro hends
    exact h.unique (rawSplit_of_not_endsInCode hends)

/-- If the end of the zone is in code, the raw zone goes on beyond it. -/
theorem RawSplit.exists_more {lines inner outer : List LineFacts}
    (h : RawSplit lines inner outer) (hends : EndsInCode lines) :
    ∃ u more, inner = zoneInner lines ++ u :: more ∧ zoneOuter lines = u :: (more ++ outer) := by
  have hsplit : inner ++ outer = zoneInner lines ++ zoneOuter lines := by
    rw [zoneInner_append_zoneOuter]
    exact h.split.symm
  have hne : ¬ (inner = zoneInner lines ∧ outer = zoneOuter lines) :=
    fun heq => h.eq_zoneInner_iff.mp heq hends
  rcases List.append_eq_append_iff.mp hsplit with ⟨mid, hinner, houter⟩ | ⟨mid, hinner, houter⟩
  · cases mid with
    | nil => exact absurd ⟨by simpa using hinner.symm, by simpa using houter⟩ hne
    | cons u mid =>
      -- The raw zone cannot end before the first line that ends zones.
      have hmem : u ∈ zoneInner lines := by
        rw [hinner]
        simp
      have hend := (h.ends u _ houter).1
      rw [isZoneEnd_of_mem_zoneInner hmem] at hend
      cases hend
  · cases mid with
    | nil => exact absurd ⟨by simpa using hinner, by simpa using houter.symm⟩ hne
    | cons u more => exact ⟨u, more, hinner, houter⟩

/-! ## Built zones -/

/-- The block is the zone that a line opens: it spans the line and the lines up to the end of the
zone, and if its inner lines are lines of a text, then the code in it is that of these lines. -/
structure IsZone (l : LineFacts) (attributes : List Char) (after : List LineFacts) (z : Block) :
    Prop where
  span : z.span = ⟨l.start, max (lastLine l (zoneRun after)).stop l.start⟩
  tag : z.tag = some (String.ofList attributes)
  codes : (∀ u ∈ zoneInner after, u.Described) →
    codeSpans z.children = (codesOf (zoneInner after)).map Code.span

/-- The block of a zone is the zone that its line opens. -/
theorem isZone_zoneBlock {l : LineFacts} {attributes : List Char} {lines : List LineFacts}
    {children : List Block}
    (h : Builds source strict (.lines none) (zoneInner lines) [] children) :
    IsZone l attributes lines (zoneBlock source l attributes lines children) := by
  refine ⟨?_, rfl, fun hdescribed => ?_⟩
  · rw [show lastLine l (zoneRun lines) =
      (zoneOuter lines).head?.getD (lastLine l (zoneInner lines)) from lastLine_closedRun _ l lines]
    rfl
  · exact h.codeSpans_eq fun u hu => ⟨hdescribed u hu, isZoneEnd_of_mem_zoneInner hu⟩

end ArticleAudit.Markdown
