import ArticleAudit.Proofs.Markdown.Scanning
import ArticleAudit.Proofs.Text.Runs

/-!
# The runs of ticks around code

The inner text of a code span ends before the first later run of ticks that is as long as the
opening one, no tick more and no tick less (`exists_of_codeInner?`), and where there is no such run
nothing is read (`not_hasRun_of_codeInner?`). A run that nothing closes is plain text up to its
first tick only: the scan then tries the ticks that are left. So the opening delimiter need not be a
whole run. It is the longest final part of the run that some later run equals, and the whole run
exactly when a later run equals that (`parseInline_codeSpans`).
-/

set_option autoImplicit false

namespace ArticleAudit.Markdown

open ArticleAudit.Text

variable {cs before rest body : List Char} {run n m : Nat}

/-! ## Runs -/

/-- The text holds a run of `n` ticks that no further tick extends. -/
def HasRun (n : Nat) (cs : List Char) : Prop :=
  ∃ front back, cs = front ++ List.replicate n tick ++ back ∧ front.getLast? ≠ some tick ∧
    back.head? ≠ some tick

theorem head?_ticks_append (hn : 0 < n) (cs : List Char) :
    (List.replicate n tick ++ cs).head? = some tick := by
  obtain ⟨k, rfl⟩ := Nat.exists_eq_succ_of_ne_zero hn.ne'
  rfl

theorem not_hasRun_nil (hn : 0 < n) : ¬ HasRun n [] := by
  rintro ⟨front, back, h, -⟩
  have hlength := congrArg List.length h
  simp only [List.length_nil, List.length_append, List.length_replicate] at hlength
  omega

/-- In front of a text that goes on, only the end of that text matters. -/
theorem getLast?_cons_eq_tick_iff {c : Char} (hc : c ≠ tick) :
    (c :: cs).getLast? = some tick ↔ cs.getLast? = some tick := by
  rw [List.getLast?_cons]
  cases cs.getLast? with
  | none => exact iff_of_false (fun h => hc (Option.some.inj h)) nofun
  | some d => exact Iff.rfl

theorem hasRun_cons {c : Char} (hn : 0 < n) (hc : c ≠ tick) :
    HasRun n (c :: cs) ↔ HasRun n cs := by
  constructor
  · rintro ⟨front, back, h, hfront, hback⟩
    cases front with
    | nil =>
      have hhead := head?_ticks_append hn back
      rw [← List.nil_append (List.replicate n tick), ← h] at hhead
      exact absurd (Option.some.inj hhead) hc
    | cons d front =>
      have hd : d ≠ tick := (List.cons.inj h).1 ▸ hc
      exact ⟨front, back, (List.cons.inj h).2, (getLast?_cons_eq_tick_iff hd).not.mp hfront, hback⟩
  · rintro ⟨front, back, rfl, hfront, hback⟩
    exact ⟨c :: front, back, rfl, (getLast?_cons_eq_tick_iff hc).not.mpr hfront, hback⟩

/-- The runs of a text that starts with one. -/
theorem hasRun_ticks (hn : 0 < n) (hcs : cs.head? ≠ some tick) (hm : 0 < m) :
    HasRun n (List.replicate m tick ++ cs) ↔ n = m ∨ HasRun n cs := by
  constructor
  · rintro ⟨front, back, h, hfront, hback⟩
    rw [List.append_assoc] at h
    rcases List.append_eq_append_iff.mp h with ⟨mid, rfl, hmid⟩ | ⟨mid, hmid, hrest⟩
    · have hne : mid ≠ [] := by
        rintro rfl
        rw [hmid] at hcs
        exact hcs (head?_ticks_append hn back)
      rw [List.getLast?_append_of_ne_nil _ hne] at hfront
      exact Or.inr ⟨mid, back, by rw [hmid, List.append_assoc], hfront, hback⟩
    · -- What comes before the run are ticks, so nothing does.
      obtain rfl : front = [] := by
        by_contra hne
        obtain ⟨_, hticks, -⟩ := List.append_eq_replicate_iff.mp hmid.symm
        refine hfront ?_
        rw [List.getLast?_eq_some_getLast hne]
        refine congrArg some (List.eq_of_mem_replicate (n := front.length) ?_)
        rw [← hticks]
        exact List.getLast_mem hne
      exact Or.inl (replicate_append_inj hcs hback h).1.symm
  · rintro (rfl | ⟨front, back, rfl, hfront, hback⟩)
    · exact ⟨[], cs, rfl, by simp, hcs⟩
    · have hne : front ≠ [] := by
        rintro rfl
        rw [List.nil_append] at hcs
        exact hcs (head?_ticks_append hn back)
      refine ⟨List.replicate m tick ++ front, back, by simp only [List.append_assoc], ?_, hback⟩
      rwa [List.getLast?_append_of_ne_nil _ hne]

/-! ## The inner text -/

/-- The inner text ends before the first run of the length asked for. -/
theorem exists_of_codeInner? (hrun : 0 < run) (h : codeInner? run cs = some body) :
    ∃ after, cs = body ++ List.replicate run tick ++ after ∧ body.getLast? ≠ some tick ∧
      after.head? ≠ some tick ∧ ¬ HasRun run body := by
  fun_induction codeInner? run cs generalizing body with
  | case1 => cases h
  | case2 c rest hc =>
    rename_i hlength
    cases h
    obtain rfl := beq_iff_eq.mp hc
    obtain ⟨after, hrest, -, hafter⟩ := exists_run tick rest
    refine ⟨after, ?_, by simp, hafter, not_hasRun_nil hrun⟩
    conv_lhs => rw [hrest]
    rw [← beq_iff_eq.mp hlength, List.replicate_succ]
    rfl
  | case3 c rest hc =>
    rename_i hlength ih
    obtain ⟨read, hread, rfl⟩ := Option.map_eq_some_iff.mp h
    obtain rfl := beq_iff_eq.mp hc
    obtain ⟨left, hrest, hleftEq, hleft⟩ := exists_run tick rest
    have hdrop := (drop_takeWhile (· == tick) rest).trans hleftEq
    obtain ⟨after, hafter, hlast, hhead, hno⟩ := ih hread
    rw [hdrop] at hafter
    -- What is left starts with no tick, so something stands before the closing run.
    have hne : read ≠ [] := by
      rintro rfl
      rw [hafter, List.nil_append] at hleft
      exact hleft (head?_ticks_append hrun after)
    have hread' : read.head? ≠ some tick := by
      intro hread'
      refine hleft ?_
      rw [hafter, List.append_assoc, List.head?_append, hread']
      rfl
    refine ⟨after, ?_, ?_, hhead, ?_⟩
    · show tick :: rest = List.replicate ((rest.takeWhile (· == tick)).length + 1) tick ++ read ++
        List.replicate run tick ++ after
      conv_lhs => rw [hrest, hafter]
      rw [List.replicate_succ]
      simp
    · rwa [List.getLast?_append_of_ne_nil _ hne]
    · rw [hasRun_ticks hrun hread' (Nat.succ_pos _)]
      rintro (heq | hhas)
      · exact hlength (beq_iff_eq.mpr heq.symm)
      · exact hno hhas
  | case4 c rest hc ih =>
    obtain ⟨read, hread, rfl⟩ := Option.map_eq_some_iff.mp h
    obtain ⟨after, rfl, hlast, hhead, hno⟩ := ih hread
    have hne : c ≠ tick := fun heq => hc (beq_iff_eq.mpr heq)
    exact ⟨after, rfl, (getLast?_cons_eq_tick_iff hne).not.mpr hlast, hhead,
      (hasRun_cons hrun hne).not.mpr hno⟩

/-- Where no inner text is read there is no run of the length asked for. -/
theorem not_hasRun_of_codeInner? (hrun : 0 < run) (h : codeInner? run cs = none) :
    ¬ HasRun run cs := by
  fun_induction codeInner? run cs with
  | case1 => exact not_hasRun_nil hrun
  | case2 => cases h
  | case3 c rest hc length hlength ih =>
    obtain rfl := beq_iff_eq.mp hc
    obtain ⟨left, hrest, hleftEq, hleft⟩ := exists_run tick rest
    have hdrop := (drop_takeWhile (· == tick) rest).trans hleftEq
    have hno := ih (Option.map_eq_none_iff.mp h)
    rw [hdrop] at hno
    rw [hrest, ← List.cons_append, ← List.replicate_succ, hasRun_ticks hrun hleft (Nat.succ_pos _)]
    rintro (heq | hhas)
    · exact hlength (beq_iff_eq.mpr heq.symm)
    · exact hno hhas
  | case4 c rest hc ih =>
    rw [hasRun_cons hrun fun heq => hc (beq_iff_eq.mpr heq)]
    exact ih (Option.map_eq_none_iff.mp h)

/-! ## Code spans -/

/-- A code span is written with the whole run of ticks that starts the text, and closed by the first
run of that length. -/
structure IsCode (run : Nat) (body after : List Char) : Prop where
  run_pos : 0 < run
  ne_nil : body ≠ []
  head : body.head? ≠ some tick
  last : body.getLast? ≠ some tick
  no_run : ¬ HasRun run body
  stop : after.head? ≠ some tick

theorem codeAt?_ticks (hm : 0 < m) (hcs : cs.head? ≠ some tick) :
    codeAt? (List.replicate m tick ++ cs) = (codeInner? m cs).map (.code m) := by
  obtain ⟨htake, hdrop⟩ := takeWhile_replicate_append m hcs
  unfold codeAt?
  simp only
  rw [htake, hdrop, List.length_replicate, if_neg (by simp; omega)]

theorem exists_of_codeAt? {found : Construct} (h : codeAt? cs = some found) :
    ∃ run body after, found = .code run body ∧ IsCode run body after ∧
      cs = List.replicate run tick ++ (body ++ List.replicate run tick ++ after) := by
  obtain ⟨rest, hcs, -, hrest⟩ := exists_run tick cs
  generalize (cs.takeWhile (· == tick)).length = run at hcs
  subst hcs
  have hrun : 0 < run := by
    rcases Nat.eq_zero_or_pos run with rfl | hrun
    · obtain ⟨run, inner, after, rfl, hpos, heq⟩ := exists_append_of_codeAt? h
      rw [List.replicate_zero, List.nil_append] at heq
      rw [heq, Construct.source, List.append_assoc, List.append_assoc] at hrest
      exact absurd (head?_ticks_append hpos _) hrest
    · exact hrun
  rw [codeAt?_ticks hrun hrest] at h
  obtain ⟨body, hbody, rfl⟩ := Option.map_eq_some_iff.mp h
  obtain ⟨after, rfl, hlast, hafter, hno⟩ := exists_of_codeInner? hrun hbody
  refine ⟨run, body, after, rfl, ⟨hrun, ?_, fun hhead => hrest ?_, hlast, hno, hafter⟩, rfl⟩
  · rintro rfl
    exact hrest (head?_ticks_append hrun after)
  · rw [List.append_assoc, List.head?_append, hhead]
    rfl

/-- The closing run is a run of the text after the opening one. -/
theorem IsCode.hasRun {after : List Char} (h : IsCode run body after) :
    HasRun run (body ++ List.replicate run tick ++ after) :=
  ⟨body, after, rfl, h.last, h.stop⟩

theorem IsCode.head?_append {after : List Char} (h : IsCode run body after) (more : List Char) :
    (body ++ more).head? ≠ some tick := by
  rw [List.head?_append_of_ne_nil _ h.ne_nil]
  exact h.head

/-- Where no construct is read no code span is. -/
theorem codeAt?_eq_none (h : constructAt? cs = none) : codeAt? cs = none := by
  unfold constructAt? at h
  cases hcode : codeAt? cs with
  | none => rfl
  | some found =>
    rw [hcode] at h
    cases h

/-! ## The whole run -/

/-- The text before a place ends in a tick that no backslash takes along. -/
def EndsInTick (before rest : List Char) : Prop :=
  before.getLast? = some tick ∧ ¬ ∃ front, before = front ++ ['\\', tick] ∧
    Reaches constructAt? front ('\\' :: tick :: rest)

/-- A tick that the scan comes to is not behind a backslash. -/
theorem Reaches.endsInTick {front : List Char} (h : Reaches constructAt? front (tick :: rest)) :
    EndsInTick (front ++ [tick]) rest := by
  refine ⟨List.getLast?_concat, ?_⟩
  rintro ⟨front', hfront, h'⟩
  obtain rfl : front = front' ++ ['\\'] := by
    have hconcat : front ++ [tick] = front' ++ ['\\'] ++ [tick] := by
      rw [hfront, List.append_assoc]
      rfl
    exact (List.append_inj' hconcat rfl).1
  rcases h'.total recognizes_constructAt? h (by simp) with ⟨mid, hmid, -, hplace⟩ | ⟨mid, hmid, -⟩
  · obtain rfl := List.append_cancel_left hmid
    -- The step from the backslash takes the tick along.
    generalize hslash : ['\\'] = mid at hplace
    cases hplace with
    | here => cases hslash
    | @step part before _ htake =>
      have hleft : part ++ (before ++ tick :: rest) = '\\' :: tick :: rest := by
        rw [← List.append_assoc, ← hslash]
        rfl
      rw [htake.eq_of_slash recognizes_constructAt? hleft] at hslash
      cases hslash
  · have hlength := congrArg List.length hmid
    simp at hlength

/-- No tick follows a construct that ends in one. -/
theorem head?_of_construct {part : List Char} {found : Construct}
    (h : constructAt? (part ++ rest) = some found) (hpart : found.source = part)
    (hlast : part.getLast? = some tick) : rest.head? ≠ some tick := by
  rcases constructAt?_cases h with hcode | ⟨l, hl, rfl⟩
  · obtain ⟨run, body, after, rfl, hiscode, hcs⟩ := exists_of_codeAt? hcode
    have hafter : part ++ rest = part ++ after := by
      rw [hcs, ← hpart, Construct.source]
      simp only [List.append_assoc]
    rw [List.append_cancel_left hafter]
    exact hiscode.stop
  · -- A link ends in a parenthesis.
    obtain ⟨init, htail⟩ := (linkAt?_eq_some hl).1
    rw [← hpart, Construct.source, LinkParts.source, htail, ← List.append_assoc,
      List.getLast?_concat] at hlast
    cases hlast

/-- Before a place where a tick is left the scan took a tick by itself, or else the text does not
end in a tick that is not escaped. -/
theorem Reaches.cases_tick (h : Reaches constructAt? before rest) (hrest : rest.head? = some tick) :
    ¬ EndsInTick before rest ∨ ∃ front, before = front ++ [tick] ∧
      Reaches constructAt? front (tick :: rest) ∧ codeAt? (tick :: rest) = none := by
  rcases h.cases_last with rfl | ⟨front, part, rfl, hfront, htake⟩
  · exact Or.inl fun hends => by cases hends.1
  · cases htake with
    | escape c =>
      refine Or.inl fun ⟨hlast, hescape⟩ => hescape ?_
      obtain rfl : c = tick := by simpa using hlast
      exact ⟨front, rfl, hfront⟩
    | lastEscape => cases hrest
    | construct hfound hpart =>
      refine Or.inl fun hends => head?_of_construct hfound hpart ?_ hrest
      have hne := (recognizes_constructAt?.initial hfound).1
      rw [← List.getLast?_append_of_ne_nil front (hpart ▸ hne)]
      exact hends.1
    | @plain c _ hc hnone =>
      by_cases htick : c = tick
      · subst htick
        exact Or.inr ⟨front, rfl, hfront, codeAt?_eq_none hnone⟩
      · refine Or.inl fun hends => htick ?_
        simpa using hends.1

/-- The first `k` ticks of the whole run stand before an opening delimiter of `run` ticks, and none
of the longer final parts of the whole run equals a later run. -/
structure OpensInRun (before : List Char) (run : Nat) (cs front : List Char) (k : Nat) : Prop where
  before_eq : before = front ++ List.replicate k tick
  reaches : Reaches constructAt? front (List.replicate (k + run) tick ++ cs)
  starts : ¬ EndsInTick front (List.replicate (k + run) tick ++ cs)
  ends : 0 < k → EndsInTick before (List.replicate run tick ++ cs)
  longest : ∀ n, run < n → n ≤ k + run → ¬ HasRun n cs

theorem exists_opensInRun (h : Reaches constructAt? before (List.replicate run tick ++ cs))
    (hrun : 0 < run) (hcs : cs.head? ≠ some tick) :
    ∃ front k, OpensInRun before run cs front k := by
  induction hn : before.length using Nat.strong_induction_on generalizing before run with
  | h length ih =>
    subst hn
    rcases h.cases_tick (head?_ticks_append hrun cs) with hstarts | ⟨front, rfl, hfront, hnone⟩
    · exact ⟨before, 0, by simp, by rwa [Nat.zero_add], by rwa [Nat.zero_add], nofun, by omega⟩
    · have hends := hfront.endsInTick
      rw [← List.cons_append, ← List.replicate_succ] at hfront hnone
      rw [codeAt?_ticks (Nat.succ_pos run) hcs, Option.map_eq_none_iff] at hnone
      have hno := not_hasRun_of_codeInner? (Nat.succ_pos run) hnone
      obtain ⟨front, k, hwhole⟩ := ih front.length (by simp) hfront (Nat.succ_pos run) rfl
      refine ⟨front, k + 1, ?_, ?_, ?_, fun _ => hends, fun n hlt hle => ?_⟩
      · rw [List.replicate_succ', ← List.append_assoc, hwhole.before_eq]
      · rw [Nat.add_right_comm, Nat.add_assoc]
        exact hwhole.reaches
      · rw [Nat.add_right_comm, Nat.add_assoc]
        exact hwhole.starts
      · rcases Nat.eq_or_lt_of_le (Nat.succ_le_of_lt hlt) with rfl | hlt
        · exact hno
        · exact hwhole.longest n hlt (by omega)

/-- A code span is written between two runs of ticks of one length, of which the closing one is
whole; its inner text is not empty and holds no run of that length. The opening delimiter is the end
of a run, the longest that equals a later run, and it is the whole run exactly when that one equals
a later run itself. -/
theorem parseInline_codeSpans (base : Nat) (cs : List Char) {full inner : Span}
    (h : Inline.codeSpan full inner ∈ parseInline base cs) :
    ∃ before run body after,
      cs = before ++ (List.replicate run tick ++ (body ++ List.replicate run tick ++ after)) ∧
      full = ⟨base + byteSize before, base + byteSize before + run + byteSize body + run⟩ ∧
      inner = ⟨base + byteSize before + run, base + byteSize before + run + byteSize body⟩ ∧
      0 < run ∧ after.head? ≠ some tick ∧ body ≠ [] ∧ body.head? ≠ some tick ∧
      body.getLast? ≠ some tick ∧ ¬ HasRun run body ∧
      ∃ front k, OpensInRun before run (body ++ List.replicate run tick ++ after) front k ∧
        (¬ EndsInTick before
            (List.replicate run tick ++ (body ++ List.replicate run tick ++ after)) ↔
          HasRun (k + run) (body ++ List.replicate run tick ++ after)) := by
  obtain ⟨before, rest, found, rfl, hreaches, hread, hnode⟩ :=
    exists_of_mem_scanInline recognizes_constructAt? (fun s hs => by cases hs) h
  rcases constructAt?_cases hread with hcode | ⟨l, -, rfl⟩
  · obtain ⟨run, body, after, rfl, hiscode, rfl⟩ := exists_of_codeAt? hcode
    have hhead : (body ++ List.replicate run tick ++ after).head? ≠ some tick := by
      rw [List.append_assoc]
      exact hiscode.head?_append _
    obtain ⟨front, k, hwhole⟩ := exists_opensInRun hreaches hiscode.run_pos hhead
    cases hnode
    refine ⟨before, run, body, after, rfl, rfl, rfl, hiscode.run_pos, hiscode.stop, hiscode.ne_nil,
      hiscode.head, hiscode.last, hiscode.no_run, front, k, hwhole, ?_⟩
    rcases Nat.eq_zero_or_pos k with rfl | hk
    · have hstarts := hwhole.starts
      have hbefore := hwhole.before_eq
      rw [List.replicate_zero, List.append_nil] at hbefore
      rw [Nat.zero_add, ← hbefore] at hstarts
      rw [Nat.zero_add]
      exact iff_of_true hstarts hiscode.hasRun
    · exact iff_of_false (not_not.mpr (hwhole.ends hk))
        (hwhole.longest _ (by omega) (Nat.le_refl _))
  · cases hnode

/-- A span of two ticks around a single one. -/
theorem parseInline_codeSpans_twoTicks :
    Inline.codeSpan ⟨2, 11⟩ ⟨4, 9⟩ ∈ parseInline 2 "``x ` y`` z".toList ∧
      ∃ before run body after, "``x ` y`` z".toList =
          before ++ (List.replicate run tick ++ (body ++ List.replicate run tick ++ after)) ∧
        2 = 2 + byteSize before ∧ 4 = 2 + byteSize before + run ∧ body ≠ [] ∧
        ¬ HasRun run body := by
  have hnodes : parseInline 2 "``x ` y`` z".toList =
      [.codeSpan ⟨2, 11⟩ ⟨4, 9⟩, .text ⟨11, 13⟩] := by
    decide +kernel
  have hmem : Inline.codeSpan ⟨2, 11⟩ ⟨4, 9⟩ ∈ parseInline 2 "``x ` y`` z".toList := by
    rw [hnodes]
    exact List.mem_cons_self
  obtain ⟨before, run, body, after, hcs, hfull, hinner, -, -, hne, -, -, hno, -⟩ :=
    parseInline_codeSpans 2 _ hmem
  exact ⟨hmem, before, run, body, after, hcs, congrArg Span.start hfull,
    congrArg Span.start hinner, hne, hno⟩

/-- Two ticks that one tick follows later: the second of them opens a code span, the first one
stands before it and is not escaped. -/
theorem codeSpan_opens_in_run :
    Inline.codeSpan ⟨1, 4⟩ ⟨2, 3⟩ ∈ parseInline 0 "``a`".toList ∧
      ∃ before rest, "``a`".toList = before ++ rest ∧ byteSize before = 1 ∧
        EndsInTick before rest := by
  have hnodes : parseInline 0 "``a`".toList = [.text ⟨0, 1⟩, .codeSpan ⟨1, 4⟩ ⟨2, 3⟩] := by
    decide +kernel
  refine ⟨?_, [tick], "`a`".toList, rfl, rfl, Reaches.endsInTick (.here _)⟩
  rw [hnodes]
  exact List.mem_cons_of_mem _ List.mem_cons_self

end ArticleAudit.Markdown
