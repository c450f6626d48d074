import ArticleAudit.Markdown.InlineBytes
import ArticleAudit.Proofs.Markdown.LinkGrammar
import ArticleAudit.Proofs.Markdown.Scanning
import ArticleAudit.Proofs.Text.Bytes

/-!
# The scan by bytes finds what the scan by characters finds

The scan of inline text compares bytes with ASCII bytes only. A byte of another character is none of
them, so every loop of the scan steps over it (`StepsOver`), and a loop that stands before a
character comes to stand before the next one, also when a backslash makes it take the first byte of
a character and no more. Each reader of the scan therefore reads the part of the text that the
reader of characters finds, and stands behind it (`past`). So the nodes are those of `parseInline`
(`nodes_eq_parseInline`).
-/

set_option autoImplicit false

namespace ArticleAudit.Markdown.InlineBytes

open ArticleAudit.Text

variable {α : Type} {c d : Char} {position depth run : Nat} {cs rest part : List Char}

/-! ## Cursors before characters -/

/-- The cursor that stands at `position` before a text. -/
def cursorAt (position : Nat) (cs : List Char) : Cursor :=
  ⟨position, bytesOf cs⟩

/-- The cursor behind the first part of a text that stands at `position`. -/
def past (position : Nat) (cs part : List Char) : Cursor :=
  cursorAt (position + byteSize part) (cs.drop part.length)

theorem past_append (front : List Char) : past position (front ++ cs) (front ++ part) =
    past (position + byteSize front) cs part := by
  unfold past
  rw [byteSize_append, Nat.add_assoc, List.length_append, ← List.drop_drop, List.drop_left]

theorem past_of_append (part rest : List Char) :
    past position (part ++ rest) part = cursorAt (position + byteSize part) rest := by
  rw [past, List.drop_left]

theorem ofString_eq_cursorAt (base : Nat) (s : String) :
    Cursor.ofString base s = cursorAt base s.toList := by
  have hbytes : s.toUTF8 = (bytesOf s.toList).toByteArray := (bytesOf_toList s).symm
  rw [Cursor.ofString, hbytes, List.toList_data_toByteArray]
  rfl

/-- The first byte of a character. -/
def firstByte (c : Char) : UInt8 :=
  (String.utf8EncodeChar c).head String.utf8EncodeChar_ne_nil

theorem firstByte_beq (hd : IsAscii d) : (firstByte c == d.toUInt8) = (c == d) := by
  obtain ⟨first, more, hbytes, -, hfirst⟩ := exists_utf8EncodeChar c
  have hc : firstByte c = first := by simp [firstByte, hbytes]
  rw [hc, Bool.eq_iff_iff, beq_iff_eq, beq_iff_eq]
  exact hfirst d hd

theorem exists_bytesOf_cons (c : Char) (rest : List Char) :
    ∃ more, bytesOf (c :: rest) = firstByte c :: (more ++ bytesOf rest) ∧
      more.length + 1 = c.utf8Size ∧ ∀ b ∈ more, 128 ≤ b.toNat := by
  obtain ⟨first, more, hbytes, hmore, -⟩ := exists_utf8EncodeChar c
  have hlength := String.length_utf8EncodeChar c
  rw [hbytes, List.length_cons] at hlength
  exact ⟨more, by simp [bytesOf_cons, firstByte, hbytes], hlength, hmore⟩

theorem firstByte_ascii (hc : IsAscii c) : firstByte c = c.toUInt8 :=
  beq_iff_eq.mp ((firstByte_beq hc).trans (beq_self_eq_true c))

@[simp] theorem peek_cursorAt_nil : (cursorAt position []).peek = none := rfl

@[simp] theorem peek_cursorAt_cons :
    (cursorAt position (c :: rest)).peek = some (firstByte c) := by
  obtain ⟨more, hbytes, -⟩ := exists_bytesOf_cons c rest
  rw [Cursor.peek, cursorAt, hbytes, List.head?_cons]

theorem peek_cursorAt_beq (hd : IsAscii d) (cs : List Char) :
    ((cursorAt position cs).peek == some d.toUInt8) = (cs.head? == some d) := by
  cases cs with
  | nil => rfl
  | cons c rest =>
    rw [peek_cursorAt_cons]
    exact firstByte_beq hd

theorem next_cursorAt_ascii (hc : IsAscii c) :
    (cursorAt position (c :: rest)).next = cursorAt (position + 1) rest := by
  obtain ⟨-, hbytes⟩ | ⟨hno, -⟩ := utf8EncodeChar_cases c
  · simp [Cursor.next, Cursor.bump, cursorAt, hbytes]
  · exact absurd hc hno

theorem peekAt_one (c : Cursor) : c.peekAt 1 = c.next.peek := by
  obtain ⟨position, bytes⟩ := c
  cases bytes with
  | nil => rfl
  | cons b bytes => exact List.head?_eq_getElem?.symm

theorem utf8Size_ascii (hc : IsAscii c) : c.utf8Size = 1 := by
  obtain ⟨-, hbytes⟩ | ⟨hno, -⟩ := utf8EncodeChar_cases c
  · rw [← String.length_utf8EncodeChar, hbytes]
    rfl
  · exact absurd hc hno

/-- The cursor behind a part of the text and the ASCII character that follows it. -/
theorem next_cursorAt_eq_past (hd : IsAscii d) (hcs : cs = part ++ d :: rest) :
    (cursorAt (position + byteSize part) (d :: rest)).next = past position cs (part ++ [d]) := by
  have hsplit : cs = part ++ [d] ++ rest := by
    rw [hcs, List.append_assoc]
    rfl
  rw [next_cursorAt_ascii hd, hsplit, past_of_append, byteSize_append, byteSize_cons,
    utf8Size_ascii hd]
  rfl

/-! ## Bytes of other characters -/

/-- A byte that is no ASCII byte is stepped over. -/
def StepsOver (f : Cursor → α) : Prop :=
  ∀ position b bytes, 128 ≤ b.toNat → f ⟨position, b :: bytes⟩ = f ⟨position + 1, bytes⟩

theorem beq_high {b : UInt8} (hb : 128 ≤ b.toNat) (hd : IsAscii d) : (b == d.toUInt8) = false := by
  rw [beq_eq_false_iff_ne]
  rintro rfl
  rw [toNat_toUInt8 hd] at hb
  exact absurd hd (Nat.not_lt.mpr hb)

theorem StepsOver.append {f : Cursor → α} (h : StepsOver f) {more : List UInt8}
    (hmore : ∀ b ∈ more, 128 ≤ b.toNat) (position : Nat) (bytes : List UInt8) :
    f ⟨position, more ++ bytes⟩ = f ⟨position + more.length, bytes⟩ := by
  induction more generalizing position with
  | nil => rfl
  | cons b more ih =>
    obtain ⟨hb, hmore⟩ := List.forall_mem_cons.mp hmore
    rw [List.cons_append, h _ _ _ hb, ih hmore, List.length_cons, Nat.add_assoc, Nat.add_comm 1]

/-- Behind the first byte of a character, the loop comes to the next character. -/
theorem StepsOver.next {f : Cursor → α} (h : StepsOver f) (c : Char) (rest : List Char) :
    f (cursorAt position (c :: rest)).next = f (cursorAt (position + c.utf8Size) rest) := by
  obtain ⟨more, hbytes, hsize, hmore⟩ := exists_bytesOf_cons c rest
  have hnext : (cursorAt position (c :: rest)).next = ⟨position + 1, more ++ bytesOf rest⟩ := by
    simp [Cursor.next, Cursor.bump, cursorAt, hbytes]
  rw [hnext, h.append hmore, Nat.add_assoc, Nat.add_comm 1, hsize]
  rfl

/-! ## Runs -/

/-- A class of bytes is that of a class of characters: it holds of all bytes of a character in the
class and not of the first byte of another one. -/
structure IsClass (p : UInt8 → Bool) (q : Char → Bool) : Prop where
  first : ∀ c, p (firstByte c) = q c
  more : ∀ c, q c = true → ∀ b ∈ String.utf8EncodeChar c, p b = true

theorem bumpWhile_cursorAt {p : UInt8 → Bool} {q : Char → Bool} (h : IsClass p q) (position : Nat)
    (cs : List Char) : (cursorAt position cs).bumpWhile p =
      cursorAt (position + byteSize (cs.takeWhile q)) (cs.dropWhile q) := by
  -- A run of bytes ends where a character starts, since a character is in the class as a whole.
  have hall : (bytesOf cs).takeWhile p = bytesOf (cs.takeWhile q) ∧
      (bytesOf cs).dropWhile p = bytesOf (cs.dropWhile q) := by
    induction cs with
    | nil => exact ⟨rfl, rfl⟩
    | cons c rest ih =>
      cases hc : q c with
      | true =>
        have hbytes := h.more c hc
        rw [bytesOf_cons, List.takeWhile_append_of_pos hbytes, List.dropWhile_append_of_pos hbytes,
          ih.1, ih.2, List.takeWhile_cons_of_pos hc, List.dropWhile_cons_of_pos hc, bytesOf_cons]
        exact ⟨rfl, rfl⟩
      | false =>
        obtain ⟨more, hbytes, -⟩ := exists_bytesOf_cons c rest
        have hfirst : ¬ p (firstByte c) = true := by simp [h.first, hc]
        rw [hbytes, List.takeWhile_cons_of_neg hfirst, List.dropWhile_cons_of_neg hfirst, ← hbytes,
          List.takeWhile_cons_of_neg (by simp [hc]), List.dropWhile_cons_of_neg (by simp [hc])]
        exact ⟨rfl, rfl⟩
  rw [Cursor.bumpWhile, cursorAt, hall.1, hall.2, length_bytesOf]
  rfl

theorem isClass_eq (hd : IsAscii d) : IsClass (· == d.toUInt8) (· == d) := by
  refine ⟨fun c => firstByte_beq hd, fun c hc b hb => ?_⟩
  obtain rfl := beq_iff_eq.mp hc
  obtain ⟨-, hbytes⟩ | ⟨hno, -⟩ := utf8EncodeChar_cases c
  · rw [hbytes, List.mem_singleton] at hb
    exact beq_iff_eq.mpr hb
  · exact absurd hd hno

theorem isClass_ne (hd : IsAscii d) : IsClass (· != d.toUInt8) (· != d) := by
  refine ⟨fun c => congrArg not (firstByte_beq hd), fun c hc b hb => bne_iff_ne.mpr ?_⟩
  rintro rfl
  exact bne_iff_ne.mp hc ((toUInt8_mem_utf8EncodeChar_iff hd).mp hb)

theorem IsClass.or {p p' : UInt8 → Bool} {q q' : Char → Bool} (h : IsClass p q)
    (h' : IsClass p' q') : IsClass (fun b => p b || p' b) fun c => q c || q' c := by
  refine ⟨fun c => by rw [h.first, h'.first], fun c hc b hb => ?_⟩
  rcases Bool.or_eq_true_iff.mp hc with hc | hc
  · rw [h.more c hc b hb, Bool.true_or]
  · rw [h'.more c hc b hb, Bool.or_true]

theorem IsClass.and {p p' : UInt8 → Bool} {q q' : Char → Bool} (h : IsClass p q)
    (h' : IsClass p' q') : IsClass (fun b => p b && p' b) fun c => q c && q' c := by
  refine ⟨fun c => by rw [h.first, h'.first], fun c hc b hb => ?_⟩
  obtain ⟨hq, hq'⟩ := Bool.and_eq_true_iff.mp hc
  rw [h.more c hq b hb, h'.more c hq' b hb, Bool.and_self]

theorem isClass_isTick : IsClass isTick (· == tick) :=
  isClass_eq (by decide)

theorem isClass_isBlankByte : IsClass isBlankByte isIndent :=
  (isClass_eq (by decide)).or (isClass_eq (by decide))

/-! ## Code spans -/

theorem closingRun?_of_none {c : Cursor} (h : c.peek = none) : closingRun? run c = none := by
  rw [closingRun?]
  split
  · rfl
  · next hpeek => cases h.symm.trans hpeek

theorem closingRun?_of_peek {c : Cursor} {b : UInt8} (h : c.peek = some b) :
    closingRun? run c =
      if isTick b then
        if (c.bumpWhile isTick).position - c.position == run then
          some (c.position, c.bumpWhile isTick)
        else closingRun? run (c.bumpWhile isTick)
      else closingRun? run c.next := by
  rw [closingRun?]
  split
  · next hpeek => cases h.symm.trans hpeek
  · next hpeek =>
    obtain rfl := Option.some.inj (h.symm.trans hpeek)
    rfl

theorem stepsOver_closingRun? : StepsOver (closingRun? run) := by
  intro position b bytes hb
  have hpeek : (Cursor.mk position (b :: bytes)).peek = some b := rfl
  have htick : isTick b = false := beq_high hb (by decide)
  rw [closingRun?_of_peek hpeek, htick, if_neg Bool.false_ne_true]
  rfl

theorem bumpWhile_isTick (position : Nat) (cs : List Char) :
    (cursorAt position cs).bumpWhile isTick =
      cursorAt (position + (cs.takeWhile (· == tick)).length)
        (cs.drop (cs.takeWhile (· == tick)).length) := by
  rw [bumpWhile_cursorAt isClass_isTick, drop_takeWhile]
  conv_lhs => rw [takeWhile_eq_replicate tick cs, byteSize_ticks]

theorem bumpWhile_isTick_cons (position : Nat) (rest : List Char) :
    (cursorAt position (tick :: rest)).bumpWhile isTick =
      cursorAt (position + ((rest.takeWhile (· == tick)).length + 1))
        (rest.drop (rest.takeWhile (· == tick)).length) := by
  have hticks : (tick :: rest).takeWhile (· == tick) = tick :: rest.takeWhile (· == tick) :=
    List.takeWhile_cons_of_pos rfl
  rw [bumpWhile_isTick, hticks]
  rfl

/-- Where the closing run of an inner text stands, and the cursor behind the run. -/
def codeEnd (run position : Nat) (cs inner : List Char) : Nat × Cursor :=
  (position + byteSize inner, past position cs (inner ++ List.replicate run tick))

theorem codeEnd_append (front inner : List Char) :
    codeEnd run position (front ++ cs) (front ++ inner) =
      codeEnd run (position + byteSize front) cs inner := by
  rw [codeEnd, List.append_assoc, past_append, byteSize_append, ← Nat.add_assoc]
  rfl

theorem map_codeEnd_append (front : List Char) (found : Option (List Char)) :
    (found.map (front ++ ·)).map (codeEnd run position (front ++ cs)) =
      found.map (codeEnd run (position + byteSize front) cs) := by
  rw [Option.map_map]
  exact congrArg (Option.map · found) (funext (codeEnd_append front))

/-- A closing run is found where the reader of characters finds it. -/
theorem closingRun?_cursorAt (position : Nat) (cs : List Char) :
    closingRun? run (cursorAt position cs) =
      (codeInner? run cs).map (codeEnd run position cs) := by
  have htick : isTick (firstByte tick) = true := isClass_isTick.first tick
  -- Both readers take a run of ticks in one step, and of other characters one at a time; the bytes
  -- of such a character that are left after its first one are stepped over.
  fun_induction codeInner? run cs generalizing position with
  | case1 => exact closingRun?_of_none rfl
  | case2 c rest hc length hrun =>
    obtain rfl := beq_iff_eq.mp hc
    have hpast : past position (tick :: rest) (List.replicate (length + 1) tick) =
        cursorAt (position + (length + 1)) (rest.drop length) := by
      rw [past, byteSize_ticks, List.length_replicate, List.drop_succ_cons]
    rw [closingRun?_of_peek peek_cursorAt_cons, if_pos htick, bumpWhile_isTick_cons,
      if_pos (by simpa [cursorAt] using hrun), ← hpast, beq_iff_eq.mp hrun]
    rfl
  | case3 c rest hc length hrun ih =>
    obtain rfl := beq_iff_eq.mp hc
    have hrest : List.replicate (length + 1) tick ++ rest.drop length = tick :: rest := by
      rw [List.replicate_succ, List.cons_append, ticks_append_drop]
    have hsize : length + 1 = byteSize (List.replicate (length + 1) tick) := (byteSize_ticks _).symm
    rw [closingRun?_of_peek peek_cursorAt_cons, if_pos htick, bumpWhile_isTick_cons,
      if_neg (by simpa [cursorAt] using hrun), ih]
    conv_rhs => rw [← hrest]
    rw [map_codeEnd_append, ← hsize]
  | case4 c rest hc ih =>
    have htick : isTick (firstByte c) = false := by
      rw [isTick, firstByte_beq (by decide)]
      simpa using hc
    have hsize : c.utf8Size = byteSize [c] := rfl
    rw [closingRun?_of_peek peek_cursorAt_cons, htick, if_neg Bool.false_ne_true,
      stepsOver_closingRun?.next, ih, hsize]
    exact (map_codeEnd_append [c] _).symm

/-- The node of a construct that stands at `position`, and the cursor behind it. -/
def constructEnd (position : Nat) (cs : List Char) (found : Construct) : Inline × Cursor :=
  (found.node position, past position cs found.source)

/-- A code span is read where the reader of characters reads it. -/
theorem codeSpan?_cursorAt (position : Nat) (cs : List Char) :
    codeSpan? (cursorAt position cs) = (codeAt? cs).map (constructEnd position cs) := by
  generalize hrun : (cs.takeWhile (· == tick)).length = run
  have hcs : List.replicate run tick ++ cs.drop run = cs := by
    rw [← hrun]
    exact ticks_append_drop cs
  have hcode : codeAt? cs =
      if run == 0 then none else (codeInner? run (cs.drop run)).map (.code run) := by
    rw [← hrun, drop_takeWhile]
    rfl
  have hinner :
      (cursorAt position cs).bumpWhile isTick = cursorAt (position + run) (cs.drop run) := by
    rw [bumpWhile_isTick, hrun]
  have hopen : ((cursorAt position cs).peek == some tick.toUInt8) = !(run == 0) := by
    rw [peek_cursorAt_beq (by decide), ← hrun]
    cases cs with
    | nil => rfl
    | cons c rest =>
      by_cases hc : c = tick <;> simp [hc]
  rw [codeSpan?, hopen, hcode, hinner]
  cases hzero : run == 0 with
  | true => rfl
  | false =>
    have hlength : (cursorAt (position + run) (cs.drop run)).position -
        (cursorAt position cs).position = run := Nat.add_sub_cancel_left position run
    simp only [hlength, closingRun?_cursorAt, Option.map_map, Bool.not_false, if_true,
      Bool.false_eq_true, if_false]
    refine congrArg (Option.map · _) (funext fun inner => ?_)
    have hpast : past position cs (Construct.code run inner).source =
        past (position + run) (cs.drop run) (inner ++ List.replicate run tick) := by
      conv_lhs => rw [← hcs]
      rw [Construct.source, List.append_assoc, past_append, byteSize_ticks]
    have hstop : position + run + byteSize (inner ++ List.replicate run tick) =
        position + run + byteSize inner + run := by
      rw [byteSize_append, byteSize_ticks, Nat.add_assoc (position + run)]
    show (Inline.codeSpan ⟨position, position + run + byteSize (inner ++ List.replicate run tick)⟩
      ⟨position + run, position + run + byteSize inner⟩, past _ _ _) = constructEnd position cs _
    rw [constructEnd, hpast, hstop]
    rfl

/-! ## Links -/

theorem map_past_append (front : List Char) (found : Option (List Char)) :
    (found.map (front ++ ·)).map (past position (front ++ cs)) =
      found.map (past (position + byteSize front) cs) := by
  rw [Option.map_map]
  exact congrArg (Option.map · found) (funext fun _ => past_append front)

theorem pastText?_of_none {c : Cursor} (h : c.peek = none) : pastText? depth c = none := by
  rw [pastText?]
  split
  · rfl
  · next hpeek => cases h.symm.trans hpeek

theorem pastText?_of_peek {c : Cursor} {b : UInt8} (h : c.peek = some b) :
    pastText? depth c =
      if b == '\\'.toUInt8 then pastText? depth c.next.next
      else if b == '['.toUInt8 then pastText? (depth + 1) c.next
      else if b == ']'.toUInt8 then if depth == 0 then some c else pastText? (depth - 1) c.next
      else pastText? depth c.next := by
  rw [pastText?]
  split
  · next hpeek => cases h.symm.trans hpeek
  · next hpeek =>
    obtain rfl := Option.some.inj (h.symm.trans hpeek)
    rfl

theorem stepsOver_pastText? : StepsOver (pastText? depth) := by
  intro position b bytes hb
  -- None of the marks that are looked for is such a byte.
  have hpeek : (Cursor.mk position (b :: bytes)).peek = some b := rfl
  have hplain : ∀ d, IsAscii d → (b == d.toUInt8) = false := fun d hd => beq_high hb hd
  rw [pastText?_of_peek hpeek, hplain _ (by decide), hplain _ (by decide), hplain _ (by decide)]
  rfl

theorem pastText?_cons : pastText? depth (cursorAt position (c :: rest)) =
    if c == '\\' then pastText? depth (cursorAt position (c :: rest)).next.next
    else if c == '[' then pastText? (depth + 1) (cursorAt (position + c.utf8Size) rest)
    else if c == ']' then
      if depth == 0 then some (cursorAt position (c :: rest))
      else pastText? (depth - 1) (cursorAt (position + c.utf8Size) rest)
    else pastText? depth (cursorAt (position + c.utf8Size) rest) := by
  have hbyte : ∀ d, IsAscii d → (firstByte c == d.toUInt8) = (c == d) := fun d hd =>
    firstByte_beq hd
  rw [pastText?_of_peek peek_cursorAt_cons, hbyte _ (by decide), hbyte _ (by decide),
    hbyte _ (by decide)]
  simp only [stepsOver_pastText?.next]

/-- The text of a link is read where the reader of characters reads it. -/
theorem pastText?_cursorAt (position : Nat) (cs : List Char) :
    pastText? depth (cursorAt position cs) = (linkText? depth cs).map (past position cs) := by
  fun_induction linkText? depth cs generalizing position with
  | case1 => exact pastText?_of_none rfl
  | case2 =>
    rw [pastText?_cons, next_cursorAt_ascii (by decide)]
    exact pastText?_of_none rfl
  | case3 depth c rest ih =>
    -- A backslash takes one byte with it, which may be the first one of a larger character.
    have hescape : pastText? depth (cursorAt position ('\\' :: c :: rest)) =
        pastText? depth (cursorAt (position + 1 + c.utf8Size) rest) := by
      rw [pastText?_cons, next_cursorAt_ascii (by decide), stepsOver_pastText?.next]
      rfl
    rw [hescape, ih, Nat.add_assoc]
    exact (map_past_append ['\\', c] _).symm
  | case4 depth rest ih => exact pastText?_cons.trans ((ih _).trans (map_past_append ['['] _).symm)
  | case5 rest => exact pastText?_cons
  | case6 rest depth ih => exact pastText?_cons.trans ((ih _).trans (map_past_append [']'] _).symm)
  | case7 depth c rest hlast hescape hopen hclose ih =>
    have hslash : c ≠ '\\' := by
      rintro rfl
      cases rest with
      | nil => exact hlast rfl rfl
      | cons d rest => exact hescape d rest rfl rfl
    rw [pastText?_cons, if_neg (by simpa using hslash), if_neg (by simpa using hopen),
      if_neg (by simpa using hclose), ih]
    exact (map_past_append [c] _).symm

theorem pastTarget?_of_none {c : Cursor} (h : c.peek = none) : pastTarget? depth c = none := by
  rw [pastTarget?]
  split
  · rfl
  · next hpeek => cases h.symm.trans hpeek

theorem pastTarget?_of_peek {c : Cursor} {b : UInt8} (h : c.peek = some b) :
    pastTarget? depth c =
      if b == '\n'.toUInt8 then none
      else if isBlankByte b then some c
      else if b == '('.toUInt8 then pastTarget? (depth + 1) c.next
      else if b == ')'.toUInt8 then if depth == 0 then some c else pastTarget? (depth - 1) c.next
      else pastTarget? depth c.next := by
  rw [pastTarget?]
  split
  · next hpeek => cases h.symm.trans hpeek
  · next hpeek =>
    obtain rfl := Option.some.inj (h.symm.trans hpeek)
    rfl

theorem stepsOver_pastTarget? : StepsOver (pastTarget? depth) := by
  intro position b bytes hb
  have hpeek : (Cursor.mk position (b :: bytes)).peek = some b := rfl
  have hplain : ∀ d, IsAscii d → (b == d.toUInt8) = false := fun d hd => beq_high hb hd
  have hblank : isBlankByte b = false := by
    rw [isBlankByte, hplain _ (by decide), hplain _ (by decide), Bool.or_false]
  rw [pastTarget?_of_peek hpeek, hplain _ (by decide), hblank, hplain _ (by decide),
    hplain _ (by decide)]
  rfl

theorem pastTarget?_cons : pastTarget? depth (cursorAt position (c :: rest)) =
    if c == '\n' then none
    else if isIndent c then some (cursorAt position (c :: rest))
    else if c == '(' then pastTarget? (depth + 1) (cursorAt (position + c.utf8Size) rest)
    else if c == ')' then
      if depth == 0 then some (cursorAt position (c :: rest))
      else pastTarget? (depth - 1) (cursorAt (position + c.utf8Size) rest)
    else pastTarget? depth (cursorAt (position + c.utf8Size) rest) := by
  have hbyte : ∀ d, IsAscii d → (firstByte c == d.toUInt8) = (c == d) := fun d hd =>
    firstByte_beq hd
  rw [pastTarget?_of_peek peek_cursorAt_cons, hbyte _ (by decide), isClass_isBlankByte.first,
    hbyte _ (by decide), hbyte _ (by decide)]
  simp only [stepsOver_pastTarget?.next]

/-- The target of a link is read where the reader of characters reads it. -/
theorem pastTarget?_cursorAt (position : Nat) (cs : List Char) :
    pastTarget? depth (cursorAt position cs) = (linkTarget? depth cs).map (past position cs) := by
  fun_induction linkTarget? depth cs generalizing position with
  | case1 => exact pastTarget?_of_none rfl
  | case2 | case3 | case4 | case6 => exact pastTarget?_cons
  | case5 depth rest ih =>
    exact pastTarget?_cons.trans ((ih _).trans (map_past_append ['('] _).symm)
  | case7 rest depth ih =>
    exact pastTarget?_cons.trans ((ih _).trans (map_past_append [')'] _).symm)
  | case8 depth c rest hfeed hspace htab hopen hclose ih =>
    have hindent : isIndent c = false := by
      simpa [isIndent] using ⟨hspace, htab⟩
    rw [pastTarget?_cons, if_neg (by simpa using hfeed), hindent, if_neg Bool.false_ne_true,
      if_neg (by simpa using hopen), if_neg (by simpa using hclose), ih]
    exact (map_past_append [c] _).symm

theorem pastClose?_cursorAt (position : Nat) (cs : List Char) :
    pastClose? ((cursorAt position cs).bumpWhile isBlankByte) =
      (linkClose? cs).map (past position cs) := by
  rw [bumpWhile_cursorAt isClass_isBlankByte, pastClose?, peek_cursorAt_beq (by decide),
    linkClose?_eq]
  cases hrest : cs.dropWhile isIndent with
  | nil => rfl
  | cons c rest =>
    by_cases hc : c = ')'
    · subst hc
      have hcs : cs = cs.takeWhile isIndent ++ ')' :: rest := by
        rw [← hrest, List.takeWhile_append_dropWhile]
      rw [next_cursorAt_eq_past (by decide) hcs]
      rfl
    · rw [if_neg (by simpa using hc), if_neg (by simpa using hc)]
      rfl

/-- A title is read where the reader of characters reads it. -/
theorem pastTitle?_cursorAt {quote : Char} (hquote : isTitleQuote quote = true) (position : Nat)
    (rest : List Char) : pastTitle? (cursorAt position (quote :: rest)) =
      (linkTitle? (quote :: rest)).map (past position (quote :: rest)) := by
  have hascii : IsAscii quote := by
    rcases Bool.or_eq_true_iff.mp hquote with h | h <;>
    · obtain rfl := beq_iff_eq.mp h
      decide
  -- The same quote closes the title, so the class of its bytes is known once the quote is.
  have hclass : IsClass (fun b => b != quote.toUInt8 && b != '\n'.toUInt8) (isTitleChar quote) :=
    (isClass_ne hascii).and (isClass_ne (by decide))
  have htitle : pastTitle? (cursorAt position (quote :: rest)) =
      let close := (cursorAt (position + 1) rest).bumpWhile
        fun b => b != quote.toUInt8 && b != '\n'.toUInt8
      if close.peek == some quote.toUInt8 then some close.next else none := by
    rw [pastTitle?, peek_cursorAt_cons, firstByte_ascii hascii, next_cursorAt_ascii hascii]
  rw [htitle, linkTitle?_cons]
  simp only [bumpWhile_cursorAt hclass, peek_cursorAt_beq hascii, hquote, true_and, beq_iff_eq]
  split
  · next hclose =>
    obtain ⟨after, hafter⟩ := List.head?_eq_some_iff.mp hclose
    have hcs : quote :: rest =
        (quote :: rest.takeWhile (isTitleChar quote)) ++ quote :: after := by
      rw [List.cons_append, ← hafter, List.takeWhile_append_dropWhile]
    have hsize : position + 1 + byteSize (rest.takeWhile (isTitleChar quote)) =
        position + byteSize (quote :: rest.takeWhile (isTitleChar quote)) := by
      rw [byteSize_cons, utf8Size_ascii hascii, Nat.add_assoc]
    rw [hafter, hsize, next_cursorAt_eq_past hascii hcs]
    rfl
  · rfl

/-- What follows a target is read where the reader of characters reads it. -/
theorem pastTail?_cursorAt (position : Nat) (cs : List Char) :
    pastTail? (cursorAt position cs) = (linkTail? cs).map (past position cs) := by
  have hclose := pastClose?_cursorAt position cs
  have hcs := List.takeWhile_append_dropWhile (p := isIndent) (l := cs)
  rw [bumpWhile_cursorAt isClass_isBlankByte] at hclose
  rw [linkTail?_eq, pastTail?, bumpWhile_cursorAt isClass_isBlankByte]
  generalize cs.takeWhile isIndent = blanks, cs.dropWhile isIndent = body at hclose hcs ⊢
  have hquotes : ((cursorAt (position + byteSize blanks) body).peek == some '"'.toUInt8 ||
      (cursorAt (position + byteSize blanks) body).peek == some '\''.toUInt8) =
        body.head?.any isTitleQuote := by
    rw [peek_cursorAt_beq (by decide), peek_cursorAt_beq (by decide)]
    cases body <;> rfl
  simp only [hquotes]
  split
  · next hquote =>
    obtain ⟨quote, hhead, hquote⟩ := (Option.any_eq_true _ _).mp hquote
    obtain ⟨rest, rfl⟩ := List.head?_eq_some_iff.mp hhead
    rw [pastTitle?_cursorAt hquote]
    cases htitle : linkTitle? (quote :: rest) with
    | none => rfl
    | some title =>
      -- The blanks and the title stand before the blanks and the parenthesis.
      obtain ⟨after, hafter⟩ := linkTitle?_isPrefix htitle
      have hfront : cs = blanks ++ title ++ after := by
        rw [List.append_assoc, hafter, hcs]
      have hafter' : (quote :: rest).drop title.length = after := by
        rw [← hafter, List.drop_left]
      have hpast : past (position + byteSize blanks) (quote :: rest) title =
          cursorAt (position + byteSize (blanks ++ title)) after := by
        rw [← hafter, past_of_append, byteSize_append, Nat.add_assoc]
      show pastClose? ((past (position + byteSize blanks) (quote :: rest) title).bumpWhile _) =
        ((linkClose? ((quote :: rest).drop title.length)).map (blanks ++ title ++ ·)).map _
      rw [hpast, hafter', pastClose?_cursorAt, hfront, map_past_append]
  · exact hclose

theorem position_past_head (l : LinkParts) (position : Nat) :
    position + byteSize l.opening + byteSize l.text + 1 + 1 + byteSize l.spaces =
      position + byteSize l.head := by
  have hmarks : byteSize [']', '('] = 2 := rfl
  rw [LinkParts.head, byteSize_append, byteSize_append, byteSize_append, hmarks]
  omega

/-- A link is read where the reader of characters reads it; its text follows the opening. -/
theorem linkFrom?_cursorAt (image : Bool) (position : Nat) (opening text : List Char)
    (hopening : opening = if image then ['!', '['] else ['[']) :
    linkFrom? image (cursorAt position (opening ++ text))
        (cursorAt (position + byteSize opening) text) =
      ((linkParts? image text).map .link).map (constructEnd position (opening ++ text)) := by
  unfold linkFrom? linkParts?
  rw [pastText?_cursorAt]
  cases htext : linkText? 0 text with
  | none => rfl
  | some inner =>
    obtain ⟨-, after, rfl⟩ := linkText?_eq_some_iff.mp htext
    simp only [Option.map_some, Option.bind_eq_bind, Option.bind_some, past_of_append,
      next_cursorAt_ascii (show IsAscii ']' by decide), List.drop_left,
      peek_cursorAt_beq (show IsAscii '(' by decide)]
    by_cases hparen : after.head? = some '('
    · obtain ⟨rest, rfl⟩ := List.head?_eq_some_iff.mp hparen
      have hrest := List.takeWhile_append_dropWhile (p := (· == ' ')) (l := rest)
      simp only [List.head?_cons, beq_self_eq_true, if_true,
        next_cursorAt_ascii (show IsAscii '(' by decide),
        bumpWhile_cursorAt (isClass_eq (show IsAscii ' ' by decide)), pastTarget?_cursorAt]
      generalize rest.takeWhile (· == ' ') = spaces, rest.dropWhile (· == ' ') = body at hrest ⊢
      cases htarget : linkTarget? 0 body with
      | none => rfl
      | some target =>
        obtain ⟨left, rfl⟩ := linkTarget?_isPrefix htarget
        simp only [Option.map_some, Option.bind_some, past_of_append, pastTail?_cursorAt,
          List.drop_left]
        cases htail : linkTail? left with
        | none => rfl
        | some tail =>
          -- All parts are read: they make up the source, and their sizes place the spans.
          obtain ⟨behind, rfl⟩ := (linkTail?_isPrefix htail).1
          let parts : LinkParts := ⟨image, inner, spaces, target, tail⟩
          have hopen : opening = parts.opening := hopening
          have hsource : opening ++ (inner ++ ']' :: '(' :: rest) = parts.source ++ behind := by
            rw [← hrest, hopen]
            simp [parts, LinkParts.source, LinkParts.head]
          have hhead : position + byteSize opening + byteSize inner + 1 + 1 + byteSize spaces =
              position + byteSize parts.head := by
            rw [hopen]
            exact position_past_head parts position
          have hend : position + byteSize parts.head + byteSize target + byteSize tail =
              position + byteSize parts.source := by
            rw [LinkParts.source, byteSize_append, byteSize_append, Nat.add_assoc, Nat.add_assoc,
              Nat.add_assoc]
          have hnode : constructEnd position (parts.source ++ behind) (.link parts) =
              (parts.node position, cursorAt (position + byteSize parts.source) behind) :=
            congrArg (Prod.mk _) (past_of_append _ _)
          simp only [Option.map_some, Option.bind_some, past_of_append, Option.pure_def, hsource]
          rw [hhead, hend, hnode, hopen]
          rfl
    · rw [if_neg (by simpa using hparen)]
      split
      · next rest heq => exact absurd (congrArg List.head? (List.cons.inj heq).2) hparen
      · rfl

/-- A link or an image is read where the reader of characters reads it. -/
theorem link?_cursorAt (position : Nat) (cs : List Char) :
    link? (cursorAt position cs) =
      ((linkAt? cs).map .link).map (constructEnd position cs) := by
  have hopen : IsAscii '[' := by decide
  have hbang : IsAscii '!' := by decide
  unfold link?
  rw [peekAt_one, peek_cursorAt_beq hbang, peek_cursorAt_beq hopen]
  fun_cases linkAt? cs with
  | case1 rest =>
    rw [next_cursorAt_ascii hbang, peek_cursorAt_beq hopen, next_cursorAt_ascii hopen]
    exact (if_pos rfl).trans (linkFrom?_cursorAt true position ['!', '['] rest rfl)
  | case2 rest =>
    rw [if_neg (by simp), next_cursorAt_ascii hopen]
    exact (if_pos rfl).trans (linkFrom?_cursorAt false position ['['] rest rfl)
  | case3 cs himage hlink =>
    rw [if_neg, if_neg]
    · rfl
    · intro hhead
      obtain ⟨rest, rfl⟩ := List.head?_eq_some_iff.mp (beq_iff_eq.mp hhead)
      exact hlink rest rfl
    · intro hhead
      obtain ⟨hhead, hnext⟩ := Bool.and_eq_true_iff.mp hhead
      obtain ⟨rest, rfl⟩ := List.head?_eq_some_iff.mp (beq_iff_eq.mp hhead)
      rw [next_cursorAt_ascii hbang, peek_cursorAt_beq hopen] at hnext
      obtain ⟨rest, rfl⟩ := List.head?_eq_some_iff.mp (beq_iff_eq.mp hnext)
      exact himage rest rfl

/-! ## The scan -/

theorem construct?_cursorAt (position : Nat) (cs : List Char) :
    construct? (cursorAt position cs) = (constructAt? cs).map (constructEnd position cs) := by
  rw [construct?, codeSpan?_cursorAt, link?_cursorAt, constructAt?]
  cases codeAt? cs <;> rfl

theorem scan_of_none {c : Cursor} {start : Nat} (h : c.peek = none) :
    scan start c = plainText start c.position := by
  rw [scan]
  split
  · rfl
  · next hpeek => cases h.symm.trans hpeek

theorem scan_of_peek {c : Cursor} {start : Nat} {b : UInt8} (h : c.peek = some b) :
    scan start c =
      if b == '\\'.toUInt8 then scan start c.next.next
      else
        match construct? c with
        | some (node, behind) =>
          plainText start node.full.start ++ node :: scan node.full.stop behind
        | none => scan start c.next := by
  rw [scan]
  split
  · next hpeek => cases h.symm.trans hpeek
  · next hpeek =>
    obtain rfl := Option.some.inj (h.symm.trans hpeek)
    refine ite_congr rfl (fun _ => rfl) fun _ => ?_
    split <;>
    · next hfound => rw [hfound]

theorem construct?_high {b : UInt8} (hb : 128 ≤ b.toNat) (position : Nat) (bytes : List UInt8) :
    construct? ⟨position, b :: bytes⟩ = none := by
  have hpeek : ∀ d, IsAscii d →
      ((Cursor.mk position (b :: bytes)).peek == some d.toUInt8) = false := fun d hd =>
    beq_high hb hd
  rw [construct?, codeSpan?, link?, hpeek _ (by decide), hpeek _ (by decide), hpeek _ (by decide)]
  rfl

theorem stepsOver_scan {start : Nat} : StepsOver (scan start) := by
  intro position b bytes hb
  have hpeek : (Cursor.mk position (b :: bytes)).peek = some b := rfl
  rw [scan_of_peek hpeek, beq_high hb (by decide), construct?_high hb]
  rfl

theorem scan_cons (start : Nat) : scan start (cursorAt position (c :: rest)) =
    if c == '\\' then scan start (cursorAt position (c :: rest)).next.next
    else
      match constructAt? (c :: rest) with
      | some found =>
        plainText start position ++ found.node position ::
          scan (position + byteSize found.source) (past position (c :: rest) found.source)
      | none => scan start (cursorAt (position + c.utf8Size) rest) := by
  rw [scan_of_peek peek_cursorAt_cons, firstByte_beq (by decide), construct?_cursorAt]
  refine ite_congr rfl (fun _ => rfl) fun _ => ?_
  cases constructAt? (c :: rest) with
  | none => exact stepsOver_scan.next c rest
  | some found =>
    show plainText start (found.node position).full.start ++ found.node position ::
      scan (found.node position).full.stop _ = _
    rw [full_node]

/-- The scan by bytes finds what the scan by characters finds. -/
theorem scan_cursorAt (start position : Nat) (cs : List Char) :
    scan start (cursorAt position cs) = scanInline constructAt? start position cs := by
  -- The induction is on what one step of the scan takes: an escape, a construct or a character.
  induction cs using scan_induction recognizes_constructAt? generalizing start position with
  | nil => rw [scan_of_none rfl, scanInline, cursorAt]
  | step part rest htake ih =>
    cases hfound : constructAt? (part ++ rest) with
    | some found =>
      -- The step takes the construct that is read, which does not start with a backslash.
      obtain rfl := htake.eq_of_construct recognizes_constructAt? hfound
      obtain ⟨c, more, hcs⟩ : ∃ c more, found.source ++ rest = c :: more :=
        List.exists_cons_of_ne_nil
          (List.append_ne_nil_of_left_ne_nil (recognizes_constructAt?.initial hfound).1 rest)
      have hslash : c ≠ '\\' := by
        rintro rfl
        rw [hcs, recognizes_constructAt?.escape] at hfound
        cases hfound
      have hpast : past position (c :: more) found.source =
          cursorAt (position + byteSize found.source) rest := by
        rw [← hcs, past_of_append]
      rw [scanInline_of_some recognizes_constructAt? hfound, ← ih, ← hpast]
      rw [hcs] at hfound ⊢
      rw [scan_cons, if_neg (by simpa using hslash), hfound]
    | none =>
      rw [htake.scanInline_of_none hfound, ← ih]
      cases htake with
      | escape c =>
        show scan start (cursorAt position ('\\' :: c :: rest)) = _
        have hsize : position + byteSize ['\\', c] = position + 1 + c.utf8Size := by
          rw [byteSize_slash_cons, byteSize_nil, Nat.add_zero, Nat.add_assoc]
        rw [scan_cons, next_cursorAt_ascii (by decide), stepsOver_scan.next, hsize]
        rfl
      | lastEscape =>
        show scan start (cursorAt position ['\\']) = _
        rw [scan_cons, next_cursorAt_ascii (by decide)]
        rfl
      | construct hread =>
        rw [hread] at hfound
        cases hfound
      | @plain c _ hc _ =>
        replace hfound : constructAt? (c :: rest) = none := hfound
        show scan start (cursorAt position (c :: rest)) = _
        rw [scan_cons, hfound, if_neg (by simpa using hc)]
        rfl

/-- The nodes that the scan by bytes finds are the inline nodes of the text. -/
theorem nodes_eq_parseInline (base : Nat) (s : String) :
    nodes base s = parseInline base s.toList := by
  rw [nodes, ofString_eq_cursorAt]
  exact scan_cursorAt base base s.toList

end ArticleAudit.Markdown.InlineBytes
