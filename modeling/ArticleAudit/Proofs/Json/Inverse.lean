import ArticleAudit.Json.Reader
import ArticleAudit.Json.Writer

/-!
# Reading what is written

The reader of JSON inverts its writer (`Tree.ofChars?_write`), for every tree whose numbers are
literals (`Tree.Written`). Each reader answers what was written and the text after it, so the parts
compose; only a number must not run on into what follows it (`EndsNumber`). The bound on the steps
of the reader is twice the length of the text: a value, an item or a member takes at least one
character and at most two steps.
-/

set_option autoImplicit false

namespace ArticleAudit.Json

open ArticleAudit.Unicode ArticleAudit.Decimal

/-! ## Texts -/

/-- The piece that a written character is read as. -/
def pieceOf (c : Char) : Piece :=
  if (shortEscapes.lookup c).isNone && c.toNat < 0x20 then .unit c.toNat else .char c

/-- A short escape is read as the character it was written for. -/
theorem shortEscape?_of_lookup {c letter : Char} (h : shortEscapes.lookup c = some letter) :
    letter ≠ 'u' ∧ shortEscape? letter = some c := by
  have hmem : (c, letter) ∈ shortEscapes := by
    obtain ⟨before, after, hsplit, -⟩ := List.lookup_eq_some_iff.mp h
    rw [hsplit]
    simp
  simp only [shortEscapes, List.mem_cons, Prod.mk.injEq, List.not_mem_nil, or_false] at hmem
  rcases hmem with ⟨rfl, rfl⟩ | ⟨rfl, rfl⟩ | ⟨rfl, rfl⟩ | ⟨rfl, rfl⟩ | ⟨rfl, rfl⟩ | ⟨rfl, rfl⟩ |
    ⟨rfl, rfl⟩ <;> decide

theorem hexDigit?_hexDigitChar : ∀ n < 16, hexDigit? (Text.hexDigitChar n) = some n := by
  decide

/-- The escape of a code point is read as the code point. -/
theorem readUnit_codeEscape {c : Char} (h : c.toNat < 0x20) (rest : List Char) :
    readUnit ('0' :: '0' :: Text.hexDigitChar (c.toNat / 16) ::
      Text.hexDigitChar (c.toNat % 16) :: rest) = some (c.toNat, rest) := by
  have hhigh := hexDigit?_hexDigitChar (c.toNat / 16) (by omega)
  have hlow := hexDigit?_hexDigitChar (c.toNat % 16) (by omega)
  have hzero : hexDigit? '0' = some 0 := rfl
  simp only [readUnit, List.mapM_cons, List.mapM_nil, hhigh, hlow, hzero, Option.pure_def,
    Option.bind_eq_bind, Option.bind_some, Option.map_some, List.foldl_cons, List.foldl_nil,
    Option.some.injEq, Prod.mk.injEq, and_true]
  omega

theorem readPieces_unit (fuel : Nat) {n : Nat} {cs rest : List Char}
    (h : readUnit cs = some (n, rest)) :
    readPieces (fuel + 1) ('\\' :: 'u' :: cs) =
      (readPieces fuel rest).map fun (pieces, left) => (.unit n :: pieces, left) := by
  simp only [readPieces, h, Option.bind_eq_bind, Option.bind_some]
  cases readPieces fuel rest <;> rfl

theorem readPieces_escape (fuel : Nat) {c letter : Char} (hu : letter ≠ 'u')
    (h : shortEscape? letter = some c) (rest : List Char) :
    readPieces (fuel + 1) ('\\' :: letter :: rest) =
      (readPieces fuel rest).map fun (pieces, left) => (.char c :: pieces, left) := by
  rw [readPieces, h, Option.bind_eq_bind, Option.bind_some]
  · cases readPieces fuel rest <;> rfl
  · simpa using hu

theorem readPieces_char (fuel : Nat) {c : Char} (hquote : c ≠ '"') (hbackslash : c ≠ '\\')
    (hcontrol : ¬ c.toNat < 0x20) (rest : List Char) :
    readPieces (fuel + 1) (c :: rest) =
      (readPieces fuel rest).map fun (pieces, left) => (.char c :: pieces, left) := by
  rw [readPieces]
  · simp [hbackslash, hcontrol]
  · simpa using hquote
  · simp [hbackslash]
  · simp [hbackslash]

/-- A written character is read as its piece. -/
theorem readPieces_writeChar (fuel : Nat) (c : Char) (rest : List Char) :
    readPieces (fuel + 1) (writeChar c ++ rest) =
      (readPieces fuel rest).map fun (pieces, left) => (pieceOf c :: pieces, left) := by
  unfold writeChar pieceOf
  cases hletter : shortEscapes.lookup c with
  | some letter =>
    obtain ⟨hu, hescape⟩ := shortEscape?_of_lookup hletter
    show readPieces (fuel + 1) ('\\' :: letter :: rest) = _
    exact readPieces_escape fuel hu hescape rest
  | none =>
    by_cases hcontrol : c.toNat < 0x20
    · rw [if_pos hcontrol, if_pos (by simp [hcontrol])]
      exact readPieces_unit fuel (readUnit_codeEscape hcontrol rest)
    · have hquote : c ≠ '"' := by
        rintro rfl
        simp [shortEscapes] at hletter
      have hbackslash : c ≠ '\\' := by
        rintro rfl
        simp [shortEscapes] at hletter
      rw [if_neg hcontrol, if_neg (by simp [hcontrol])]
      exact readPieces_char fuel hquote hbackslash hcontrol rest

/-- The pieces of a written text are read up to the quotation mark after it. -/
theorem readPieces_written {cs : List Char} {fuel : Nat} (h : cs.length < fuel)
    (rest : List Char) :
    readPieces fuel (cs.flatMap writeChar ++ '"' :: rest) = some (cs.map pieceOf, rest) := by
  induction cs generalizing fuel with
  | nil =>
    obtain ⟨fuel, rfl⟩ := Nat.exists_eq_add_one_of_ne_zero (Nat.ne_zero_of_lt h)
    rfl
  | cons c cs ih =>
    obtain ⟨fuel, rfl⟩ := Nat.exists_eq_add_one_of_ne_zero (Nat.ne_zero_of_lt h)
    have hlength : cs.length < fuel := by simpa using h
    have hrest := ih hlength
    rw [List.flatMap_cons, List.append_assoc, readPieces_writeChar, hrest]
    rfl

/-- A code unit that is half of nothing is a character, whatever follows it. -/
theorem charsOf?_unit {n : Nat} (hhigh : isHighHalf n = false) (hlow : isLowHalf n = false)
    (rest : List Piece) :
    charsOf? (.unit n :: rest) = (charsOf? rest).map (Char.ofNat n :: ·) := by
  cases rest with
  | nil => simp [charsOf?, hhigh, hlow]
  | cons piece rest => cases piece <;> simp [charsOf?, hhigh, hlow]

/-- The pieces of a written text stand for its characters. -/
theorem charsOf?_map_pieceOf (cs : List Char) : charsOf? (cs.map pieceOf) = some cs := by
  induction cs with
  | nil => rfl
  | cons c cs ih =>
    rw [List.map_cons, pieceOf]
    split
    · next hunit =>
      have hcontrol : c.toNat < 0x20 := by simpa using (Bool.and_eq_true_iff.mp hunit).2
      have hhigh : isHighHalf c.toNat = false := by simp [isHighHalf]; omega
      have hlow : isLowHalf c.toNat = false := by simp [isLowHalf]; omega
      rw [charsOf?_unit hhigh hlow, ih, Option.map_some, Char.ofNat_toNat]
    · rw [charsOf?, ih]
      rfl

theorem length_le_flatMap_writeChar (cs : List Char) :
    cs.length ≤ (cs.flatMap writeChar).length := by
  have hpos : ∀ c, 1 ≤ (writeChar c).length := by
    intro c
    unfold writeChar
    split
    · simp
    · split <;> simp [codeEscape]
  induction cs with
  | nil => exact Nat.zero_le _
  | cons c cs ih =>
    have := hpos c
    simp only [List.flatMap_cons, List.length_append, List.length_cons]
    omega

/-- A written text is read back. -/
theorem readText_writeText (s : Option String) (rest : List Char) :
    ∃ cs, writeText s ++ rest = '"' :: cs ∧ readText cs = some (s, rest) := by
  cases s with
  | none =>
    refine ⟨halfEscape ++ '"' :: rest, by simp [writeText], ?_⟩
    have hunit : readUnit ("d800".toList ++ '"' :: rest) = some (0xD800, '"' :: rest) := rfl
    have hpieces : readPieces ((halfEscape ++ '"' :: rest).length + 1) (halfEscape ++ '"' :: rest) =
        some ([.unit 0xD800], rest) :=
      readPieces_unit _ hunit
    rw [readText, hpieces]
    rfl
  | some s =>
    refine ⟨s.toList.flatMap writeChar ++ '"' :: rest, by simp [writeText], ?_⟩
    have hlength : s.toList.length < (s.toList.flatMap writeChar ++ '"' :: rest).length + 1 := by
      have := length_le_flatMap_writeChar s.toList
      simp only [List.length_append, List.length_cons]
      omega
    rw [readText, readPieces_written hlength]
    simp only [Option.map_some, charsOf?_map_pieceOf, String.ofList_toList]

/-! ## Numbers -/

/-- The number literals: a whole part without a zero in front, digits in the fraction, and digits in
the exponent, at least one. -/
structure NumberText.IsLiteral (t : NumberText) : Prop where
  whole : ∀ c ∈ t.whole, c.isDigit = true
  whole_ne_nil : t.whole ≠ []
  leading : t.whole.head? = some '0' → t.whole = ['0']
  fraction : ∀ c ∈ t.fraction, c.isDigit = true
  exponent : ∀ negative digits, t.exponent = some (negative, digits) →
    digits ≠ [] ∧ ∀ c ∈ digits, c.isDigit = true

/-- What follows a number does not carry it on. -/
def EndsNumber (rest : List Char) : Prop :=
  ∀ c, rest.head? = some c → c.isDigit = false ∧ c ≠ '.' ∧ c ≠ 'e' ∧ c ≠ 'E'

/-- Digits are read up to a character that is none. -/
theorem readDigits_append {digits rest : List Char} (hdigits : ∀ c ∈ digits, c.isDigit = true)
    (hne : digits ≠ []) (hrest : ∀ c, rest.head? = some c → c.isDigit = false) :
    readDigits (digits ++ rest) = some (digits, rest) := by
  have hstop : rest.takeWhile Char.isDigit = [] ∧ rest.dropWhile Char.isDigit = rest := by
    cases rest with
    | nil => exact ⟨rfl, rfl⟩
    | cons c rest =>
      have hc := hrest c rfl
      simp [hc]
  rw [readDigits, List.takeWhile_append_of_pos hdigits, List.dropWhile_append_of_pos hdigits,
    hstop.1, hstop.2, List.append_nil, if_neg (by simpa using hne)]

/-- The whole part of a literal is read. -/
theorem readWhole_append {t : NumberText} (h : t.IsLiteral) {rest : List Char}
    (hrest : ∀ c, rest.head? = some c → c.isDigit = false) :
    readWhole (t.whole ++ rest) = some (t.whole, rest) := by
  cases hwhole : t.whole with
  | nil => exact absurd hwhole h.whole_ne_nil
  | cons c more =>
    by_cases hc : c = '0'
    · subst hc
      have hleading := h.leading (by rw [hwhole]; rfl)
      rw [hwhole] at hleading
      rw [hleading]
      rfl
    · have hdigits := readDigits_append (hwhole ▸ h.whole) (hwhole ▸ h.whole_ne_nil) hrest
      rw [List.cons_append, readWhole]
      · exact hdigits
      · simpa using hc

theorem readFraction_append {digits rest : List Char} (hdigits : ∀ c ∈ digits, c.isDigit = true)
    (hrest : ∀ c, rest.head? = some c → c.isDigit = false ∧ c ≠ '.') :
    readFraction (writeFraction digits ++ rest) = some (digits, rest) := by
  cases digits with
  | nil =>
    cases rest with
    | nil => rfl
    | cons c rest =>
      show readFraction (c :: rest) = _
      rw [readFraction]
      simpa using (hrest c rfl).2
  | cons d more =>
    show readDigits (d :: more ++ rest) = _
    exact readDigits_append hdigits (by simp) fun c hc => (hrest c hc).1

theorem readExponent_append {t : NumberText} (h : t.IsLiteral) {rest : List Char}
    (hrest : EndsNumber rest) :
    readExponent (writeExponent t.exponent ++ rest) = some (t.exponent, rest) := by
  cases hexponent : t.exponent with
  | none =>
    cases rest with
    | nil => rfl
    | cons c rest =>
      obtain ⟨-, -, he, hE⟩ := hrest c rfl
      simp [writeExponent, readExponent, he, hE]
  | some exponent =>
    obtain ⟨negative, digits⟩ := exponent
    obtain ⟨hne, hdigits⟩ := h.exponent negative digits hexponent
    have hread := readDigits_append hdigits hne fun c hc => (hrest c hc).1
    cases negative <;> simp [writeExponent, readExponent, hread]

/-- Neither digits nor a point start with an exponent and what follows it. -/
theorem head?_writeExponent {exponent : Option (Bool × List Char)} {rest : List Char}
    (hrest : EndsNumber rest) :
    ∀ c, (writeExponent exponent ++ rest).head? = some c → c.isDigit = false ∧ c ≠ '.' := by
  intro c hc
  cases exponent with
  | none => exact ⟨(hrest c hc).1, (hrest c hc).2.1⟩
  | some exponent =>
    obtain rfl : 'e' = c := Option.some.inj hc
    decide

/-- Digits do not start with a fraction and what follows it. -/
theorem head?_writeFraction {digits rest : List Char}
    (hrest : ∀ c, rest.head? = some c → c.isDigit = false ∧ c ≠ '.') :
    ∀ c, (writeFraction digits ++ rest).head? = some c → c.isDigit = false := by
  intro c hc
  cases digits with
  | nil => exact (hrest c hc).1
  | cons d more =>
    obtain rfl : '.' = c := Option.some.inj hc
    decide

/-- A literal starts with a digit or a minus sign. -/
theorem NumberText.IsLiteral.exists_write_eq_cons {t : NumberText} (h : t.IsLiteral) :
    ∃ c cs, t.write = c :: cs ∧ (c.isDigit = true ∨ c = '-') := by
  cases hwhole : t.whole with
  | nil => exact absurd hwhole h.whole_ne_nil
  | cons d more =>
    cases hnegative : t.negative <;> rw [NumberText.write, hnegative, hwhole]
    · exact ⟨d, _, rfl, .inl (h.whole d (by simp [hwhole]))⟩
    · exact ⟨'-', _, rfl, .inr rfl⟩

/-- A sign is read before the rest of a number. -/
theorem readNumber_sign (negative : Bool) {cs : List Char} (h : cs.head? ≠ some '-') :
    readNumber ((if negative then ['-'] else []) ++ cs) = (do
      let (whole, rest) ← readWhole cs
      let (fraction, rest) ← readFraction rest
      let (exponent, rest) ← readExponent rest
      return (⟨negative, whole, fraction, exponent⟩, rest)) := by
  cases negative with
  | true => rfl
  | false =>
    show readNumber cs = _
    unfold readNumber
    split
    next negative rest hsign =>
      obtain ⟨rfl, rfl⟩ : false = negative ∧ cs = rest := by
        split at hsign
        · exact absurd rfl h
        · exact Prod.mk.inj hsign
      rfl

/-- A literal is read back, unless what follows carries it on. -/
theorem readNumber_write {t : NumberText} (h : t.IsLiteral) {rest : List Char}
    (hrest : EndsNumber rest) : readNumber (t.write ++ rest) = some (t, rest) := by
  have hexponent := readExponent_append h hrest
  have hafter := @head?_writeExponent t.exponent rest hrest
  have hfraction := readFraction_append h.fraction hafter
  have hwhole := readWhole_append h (@head?_writeFraction t.fraction _ hafter)
  have hdash : (t.whole ++ (writeFraction t.fraction ++ (writeExponent t.exponent ++ rest))).head? ≠
      some '-' := by
    intro hhead
    cases hcs : t.whole with
    | nil => exact h.whole_ne_nil hcs
    | cons c more =>
      rw [hcs] at hhead
      obtain rfl : c = '-' := Option.some.inj hhead
      cases h.whole '-' (by simp [hcs])
  have hsign := readNumber_sign t.negative hdash
  simp only [hwhole, hfraction, hexponent, Option.bind_eq_bind, Option.bind_some] at hsign
  simp only [NumberText.write, List.append_assoc]
  exact hsign

/-- The literal of a natural number has no zero in front unless the number is zero. -/
theorem head?_toDigits {n : Nat} (h : (Nat.toDigits 10 n).head? = some '0') : n = 0 := by
  induction n using Nat.strongRecOn with
  | ind n ih =>
    by_cases hn : n < 10
    · rw [Nat.toDigits_of_lt_base hn] at h
      exact Nat.digitChar_eq_zero.mp (Option.some.inj h)
    · have hbase : 10 ≤ n := Nat.le_of_not_lt hn
      rw [Nat.toDigits_of_base_le (by decide) hbase, List.head?_append,
        Option.or_of_isSome (by simp)] at h
      have := ih (n / 10) (Nat.div_lt_self (by omega) (by decide)) h
      omega

theorem NumberText.isLiteral_ofNat (n : Nat) : (NumberText.ofNat n).IsLiteral where
  whole c hc := Nat.isDigit_of_mem_toDigits (by decide) (by decide) hc
  whole_ne_nil := Nat.toDigits_ne_nil
  leading h := by
    rw [head?_toDigits h]
    rfl
  fraction := nofun
  exponent := nofun

/-! ## Values -/

/-- A tree that can be written: its numbers are literals. -/
inductive Tree.Written : Tree → Prop
  | null : Written .null
  | bool (b : Bool) : Written (.bool b)
  | number {t : NumberText} : t.IsLiteral → Written (.number t)
  | text (s : Option String) : Written (.text s)
  | array {items : List Tree} : (∀ t ∈ items, Written t) → Written (.array items)
  | object {members : List (Option String × Tree)} :
    (∀ m ∈ members, Written m.2) → Written (.object members)

theorem written_ofMembers {members : List (String × Tree)} (h : ∀ m ∈ members, m.2.Written) :
    (Tree.ofMembers members).Written := by
  refine .object fun t ht => ?_
  obtain ⟨m, hm, rfl⟩ := List.mem_map.mp ht
  exact h m hm

/-- A tree is read back from its text where enough steps are left and what follows is no part of a
number. -/
def Tree.ReadsBack (t : Tree) : Prop :=
  ∀ fuel rest, 2 * t.write.length ≤ fuel → EndsNumber rest →
    readValue fuel (t.write ++ rest) = some (t, rest)

/-- The first character of a value: it is neither white space nor the end of an array. -/
def StartsValue (c : Char) : Prop :=
  isSpace c = false ∧ c ≠ ']'

theorem startsValue_of_isDigit {c : Char} (h : c.isDigit = true) : StartsValue c := by
  constructor
  · cases hspace : isSpace c with
    | false => rfl
    | true =>
      simp only [isSpace, Bool.or_eq_true, beq_iff_eq] at hspace
      rcases hspace with ((rfl | rfl) | rfl) | rfl <;> cases h
  · rintro rfl
    cases h

/-- A written tree starts with the first character of a value. -/
theorem Tree.Written.exists_write_eq_cons {t : Tree} (h : t.Written) :
    ∃ c cs, t.write = c :: cs ∧ StartsValue c := by
  cases h with
  | null => exact ⟨'n', _, rfl, by decide, by decide⟩
  | bool b => cases b <;> exact ⟨_, _, rfl, by decide, by decide⟩
  | number h =>
    obtain ⟨c, cs, hcs, hc⟩ := h.exists_write_eq_cons
    refine ⟨c, cs, by rw [Tree.write, hcs], ?_⟩
    rcases hc with hc | rfl
    · exact startsValue_of_isDigit hc
    · exact ⟨by decide, by decide⟩
  | text s => exact ⟨'"', _, rfl, by decide, by decide⟩
  | array _ => exact ⟨'[', _, by rw [Tree.write], by decide, by decide⟩
  | object _ => exact ⟨'\x7b', _, by rw [Tree.write], by decide, by decide⟩

theorem skipSpace_cons {c : Char} (h : isSpace c = false) (rest : List Char) :
    skipSpace (c :: rest) = c :: rest := by
  simp [skipSpace, h]

theorem endsNumber_cons {c : Char} (h : c = ',' ∨ c = ']' ∨ c = '\x7d') (rest : List Char) :
    EndsNumber (c :: rest) := by
  intro d hd
  obtain rfl : c = d := Option.some.inj hd
  rcases h with rfl | rfl | rfl <;> decide

/-- Written items start with the first character of a value. -/
theorem exists_writeItems_eq_cons {t : Tree} (h : t.Written) (more : List Tree) :
    ∃ c cs, writeItems (t :: more) = c :: cs ∧ StartsValue c := by
  obtain ⟨c, cs, hcs, hc⟩ := h.exists_write_eq_cons
  cases more <;> rw [writeItems, hcs] <;> exact ⟨c, _, rfl, hc⟩

theorem skipSpace_writeItems {t : Tree} (h : t.Written) (more : List Tree) (rest : List Char) :
    skipSpace (writeItems (t :: more) ++ rest) = writeItems (t :: more) ++ rest := by
  obtain ⟨c, cs, hcs, hc⟩ := exists_writeItems_eq_cons h more
  rw [hcs]
  exact skipSpace_cons hc.1 _

/-- The items of an array are read back when each of them is. -/
theorem readItems_write {t : Tree} {more : List Tree}
    (hitems : ∀ u ∈ t :: more, u.Written ∧ u.ReadsBack) {fuel : Nat} {rest : List Char}
    (hfuel : 2 * (writeItems (t :: more)).length ≤ fuel) :
    readItems fuel (writeItems (t :: more) ++ rest) = some (t :: more, rest) := by
  induction more generalizing t fuel with
  | nil =>
    obtain ⟨-, hback⟩ := hitems t List.mem_cons_self
    rw [writeItems, List.length_append, List.length_singleton] at hfuel
    obtain ⟨fuel, rfl⟩ : ∃ k, fuel = k + 1 := ⟨fuel - 1, by omega⟩
    have hread := hback fuel (']' :: rest) (by omega) (endsNumber_cons (by simp) rest)
    rw [writeItems, List.append_assoc, List.singleton_append, readItems, hread]
    rfl
  | cons next later ih =>
    obtain ⟨⟨-, hback⟩, hmore⟩ := List.forall_mem_cons.mp hitems
    have hnext := (hmore next List.mem_cons_self).1
    rw [writeItems, List.length_append, List.length_cons] at hfuel
    obtain ⟨fuel, rfl⟩ : ∃ k, fuel = k + 1 := ⟨fuel - 1, by omega⟩
    have hread := hback fuel (',' :: (writeItems (next :: later) ++ rest)) (by omega)
      (endsNumber_cons (by simp) _)
    have hlength : 2 * (writeItems (next :: later)).length ≤ fuel := by omega
    have hlater := ih hmore hlength
    have hcomma : skipSpace (',' :: (writeItems (next :: later) ++ rest)) =
        ',' :: (writeItems (next :: later) ++ rest) := skipSpace_cons rfl _
    rw [writeItems, List.append_assoc, List.cons_append, readItems, hread]
    simp only [Option.bind_eq_bind, Option.bind_some, hcomma,
      skipSpace_writeItems hnext later rest, hlater]
    rfl

/-- A member is read with what stands after it: the end of the object, or the other members. -/
theorem readMembers_member (key : Option String) {value : Tree} (hwritten : value.Written)
    (hback : value.ReadsBack) {fuel : Nat} (hfuel : 2 * value.write.length ≤ fuel)
    {after rest : List Char} {members : List (Option String × Tree)}
    (hafter : after = '\x7d' :: rest ∧ members = [] ∨
      ∃ more, after = ',' :: more ∧ readMembers fuel (skipSpace more) = some (members, rest)) :
    readMembers (fuel + 1) (writeText key ++ ':' :: (value.write ++ after)) =
      some ((key, value) :: members, rest) := by
  obtain ⟨c, cs, hcs, hc⟩ := hwritten.exists_write_eq_cons
  obtain ⟨text, htext, hkey⟩ := readText_writeText key (':' :: (value.write ++ after))
  have hcolon : skipSpace (':' :: (value.write ++ after)) = ':' :: (value.write ++ after) :=
    skipSpace_cons rfl _
  have hvalue : skipSpace (value.write ++ after) = value.write ++ after := by
    rw [hcs]
    exact skipSpace_cons hc.1 _
  have hends : EndsNumber after := by
    rcases hafter with ⟨rfl, -⟩ | ⟨more, rfl, -⟩ <;> exact endsNumber_cons (by simp) _
  have hread := hback fuel after hfuel hends
  have hquote : ['"'].isPrefixOf? ('"' :: text) = some text := rfl
  have hmark : [':'].isPrefixOf? (':' :: (value.write ++ after)) =
      some (value.write ++ after) := rfl
  rw [htext, readMembers]
  simp only [hquote, hmark, Option.bind_eq_bind, Option.bind_some, hkey, hcolon, hvalue, hread]
  rcases hafter with ⟨rfl, rfl⟩ | ⟨more, rfl, hmore⟩
  · rewrite [skipSpace_cons rfl]
    rfl
  · rewrite [skipSpace_cons rfl]
    show (readMembers fuel (skipSpace more)).bind _ = _
    rewrite [hmore]
    rfl

theorem skipSpace_writeMembers (m : Option String × Tree) (more : List (Option String × Tree))
    (rest : List Char) :
    skipSpace (writeMembers (m :: more) ++ rest) = writeMembers (m :: more) ++ rest := by
  cases more <;> rw [writeMembers] <;> exact skipSpace_cons rfl _

/-- The members of an object are read back when the value of each of them is. -/
theorem readMembers_write {m : Option String × Tree} {more : List (Option String × Tree)}
    (hmembers : ∀ u ∈ m :: more, u.2.Written ∧ u.2.ReadsBack) {fuel : Nat} {rest : List Char}
    (hfuel : 2 * (writeMembers (m :: more)).length ≤ fuel) :
    readMembers fuel (writeMembers (m :: more) ++ rest) = some (m :: more, rest) := by
  induction more generalizing m fuel with
  | nil =>
    obtain ⟨key, value⟩ := m
    obtain ⟨hwritten, hback⟩ := hmembers _ List.mem_cons_self
    simp only [writeMembers, List.length_append, List.length_cons, List.length_nil] at hfuel
    obtain ⟨fuel, rfl⟩ : ∃ k, fuel = k + 1 := ⟨fuel - 1, by omega⟩
    have hlength : 2 * value.write.length ≤ fuel := by omega
    rw [writeMembers]
    simp only [List.append_assoc, List.cons_append, List.nil_append]
    exact readMembers_member key hwritten hback hlength (.inl ⟨rfl, rfl⟩)
  | cons next later ih =>
    obtain ⟨key, value⟩ := m
    obtain ⟨⟨hwritten, hback⟩, hmore⟩ := List.forall_mem_cons.mp hmembers
    simp only [writeMembers, List.length_append, List.length_cons] at hfuel
    obtain ⟨fuel, rfl⟩ : ∃ k, fuel = k + 1 := ⟨fuel - 1, by omega⟩
    have hlength : 2 * value.write.length ≤ fuel := by omega
    have hlater := ih hmore (show 2 * (writeMembers (next :: later)).length ≤ fuel by omega)
    rw [writeMembers]
    simp only [List.append_assoc, List.cons_append]
    refine readMembers_member key hwritten hback hlength (.inr ⟨_, rfl, ?_⟩)
    rw [skipSpace_writeMembers, hlater]

theorem readsBack_number {t : NumberText} (h : t.IsLiteral) : (Tree.number t).ReadsBack := by
  intro fuel rest hfuel hrest
  obtain ⟨c, cs, hcs, hc⟩ := h.exists_write_eq_cons
  rw [Tree.write] at hfuel ⊢
  obtain ⟨fuel, rfl⟩ : ∃ k, fuel = k + 1 := ⟨fuel - 1, by simp [hcs] at hfuel; omega⟩
  have hread := readNumber_write h hrest
  rw [hcs, List.cons_append] at hread ⊢
  rw [readValue]
  · rw [hread]
    rfl
  all_goals
    rintro _ heq
    obtain ⟨rfl, -⟩ := List.cons.inj heq
    rcases hc with hc | hc <;> cases hc

/-- A tree whose numbers are literals is read back from its text. -/
theorem Tree.Written.readsBack {t : Tree} (h : t.Written) : t.ReadsBack := by
  induction h with
  | null =>
    intro fuel rest hfuel _
    rw [Tree.write] at hfuel ⊢
    obtain ⟨fuel, rfl⟩ : ∃ k, fuel = k + 1 := ⟨fuel - 1, by simp at hfuel; omega⟩
    rfl
  | bool b =>
    intro fuel rest hfuel _
    rw [Tree.write] at hfuel ⊢
    obtain ⟨fuel, rfl⟩ : ∃ k, fuel = k + 1 := ⟨fuel - 1, by cases b <;> simp at hfuel <;> omega⟩
    cases b <;> rfl
  | number h => exact readsBack_number h
  | text s =>
    intro fuel rest hfuel _
    rw [Tree.write] at hfuel ⊢
    obtain ⟨fuel, rfl⟩ : ∃ k, fuel = k + 1 := ⟨fuel - 1, by simp [writeText] at hfuel; omega⟩
    obtain ⟨cs, hcs, hread⟩ := readText_writeText s rest
    rw [hcs, readValue, hread]
    rfl
  | @array items hwritten ih =>
    intro fuel rest hfuel _
    rw [Tree.write, List.length_cons] at hfuel
    rw [Tree.write]
    obtain ⟨fuel, rfl⟩ : ∃ k, fuel = k + 1 := ⟨fuel - 1, by omega⟩
    cases items with
    | nil => rfl
    | cons t more =>
      have hlength : 2 * (writeItems (t :: more)).length ≤ fuel := by omega
      have hread := @readItems_write t more (fun u hu => ⟨hwritten u hu, ih u hu⟩) fuel rest hlength
      rw [List.cons_append, readValue, skipSpace_writeItems (hwritten t List.mem_cons_self)]
      split
      · next left hempty =>
        obtain ⟨c, cs, hcs, hc⟩ := exists_writeItems_eq_cons (hwritten t List.mem_cons_self) more
        rw [hcs] at hempty
        exact absurd (List.cons.inj hempty).1 hc.2
      · rw [hread]
        rfl
  | @object members hwritten ih =>
    intro fuel rest hfuel _
    rw [Tree.write, List.length_cons] at hfuel
    rw [Tree.write]
    obtain ⟨fuel, rfl⟩ : ∃ k, fuel = k + 1 := ⟨fuel - 1, by omega⟩
    cases members with
    | nil => rfl
    | cons m more =>
      have hlength : 2 * (writeMembers (m :: more)).length ≤ fuel := by omega
      have hread := @readMembers_write m more (fun u hu => ⟨hwritten u hu, ih u hu⟩) fuel rest
        hlength
      rw [List.cons_append, readValue, skipSpace_writeMembers]
      split
      · next left hempty =>
        have hquote : (writeMembers (m :: more) ++ rest).head? = some '"' := by
          cases more <;> rw [writeMembers] <;> rfl
        rw [hempty] at hquote
        cases hquote
      · rw [hread]
        rfl

/-- The reader inverts the writer: a tree whose numbers are literals is the tree of its text. -/
theorem Tree.ofChars?_write {t : Tree} (h : t.Written) : Tree.ofChars? t.write = some t := by
  obtain ⟨c, cs, hcs, hc⟩ := h.exists_write_eq_cons
  have hspace : skipSpace t.write = t.write := by
    rw [hcs]
    exact skipSpace_cons hc.1 cs
  have hread := h.readsBack (2 * t.write.length + 2) [] (by omega) nofun
  rw [List.append_nil] at hread
  rw [Tree.ofChars?, hspace, hread]
  rfl

end ArticleAudit.Json
