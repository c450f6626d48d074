import ArticleAudit.Text.Slice
import Mathlib.Data.List.Basic
import Mathlib.Data.String.Basic

/-!
# The bytes of a text

Offsets count the bytes of the UTF-8 form of a text, and what scans bytes looks for ASCII bytes
only. `bytesOf` is that form (`bytesOf_toList`), as long as the text is large (`length_bytesOf`).
The bytes of a character but the first are no ASCII bytes, and the first one is an ASCII byte only
if the character is that ASCII character (`exists_utf8EncodeChar`). So a scan for ASCII bytes never
stops within a character.

Texts are compared character by character, by their code points. That is the order of their bytes:
of two different characters the smaller one has the smaller byte where their encodings first differ,
and neither encoding ends before that (`firstSmaller_utf8EncodeChar`). So it makes no difference
which of the two orders keys are sorted by (`lt_iff_bytesOf_lt`).
-/

set_option autoImplicit false

namespace ArticleAudit.Text

variable {c d : Char}

/-- The bytes of a text in UTF-8. -/
def bytesOf (cs : List Char) : List UInt8 :=
  cs.flatMap String.utf8EncodeChar

@[simp] theorem bytesOf_nil : bytesOf [] = [] := rfl

@[simp] theorem bytesOf_cons (c : Char) (rest : List Char) :
    bytesOf (c :: rest) = String.utf8EncodeChar c ++ bytesOf rest := rfl

@[simp] theorem bytesOf_append (a b : List Char) : bytesOf (a ++ b) = bytesOf a ++ bytesOf b :=
  List.flatMap_append

/-- They are the bytes that a string is stored as. -/
theorem bytesOf_toList (s : String) : (bytesOf s.toList).toByteArray = s.toByteArray := by
  have h := String.toByteArray_ofList (l := s.toList)
  rw [String.ofList_toList] at h
  exact h.symm

@[simp] theorem length_bytesOf (cs : List Char) : (bytesOf cs).length = byteSize cs := by
  induction cs with
  | nil => rfl
  | cons c rest ih =>
    rw [bytesOf_cons, List.length_append, String.length_utf8EncodeChar, ih, byteSize_cons]

/-- The character is encoded as a single byte. -/
def IsAscii (c : Char) : Prop :=
  c.toNat < 128

instance (c : Char) : Decidable (IsAscii c) :=
  inferInstanceAs (Decidable (c.toNat < 128))

/-- A character is an ASCII byte, or none of its bytes is one. -/
theorem utf8EncodeChar_cases (c : Char) :
    (IsAscii c ∧ String.utf8EncodeChar c = [c.toUInt8]) ∨
      (¬ IsAscii c ∧ ∀ b ∈ String.utf8EncodeChar c, 128 ≤ b.toNat) := by
  have hn : c.toNat = c.val.toNat := rfl
  by_cases h : c.toNat < 128
  · left
    refine ⟨h, ?_⟩
    have hle : c.val.toNat ≤ 127 := by omega
    rw [String.utf8EncodeChar, if_pos hle]
    rfl
  · right
    refine ⟨h, ?_⟩
    have hle : ¬ c.val.toNat ≤ 127 := by omega
    intro b hb
    rw [String.utf8EncodeChar, if_neg hle] at hb
    -- Every byte is a remainder of six bits or less, with the highest bit set above it.
    split at hb
    · simp only [List.mem_cons, List.not_mem_nil, or_false] at hb
      rcases hb with rfl | rfl <;> rw [UInt8.toNat_ofNat'] <;> omega
    · split at hb
      · simp only [List.mem_cons, List.not_mem_nil, or_false] at hb
        rcases hb with rfl | rfl | rfl <;> rw [UInt8.toNat_ofNat'] <;> omega
      · simp only [List.mem_cons, List.not_mem_nil, or_false] at hb
        rcases hb with rfl | rfl | rfl | rfl <;> rw [UInt8.toNat_ofNat'] <;> omega

theorem toNat_toUInt8 (h : IsAscii d) : d.toUInt8.toNat = d.toNat := by
  have hn : d.toNat = d.val.toNat := rfl
  have hlt : d.toNat < 128 := h
  rw [Char.toUInt8, UInt32.toNat_toUInt8, ← hn]
  omega

theorem toUInt8_inj (hc : IsAscii c) (hd : IsAscii d) : c.toUInt8 = d.toUInt8 ↔ c = d := by
  constructor
  · intro h
    have hnat := congrArg UInt8.toNat h
    rw [toNat_toUInt8 hc, toNat_toUInt8 hd] at hnat
    exact Char.toNat_inj.mp hnat
  · rintro rfl
    rfl

/-- The first byte of a character tells the ASCII characters apart, and the others are no ASCII
bytes. -/
theorem exists_utf8EncodeChar (c : Char) :
    ∃ first more, String.utf8EncodeChar c = first :: more ∧ (∀ b ∈ more, 128 ≤ b.toNat) ∧
      ∀ d, IsAscii d → (first = d.toUInt8 ↔ c = d) := by
  rcases utf8EncodeChar_cases c with ⟨hc, hbytes⟩ | ⟨hc, hall⟩
  · exact ⟨_, [], hbytes, nofun, fun d hd => toUInt8_inj hc hd⟩
  · have hne : String.utf8EncodeChar c ≠ [] := String.utf8EncodeChar_ne_nil
    obtain ⟨first, more, hbytes⟩ := List.exists_cons_of_ne_nil hne
    rw [hbytes, List.forall_mem_cons] at hall
    refine ⟨first, more, hbytes, hall.2, ?_⟩
    intro d hd
    constructor
    · rintro rfl
      have hlt : d.toNat < 128 := hd
      have hle := hall.1
      rw [toNat_toUInt8 hd] at hle
      omega
    · rintro rfl
      exact absurd hd hc

/-- An ASCII byte is found where its character stands, and nowhere within another one. -/
theorem toUInt8_mem_utf8EncodeChar_iff (hd : IsAscii d) :
    d.toUInt8 ∈ String.utf8EncodeChar c ↔ c = d := by
  obtain ⟨first, more, hbytes, hmore, hfirst⟩ := exists_utf8EncodeChar c
  rw [hbytes, List.mem_cons, eq_comm, hfirst d hd]
  constructor
  · rintro (h | h)
    · exact h
    · have hle := hmore _ h
      have hlt : d.toNat < 128 := hd
      rw [toNat_toUInt8 hd] at hle
      omega
  · exact Or.inl

/-! ## The order of bytes -/

/-- The lists first differ in two elements, of which the first list has the smaller one. -/
inductive FirstSmaller : List UInt8 → List UInt8 → Prop
  | here {x y : UInt8} (xs ys : List UInt8) : x < y → FirstSmaller (x :: xs) (y :: ys)
  | later (x : UInt8) {xs ys : List UInt8} : FirstSmaller xs ys → FirstSmaller (x :: xs) (x :: ys)

namespace FirstSmaller

variable {xs ys : List UInt8} {m n v w : Nat}

/-- Whatever follows the lists does not change their order. -/
theorem append_lt (h : FirstSmaller xs ys) (after after' : List UInt8) :
    xs ++ after < ys ++ after' := by
  induction h with
  | here xs ys hlt => exact List.cons_lt_cons_iff.mpr (Or.inl hlt)
  | later x _ ih => exact List.cons_lt_cons_iff.mpr (Or.inr ⟨rfl, ih⟩)

theorem ofNat (hn : n < 256) (h : m < n) :
    FirstSmaller (UInt8.ofNat m :: xs) (UInt8.ofNat n :: ys) := by
  refine .here xs ys ?_
  rw [UInt8.lt_iff_toNat_lt, UInt8.toNat_ofNat', UInt8.toNat_ofNat']
  omega

/-- Of two numbers the smaller one comes first, if the first bytes hold the quotients by some number
and what follows decides where these are the same. -/
theorem ofQuotients (k : Nat) (h : v < w) (hn : n < 256) (hfirst : v / k < w / k → m < n)
    (hsame : v / k = w / k → m = n ∧ FirstSmaller xs ys) :
    FirstSmaller (UInt8.ofNat m :: xs) (UInt8.ofNat n :: ys) := by
  rcases Nat.lt_or_eq_of_le (Nat.div_le_div_right (c := k) (Nat.le_of_lt h)) with hlt | heq
  · exact .ofNat hn (hfirst hlt)
  · obtain ⟨rfl, hlater⟩ := hsame heq
    exact .later _ hlater

end FirstSmaller

/-- A smaller character has the smaller byte where the encodings first differ: a longer encoding
starts with a larger byte, and in equally long ones the upper digits come first. -/
theorem firstSmaller_utf8EncodeChar {c d : Char} (h : c < d) :
    FirstSmaller (String.utf8EncodeChar c) (String.utf8EncodeChar d) := by
  have hlt : c.val.toNat < d.val.toNat := h
  have hmax : d.val.toNat < 0x110000 := by
    rcases d.valid with hd | ⟨-, hd⟩ <;> omega
  unfold String.utf8EncodeChar
  generalize c.val.toNat = v at hlt
  generalize d.val.toNat = w at hlt hmax
  dsimp only
  split
  · split
    · exact .ofNat (by omega) hlt
    · split
      · exact .ofNat (by omega) (by omega)
      · split <;> exact .ofNat (by omega) (by omega)
  · rw [if_neg (show ¬ w ≤ 127 by omega)]
    split
    · split
      · exact .ofQuotients 64 hlt (by omega) (fun _ => by omega) fun _ =>
          ⟨by omega, .ofNat (by omega) (by omega)⟩
      · split <;> exact .ofNat (by omega) (by omega)
    · rw [if_neg (show ¬ w ≤ 2047 by omega)]
      split
      · split
        · exact .ofQuotients 4096 hlt (by omega) (fun _ => by omega) fun _ =>
            ⟨by omega, .ofQuotients 64 hlt (by omega) (fun _ => by omega) fun _ =>
              ⟨by omega, .ofNat (by omega) (by omega)⟩⟩
        · exact .ofNat (by omega) (by omega)
      · rw [if_neg (show ¬ w ≤ 65535 by omega)]
        exact .ofQuotients 262144 hlt (by omega) (fun _ => by omega) fun _ =>
          ⟨by omega, .ofQuotients 4096 hlt (by omega) (fun _ => by omega) fun _ =>
            ⟨by omega, .ofQuotients 64 hlt (by omega) (fun _ => by omega) fun _ =>
              ⟨by omega, .ofNat (by omega) (by omega)⟩⟩⟩

theorem bytesOf_lt_of_lt {a b : List Char} (h : a < b) : bytesOf a < bytesOf b := by
  induction a generalizing b with
  | nil =>
    cases b with
    | nil => exact absurd h (List.lt_irrefl _)
    | cons d rest =>
      obtain ⟨first, more, hbytes⟩ :=
        List.exists_cons_of_ne_nil (String.utf8EncodeChar_ne_nil (c := d))
      rw [bytesOf_nil, bytesOf_cons, hbytes]
      exact List.nil_lt_cons _ _
  | cons c rest ih =>
    cases b with
    | nil => exact absurd h (List.not_lt_nil _)
    | cons d later =>
      rw [bytesOf_cons, bytesOf_cons]
      rcases List.cons_lt_cons_iff.mp h with hcd | ⟨rfl, hrest⟩
      · exact (firstSmaller_utf8EncodeChar hcd).append_lt _ _
      · exact List.append_left_lt (ih hrest)

/-- Texts stand in the order of their bytes. -/
theorem lt_iff_bytesOf_lt {a b : String} : a < b ↔ bytesOf a.toList < bytesOf b.toList := by
  constructor
  · exact fun h => bytesOf_lt_of_lt (String.lt_iff.mp h)
  · intro h
    rcases lt_trichotomy a b with hlt | rfl | hgt
    · exact hlt
    · exact absurd h (List.lt_irrefl _)
    · exact absurd h (List.lt_asymm (bytesOf_lt_of_lt (String.lt_iff.mp hgt)))

end ArticleAudit.Text
