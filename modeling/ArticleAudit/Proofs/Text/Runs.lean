import Mathlib.Data.List.TakeWhile

/-!
# Runs of one character

A run of characters of one kind ends before a character of another kind (`takeWhile_run`). A text
starts with a run of a character, which is as long as it can be: what follows the run does
not start with the character (`exists_run`). So the run is what is taken while the character goes on
(`takeWhile_replicate_append`), and its length is known (`replicate_append_inj`).
-/

set_option autoImplicit false

namespace ArticleAudit.Text

variable {mark : Char} {cs : List Char} {m n : Nat}

/-- A run of characters that ends before one of another kind. -/
theorem takeWhile_run {p : Char → Bool} {run : List Char} {c : Char} (rest : List Char)
    (hrun : ∀ x ∈ run, p x = true) (hc : p c = false) :
    (run ++ c :: rest).takeWhile p = run ∧ (run ++ c :: rest).dropWhile p = c :: rest := by
  rw [List.takeWhile_append_of_pos hrun, List.dropWhile_append_of_pos hrun,
    List.takeWhile_cons_of_neg (by simp [hc]), List.dropWhile_cons_of_neg (by simp [hc]),
    List.append_nil]
  exact ⟨rfl, rfl⟩

/-- A run ends before another character. -/
theorem takeWhile_replicate_append (m : Nat) (hcs : cs.head? ≠ some mark) :
    (List.replicate m mark ++ cs).takeWhile (· == mark) = List.replicate m mark ∧
      (List.replicate m mark ++ cs).dropWhile (· == mark) = cs := by
  have hall : ∀ x ∈ List.replicate m mark, (x == mark) = true := by
    intro x hx
    rw [List.eq_of_mem_replicate hx]
    exact beq_self_eq_true mark
  rw [List.takeWhile_append_of_pos hall, List.dropWhile_append_of_pos hall]
  cases cs with
  | nil => exact ⟨List.append_nil _, rfl⟩
  | cons c cs =>
    have hc : ¬ (c == mark) = true := by
      intro hc
      exact hcs (congrArg some (beq_iff_eq.mp hc))
    rw [List.takeWhile_cons_of_neg (p := (· == mark)) hc,
      List.dropWhile_cons_of_neg (p := (· == mark)) hc, List.append_nil]
    exact ⟨rfl, rfl⟩

theorem takeWhile_eq_replicate (mark : Char) (cs : List Char) :
    cs.takeWhile (· == mark) = List.replicate (cs.takeWhile (· == mark)).length mark := by
  refine List.eq_replicate_iff.mpr ⟨rfl, fun x hx => ?_⟩
  simpa using List.mem_takeWhile_imp hx

/-- The run that starts a text and what follows it. -/
theorem exists_run (mark : Char) (cs : List Char) :
    ∃ rest, cs = List.replicate (cs.takeWhile (· == mark)).length mark ++ rest ∧
      cs.dropWhile (· == mark) = rest ∧ rest.head? ≠ some mark := by
  refine ⟨cs.dropWhile (· == mark), ?_, rfl, fun hhead => ?_⟩
  · rw [← takeWhile_eq_replicate, List.takeWhile_append_dropWhile]
  · have hnot := List.head?_dropWhile_not (· == mark) cs
    simp [hhead] at hnot

theorem replicate_append_inj {a b : List Char} (ha : a.head? ≠ some mark)
    (hb : b.head? ≠ some mark) (h : List.replicate m mark ++ a = List.replicate n mark ++ b) :
    m = n ∧ a = b := by
  have hm := (takeWhile_replicate_append m ha).1
  rw [h, (takeWhile_replicate_append n hb).1] at hm
  have hlength := congrArg List.length hm
  simp only [List.length_replicate] at hlength
  subst hlength
  exact ⟨rfl, List.append_cancel_left h⟩

end ArticleAudit.Text
