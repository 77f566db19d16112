/-
PrototypeLisp.Proofs.Text.Runs — runs of characters of one class.

A run ends where the text does not go on with a character of its class. In
front of such a text it is found again by its class, so a text starts with only
one run that ends there.
-/
import Mathlib.Data.List.TakeWhile

namespace PrototypeLisp.Text

/-- The text does not go on with a character of the class. -/
def Stops (p : Char → Bool) (rest : List Char) : Prop :=
  ∀ c ∈ rest.head?, p c = false

variable {p : Char → Bool}

theorem stops_nil : Stops p [] := by
  simp [Stops]

theorem stops_cons {c : Char} {rest : List Char} : Stops p (c :: rest) ↔ p c = false := by
  simp [Stops]

theorem stops_dropWhile (p : Char → Bool) (cs : List Char) : Stops p (cs.dropWhile p) := by
  intro c hc
  have hne : cs.dropWhile p ≠ [] := by
    rintro hnil
    rw [hnil] at hc
    cases hc
  have hnot := List.head_dropWhile_not p hne
  rw [List.head?_eq_some_head hne] at hc
  obtain rfl := Option.some.inj hc
  exact hnot

/-- A run of characters of one class, and what follows it, are found by their
class. -/
theorem span_run {run rest : List Char} (hrun : ∀ c ∈ run, p c = true) (hrest : Stops p rest) :
    (run ++ rest).takeWhile p = run ∧ (run ++ rest).dropWhile p = rest := by
  rw [List.takeWhile_append_of_pos hrun, List.dropWhile_append_of_pos hrun]
  cases rest with
  | nil => simp
  | cons c rest => simp [stops_cons.1 hrest]

/-- A run ends in one place. -/
theorem run_append_inj {a b rest rest' : List Char} (ha : ∀ c ∈ a, p c = true)
    (hb : ∀ c ∈ b, p c = true) (hrest : Stops p rest) (hrest' : Stops p rest')
    (h : a ++ rest = b ++ rest') : a = b ∧ rest = rest' := by
  obtain ⟨htakeA, hdropA⟩ := span_run ha hrest
  obtain ⟨htakeB, hdropB⟩ := span_run hb hrest'
  rw [h] at htakeA hdropA
  exact ⟨htakeA.symm.trans htakeB, hdropA.symm.trans hdropB⟩

end PrototypeLisp.Text
