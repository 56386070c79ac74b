import MarkupScript.Proofs.Parse.Results
import MarkupScript.Proofs.Parse.Trees
import MarkupScript.Proofs.Print.Programs

/-!
# Printing and parsing

The text of a parsed program is read as the same program, up to the places of its parts in the
source. The tokens of the text are the lexemes of the program, and a parser finds the program in
them.
-/

namespace MarkupScript

/-- A parsed program that reads back is parsed from its text, up to spans. -/
theorem parse_print {source : String} {p : Program} (h : parse source = .ok p)
    (hback : p.readsBack = true) :
    ∃ q, parse p.print = .ok q ∧ q.withoutSpans = p.withoutSpans := by
  have hwf := parse_wellFormed h
  obtain ⟨tokens, last, htokens, hshows, hlast⟩ := tokenize_print hwf hback
  obtain ⟨q, s, hq, hspans⟩ := Program.reads hwf hback hshows hlast
  exact ⟨q, by simp [parse, htokens, hq], hspans⟩

/-- A template with a comparison in an attribute, a branch without a semicolon and an object in a
list. -/
def templateText : String :=
  "function f(a) \x7b\n<p [id]=\x7b() => a.b < 1\x7d x=\"y\">\n'text'\nif (a) b\n" ++
    "else new c.d([e ? 1.5 : \x7bf, 'g h': -(-2)\x7d])\n</p>\n\x7d"

theorem parse_print_templateText :
    ∃ p, parse templateText = .ok p ∧ p.readsBack = true ∧
      ∃ q, parse p.print = .ok q ∧ q.withoutSpans = p.withoutSpans := by
  have hback : (parse templateText).toOption.any Program.readsBack = true := by decide +kernel
  cases h : parse templateText with
  | error e =>
    rw [h] at hback
    cases hback
  | ok p =>
    rw [h] at hback
    exact ⟨p, rfl, hback, parse_print h hback⟩

end MarkupScript
