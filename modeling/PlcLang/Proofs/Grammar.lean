import Mathlib
import PlcLang.Proofs.Checking.Faults

namespace PlcLang

/-- A text that is parsed gives a program of the shape of programs: globals have their types, and
constants their values; a switch ends with its one branch without a value; operators are known and
group by their levels; literals and names are as a text has them. So whatever is defined around it,
checking such a program only ends with errors of programs, and never with one about the structure of
a switch, an unknown operator, a literal of another kind or a global without a type. -/
theorem parse_shaped {text : String} {p : Program} (parsed : Program.parse text = .ok p) :
    p.Shaped .lexical ∧
      ∀ known number outer f, ((p.toNode.annotated known).check number outer).1 = .error f →
        ∃ problem : Problem, f = .problem problem ∧
          problem.cause.errorClass ≠ .switchStructure ∧
          problem.cause.errorClass ≠ .unknownOperator ∧
          (∀ value, problem.cause ≠ .unsupportedLiteral value) ∧
          ∀ name, problem.cause ≠ .untypedGlobal name := by
  have shaped := Program.lexical_of_parse parsed
  refine ⟨shaped, fun known number outer f failed => ?_⟩
  have ofText : f.OfText :=
    Program.blames shaped outer known.size _ f _ (Prod.ext failed rfl)
  cases f with
  | problem problem =>
    have ofText : problem.cause.OfText := ofText
    obtain ⟨notStructure, notOperator⟩ := ofText.errorClass
    refine ⟨problem, rfl, notStructure, notOperator, fun value same => ?_, fun name same => ?_⟩
    all_goals
      rw [same] at ofText
      exact ofText
  | _ => exact ofText.elim

/-- A switch over integers with a branch for a character. -/
def Program.mismatched : Program :=
  ⟨[], [⟨"main", [], some "Integer",
    [.switch (.binary .plus (.literal (.integer 1)) (.literal (.integer 2)))
      [.mk (some (.literal (.character (.string "a")))) [], .mk none []]]⟩]⟩

theorem parse_shaped_mismatched :
    Program.mismatched.Shaped .lexical ∧
      ∃ problem : Problem,
        ((Program.mismatched.toNode.annotated #[]).check 0 []).1 = .error (.problem problem) ∧
          problem.cause = .notAssignable .integer .character ∧
          problem.cause.errorClass ≠ .switchStructure := by
  have parsed : Program.parse
      "FUN main(): Integer DO SWITCH 1 + 2 CASE 'a': DEFAULT END END" =
        .ok Program.mismatched := by cbv
  obtain ⟨shaped, checks⟩ := parse_shaped parsed
  obtain ⟨problem, failed, cause⟩ : ∃ problem : Problem,
      ((Program.mismatched.toNode.annotated #[]).check 0 []).1 = .error (.problem problem) ∧
        problem.cause = .notAssignable .integer .character := ⟨_, rfl, rfl⟩
  obtain ⟨same, found, notStructure, -⟩ := checks #[] 0 [] _ failed
  cases found
  exact ⟨shaped, problem, failed, cause, notStructure⟩

end PlcLang
