import Mathlib
import PlcLang.Proofs.Parsing.LineEnds
import PlcLang.Run

/-! A program does not depend on the white space between its words. -/

namespace PlcLang

open PlcLang.Parser (Laid Relaid unplaced)
open Word (key mark ident)

/-- The first fault of some tokens is that of their words. -/
theorem findSome?_fault_unplaced {tokens tokens' : List (Place × Token)}
    (same : tokens'.map unplaced = tokens.map unplaced) :
    (tokens'.findSome? fun (place, t) => t.fault? place) =
      tokens.findSome? fun (place, t) => t.fault? place := by
  have unplace (ts : List (Place × Token)) : (ts.findSome? fun (place, t) => t.fault? place) =
      (ts.map unplaced).findSome? fun (place, w) => Token.fault? place ⟨w.kind, w.text, .origin⟩ := by
    rw [List.findSome?_map]
    rfl
  rw [unplace, unplace, same]

/-- What a text stands for, word by word. -/
theorem Program.parse_eq_ok {text : String} {p : Program} :
    Program.parse text = .ok p ↔ ∃ tokens, Parser.read text.toList = .ok (p, tokens) ∧
      (tokens.findSome? fun (place, t) => t.fault? place) = none := by
  rw [Program.parse]
  constructor
  · intro parsed
    split at parsed
    · cases parsed
    · rename_i q tokens read
      split at parsed
      · cases parsed
      · rename_i sound
        cases parsed
        exact ⟨tokens, read, sound⟩
  · rintro ⟨tokens, read, sound⟩
    simp only [read, sound]

/-- With other gaps the words of a program are those of the same program. -/
theorem parse_relaid {text text' : List Char} {p : Program} {tokens : List (Place × Token)}
    (read : Parser.read text = .ok (p, tokens))
    (sound : (tokens.findSome? fun (place, t) => t.fault? place) = none)
    (relaid : Relaid (tokens.map (·.2.word)) text text') :
    Program.parse (String.ofList text') = .ok p ∧
      ∃ tokens', Parser.read text' = .ok (p, tokens') ∧
        tokens'.map unplaced = tokens.map unplaced := by
  obtain ⟨tokens', read', same⟩ := Parser.read_relaid read relaid
  refine ⟨Program.parse_eq_ok.2 ⟨tokens', ?_, ?_⟩, tokens', read', same⟩
  · rwa [String.toList_ofList]
  · rwa [findSome?_fault_unplaced same]

/-- Unified line ends change nothing, whether the program was read before or after. -/
theorem parse_unifyLineEnds {text : String} {p : Program} :
    Program.parse text = .ok p ↔
      Program.parse (String.ofList (Text.unifyLineEnds text.toList)) = .ok p := by
  constructor
  · intro parsed
    obtain ⟨tokens, read, sound⟩ := Program.parse_eq_ok.1 parsed
    exact (parse_relaid read sound
      ((Parser.laid_of_read read).unify (Parser.lexemes_of_read read))).1
  · intro parsed
    obtain ⟨tokens, read, sound⟩ := Program.parse_eq_ok.1 parsed
    rw [String.toList_ofList] at read
    rw [← String.ofList_toList (s := text)]
    exact (parse_relaid read sound
      ((Parser.laid_of_read read).of_unify (Parser.lexemes_of_read read))).1

/-- A text that stands for a program is that of its words, with white space or nothing before each
and at the end. With any white space in those places the text has the same words and stands for
the same program. So it does with unified line ends, and only then: a program runs from a file as
it does from its text. -/
theorem layout_irrelevant {text : String} {p : Program} :
    (Program.parse text = .ok p →
      ∃ tokens, Parser.read text.toList = .ok (p, tokens) ∧
        Laid IsGap (tokens.map (·.2.word)) text.toList ∧
        ∀ text', Laid IsSpace (tokens.map (·.2.word)) text' →
          Program.parse (String.ofList text') = .ok p ∧
            ∃ tokens', Parser.read text' = .ok (p, tokens') ∧
              tokens'.map (·.2.word) = tokens.map (·.2.word)) ∧
    (Program.parse text = .ok p ↔
      Program.parse (String.ofList (Text.unifyLineEnds text.toList)) = .ok p) ∧
    (Program.parse text = .ok p → ∀ settings steps,
      runFile settings steps text = runText settings steps text) := by
  refine ⟨fun parsed => ?_, parse_unifyLineEnds, fun parsed settings steps => ?_⟩
  · obtain ⟨tokens, read, sound⟩ := Program.parse_eq_ok.1 parsed
    have laid := Parser.laid_of_read read
    refine ⟨tokens, read, laid, fun text' spaced => ?_⟩
    obtain ⟨parsed', tokens', read', same⟩ := parse_relaid read sound (laid.relaid spaced)
    refine ⟨parsed', tokens', read', ?_⟩
    have words := congrArg (List.map Prod.snd) same
    rwa [List.map_map, List.map_map] at words
  · rw [runFile, runText, runText, parsed, parse_unifyLineEnds.1 parsed]

/-- A program that prints a text with a blank. -/
def Program.spaced : Program :=
  ⟨[], [⟨"main", [], none, [.expression (.call "print" [.literal (.string "a b")])]⟩]⟩

/-- Blanks, tabs, form feeds and line ends between its words are no part of it, and a blank in a
string is. -/
theorem layout_irrelevant_spaced :
    Program.parse "FUN main()DOprint(\"a b\");END" = .ok Program.spaced ∧
      Program.parse "\tFUN  main\r(\n) DO print\r\n( \"a b\"\x0c) ; END\n" =
        .ok Program.spaced := by
  have parsed : Program.parse "FUN main()DOprint(\"a b\");END" = .ok Program.spaced := by cbv
  obtain ⟨tokens, read, -, others⟩ := layout_irrelevant.1 parsed
  have words : tokens.map (·.2.word) =
      [key .FUN, ident "main", mark .lpar, mark .rpar, key .DO, ident "print", mark .lpar,
        ⟨.string, "\"a b\"".toList⟩, mark .rpar, mark .semicolon, key .END] := by
    have found : (Parser.read "FUN main()DOprint(\"a b\");END".toList).map
        (·.2.map (·.2.word)) = .ok [key .FUN, ident "main", mark .lpar, mark .rpar, key .DO,
          ident "print", mark .lpar, ⟨.string, "\"a b\"".toList⟩, mark .rpar, mark .semicolon,
          key .END] := by
      cbv
    rw [read] at found
    exact Except.ok.inj found
  have laid : Laid IsSpace (tokens.map (·.2.word))
      (['\t'] ++ ("FUN".toList ++ ([' ', ' '] ++ ("main".toList ++ (['\r'] ++ ("(".toList ++
        (['\n'] ++ (")".toList ++ ([' '] ++ ("DO".toList ++ ([' '] ++ ("print".toList ++
          (['\r', '\n'] ++ ("(".toList ++ ([' '] ++ ("\"a b\"".toList ++ (['\x0c'] ++ (")".toList ++
            ([' '] ++ (";".toList ++ ([' '] ++ ("END".toList ++ ['\n'])))))))))))))))))))))) := by
    rw [words]
    iterate 11 apply Laid.cons (by decide)
    exact .nil (by decide)
  refine ⟨parsed, ?_⟩
  rw [← (others _ laid).1]
  rfl

end PlcLang
