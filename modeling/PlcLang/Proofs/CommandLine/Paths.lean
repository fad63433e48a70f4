import PlcLang.CommandLine.Command

/-! The names of files. -/

namespace PlcLang.CommandLine

/-- The name of the file that the tree of a program in a file is written to. -/
def treeFile (file : String) : String :=
  plainPath file ++ ".ast.json"

/-- A name that ends with that of a file, perhaps behind those of directories. -/
def NamesFile (name : String) : Prop :=
  ∃ dir last : List Char, name.toList = dir ++ last ∧ (dir = [] ∨ ∃ d, dir = d ++ ['/']) ∧
    last ≠ [] ∧ last ≠ ['.'] ∧ '/' ∉ last

/-- The last of some parts stands at the end. -/
theorem intercalate_last (parts : List String) :
    ∃ before, ∀ last, "/".intercalate (parts ++ [last]) = before ++ last := by
  induction parts with
  | nil => exact ⟨"", fun last => by simp⟩
  | cons part parts ih =>
    obtain ⟨before, ends⟩ := ih
    refine ⟨part ++ "/" ++ before, fun last => ?_⟩
    rw [List.cons_append, String.intercalate_cons_of_ne_nil (by simp), ends]
    simp only [String.append_assoc]

/-- Whatever file of a directory is named, its plain path begins with the same. -/
theorem plainPath_last {dir : List Char} (ends : dir = [] ∨ ∃ d, dir = d ++ ['/']) :
    ∃ before, ∀ last, last ≠ [] → last ≠ ['.'] → '/' ∉ last →
      plainPath (String.ofList (dir ++ last)) = before ++ String.ofList last := by
  have parts : ∃ parts : List (List Char), ∀ last, '/' ∉ last →
      (dir ++ last).splitOn '/' = parts ++ [last] := by
    rcases ends with rfl | ⟨d, rfl⟩
    · exact ⟨[], fun last plain => List.splitOn_eq_singleton plain⟩
    · refine ⟨d.splitOn '/', fun last plain => ?_⟩
      rw [List.append_assoc, List.singleton_append, List.splitOn_append_cons_self,
        List.splitOn_eq_singleton plain]
  obtain ⟨parts, split⟩ := parts
  have slashes (last : List Char) (there : last ≠ []) (plain : '/' ∉ last) :
      (dir ++ last).takeWhile (· = '/') = dir.takeWhile (· = '/') := by
    have none : last.takeWhile (· = '/') = [] := by
      cases last with
      | nil => contradiction
      | cons c cs =>
        have other : c ≠ '/' := fun same => plain (by simp [same])
        simp [other]
    rw [List.takeWhile_append, none, List.append_nil]
    split
    · rename_i all
      exact ((List.takeWhile_prefix _).eq_of_length all).symm
    · rfl
  obtain ⟨before, joined⟩ := intercalate_last
    ((parts.filter fun p => p ≠ [] ∧ p ≠ ['.']).map String.ofList)
  let count := (dir.takeWhile (· = '/')).length
  refine ⟨(if count = 0 then "" else if count = 2 then "//" else "/") ++ before,
    fun last there named plain => ?_⟩
  have kept : (parts ++ [last]).filter (fun p => p ≠ [] ∧ p ≠ ['.']) =
      parts.filter (fun p => p ≠ [] ∧ p ≠ ['.']) ++ [last] := by
    simp [there, named]
  have filled (text : String) : (text ++ String.ofList last).isEmpty = false := by
    rw [Bool.eq_false_iff]
    intro empty
    rw [String.isEmpty_iff, String.append_eq_empty_iff] at empty
    exact there (by simpa using empty.2)
  simp only [plainPath, String.toList_ofList, split last plain, slashes last there plain, kept,
    List.map_append, List.map_cons, List.map_nil, joined]
  rw [← String.append_assoc, filled]
  rfl

/-- The name of a file with the ending is that of the file its tree is written to. -/
theorem plainPath_treeFile {file : String} (names : NamesFile file) :
    plainPath (file ++ ".ast.json") = treeFile file := by
  obtain ⟨dir, last, named, ends, there, other, plain⟩ := names
  obtain ⟨before, path⟩ := plainPath_last ends
  have whole : file = String.ofList (dir ++ last) := by rw [← named, String.ofList_toList]
  have longer : file ++ ".ast.json" = String.ofList (dir ++ (last ++ ".ast.json".toList)) := by
    simp [whole, String.append_assoc]
  have proper : last ++ ".ast.json".toList ≠ ['.'] := by
    intro same
    have length := congrArg List.length same
    simp at length
  have unbroken : '/' ∉ last ++ ".ast.json".toList := by
    simp [plain]
  rw [treeFile, longer, path _ (by simp) proper unbroken, whole, path _ there other plain]
  simp [String.append_assoc]

end PlcLang.CommandLine
