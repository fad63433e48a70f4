import Mathlib
import PlcLang.Proofs.Agreement
import PlcLang.Proofs.Debugging.Lockstep
import PlcLang.Proofs.Tree.Labels

namespace PlcLang

/-- The same ending with other notes. -/
def Ending.withNotes (notes : Array Note) : Ending → Ending
  | .ran env w result => .ran env (w.withNotes notes) result
  | e => e

/-- A note of a call. -/
def Note.isCall : Note → Bool
  | call .. => true
  | _ => false

/-- A note of the way that an `IF`, a `SWITCH` or a `WHILE` goes. -/
def Note.isDecision : Note → Bool
  | condition .. | switched .. => true
  | _ => false

/-- Every character of a tree holds a text. -/
def Node.Legible (n : Node Unit) : Prop :=
  n.Every (Node.Among fun content => ∃ text, content = .string text)

namespace Node

/-- What runs of a program, unless it is rejected: its tree with what the checker found out about it,
or with nothing. -/
def runs (check : Bool) (n : Node Unit) : Except Fault Annotated :=
  if check then ((n.annotated #[]).check 0 []).1.map fun _ => n.checked else .ok (n.annotated #[])

/-- The notes that are due while a program runs. -/
def remarks (settings : Settings) (steps : Nat) (check : Bool) (n : Node Unit) : List Remark :=
  match n.runs check with
  | .error _ => []
  | .ok program => Machine.fresh.remarks { settings with debug := 0 } program steps

/-- At some point of its run, a program has printed this. -/
def Prints (settings : Settings) (check : Bool) (n : Node Unit) (output : String) : Prop :=
  ∃ program past m, n.runs check = .ok program ∧
    Machine.fresh.Reaches settings program past m ∧ m.world.output = output

variable {n : Node Unit} {settings : Settings} {steps level : Nat} {check : Bool}

theorem perform_eq :
    n.perform settings steps check =
      match n.runs check with
      | .error f => .rejected f
      | .ok program => .ofRun freshBlock (Machine.run settings program steps Machine.fresh) := by
  cases check with
  | false => exact perform_unchecked
  | true =>
    rw [perform_checked, runs]
    cases ((n.annotated #[]).check 0 []).1 <;> rfl

theorem runs_tree {program : Annotated} (h : n.runs check = .ok program) :
    program.tree = (n.annotated #[]).tree := by
  cases check with
  | false =>
    cases h
    rfl
  | true =>
    obtain ⟨_, _, rfl⟩ := Except.map_eq_ok.1 h
    rfl

/-- Labels are nothing to the characters of a tree. -/
theorem Every.annotated {P : Json → Prop} (h : n.Every (Node.Among P)) (known : Annotations) :
    (n.annotated known).tree.AllAmong P := by
  have plain : (n.annotated known).tree.plain = n := n.plain_withLabels _
  rw [← plain] at h
  apply Every.imp _ _ (Every.ofPlain _ h)
  intro m held
  cases m with
  | literal label value => cases value <;> exact held
  | _ => trivial

/-- A character holds something. -/
theorem every_among (n : Node Unit) : n.Every (Node.Among fun _ => True) := by
  apply Node.every
  intro m
  unfold Node.Among
  split <;> trivial

end Node

theorem Machine.Among.fresh {P : Json → Prop} : Machine.fresh.Among P where
  control := trivial
  frames := List.forall_mem_nil _
  store := by
    obtain ⟨_, vars, f, functions, print⟩ := fresh_store
    have lists : Machine.fresh.world.store.lists = #[] := rfl
    refine ⟨fun n x known => ?_, fun address items known => ?_,
      fun n g parameters statements home known body => ?_⟩
    · simp [vars] at known
    · simp [lists] at known
    · have known := Array.mem_of_getElem? known
      obtain rfl : g = f := by simpa [functions] using known
      rw [print] at body
      cases body

section

variable {n : Node Unit} {settings : Settings} {steps level : Nat} {check : Bool}

/-- The characters of a program hold what satisfies `P`: so do those of what runs of it. -/
theorem Node.Every.runs {P : Json → Prop} {program : Annotated} (h : n.Every (Node.Among P))
    (run : n.runs check = .ok program) : program.tree.AllAmong P := by
  rw [Node.runs_tree run]
  exact h.annotated #[]

/-- Every note that is due is of its level. -/
theorem Node.remarks_made {P : Json → Prop} (h : n.Every (Node.Among P)) :
    ∀ r ∈ n.remarks settings steps check, r.Made P := by
  rw [Node.remarks]
  cases run : n.runs check with
  | error f => exact List.forall_mem_nil _
  | ok program => exact Machine.Among.fresh.remarks (h.runs run)

/-- With notes that can all be made, a run shows what it shows without, and the notes. -/
theorem perform_watched {notes : List Note}
    (made : Remark.notes level (n.remarks settings steps check) = .ok notes) :
    n.perform { settings with debug := level } steps check =
      (n.perform { settings with debug := 0 } steps check).withNotes notes.toArray := by
  rw [Node.perform_eq, Node.perform_eq]
  rw [Node.remarks] at made
  cases run : n.runs check with
  | error f => rfl
  | ok program =>
    rw [run] at made
    have same := Machine.run_watched rfl #[] made
    have start : Machine.fresh.withNotes #[] = Machine.fresh := rfl
    rw [start, Array.empty_append] at same
    simp only [same]
    cases Machine.run { settings with debug := 0 } program steps Machine.fresh <;> rfl

/-- With a note that fails, a run ends with that, and has printed what it prints without up to
there. -/
theorem perform_failed {P : Json → Prop} (h : n.Every (Node.Among P)) {f : Fault}
    (fails : Remark.notes level (n.remarks settings steps check) = .error f) :
    f.OfNote P ∧ ∃ env w,
      n.perform { settings with debug := level } steps check = .ran env w (.error f) ∧
      n.Prints { settings with debug := 0 } check w.output := by
  rw [Node.perform_eq]
  rw [Node.remarks] at fails
  cases run : n.runs check with
  | error f =>
    rw [run] at fails
    cases fails
  | ok program =>
    rw [run] at fails
    have start : Machine.fresh.withNotes #[] = Machine.fresh := rfl
    obtain ⟨kind, w, past, m, ends, reached, printed⟩ :=
      Machine.run_failed rfl (h.runs run) .fresh .start #[] fails
    rw [start] at ends
    refine ⟨kind, freshBlock, w, ?_, program, past, m, run, reached, printed.symm⟩
    simp only [ends, Ending.ofRun]

/-- What is printed at some point of a run is the beginning of what is printed in all. -/
theorem Node.Prints.run {output : String} (h : n.Prints settings check output) {env : Env}
    {w : World} {result : Except Fault Value}
    (ends : n.perform settings steps check = .ran env w result) :
    ∃ text, w.output = output ++ text := by
  obtain ⟨program, past, m, run, reached, rfl⟩ := h
  rw [Node.perform_eq, run] at ends
  have tree := n.every_among.runs run
  cases whole : Machine.run settings program steps Machine.fresh with
  | none =>
    simp only [whole] at ends
    cases ends
  | some last =>
    simp only [whole] at ends
    cases ends
    obtain ⟨steps', ends⟩ := reached.run whole
    have reaches := Machine.Among.fresh.reaches tree reached
    exact reaches.run tree ends

end

/-- A run that makes notes shows what it shows without them, as long as none of them fails. If one
does, because an integer is too long to be shown, a list is too deep or contains itself, or a
character holds no text, the run ends with that; it has printed the beginning of what is printed
without notes. The notes at debug level 1 are the calls among those at level 2, and these are those
at level 3 without the decisions. -/
theorem debugging_unseen (n : Node Unit) (settings : Settings) (steps : Nat) (check : Bool) :
    let due := n.remarks settings steps check
    let noted (level : Nat) : Settings := { settings with debug := level }
    (∀ level notes, Remark.notes level due = .ok notes →
      n.perform (noted level) steps check = (n.perform (noted 0) steps check).withNotes notes.toArray) ∧
    (∀ level f, Remark.notes level due = .error f →
      (f = .longInteger ∨ f = .tooDeep ∨ f = .unfit .notAText ∧ ¬ n.Legible) ∧
      ∃ env w, n.perform (noted level) steps check = .ran env w (.error f) ∧
        n.Prints (noted 0) check w.output ∧
        ∀ more env' w' result, n.perform (noted 0) more check = .ran env' w' result →
          ∃ text, w'.output = w.output ++ text) ∧
    (∀ notes, Remark.notes 2 due = .ok notes →
      Remark.notes 1 due = .ok (notes.filter (·.isCall))) ∧
    (∀ notes, Remark.notes 3 due = .ok notes →
      Remark.notes 2 due = .ok (notes.filter (!·.isDecision))) := by
  intro due noted
  have made : ∀ r ∈ due, r.Made fun _ => True := Node.remarks_made n.every_among
  refine ⟨fun level notes => perform_watched, fun level f fails => ?_, fun notes made2 => ?_,
    fun notes made3 => ?_⟩
  · obtain ⟨kind, env, w, ends, prints⟩ := perform_failed n.every_among fails
    refine ⟨?_, env, w, ends, prints, fun more env' w' result => prints.run⟩
    rcases kind with long | deep | ⟨rfl, -⟩
    · exact .inl long
    · exact .inr (.inl deep)
    · refine .inr (.inr ⟨rfl, fun legible => ?_⟩)
      obtain ⟨kind, -⟩ := perform_failed legible fails
      rcases kind with long | deep | ⟨-, content, ⟨text, holds⟩, none⟩
      · cases long
      · cases deep
      · exact none text holds
  · have calls : ∀ note : Note, decide (note.level ≤ 1) = note.isCall := by
      intro note
      cases note <;> rfl
    have lower : Remark.notes 1 due = .ok (notes.filter (·.level ≤ 1)) :=
      Remark.notes_lower (by omega) made made2
    simpa only [calls] using lower
  · have others : ∀ note : Note, decide (note.level ≤ 2) = !note.isDecision := by
      intro note
      cases note <;> rfl
    have lower : Remark.notes 2 due = .ok (notes.filter (·.level ≤ 2)) :=
      Remark.notes_lower (by omega) made made3
    simpa only [others] using lower

/-- A program that puts a list into itself and then declares another name for it. -/
def Node.selfish : Node Unit :=
  let var (name : String) : Node Unit := .access () (.string name) .absent
  let print (text : String) : Node Unit :=
    .expressionStmt (.call () (.string "print") (.list [.literal () (.string text)]))
  let zero : Node Unit := .literal () (.integer 0)
  let body : List (Node Unit) :=
    [.declaration () (.string "a") (.string "Any") (.listLiteral () (.list [zero])),
      .assignment (.access () (.string "a") zero) (var "a"),
      print "before",
      .declaration () (.string "b") (.string "Any") (var "a"),
      print "behind",
      .ret zero]
  .source (.list [])
    (.list [.function () (.string "main") (.list []) (.string "Integer") (.list body)])

/-- With its calls noted, it comes to 0 as it does without notes. To note its variables the list
would have to be shown: the run ends with that, where only the first line is printed. -/
theorem debugging_unseen_selfish :
    (Node.selfish.perform { debug := 1, depth := 20 } 100 true).outcome =
      .ended "before\nbehind\n"
        #[.call (.string "main") [], .call (.string "print") ["before"],
          .call (.string "print") ["behind"]]
        (.ok (.integer 0)) [] #[#[.list 0]] ∧
    ∃ env w, Node.selfish.perform { debug := 2, depth := 20 } 100 true =
        .ran env w (.error .tooDeep) ∧
      ∃ text, "before\nbehind\n" = w.output ++ text := by
  obtain ⟨same, fails, -⟩ := debugging_unseen Node.selfish { depth := 20 } 100 true
  have calls : Remark.notes 1 (Node.selfish.remarks { depth := 20 } 100 true) =
      .ok [.call (.string "main") [], .call (.string "print") ["before"],
        .call (.string "print") ["behind"]] := by
    cbv
  have deep : Remark.notes 2 (Node.selfish.remarks { depth := 20 } 100 true) =
      .error .tooDeep := by
    cbv
  have quiet : (Node.selfish.perform { depth := 20 } 100 true).outcome =
      .ended "before\nbehind\n" #[] (.ok (.integer 0)) [] #[#[.list 0]] := by
    cbv
  have noted := same 1 _ calls
  obtain ⟨-, env', w', last, -, begins⟩ := fails 2 _ deep
  cases ends : Node.selfish.perform { depth := 20 } 100 true with
  | ran env w result =>
    rw [ends] at noted quiet
    obtain ⟨printed, -, came, globals, lists⟩ := Outcome.ended.inj quiet
    refine ⟨?_, env', w', last, ?_⟩
    · rw [noted, ← printed, ← came, ← globals, ← lists]
      rfl
    · rw [← printed]
      exact begins 100 env w _ ends
  | rejected | unfinished =>
    rw [ends] at quiet
    cases quiet

end PlcLang
