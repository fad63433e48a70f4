import PlcLang.Proofs.Containment.Faults
import PlcLang.Proofs.Debugging

namespace PlcLang

theorem Machine.Regular.fresh : Machine.fresh.Regular where
  control := trivial
  frames := List.forall_mem_nil _
  store := by
    obtain ⟨_, vars, f, functions, print⟩ := fresh_store
    have lists : Machine.fresh.world.store.lists = #[] := rfl
    refine ⟨⟨fun n x known => ?_, fun address items known => ?_⟩,
      fun n g parameters statements home known body => ?_⟩
    · simp [vars] at known
    · simp [lists] at known
    · have known := Array.mem_of_getElem? known
      obtain rfl : g = f := by simpa [functions] using known
      rw [print] at body
      cases body

section

variable {settings : Settings} {program : Annotated} {past : List Machine} {m₀ m : Machine}

/-- A run without notes has values and code as texts have them throughout. -/
theorem Machine.Regular.reaches (silent : settings.debug = 0) (tree : program.tree.AllRegular)
    (h : m₀.Regular) (reached : m₀.Reaches settings program past m) : m.Regular := by
  induction reached with
  | start => exact h
  | step before next ih =>
    have step : (Machine.step settings program _).Contains _ := ih.step silent tree
    rw [next] at step
    exact step

end

/-- A fault that is an error of a running program, in one of the classes for them. -/
def Fault.IsRuntime (f : Fault) : Prop :=
  ∃ problem, f = .problem problem ∧ problem.cause.errorClass.phase = .run

theorem Fault.Tolerated.contained {D : Demands} {f : Fault} (h : f.Tolerated D) :
    f.IsRuntime ∨ f = .tooDeep ∨ f.IsRaw := by
  cases f with
  | problem p =>
    refine .inl ⟨p, rfl, ?_⟩
    obtain ⟨cause, subject⟩ := p
    cases cause <;> first | rfl | exact h.elim
  | tooDeep => exact .inr (.inl rfl)
  | longInteger => exact .inr (.inr trivial)
  | decimal signal => exact .inr (.inr trivial)
  | unexpectedNode walk className => exact h.elim
  | unfit u =>
    refine .inr (.inr ?_)
    rcases h with text | order | ⟨list, -⟩
    · exact .inr (.inl text)
    · exact .inr (.inr order)
    · exact .inl list

/-- A program that is parsed and accepted and runs on its own without notes ends with no fault but
an error of a running program, or for its depth; except that one of its steps may need the text of
an integer with too many digits, or be a sum, difference, product or quotient of two decimals that
is out of range or of space. -/
theorem faults_contained {text : String} {p : Program} (parsed : Program.parse text = .ok p)
    {settings : Settings} (silent : settings.debug = 0) {steps : Nat} {env : Env} {w : World}
    {f : Fault} (ran : p.toNode.perform settings steps true = .ran env w (.error f)) :
    f.IsRuntime ∨ f = .tooDeep ∨
      ∃ past m, Machine.fresh.Reaches settings p.toNode.checked past m ∧
        m.step settings p.toNode.checked = .halt w (.error f) ∧ m.Raises f := by
  rw [Node.perform_eq] at ran
  cases accepted : ((p.toNode.annotated #[]).check 0 []).1 with
  | error f =>
    simp only [Node.runs, if_pos, accepted] at ran
    cases ran
  | ok Γ =>
    have runs : p.toNode.runs true = .ok p.toNode.checked := by
      simp only [Node.runs, if_pos, accepted]
      rfl
    rw [runs] at ran
    have ends : Machine.run settings p.toNode.checked steps Machine.fresh = some (w, .error f) := by
      cases whole : Machine.run settings p.toNode.checked steps Machine.fresh with
      | none =>
        simp only [whole] at ran
        cases ran
      | some last =>
        obtain ⟨w', result⟩ := last
        simp only [whole] at ran
        cases ran
        rfl
    obtain ⟨past, m, reached, halts⟩ := Machine.Reaches.halts .start ends
    have checked : p.toNode.checked.Accepted := Node.Accepted.checked ⟨Γ, accepted⟩
    obtain ⟨c, course, -⟩ := checked.course p.toNode.checked.found false settings ⟨False, False⟩
      (fun _ => rfl) (fun h => by cases h) False.elim False.elim
    have stays := (course.stage reached).step
    rw [course.settings, course.program, halts] at stays
    rcases (stays f rfl).contained with runtime | deep | raw
    · exact .inl runtime
    · exact .inr (.inl deep)
    · have tree : p.toNode.checked.tree.AllRegular :=
        (Program.regular_of_parse parsed).annotated #[]
      have step := (Machine.Regular.fresh.reaches silent tree reached).step silent tree
      rw [halts] at step
      exact .inr (.inr ⟨past, m, reached, halts, step f rfl raw⟩)

/-- A program that divides by zero. -/
def Program.quotient : Program :=
  ⟨[], [⟨"main", [], some "Integer",
    [.ret (.binary .divide (.literal (.integer 1)) (.literal (.integer 0)))]⟩]⟩

/-- A division by zero is an error of a running program. -/
theorem faults_contained_quotient :
    Program.parse "FUN main(): Integer DO RETURN 1 / 0; END" = .ok Program.quotient ∧
      ∃ env w f, Program.quotient.toNode.perform {} 20 true = .ran env w (.error f) ∧
        f.IsRuntime := by
  have parsed : Program.parse "FUN main(): Integer DO RETURN 1 / 0; END" =
      .ok Program.quotient := by cbv
  obtain ⟨env, w, subject, ran⟩ : ∃ env w subject,
      Program.quotient.toNode.perform {} 20 true =
        .ran env w (.error (.ofCause .divisionByZero subject)) := ⟨_, _, _, by cbv⟩
  refine ⟨parsed, env, w, _, ran, ?_⟩
  rcases faults_contained parsed rfl ran with runtime | deep | ⟨past, m, -, -, long | decimal⟩
  · exact runtime
  · cases deep
  · cases long.1
  · obtain ⟨signal, same, -⟩ := decimal
    cases same

/-- A program that prints a number of 4301 digits. -/
def Program.vast : Program :=
  ⟨[], [⟨"main", [], some "Integer",
    [.expression (.call "print"
      [.binary .power (.literal (.integer 10)) (.literal (.integer 4300))]),
      .ret (.literal (.integer 0))]⟩]⟩

/-- A run that fails because a number is too long to be turned into text. -/
def Ending.isLong : Ending → Bool
  | .ran _ _ (.error .longInteger) => true
  | _ => false

/-- It ends with neither an error of a running program nor for its depth: the number is too long to
be turned into text. -/
theorem faults_contained_vast :
    Program.parse "FUN main(): Integer DO print(10^4300); RETURN 0; END" = .ok Program.vast ∧
      ∃ env w f, Program.vast.toNode.perform {} 30 true = .ran env w (.error f) ∧
        ¬ f.IsRuntime ∧ f ≠ .tooDeep := by
  have long : (Program.vast.toNode.perform {} 30 true).isLong = true := by
    decide +kernel
  refine ⟨by cbv, ?_⟩
  unfold Ending.isLong at long
  split at long
  · rename_i env w ran
    refine ⟨env, w, .longInteger, ran, ?_, by simp⟩
    rintro ⟨problem, same, -⟩
    cases same
  · cases long

end PlcLang
