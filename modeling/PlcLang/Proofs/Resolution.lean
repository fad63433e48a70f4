import PlcLang.Proofs.Running.Points
import PlcLang.Proofs.Running.Start

namespace PlcLang

/-- Faults that say that a name, a node or an operator means nothing where it is met, or that only
the checker reports. -/
def Fault.Meaningless : Fault → Prop
  | .problem p =>
    p.cause.errorClass = .runtimeUnresolvedName ∨ p.cause.errorClass = .runtimeDuplicateBinding ∨
      p.cause.errorClass = .internalConsistency ∨ p.cause.errorClass.phase = .check ∨
      p.cause = .targetNotAccess ∨ ∃ op, p.cause = .unknownOperator .run op
  | .unexpectedNode .. => True
  | _ => False

theorem Fault.Tolerated.meaningful {D : Demands} {f : Fault} (h : f.Tolerated D) :
    ¬ f.Meaningless := by
  intro meaningless
  cases f with
  | problem p =>
    obtain ⟨cause, subject⟩ := p
    cases cause <;>
      simp_all [Fault.Tolerated, Fault.Meaningless, Cause.errorClass, ErrorClass.phase]
  | unexpectedNode walk className => exact h
  | _ => exact meaningless

/-- An access finds the variable made last for the declaration that the checker found. -/
theorem Stage.finds {c : Course} {made : Made} {m : Machine} {label : Label} {name : Json}
    {env : Env} (h : Stage c made m) (byId : c.byName = false)
    (access : m.Accesses label name env) :
    ∃ (b : Binding) (n : Nat) (x : Variable), (c.found.of label).binding = some b ∧
      m.world.store.findBinding env b.id = some n ∧ made.latest b.id = some n ∧
      m.world.store.vars[n]? = some x := by
  obtain ⟨key, b, p, _, bound, inScope, fits, rfl⟩ := h.accesses access
  obtain ⟨n, x, caught, latest, hx, _⟩ := fits.finds inScope
  refine ⟨b, n, x, bound, ?_, latest, hx⟩
  simpa [Store.findBinding, Course.caught, byId] using caught

/-- An accepted program that runs on its own, at every point of every run: an access finds a
variable for the declaration that the checker found, in the blocks around it, and it is the one made
last for that declaration, in the current call or as a global. No step ends the run because a name,
a node or an operator means nothing. -/
theorem resolution_safe {a : Annotated} (accepted : a.Accepted) {settings : Settings}
    {past : List Machine} {m : Machine} (run : Machine.fresh.Reaches settings a past m) :
    (∀ label name env, m.Accesses label name env →
      ∃ (b : Binding) (n : Nat) (x : Variable), (a.found.of label).binding = some b ∧
        m.world.store.findBinding env b.id = some n ∧
        (Made.of a.found past).latest b.id = some n ∧ m.world.store.vars[n]? = some x) ∧
    ∀ w f, m.step settings a = .halt w (.error f) → ¬ f.Meaningless := by
  obtain ⟨c, runs, byId, -⟩ := accepted.course a.found false settings ⟨False, False⟩
    (fun _ => rfl) (fun h => by cases h) False.elim False.elim
  have stage := runs.stage run
  refine ⟨fun label name env access => ?_, fun w f halts => ?_⟩
  · have finds := stage.finds byId access
    rw [runs.found] at finds
    exact finds
  · have stays := stage.step
    rw [runs.settings, runs.program, halts] at stays
    exact (stays f rfl).meaningful

/-- The first read of `m` in the loop of a program finds the variable of that round. -/
theorem resolution_safe_counting :
    ∃ (past : List Machine) (m : Machine) (label : Label) (name : Json) (env : Env),
      Node.counting.checked.Accepted ∧ Machine.fresh.Reaches {} Node.counting.checked past m ∧
      m.Accesses label name env ∧ past.length = 26 ∧
      ∃ (b : Binding) (n : Nat) (x : Variable),
        (Node.counting.checked.found.of label).binding = some b ∧
        m.world.store.findBinding env b.id = some n ∧
        (Made.of Node.counting.checked.found past).latest b.id = some n ∧
        m.world.store.vars[n]? = some x := by
  have run : Machine.fresh.Reaches {} Node.counting.checked [] Machine.fresh := .start
  iterate 26 replace run := run.step rfl
  exact ⟨_, _, _, _, _, counting_accepted.checked, run, .read, rfl,
    (resolution_safe counting_accepted.checked run).1 _ _ _ .read⟩

end PlcLang
