import PlcLang.Proofs.Confinement.Phases
import PlcLang.Proofs.DeadCode.Rules

/-! Runs of a program with the statements behind a `RETURN` and without. -/

namespace PlcLang

/-- No statement ends where the value of a `RETURN` is awaited. -/
theorem Machine.Phase.not_result {settings : Settings} {env : Env} {s : Store} {K : List Frame}
    {calls : Nat} {w : World} :
    ¬ Machine.Phase settings env s ⟨.ended, .result :: K, calls, w⟩ := by
  intro phase
  cases phase with
  | prelude root => cases root
  | inside waits inside =>
    obtain ⟨next, frames, _⟩ := inside
    cases next with
    | ended =>
      cases frames with
      | bottom comes => cases comes
      | cons inside => cases inside

namespace Machine

variable {f : Label → Label} {settings : Settings} {p q : Annotated} {m m' : Machine}
  {root : Env} {s : Store}

/-- A step with those statements leads to what a step without them leads to. -/
theorem Lives.step (program : p.Lives f q) (phase : m.Phase settings root s)
    (same : m.Lives f m') : (m.step settings p).Lives f (m'.step settings q) := by
  cases same with
  | leaving frames => exact .next (.here frames)
  | @here control K K' calls w frames =>
    have behind {K K' : List Frame} (frames : FramesLive f K K') : Situation.Lives f
        ⟨settings, p, K, calls, w⟩ ⟨settings, q, K', calls, w.live f⟩ :=
      ⟨rfl, program, frames, rfl, rfl⟩
    have s := behind frames
    cases control with
    | start env => exact s.start
    | globals rest functions env =>
      cases rest with
      | nil => exact s.require functions.items_live fun functions => s.go (.functions functions env)
      | cons g rest => exact s.global g functions rest
    | functions rest env =>
      cases rest with
      | nil => exact s.go (.main env)
      | cons f rest => exact s.defineFunction f rest
    | main env =>
      have found : (w.live f).store.findFunction env (.text "main") 0 =
          w.store.findFunction env (.text "main") 0 := rfl
      simp only [Machine.step, Control.live, found, program.tree]
      cases w.store.findFunction env (.text "main") 0 with
      | none => exact s.problem (.noMain .run) p.tree
      | some n => exact s.go (.call n [])
    | evaluate e env => exact s.evaluate e
    | execute statements env => exact s.executeAll statements
    | call n arguments => exact s.call n arguments
    | value v =>
      cases frames with
      | nil => exact .halt
      | cons below => exact (behind below).resume _
      | dead below => exact .next (.leaving below)
    | ended =>
      cases frames with
      | nil => exact .halt
      | cons below => exact (behind below).proceed _
      | dead below => exact (Phase.not_result phase).elim
    | leave v =>
      cases frames with
      | nil => exact .halt
      | cons below => exact (behind below).unwind _
      | dead below => exact .next (.leaving below)

/-- So do runs: without those statements they come to the same and leave the same. -/
theorem Lives.run (program : p.Lives f q) (phase : m.Phase settings root s)
    (same : m.Lives f m') (steps : Nat) :
    Machine.run settings q steps m' =
      (Machine.run settings p steps m).map (Prod.map (World.live f) (liveResult f id)) := by
  induction steps generalizing m m' with
  | zero => rfl
  | succ steps ih =>
    have next : (m.step settings p).Lives f (m'.step settings q) := same.step program phase
    have stays (m₁ : Machine) : m.step settings p = .next m₁ → m₁.Phase settings root s :=
      phase.step
    unfold Machine.run
    generalize m.step settings p = step at *
    generalize m'.step settings q = step' at *
    cases next with
    | next same => exact ih (stays _ rfl) same
    | halt => rfl

/-- A whole run without those statements. -/
theorem run_live (program : p.Lives f q) (env : Env) (w : World) (steps : Nat) :
    Machine.run settings q steps (.initial env (w.live f)) =
      (Machine.run settings p steps (.initial env w)).map
        (Prod.map (World.live f) (liveResult f id)) := by
  have begins : (initial env w).Lives f (.initial env (w.live f)) := .here .nil
  have phase : (initial env w).Phase settings env w.store := .prelude rfl rfl (Nat.le_refl _)
  exact begins.run program phase steps

end Machine

end PlcLang
