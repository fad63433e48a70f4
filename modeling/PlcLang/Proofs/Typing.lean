import PlcLang.Proofs.Running.Start

namespace PlcLang

/-- From a machine on, the frames `K` are the first time given a value again, and it is `v`. -/
inductive Machine.Yields (settings : Settings) (program : Annotated) (K : List Frame) (v : Value) :
    Machine → Prop where
  | now {calls : Nat} {w : World} : Yields settings program K v ⟨.value v, K, calls, w⟩
  | later {m m' : Machine} (busy : ∀ u, m.control = .value u → m.frames ≠ K)
      (next : m.step settings program = .next m') (more : Yields settings program K v m') :
      Yields settings program K v m

/-- Faults that say that a value is of a wrong kind. -/
def Fault.Mistyped : Fault → Prop
  | .problem p => p.cause.errorClass = .runtimeType ∨ p.cause.errorClass = .arithmeticType
  | _ => False

theorem Fault.Tolerated.typed {D : Demands} {f : Fault} (h : f.Tolerated D) (typed : D.typed) :
    ¬ f.Mistyped := by
  intro mistyped
  cases f with
  | problem p =>
    obtain ⟨cause, subject⟩ := p
    cases cause <;> simp_all [Fault.Tolerated, Fault.Mistyped, Cause.errorClass]
  | _ => exact mistyped

section

variable {c : Course} {made : Made} {m : Machine} {v : Value}

/-- The value that sound frames wait for is of the type they ask for. -/
theorem Sound.admits {F : Defined} {K : List Frame} {t : Ty} (typed : c.demands.typed)
    (yields : m.Yields c.settings c.program K v) :
    ∀ made, Sound c ⟨K, fun u _ _ => u = t⟩ F made m → t.admits v.tag = true := by
  induction yields with
  | now =>
    intro made h
    cases h with
    | value admits wants _ =>
      have same := wants.asks rfl
      exact same ▸ admits typed
  | later busy next _ ih =>
    intro made h
    have keeps := h.step busy
    rw [next] at keeps
    exact ih _ keeps

/-- An expression that a sound machine evaluates has a type, and yields values of it only. -/
theorem Sound.yields {bottom : Waiting} {F : Defined} {e : Node Label} {env : Env} {K : List Frame}
    {calls : Nat} {w : World} (h : Sound c bottom F made ⟨.evaluate e env, K, calls, w⟩)
    (typed : c.demands.typed) :
    ∃ t, c.found.typeOf e = some t ∧
      ∀ v, Machine.Yields c.settings c.program K v ⟨.evaluate e env, K, calls, w⟩ →
        t.admits v.tag = true := by
  cases h with
  | evaluate fits _ live =>
    refine ⟨_, typeOf_typed fits, fun v yields => ?_⟩
    exact Sound.admits typed yields made (.evaluate (r := .nil) fits (.bottom rfl) live)

end

/-- An accepted program that runs on its own and is disciplined, at every point of every run: an
expression that is evaluated has a type, and if it comes to a value, that is of a kind which the
type admits. No step ends the run because a value is of a wrong kind. -/
theorem typing_sound {a : Annotated} (accepted : a.Accepted)
    (disciplined : a.tree.Every (Node.Disciplined a.found)) {settings : Settings}
    {past : List Machine} {m : Machine} (run : Machine.fresh.Reaches settings a past m) :
    (∀ e env, m.control = .evaluate e env →
      ∃ t, a.found.typeOf e = some t ∧
        ∀ v, m.Yields settings a m.frames v → t.admits v.tag = true) ∧
    ∀ w f, m.step settings a = .halt w (.error f) → ¬ f.Mistyped := by
  obtain ⟨c, runs, -, demands⟩ := accepted.course a.found false settings ⟨True, False⟩
    (fun _ => rfl) (fun h => by cases h) (fun _ => disciplined) False.elim
  have typed : c.demands.typed := by
    rw [demands]
    trivial
  have stage := runs.stage run
  generalize Made.of a.found past = made at stage
  refine ⟨fun e env he => ?_, fun w f halts => ?_⟩
  · obtain ⟨control, K, calls, w⟩ := m
    subst he
    have yields : ∃ t, c.found.typeOf e = some t ∧
        ∀ v, Machine.Yields c.settings c.program K v ⟨.evaluate e env, K, calls, w⟩ →
          t.admits v.tag = true := by
      cases stage with
      | global _ _ _ _ _ _ sound | running sound => exact sound.yields typed
    rw [runs.found, runs.settings, runs.program] at yields
    exact yields
  · have stays := stage.step
    rw [runs.settings, runs.program, halts] at stays
    exact (stays f rfl).typed typed

/-- The first read of `m` in the loop of a program yields an integer. -/
theorem typing_sound_counting :
    ∃ (past : List Machine) (m : Machine) (e : Node Label) (env : Env) (v : Value),
      Node.counting.checked.Accepted ∧
      Node.counting.checked.tree.Every (Node.Disciplined Node.counting.checked.found) ∧
      Machine.fresh.Reaches {} Node.counting.checked past m ∧ m.control = .evaluate e env ∧
      m.Yields {} Node.counting.checked m.frames v ∧ past.length = 26 ∧
      ∃ t, Node.counting.checked.found.typeOf e = some t ∧ t.admits v.tag = true := by
  have disciplined :
      Node.counting.checked.tree.Every (Node.Disciplined Node.counting.checked.found) := by
    repeat' first
      | exact trivial
      | exact rfl
      | exact Or.inr (Or.inr rfl)
      | (intro _; decide)
      | (intro given; contradiction)
      | refine And.intro ?_ ?_
  have run : Machine.fresh.Reaches {} Node.counting.checked [] Machine.fresh := .start
  iterate 26 replace run := run.step rfl
  obtain ⟨t, ht, admits⟩ := (typing_sound counting_accepted.checked disciplined run).1 _ _ rfl
  refine ⟨_, _, _, _, .integer 1, counting_accepted.checked, disciplined, run, rfl, ?yields, rfl, t,
    ht, admits _ ?yields⟩
  exact .later (fun u (h : Control.evaluate _ _ = .value u) => by cases h) rfl .now

end PlcLang
