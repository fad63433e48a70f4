import PlcLang.Proofs.Confinement.Rules

/-! Statements of a run are in blocks that the run has made. -/

namespace PlcLang

/-- At a point of a run of a program in a block, either the program goes on with its globals and
functions, or a value is worked out, for a global or by `main`, in blocks made for it. -/
inductive Machine.Phase (settings : Settings) (env : Env) (s : Store) : Machine → Prop where
  | prelude {m : Machine} (root : m.control.root? = some env) (bare : m.frames = [])
      (grown : s.blocks.size ≤ m.world.store.blocks.size) : Phase settings env s m
  | inside {m : Machine} {s' : Store} {K : List Frame}
      (waits : K = [] ∨ ∃ g rest functions, K = [.global g rest functions env])
      (inside : m.Inside (.value settings s' K)) (grown : s.blocks.size ≤ s'.blocks.size) :
      Phase settings env s m

section

variable {settings : Settings} {program : Annotated} {env : Env} {s : Store} {m m' : Machine}

theorem Machine.Phase.grown (h : m.Phase settings env s) :
    s.blocks.size ≤ m.world.store.blocks.size := by
  cases h with
  | prelude _ _ grown => exact grown
  | inside _ inside grown => exact Nat.le_trans grown inside.within.blocks

/-- A value is worked out from here. -/
theorem Machine.Phase.enter {control : Control} {K : List Frame} {calls : Nat} {w : World}
    (waits : K = [] ∨ ∃ g rest functions, K = [.global g rest functions env])
    (next : control.Inside (.value settings w.store K) .value)
    (grown : s.blocks.size ≤ w.store.blocks.size) :
    Machine.Phase settings env s ⟨control, K, calls, w⟩ :=
  .inside waits (.intro next (.bottom rfl rfl) (.refl _)) grown

theorem Situation.phase_global {g functions : Node Label} {rest : List (Node Label)}
    {σ : Situation} (bare : σ.frames = []) (grown : s.blocks.size ≤ σ.world.store.blocks.size) :
    (σ.global g rest functions env).Goes (Machine.Phase settings env s) := by
  obtain ⟨_, _, K, calls, w⟩ := σ
  cases bare
  unfold Situation.global
  split
  · exact goes_fail
  · exact Machine.Phase.enter (.inr ⟨g, rest, functions, rfl⟩) .value grown
  · exact Machine.Phase.enter (.inr ⟨g, rest, functions, rfl⟩) (.evaluate fun _ _ _ => trivial)
      grown
  · exact goes_fail

/-- A new function is no variable. -/
theorem Store.same_defineFunction {s s' : Store} {key : Key} {f : Callable} {n : Nat}
    (defined : s.defineFunction env key f = some (s', n)) :
    s'.blocks.size = s.blocks.size ∧ s'.vars = s.vars ∧
      ∀ b, (s'.block b).vars = (s.block b).vars ∧ (s'.block b).bindings = (s.block b).bindings := by
  unfold defineFunction at defined
  simp only at defined
  split at defined
  · cases defined
  · cases defined
    refine ⟨Array.size_modify, rfl, fun b => ?_⟩
    simp only [block, Array.getElem?_modify]
    by_cases here : env.block = b
    · rw [if_pos here]
      cases s.blocks[b]? <;> exact ⟨rfl, rfl⟩
    · rw [if_neg here]
      exact ⟨rfl, rfl⟩

theorem Situation.phase_defineFunction {f : Node Label} {rest : List (Node Label)} {σ : Situation}
    (bare : σ.frames = []) (grown : s.blocks.size ≤ σ.world.store.blocks.size) :
    (σ.defineFunction f rest env).Goes (Machine.Phase settings env s) := by
  cases f with
  | function =>
    refine goes_require fun (header, returns, key) _ => ?_
    dsimp only
    split
    · exact goes_fail (s := σ)
    · rename_i store n defined
      refine goes_noting fun w same => .prelude rfl bare ?_
      have same : w.store = store := same
      rw [← (Store.same_defineFunction defined).1] at grown
      exact same ▸ grown
  | _ => exact goes_fail

/-- A global has its value, and is added. -/
theorem Situation.phase_resume {g functions : Node Label} {rest : List (Node Label)} {v : Value}
    {σ : Situation} (bare : σ.frames = []) (grown : s.blocks.size ≤ σ.world.store.blocks.size) :
    (σ.resume v (.global g rest functions env)).Goes (Machine.Phase settings env s) := by
  cases g with
  | global =>
    refine goes_require fun w added => goes_notingText fun w' same => .prelude rfl bare ?_
    have more := (World.addFree_on σ.world.store.on_ready added).room
    have same : w'.store = w.store := same
    exact same ▸ Nat.le_trans grown more
  | _ => exact goes_fail

theorem Machine.phase_prelude (root : m.control.root? = some env) (bare : m.frames = [])
    (grown : s.blocks.size ≤ m.world.store.blocks.size) :
    (m.step settings program).Goes (Machine.Phase settings env s) := by
  obtain ⟨control, K, calls, w⟩ := m
  cases control with
  | start =>
    cases root
    simp only [Machine.step, Situation.start]
    split
    · exact goes_require fun _ _ => .prelude rfl bare grown
    · exact goes_fail
  | globals rest =>
    cases root
    cases rest with
    | nil => exact goes_require fun _ _ => .prelude rfl bare grown
    | cons g rest => exact Situation.phase_global bare grown
  | functions rest =>
    cases root
    cases rest with
    | nil => exact .prelude rfl bare grown
    | cons f rest => exact Situation.phase_defineFunction bare grown
  | main =>
    cases root
    cases bare
    simp only [Machine.step]
    split
    · exact Machine.Phase.enter (.inl rfl) (.call fun _ _ _ _ _ _ _ _ _ => trivial) grown
    · exact goes_fail
  | _ => cases root

theorem Machine.Phase.step (h : m.Phase settings env s)
    (next : m.step settings program = .next m') : m'.Phase settings env s := by
  cases h with
  | prelude root bare grown =>
    have goes : (m.step settings program).Goes (Machine.Phase settings env s) :=
      phase_prelude root bare grown
    rw [next] at goes
    exact goes
  | @inside s' K waits inside grown =>
    by_cases there : m.control.isSettled = true ∧ m.frames = K
    · obtain ⟨done, here⟩ := there
      have arrives := inside.arrives here
      have within := inside.within
      obtain ⟨control, _, calls, w⟩ := m
      cases here
      cases arrives with
      | evaluate | call => cases done
      | @value v =>
        rcases waits with rfl | ⟨g, rest, functions, rfl⟩
        · cases next
        · have goes : Step.Goes (Machine.Phase settings env s)
              (Situation.resume ⟨settings, program, [], calls, w⟩ v
                (.global g rest functions env)) :=
            Situation.phase_resume rfl (Nat.le_trans grown within.blocks)
          have next : Situation.resume _ v (.global g rest functions env) = .next m' := next
          rw [next] at goes
          exact goes
    · have step : (m.step settings program).Inside (.value settings s' K) :=
        inside.step Region.closed_value rfl fun done here => there ⟨done, here⟩
      rw [next] at step
      exact .inside waits step grown

theorem Machine.Reaches.phase {past : List Machine} {w : World}
    (run : (Machine.initial env w).Reaches settings program past m) :
    m.Phase settings env w.store :=
  run.keeps (.prelude rfl rfl (Nat.le_refl _)) fun _ _ h next => h.step next

/-- Names are declared in blocks that the run has made. -/
theorem Machine.Phase.declaration {label : Label} {name : Json} {inner : Env} {K : List Frame}
    (h : m.Phase settings env s) (waits : m.frames = .declaration label name inner :: K) :
    s.blocks.size ≤ inner.block := by
  cases h with
  | prelude _ bare =>
    rw [waits] at bare
    cases bare
  | inside bottom inside grown =>
    obtain ⟨_, frames, _⟩ := inside
    cases waits
    cases frames with
    | bottom _ here =>
      rcases bottom with rfl | ⟨_, _, _, rfl⟩ <;> cases here
    | cons inside =>
      cases inside with
      | declaration owns => exact Nat.le_trans grown owns.new

end

end PlcLang
