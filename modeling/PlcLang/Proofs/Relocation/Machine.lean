import PlcLang.Proofs.Relocation.Rules

namespace PlcLang

namespace Machine

variable {r : Relocation} {settings : Settings} {p p' : Annotated}

/-- A machine with other identities leads to the next machine with the other identities. -/
theorem step_relocate (carries : r.Carries p p') (m : Machine) :
    (m.relocate r).step settings p' = (m.step settings p).relocate r := by
  obtain ⟨control, K, calls, w⟩ := m
  have behind (K : List Frame) : Situation.Relocates r ⟨settings, p, K, calls, w⟩
      ⟨settings, p', K.map (Frame.relocate r), calls, w.relocate r⟩ :=
    ⟨rfl, carries, rfl, rfl, rfl⟩
  have s := behind K
  cases control with
  | start env => exact s.start
  | globals rest functions env =>
    cases rest with
    | nil => exact s.require (functions.items_map r) fun functions => s.go (.functions functions env)
    | cons g rest => exact s.global g functions rest
  | functions rest env =>
    cases rest with
    | nil => exact s.go (.main env)
    | cons f rest => exact s.defineFunction f rest
  | main env =>
    have found : (w.relocate r).store.findFunction (env.relocate r) (.text "main") 0 =
        (w.store.findFunction env (.text "main") 0).map (r.base.functions.size + ·) :=
      Store.findFunction_relocate 0
    simp only [step, relocate, Control.relocate, found, carries.tree]
    cases w.store.findFunction env (.text "main") 0 with
    | none => exact s.problem (.noMain .run) p.tree
    | some n => exact s.go (.call n [])
  | evaluate e env => exact s.evaluate e
  | execute statements env => exact s.executeAll statements
  | call n arguments => exact s.call n arguments
  | value v =>
    cases K with
    | nil => rfl
    | cons frame K => exact (behind K).resume frame
  | ended =>
    cases K with
    | nil => rfl
    | cons frame K => exact (behind K).proceed frame
  | leave v =>
    cases K with
    | nil => rfl
    | cons frame K => exact (behind K).unwind frame

/-- So do runs: what they come to and what they leave is the same but for the identities. -/
theorem run_relocate (carries : r.Carries p p') (steps : Nat) (m : Machine) :
    run settings p' steps (m.relocate r) =
      (run settings p steps m).map (Prod.map (World.relocate r) (r.result (Value.relocate r))) := by
  induction steps generalizing m with
  | zero => rfl
  | succ steps ih =>
    simp only [run, step_relocate carries]
    cases m.step settings p with
    | next m => exact ih m
    | halt w result => rfl

end Machine

end PlcLang
