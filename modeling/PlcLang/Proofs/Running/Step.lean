import PlcLang.Proofs.Running.Calls
import PlcLang.Proofs.Running.Expressions

namespace PlcLang

section

variable {c : Course} {bottom : Waiting} {F : Defined} {made : Made} {t r : Ty} {p : Scope}
  {cs : List Scope} {K : List Frame} {calls : Nat} {w : World} {v : Value} {o : Prop}

/-- Frames that wait for a value go on with one of their type. -/
theorem resume_keeps (admits : c.demands.typed → t.admits v.tag = true)
    (wants : Wants c bottom w.store t r p cs K) (live : Live c F w.store made p cs)
    (busy : K ≠ bottom.frames) :
    Keeps c bottom F (made.after c.found ⟨.value v, K, calls, w⟩)
      (Machine.step c.settings c.program ⟨.value v, K, calls, w⟩) := by
  cases wants with
  | bottom asks => exact (busy rfl).elim
  | left strict second fits ordered behind =>
    exact resume_left strict second fits ordered admits behind live
  | right strict first fits ordered behind =>
    exact resume_right strict first fits ordered admits behind live
  | test second behind => exact resume_test second admits behind live
  | boolean behind =>
    exact leads_requireBoolean admits fun b _ => Sound.value (fun _ => rfl) behind live
  | index listed behind => exact resume_index listed behind live
  | argument isName inScope takes admitted fits others behind =>
    exact resume_argument isName inScope takes admitted fits others admits behind live
  | element listed others behind => exact resume_element listed others behind live
  | discard behind => exact Sound.ended trivial (Or.inl behind) live
  | declaration isName adds clear here bound fits behind =>
    exact resume_declaration isName adds clear bound fits admits behind live
  | assignment target aim aimed fits behind =>
    exact resume_assignment target aim aimed fits admits behind live
  | target listed behind => exact resume_target listed behind live
  | branch thenChecked elseChecked thenEnds elseEnds behind =>
    exact resume_branch thenChecked elseChecked thenEnds elseEnds admits behind live
  | subject branches each behind => exact select_keeps branches each behind live
  | case body others bodyEnds each behind =>
    exact resume_case body others bodyEnds each behind live
  | condition around test hidden body behind =>
    exact resume_condition around test hidden body admits behind live
  | result fits behind =>
    exact Sound.leave (fun d => Ty.admits_of_accepts fits (admits d)) (Or.inl behind) live

/-- A sound machine that is not done for the frames at the bottom takes a sound step, or the run
has a tolerated end. -/
theorem Sound.step {m : Machine} (h : Sound c bottom F made m)
    (busy : ∀ v, m.control = .value v → m.frames ≠ bottom.frames) :
    Keeps c bottom F (made.after c.found m) (m.step c.settings c.program) := by
  cases h with
  | evaluate typed wants live => exact evaluate_keeps typed wants live
  | execute all clear reached closes live => exact executeAll_keeps all clear reached closes live
  | call known fulfils admitted wants live => exact call_keeps known fulfils admitted wants live
  | value admits wants live => exact resume_keeps admits wants live (busy _ rfl)
  | ended reached flows live =>
    obtain ⟨frame, K, rfl⟩ := ends_or_closes_cons flows
    exact proceed_keeps reached flows live
  | leave admits flows live =>
    obtain ⟨frame, K, rfl⟩ := ends_or_closes_cons flows
    exact unwind_keeps admits flows live

end

end PlcLang
