import PlcLang.Checker.Program

namespace PlcLang

namespace Checking

/-- A walk succeeds with a result, and leaves annotations. -/
def Gives {α : Type} (x : Checking α) (σ : Annotations) (a : α) (σ' : Annotations) : Prop :=
  x.run.run σ = (.ok a, σ')

variable {α β : Type} {σ σ' : Annotations}

theorem gives_pure {a b : α} : (pure a : Checking α).Gives σ b σ' ↔ a = b ∧ σ = σ' := by
  change (Except.ok a, σ) = (Except.ok b, σ') ↔ _
  simp

theorem gives_bind {x : Checking α} {f : α → Checking β} {b : β} :
    (x >>= f).Gives σ b σ' ↔ ∃ a τ, x.Gives σ a τ ∧ (f a).Gives τ b σ' := by
  unfold Gives
  simp only [ExceptT.run_bind, StateT.run_bind]
  generalize x.run.run σ = r
  obtain ⟨r, τ⟩ := r
  cases r with
  | error e =>
    constructor
    · intro h
      cases h
    · rintro ⟨a, τ, h, _⟩
      cases h
  | ok a =>
    constructor
    · intro h
      exact ⟨a, τ, rfl, h⟩
    · rintro ⟨a, τ, h, hf⟩
      cases h
      exact hf

theorem gives_throw {e : Fault} {a : α} : ¬ (throw e : Checking α).Gives σ a σ' := by
  intro h
  change (Except.error e, σ) = (Except.ok a, σ') at h
  simp at h

theorem gives_lift {x : Except Fault α} {a : α} :
    (liftM x : Checking α).Gives σ a σ' ↔ x = .ok a ∧ σ = σ' := by
  change (x, σ) = (Except.ok a, σ') ↔ _
  simp

/-- A walk that goes on with what a rule gives. -/
theorem gives_lift_bind {x : Except Fault α} {f : α → Checking β} {b : β} :
    (liftM x >>= f : Checking β).Gives σ b σ' ↔ ∃ a, x = .ok a ∧ (f a).Gives σ b σ' := by
  simp only [gives_bind, gives_lift]
  constructor
  · rintro ⟨a, _, ⟨ha, rfl⟩, h⟩
    exact ⟨a, ha, h⟩
  · rintro ⟨a, ha, h⟩
    exact ⟨a, σ, ⟨ha, rfl⟩, h⟩

theorem gives_annotate {label : Label} {change : Annotation → Annotation} {u : Unit} :
    (annotate label change).Gives σ u σ' ↔ σ.modify label change = σ' := by
  change (Except.ok (), σ.modify label change) = (Except.ok u, σ') ↔ _
  simp

theorem gives_annotateType {label : Label} {t u : Ty} :
    (annotateType label t).Gives σ u σ' ↔
      t = u ∧ σ.modify label (fun a => { a with type := t }) = σ' := by
  simp only [annotateType, gives_bind, gives_annotate, gives_pure]
  constructor
  · rintro ⟨_, _, h, rfl, rfl⟩
    exact ⟨rfl, h⟩
  · rintro ⟨rfl, h⟩
    exact ⟨(), _, h, rfl, rfl⟩

/-- A walk that goes on after a test has passed it. -/
theorem gives_unless {p : Prop} [Decidable p] {e : Fault} {x : Checking α} {a : α} :
    (if p then throw e >>= fun (_ : PUnit) => x else x).Gives σ a σ' ↔ ¬p ∧ x.Gives σ a σ' := by
  by_cases hp : p
  · simp [hp, gives_throw]
  · simp [hp]

end Checking

end PlcLang
