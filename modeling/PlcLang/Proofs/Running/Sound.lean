import PlcLang.Proofs.Running.Frames

namespace PlcLang

section

variable (c : Course) (bottom : Waiting) (F : Defined)

/-- A machine is about to do what the checker has seen, at a point where its store fits what the
checker knows. -/
inductive Sound (made : Made) : Machine → Prop where
  | evaluate {e : Node Label} {t r : Ty} {p : Scope} {cs : List Scope} {K : List Frame}
      {calls : Nat} {w : World} (typed : Typed c.demands c.found p.context e t)
      (wants : Wants c bottom w.store t r p cs K) (live : Live c F w.store made p cs) :
      Sound made ⟨.evaluate e (p.env c.root), K, calls, w⟩
  | execute {statements : List (Node Label)} {Γ : Context} {o : Prop} {r : Ty} {l : Level}
      {p : Scope} {cs : List Scope} {K : List Frame} {calls : Nat} {w : World}
      (all : CheckedAll c.demands c.found r (Scope.inside l p).context statements Γ)
      (clear : ∀ key ∈ Node.allDeclares statements, (Scope.inside l p).Clear c key)
      (reached : Node.lastReturns statements = false → o)
      (closes : Closes c bottom w.store o r (.inside l p) cs K)
      (live : Live c F w.store made (.inside l p) cs) :
      Sound made ⟨.execute statements ((Scope.inside l p).env c.root), K, calls, w⟩
  | call {n : Nat} {f : Callable} {g : Signature} {arguments : List Value} {r : Ty} {p : Scope}
      {cs : List Scope} {K : List Frame} {calls : Nat} {w : World}
      (known : w.store.functions[n]? = some f) (fulfils : Fulfils c f g)
      (admitted : Admitted c.demands arguments g.parameters)
      (wants : Wants c bottom w.store g.returns r p cs K) (live : Live c F w.store made p cs) :
      Sound made ⟨.call n arguments, K, calls, w⟩
  | value {v : Value} {t r : Ty} {p : Scope} {cs : List Scope} {K : List Frame} {calls : Nat}
      {w : World} (admits : c.demands.typed → t.admits v.tag = true)
      (wants : Wants c bottom w.store t r p cs K) (live : Live c F w.store made p cs) :
      Sound made ⟨.value v, K, calls, w⟩
  | ended {o : Prop} {r : Ty} {p : Scope} {cs : List Scope} {K : List Frame} {calls : Nat}
      {w : World} (reached : o)
      (flows : Ends c bottom w.store o r p cs K ∨ Closes c bottom w.store o r p cs K)
      (live : Live c F w.store made p cs) : Sound made ⟨.ended, K, calls, w⟩
  | leave {v : Value} {o : Prop} {r : Ty} {p : Scope} {cs : List Scope} {K : List Frame}
      {calls : Nat} {w : World} (admits : c.demands.typed → r.admits v.tag = true)
      (flows : Ends c bottom w.store o r p cs K ∨ Closes c bottom w.store o r p cs K)
      (live : Live c F w.store made p cs) : Sound made ⟨.leave v, K, calls, w⟩

/-- What a step leads to has a property, or the run has a tolerated end. -/
def Step.Leads (D : Demands) (P : Machine → Prop) : Step → Prop
  | .next m => P m
  | .halt _ result => Tolerable D result

/-- What a step leads to is sound again, or the run has a tolerated end. -/
abbrev Keeps (made : Made) (step : Step) : Prop :=
  step.Leads c.demands (Sound c bottom F made)

end

/-- A machine as its rules see it. -/
def Course.situation (c : Course) (frames : List Frame) (calls : Nat) (w : World) : Situation :=
  ⟨c.settings, c.program, frames, calls, w⟩

section

variable {D : Demands} {P : Machine → Prop} {s : Situation}

theorem leads_fail {f : Fault} (h : f.Tolerated D) : (s.fail f).Leads D P :=
  .error h

theorem Step.Leads.mono {Q : Machine → Prop} {next : Step} (h : next.Leads D P)
    (hq : ∀ m, P m → Q m) : next.Leads D Q := by
  cases next with
  | next m => exact hq m h
  | halt w result => exact h

theorem leads_require {α : Type} {x : Except Fault α} {k : α → Step} (hx : Tolerable D x)
    (hk : ∀ a, x = .ok a → (k a).Leads D P) : (s.require x k).Leads D P := by
  cases x with
  | error f => exact leads_fail (s := s) (hx f rfl)
  | ok a => exact hk a rfl

/-- Notes matter to nothing that follows. -/
theorem leads_noting {level : Nat} {n : World → Except Fault Note} {k : Situation → Step}
    (hn : Tolerable D (n s.world))
    (hk : ∀ w, w.store = s.world.store → (k (s.withWorld w)).Leads D P) :
    (s.noting level n k).Leads D P := by
  unfold Situation.noting
  split
  · exact hk s.world rfl
  · exact leads_require hn fun note _ => hk (s.world.note note) rfl

theorem leads_notingText {level : Nat} {v : Value} {n : String → Note} {k : Situation → Step}
    (hk : ∀ w, w.store = s.world.store → (k (s.withWorld w)).Leads D P) :
    (s.notingText level v n k).Leads D P :=
  leads_noting (Lists.text_tolerable _ _ _).map hk

theorem leads_requireBoolean {v : Value} {e : Node Label} {k : Bool → Step}
    (admits : D.typed → Ty.boolean.admits v.tag = true)
    (hk : ∀ b, v = .boolean b → (k b).Leads D P) : (s.requireBoolean v e k).Leads D P := by
  unfold Situation.requireBoolean
  split
  · exact hk _ rfl
  · rename_i other
    refine leads_fail (s := s) fun d => ?_
    obtain ⟨b, rfl⟩ := boolean_of_admits (admits d)
    exact other b rfl

theorem leads_requireList {v : Value} {e : Node Label} {k : Nat → Step}
    (listed : ¬ D.typed) (hk : ∀ n, (k n).Leads D P) : (s.requireList v e k).Leads D P := by
  unfold Situation.requireList
  split
  · exact hk _
  · exact leads_fail (s := s) listed

theorem leads_requireIndex {list : Nat} {v : Value} {e : Node Label} {k : Nat → Step}
    (listed : ¬ D.typed) (hk : ∀ n, (k n).Leads D P) :
    (s.requireIndex list v e k).Leads D P := by
  unfold Situation.requireIndex
  split
  · simp only
    split
    · exact leads_fail (s := s) (Fault.tolerated_ofInteger trivial)
    · exact hk _
  · exact leads_fail (s := s) listed

end

section

variable {c : Course} {bottom : Waiting} {F : Defined} {made : Made} {s : Situation}

/-- A variable is marked by the declaration that the checker found. -/
theorem mark_of_bound {label : Label} {b : Binding}
    (bound : (c.found.of label).binding = some b) :
    (c.program.found.of label).binding.map (·.id) = c.mark b := by
  rw [c.bindings, bound, Course.mark]
  cases c.byName <;> rfl

/-- Where values are of their types, variables have the types that the checker found. -/
theorem type_of_bound {label : Label} {b : Binding}
    (bound : (c.found.of label).binding = some b) (d : c.demands.typed) :
    (c.program.found.of label).binding.map (·.type) = some b.type := by
  have byId : c.byName = false := by
    cases named : c.byName with
    | true => exact ((c.plain named).2 d).elim
    | false => rfl
  rw [c.bindings, byId]
  simp [bound]

variable {p : Scope} {cs : List Scope}

/-- A name that the checker resolves stands for the variable made last for it. -/
theorem resolve_eq {key : Key} {b : Binding} {label : Label} {name : Json}
    {latest : DeclId → Option Nat} (fits : p.Fits c s.world.store latest)
    (program : s.program = c.program) (isName : name.key? = some key)
    (inScope : p.context.findVariable key = some b)
    (bound : (c.found.of label).binding = some b) :
    ∃ (n : Nat) (x : Variable), latest b.id = some n ∧ s.world.store.vars[n]? = some x ∧
      (c.demands.typed → x.type = some b.type) ∧
      ∀ node k, s.resolve (p.env c.root) (s.annotation label).binding name node k = k n x := by
  obtain ⟨n, x, hc, hl, hx, ht⟩ := fits.finds inScope
  refine ⟨n, x, hl, hx, ht, fun node k => ?_⟩
  have resolved : s.world.store.resolve (p.env c.root)
      ((s.annotation label).binding.map (·.id)) name = some (some n) := by
    unfold Situation.annotation
    rw [program, c.bindings]
    unfold Course.caught at hc
    cases named : c.byName with
    | true =>
      simp only [named, ↓reduceIte, Option.map_none, Store.resolve, isName, Option.map_some,
        Store.findVariable] at hc ⊢
      rw [hc]
    | false =>
      simp only [named, Bool.false_eq_true, ↓reduceIte, bound, Option.map_some, Store.resolve,
        Store.findBinding] at hc ⊢
      rw [hc]
  unfold Situation.resolve
  simp only [resolved, hx]

/-- A call that the checker resolves is one of a function that does what the checker knows. -/
theorem invoke_eq {key : Key} {g : Signature} {name : Json} {arguments : List Value}
    (live : Live c F s.world.store made p cs) (isName : name.key? = some key)
    (inScope : p.context.findFunction key arguments.length = some g) :
    ∃ (n : Nat) (f : Callable), s.world.store.functions[n]? = some f ∧ Fulfils c f g ∧
      ∀ node, s.invoke (p.env c.root) name arguments node = s.go (.call n arguments) := by
  obtain ⟨n, f, hn, hf, hd⟩ := live.fits.finds_function inScope
  refine ⟨n, f, hf, hd, fun node => ?_⟩
  unfold Situation.invoke
  rw [key_ok.2 isName]
  simp only [Situation.require, Step.require, hn]

end

end PlcLang
