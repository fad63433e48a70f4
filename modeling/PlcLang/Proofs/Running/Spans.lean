import PlcLang.Proofs.Running.Changes
import PlcLang.Proofs.Running.History

/-! Parts of a run. -/

namespace PlcLang

/-- What the steps of a machine and of those behind it lead to, for as long as these are of a
kind. -/
inductive Machine.Spans (settings : Settings) (program : Annotated) (kind : Machine → Prop)
    (m : Machine) : Step → Prop where
  | first : Spans settings program kind m (m.step settings program)
  | later {m' : Machine} (before : Spans settings program kind m (.next m')) (still : kind m') :
      Spans settings program kind m (m'.step settings program)

theorem Machine.Spans.mono {settings : Settings} {program : Annotated} {kind kind' : Machine → Prop}
    {m : Machine} {last : Step} (more : ∀ m', kind m' → kind' m')
    (spans : m.Spans settings program kind last) : m.Spans settings program kind' last := by
  induction spans with
  | first => exact .first
  | later _ still ih => exact ih.later (more _ still)

/-- What the steps of a machine lead to while a frame waits in front of those that wait now. -/
def Machine.Under (settings : Settings) (program : Annotated) (m : Machine) (f : Frame) :
    Step → Prop :=
  m.Spans settings program fun m' => f :: m.frames <:+ m'.frames

/-- What a run begins with and every step keeps holds of all machines of the run. -/
theorem Machine.Reaches.keeps {settings : Settings} {program : Annotated} {m₀ m : Machine}
    {past : List Machine} {P : Machine → Prop} (run : m₀.Reaches settings program past m)
    (start : P m₀)
    (step : ∀ m₁ m₂, P m₁ → m₁.step settings program = .next m₂ → P m₂) : P m := by
  induction run with
  | start => exact start
  | step before next ih => exact step _ _ ih next

/-- The block of a program that has not yet come to `main`. -/
def Control.root? : Control → Option Env
  | .start env | .globals _ _ env | .functions _ env | .main env => some env
  | _ => none

/-- The block of a program that a global waits in. -/
def Frame.root? : Frame → Option Env
  | .global _ _ _ env => some env
  | _ => none

theorem Control.root?_of_settled {c : Control} (done : c.isSettled = true) : c.root? = none := by
  cases c with
  | value | ended | leave => rfl
  | _ => cases done

/-- Up to `main` a program runs in its own block, and nothing but a global waits. -/
structure Prelude (env : Env) (c : Control) (K : List Frame) : Prop where
  control : ∀ e, c.root? = some e → e = env ∧ K = []
  frames : ∀ f K', f :: K' <:+ K → ∀ e, f.root? = some e → e = env ∧ K' = []

namespace Prelude

variable {env : Env} {c c' : Control} {f : Frame} {K K' : List Frame}

theorem of_frames (inner : c.root? = none)
    (frames : ∀ f K', f :: K' <:+ K → ∀ e, f.root? = some e → e = env ∧ K' = []) :
    Prelude env c K where
  control e root := by
    rw [inner] at root
    cases root
  frames := frames

theorem stay (h : Prelude env c K) (inner : c'.root? = none) : Prelude env c' K :=
  of_frames inner h.frames

theorem pop (h : Prelude env c (f :: K)) (inner : c'.root? = none) : Prelude env c' K :=
  of_frames inner fun g K' below => h.frames g K' (below.trans (List.suffix_cons f K))

theorem push (h : Prelude env c K) (inner : c'.root? = none) (other : f.root? = none) :
    Prelude env c' (f :: K) := by
  refine of_frames inner fun g K' below e root => ?_
  rcases List.suffix_cons_iff.1 below with same | below
  · cases same
    rw [other] at root
    cases root
  · exact h.frames g K' below e root

theorem selects {inner : Env} {default : Option (Node Label)} {cases : List (Node Label)}
    (h : Prelude env .ended K) (selects : Selects inner K default cases c' K') :
    Prelude env c' K' := by
  induction selects with
  | none => exact h
  | default => exact h.stay rfl
  | skip _ ih => exact ih
  | test => exact h.push rfl rfl

theorem moves {s : Store} {n n' : Nat} (h : Prelude env c K) (moves : Moves s c K n c' K' n') :
    Prelude env c' K' := by
  cases moves with
  | settle _ done => exact h.stay (Control.root?_of_settled done)
  | finish _ done => exact h.pop (Control.root?_of_settled done)
  | result => exact h.pop rfl
  | start | functions | main =>
    exact ⟨fun e root => h.control e root, h.frames⟩
  | callMain => exact h.stay rfl
  | globalValue | globalBare =>
    obtain ⟨rfl, rfl⟩ := h.control _ rfl
    refine of_frames rfl fun g K' below e root => ?_
    rcases List.suffix_cons_iff.1 below with same | below
    · cases same
      cases root
      exact ⟨rfl, rfl⟩
    · exact h.frames g K' below e root
  | globalDone =>
    obtain ⟨rfl, rfl⟩ := h.frames _ _ (List.suffix_refl _) _ rfl
    refine ⟨fun e root => ?_, fun g K' below => absurd below (by simp)⟩
    cases root
    exact ⟨rfl, rfl⟩
  | group | plainCall => exact h.stay rfl
  | left | test | index | firstArgument | enter | firstElement => exact h.push rfl rfl
  | right | boolean | nextArgument | nextElement | target | round | again =>
    exact Prelude.push (c := .ended) (h.pop rfl) rfl rfl
  | lastArgument | rest | branch | taken => exact h.pop rfl
  | @statement _ rest inner _ _ _ _ starts =>
    have behind : Prelude env .ended (.rest rest inner :: K) := h.push rfl rfl
    cases starts <;> exact behind.push rfl rfl
  | subject _ selects => exact (h.pop rfl).selects selects
  | passed selects => exact (h.pop rfl).selects selects

end Prelude

/-- The machines of a run in a block. -/
theorem Machine.Reaches.prelude {settings : Settings} {program : Annotated} {env : Env} {w : World}
    {m : Machine} {past : List Machine}
    (run : (Machine.initial env w).Reaches settings program past m) :
    Prelude env m.control m.frames := by
  refine run.keeps (P := fun m => Prelude env m.control m.frames) ?_ fun m₁ m₂ h next => ?_
  · refine ⟨fun e root => ?_, fun f K below => absurd below (by simp [initial])⟩
    cases root
    exact ⟨rfl, rfl⟩
  · cases Machine.becomes next with
    | move moves on => exact h.moves moves
    | define takes => exact ⟨fun e root => h.control e root, h.frames⟩

/-! Where the frames that wait come from. -/

/-- A frame waits in front of others for what a machine has begun with: a list literal, the elements
of which it counts, an assignment, or a call. -/
def Frame.Origin (f : Frame) (K : List Frame) (p : Machine) : Prop :=
  match f with
  | .element done others env => ∃ label elements,
      p.control = .evaluate (.listLiteral label (.list elements)) env ∧ p.frames = K ∧
        elements.length = done.length + 1 + others.length
  | .assignment _ _ receiver node env => ∃ value others,
      node = .assignment receiver value ∧ p.control = .execute (node :: others) env ∧
        K = .rest others env :: p.frames
  | .target _ _ receiver => ∃ value others env,
      p.control = .execute (.assignment receiver value :: others) env ∧
        K = .rest others env :: p.frames
  | .activation k => ∃ arguments, p.control = .call k arguments ∧ p.frames = K
  | _ => True

/-- All frames come from machines of the past. -/
def Origins (past : List Machine) (K : List Frame) : Prop :=
  ∀ f K', f :: K' <:+ K → ∃ p ∈ past, f.Origin K' p

namespace Origins

variable {past : List Machine} {m : Machine} {f : Frame} {K K' : List Frame} {c c' : Control}

theorem later (h : Origins past K) : Origins (m :: past) K := by
  intro f K' below
  obtain ⟨p, mem, origin⟩ := h f K' below
  exact ⟨p, List.mem_cons_of_mem _ mem, origin⟩

theorem behind (h : Origins past (f :: K)) : Origins past K :=
  fun g K' below => h g K' (below.trans (List.suffix_cons f K))

theorem push (h : Origins past K) {p : Machine} (mem : p ∈ past) (origin : f.Origin K p) :
    Origins past (f :: K) := by
  intro g K' below
  rcases List.suffix_cons_iff.1 below with same | below
  · cases same
    exact ⟨p, mem, origin⟩
  · exact h g K' below

/-- Another frame for the same. -/
theorem swap {f' : Frame} (h : Origins past (f :: K))
    (same : ∀ p, f.Origin K p → f'.Origin K p) : Origins past (f' :: K) := by
  obtain ⟨p, mem, origin⟩ := h f K (List.suffix_refl _)
  exact h.behind.push mem (same p origin)

theorem selects {env : Env} {default : Option (Node Label)} {cases : List (Node Label)}
    (h : Origins (m :: past) K) (selects : Selects env K default cases c' K') :
    Origins (m :: past) K' := by
  induction selects with
  | none | default => exact h
  | skip _ ih => exact ih
  | test => exact Origins.push h List.mem_cons_self trivial

theorem moves {s : Store} {n n' : Nat} (h : Origins past K) (control : m.control = c)
    (frames : m.frames = K) (moves : Moves s c K n c' K' n') : Origins (m :: past) K' := by
  have h : Origins (m :: past) K := h.later
  have here : m ∈ m :: past := List.mem_cons_self
  cases moves with
  | settle | start | functions | main | callMain | group | plainCall => exact h
  | finish | result | globalDone | lastArgument | rest | branch | taken => exact h.behind
  | globalValue | globalBare | left | test | index | firstArgument => exact h.push here trivial
  | right | boolean | nextArgument | round | again => exact h.behind.push here trivial
  | enter => exact h.push here ⟨_, control, frames⟩
  | firstElement =>
    refine h.push here ⟨_, _, control, frames, ?_⟩
    rw [List.length_cons, List.length_nil]
    omega
  | nextElement =>
    refine h.swap fun p origin => ?_
    obtain ⟨label, elements, begun, below, length⟩ := origin
    refine ⟨label, elements, begun, below, ?_⟩
    simp only [List.length_cons] at length ⊢
    omega
  | @statement _ rest inner _ _ _ _ starts =>
    have behind : Origins (m :: past) (.rest rest inner :: K) := h.push here trivial
    cases starts with
    | assignment => exact behind.push here ⟨_, _, rfl, control, frames ▸ rfl⟩
    | _ => exact behind.push here trivial
  | target =>
    refine h.swap fun p origin => ?_
    obtain ⟨value, others, rfl, begun, below⟩ := origin
    exact ⟨value, others, _, begun, below⟩
  | subject _ selects => exact h.behind.selects selects
  | passed selects => exact h.behind.selects selects

end Origins

/-- In a run that begins with nothing waiting. -/
theorem Machine.Reaches.origins {settings : Settings} {program : Annotated} {m₀ m : Machine}
    {past : List Machine} (run : m₀.Reaches settings program past m) (bare : m₀.frames = []) :
    Origins past m.frames := by
  induction run with
  | start =>
    intro f K below
    rw [bare] at below
    simp at below
  | step _ next ih =>
    cases Machine.becomes next with
    | move moves on => exact ih.moves rfl rfl moves
    | define takes => exact ih.later

end PlcLang
