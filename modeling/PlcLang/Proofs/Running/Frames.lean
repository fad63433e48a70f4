import PlcLang.Proofs.Running.Live
import PlcLang.Proofs.Values.Applied

namespace PlcLang

/-- The scope of the condition of a loop, whose body runs in the block of `l` inside `p`. -/
def Course.turn (c : Course) (l : Level) (p : Scope) : Scope :=
  match c.settings.loops with
  | .shared => .inside { l with vars := [], loop := true } p
  | .perRound => p

/-- Values that are given for parameters of these types. -/
inductive Admitted (D : Demands) : List Value → List Ty → Prop where
  | nil : Admitted D [] []
  | cons {v : Value} {vs : List Value} {t : Ty} {ts : List Ty}
      (first : D.typed → t.admits v.tag = true) (others : Admitted D vs ts) :
      Admitted D (v :: vs) (t :: ts)

/-- The frames at the bottom, which wait for a value in some scope. What they do with it is left
open. -/
structure Waiting where
  frames : List Frame
  asks : Ty → Scope → List Scope → Prop

section

variable (c : Course) (bottom : Waiting) (s : Store)

mutual
/-- The frames take a value of a type, found at a point of a function that returns `r`. -/
inductive Wants : Ty → Ty → Scope → List Scope → List Frame → Prop where
  | bottom {t r : Ty} {p : Scope} {cs : List Scope} (asks : bottom.asks t p cs) :
      Wants t r p cs bottom.frames
  | left {op : Operator} {right node whole : Node Label} {leftNode : Node Label} {l u t r : Ty}
      {p : Scope} {cs : List Scope} {K : List Frame} (strict : op ≠ .and ∧ op ≠ .or)
      (second : Typed c.demands c.found p.context right u)
      (fits : binaryType op leftNode right whole l u = .ok t)
      (ordered : c.demands.typed → op = .less ∨ op = .greater → l ≠ .comparable)
      (behind : Wants t r p cs K) : Wants l r p cs (.left op right node (p.env c.root) :: K)
  | right {op : Operator} {v : Value} {node leftNode rightNode whole : Node Label} {l u t r : Ty}
      {p : Scope} {cs : List Scope} {K : List Frame} (strict : op ≠ .and ∧ op ≠ .or)
      (admits : c.demands.typed → l.admits v.tag = true)
      (fits : binaryType op leftNode rightNode whole l u = .ok t)
      (ordered : c.demands.typed → op = .less ∨ op = .greater → l ≠ .comparable)
      (behind : Wants t r p cs K) : Wants u r p cs (.right op v node :: K)
  | test {decisive : Bool} {left right : Node Label} {r : Ty} {p : Scope} {cs : List Scope}
      {K : List Frame} (second : Typed c.demands c.found p.context right .boolean)
      (behind : Wants .boolean r p cs K) :
      Wants .boolean r p cs (.test decisive left right (p.env c.root) :: K)
  | boolean {e : Node Label} {r : Ty} {p : Scope} {cs : List Scope} {K : List Frame}
      (behind : Wants .boolean r p cs K) : Wants .boolean r p cs (.boolean e :: K)
  | index {list : Nat} {node : Node Label} {t u r : Ty} {p : Scope} {cs : List Scope}
      {K : List Frame} (listed : ¬ c.demands.typed) (behind : Wants t r p cs K) :
      Wants u r p cs (.index list node :: K)
  | argument {name : Json} {key : Key} {done : List Value} {rest : List (Node Label)}
      {node : Node Label} {f : Signature} {before after : List Ty} {t u r : Ty} {p : Scope}
      {cs : List Scope} {K : List Frame} (isName : name.key? = some key)
      (inScope : p.context.findFunction key (done.length + 1 + rest.length) = some f)
      (takes : f.parameters = before ++ u :: after)
      (admitted : Admitted c.demands done.reverse before) (fits : u.accepts t = true)
      (others : TypedArguments c.demands c.found p.context rest after)
      (behind : Wants f.returns r p cs K) :
      Wants t r p cs (.argument name done rest node (p.env c.root) :: K)
  | element {done : List Value} {rest : List (Node Label)} {t u v r : Ty} {p : Scope}
      {cs : List Scope} {K : List Frame} (listed : ¬ c.demands.typed)
      (others : TypedElements c.demands c.found p.context rest u) (behind : Wants v r p cs K) :
      Wants t r p cs (.element done rest (p.env c.root) :: K)
  | discard {t r : Ty} {p : Scope} {cs : List Scope} {K : List Frame}
      (behind : Ends True r p cs K) : Wants t r p cs (.discard :: K)
  | declaration {label : Label} {name : Json} {key : Key} {b : Binding} {Γ : Context} {t r : Ty}
      {l : Level} {p : Scope} {cs : List Scope} {K : List Frame} (isName : name.key? = some key)
      (adds : (Scope.inside l p).context.Adds key b Γ)
      (clear : (Scope.inside l p).Clear c key) (here : b.id.label = label)
      (bound : (c.found.of label).binding = some b) (fits : b.type.accepts t = true)
      (behind : Ends True r ((Scope.inside l p).declare key b) cs K) :
      Wants t r (.inside l p) cs
        (.declaration label name ((Scope.inside l p).env c.root) :: K)
  | assignment {n : Nat} {label : Label} {name : Json} {offset node : Node Label} {x : Variable}
      {t u r : Ty} {p : Scope} {cs : List Scope} {K : List Frame}
      (target : Typed c.demands c.found p.context (.access label name offset) t)
      (aim : s.vars[n]? = some x) (aimed : c.demands.typed → x.type = some t)
      (fits : t.accepts u = true) (behind : Ends True r p cs K) :
      Wants u r p cs
        (.assignment n offset (.access label name offset) node (p.env c.root) :: K)
  | target {list : Nat} {v : Value} {receiver : Node Label} {t r : Ty} {p : Scope}
      {cs : List Scope} {K : List Frame} (listed : ¬ c.demands.typed)
      (behind : Ends True r p cs K) : Wants t r p cs (.target list v receiver :: K)
  | branch {condition : Node Label} {thens elses : List (Node Label)} {Γ₁ Γ₂ : Context} {o : Prop}
      {r : Ty} {p : Scope} {cs : List Scope} {K : List Frame}
      (thenChecked : CheckedAll c.demands c.found r p.context.child thens Γ₁)
      (elseChecked : CheckedAll c.demands c.found r p.context.child elses Γ₂)
      (thenEnds : Node.lastReturns thens = false → o)
      (elseEnds : Node.lastReturns elses = false → o) (behind : Ends o r p cs K) :
      Wants .boolean r p cs (.branch condition (.list thens) (.list elses) (p.env c.root) :: K)
  | subject {cases : List (Node Label)} {o : Prop} {t r : Ty} {p : Scope} {cs : List Scope}
      {K : List Frame} (branches : CheckedCases c.demands c.found r p.context t cases)
      (each : Node.eachReturns cases = false → o) (behind : Ends o r p cs K) :
      Wants t r p cs (.subject (.list cases) (p.env c.root) :: K)
  | case {subject : Value} {value : Node Label} {statements rest : List (Node Label)}
      {Γ : Context} {o : Prop} {t u r : Ty} {p : Scope} {cs : List Scope} {K : List Frame}
      (body : CheckedAll c.demands c.found r p.context.child statements Γ)
      (others : CheckedCases c.demands c.found r p.context t rest)
      (bodyEnds : Node.lastReturns statements = false → o)
      (each : Node.eachReturns rest = false → o) (behind : Ends o r p cs K) :
      Wants u r p cs
        (.case subject none (.case value (.list statements)) rest (p.env c.root) :: K)
  | condition {condition : Node Label} {statements : List (Node Label)} {Γ : Context} {l : Level}
      {r : Ty} {p q : Scope} {cs : List Scope} {K : List Frame} (around : q = c.turn l p)
      (test : Typed c.demands c.found p.context condition .boolean)
      (clear : c.demands.clear → ∀ key ∈ Node.allDeclares statements,
        p.context.findVariable key = none)
      (body : CheckedAll c.demands c.found r p.context.child statements Γ)
      (behind : Ends True r p cs K) :
      Wants .boolean r q cs (.condition condition (.list statements) (q.env c.root) :: K)
  | result {t r : Ty} {p : Scope} {cs : List Scope} {K : List Frame} (fits : r.accepts t = true)
      (behind : Ends False r p cs K) : Wants t r p cs (.result :: K)

/-- The frames take the end of a statement, in the scope behind it. `o` says that it can be
reached. -/
inductive Ends : Prop → Ty → Scope → List Scope → List Frame → Prop where
  | rest {statements : List (Node Label)} {Γ : Context} {o o' : Prop} {r : Ty} {l : Level}
      {p : Scope} {cs : List Scope} {K : List Frame}
      (all : CheckedAll c.demands c.found r (Scope.inside l p).context statements Γ)
      (clear : ∀ key ∈ Node.allDeclares statements, (Scope.inside l p).Clear c key)
      (reached : o → Node.lastReturns statements = false → o')
      (closes : Closes o' r (.inside l p) cs K) :
      Ends o r (.inside l p) cs (.rest statements ((Scope.inside l p).env c.root) :: K)

/-- The frames take the end of the statements of a block. -/
inductive Closes : Prop → Ty → Scope → List Scope → List Frame → Prop where
  | block {o : Prop} {r : Ty} {l : Level} {p : Scope} {cs : List Scope} {K : List Frame}
      (behind : Ends o r p cs K) : Closes o r (.inside l p) cs K
  | round {condition : Node Label} {statements : List (Node Label)} {Γ : Context} {o : Prop}
      {r : Ty} {l : Level} {p : Scope} {cs : List Scope} {K : List Frame}
      (looping : c.settings.loops = .shared → l.loop = true)
      (test : Typed c.demands c.found p.context condition .boolean)
      (clear : c.demands.clear → ∀ key ∈ Node.allDeclares statements,
        p.context.findVariable key = none)
      (body : CheckedAll c.demands c.found r p.context.child statements Γ)
      (behind : Ends True r p cs K) :
      Closes o r (.inside l p) cs
        (.round condition (.list statements) ((c.turn l p).env c.root) :: K)
  | activation {n : Nat} {o : Prop} {r r' : Ty} {p q : Scope} {cs : List Scope} {K : List Frame}
      (ends : o → c.demands.typed → r = .nil) (behind : Wants r r' q cs K) :
      Closes o r p (q :: cs) (.activation n :: K)
end

end

section

variable {c : Course} {bottom : Waiting} {s s' : Store}

mutual
/-- Frames wait on while the store grows. -/
theorem Wants.grow {t r : Ty} {p : Scope} {cs : List Scope} {K : List Frame}
    (g : s.Grows s') (h : Wants c bottom s t r p cs K) :
    Wants c bottom s' t r p cs K := by
  cases h with
  | bottom asks => exact .bottom asks
  | left strict second fits ordered behind =>
    exact .left strict second fits ordered (Wants.grow g behind)
  | right strict admits fits ordered behind =>
    exact .right strict admits fits ordered (Wants.grow g behind)
  | test second behind => exact .test second (Wants.grow g behind)
  | boolean behind => exact .boolean (Wants.grow g behind)
  | index listed behind => exact .index listed (Wants.grow g behind)
  | argument isName inScope takes admitted fits others behind =>
    exact .argument isName inScope takes admitted fits others (Wants.grow g behind)
  | element listed others behind => exact .element listed others (Wants.grow g behind)
  | discard behind => exact .discard (Ends.grow g behind)
  | declaration isName adds clear here bound fits behind =>
    exact .declaration isName adds clear here bound fits (Ends.grow g behind)
  | assignment target aim aimed fits behind =>
    obtain ⟨y, hy, ht⟩ := g.vars _ _ aim
    exact .assignment target hy (fun d => ht.trans (aimed d)) fits (Ends.grow g behind)
  | target listed behind => exact .target listed (Ends.grow g behind)
  | branch thenChecked elseChecked thenEnds elseEnds behind =>
    exact .branch thenChecked elseChecked thenEnds elseEnds (Ends.grow g behind)
  | subject branches each behind => exact .subject branches each (Ends.grow g behind)
  | case body others bodyEnds each behind =>
    exact .case body others bodyEnds each (Ends.grow g behind)
  | condition around test clear body behind =>
    exact .condition around test clear body (Ends.grow g behind)
  | result fits behind => exact .result fits (Ends.grow g behind)
termination_by 2 * K.length

theorem Ends.grow {o : Prop} {r : Ty} {p : Scope} {cs : List Scope} {K : List Frame}
    (g : s.Grows s') (h : Ends c bottom s o r p cs K) :
    Ends c bottom s' o r p cs K := by
  cases h with
  | rest all clear reached closes => exact .rest all clear reached (Closes.grow g closes)
termination_by 2 * K.length

theorem Closes.grow {o : Prop} {r : Ty} {p : Scope} {cs : List Scope} {K : List Frame}
    (g : s.Grows s') (h : Closes c bottom s o r p cs K) :
    Closes c bottom s' o r p cs K := by
  cases h with
  | block behind => exact .block (Ends.grow g behind)
  | round looping test clear body behind =>
    exact .round looping test clear body (Ends.grow g behind)
  | activation ends behind => exact .activation ends (Wants.grow g behind)
termination_by 2 * K.length + 1
end

theorem Ends.weaken {o o' : Prop} {r : Ty} {p : Scope} {cs : List Scope} {K : List Frame}
    (h : Ends c bottom s o r p cs K) (ho : o' → o) : Ends c bottom s o' r p cs K := by
  cases h with
  | rest all clear reached closes => exact .rest all clear (fun x => reached (ho x)) closes

/-- Statements stand in functions only. -/
theorem Ends.inside {o : Prop} {r : Ty} {p : Scope} {cs : List Scope} {K : List Frame}
    (h : Ends c bottom s o r p cs K) : ∃ l q, p = .inside l q := by
  cases h with
  | rest => exact ⟨_, _, rfl⟩

theorem ends_or_closes_cons {o : Prop} {r : Ty} {p : Scope} {cs : List Scope} {K : List Frame}
    (h : Ends c bottom s o r p cs K ∨ Closes c bottom s o r p cs K) :
    ∃ frame K', K = frame :: K' := by
  rcases h with h | h
  · cases h
    exact ⟨_, _, rfl⟩
  · cases h with
    | block behind =>
      cases behind
      exact ⟨_, _, rfl⟩
    | round => exact ⟨_, _, rfl⟩
    | activation => exact ⟨_, _, rfl⟩

/-- What a block knows of its variables does not matter to what follows it. -/
theorem Closes.declare {o : Prop} {r : Ty} {p : Scope} {cs : List Scope} {K : List Frame}
    {key : Key} {b : Binding} (h : Closes c bottom s o r p cs K) :
    Closes c bottom s o r (p.declare key b) cs K := by
  cases h with
  | block behind => exact .block behind
  | round looping test clear body behind => exact .round looping test clear body behind
  | activation ends behind => exact .activation ends behind

mutual
/-- The frames at the bottom are never gone before they have their value. -/
theorem Wants.deep {t r : Ty} {p : Scope} {cs : List Scope} {K : List Frame}
    (h : Wants c bottom s t r p cs K) : bottom.frames.length ≤ K.length := by
  cases h with
  | bottom asks => exact Nat.le_refl _
  | left _ _ _ _ behind => exact Nat.le_succ_of_le (Wants.deep behind)
  | right _ _ _ _ behind => exact Nat.le_succ_of_le (Wants.deep behind)
  | test _ behind => exact Nat.le_succ_of_le (Wants.deep behind)
  | boolean behind => exact Nat.le_succ_of_le (Wants.deep behind)
  | index _ behind => exact Nat.le_succ_of_le (Wants.deep behind)
  | argument _ _ _ _ _ _ behind => exact Nat.le_succ_of_le (Wants.deep behind)
  | element _ _ behind => exact Nat.le_succ_of_le (Wants.deep behind)
  | discard behind => exact Nat.le_succ_of_le (Ends.deep behind)
  | declaration _ _ _ _ _ _ behind => exact Nat.le_succ_of_le (Ends.deep behind)
  | assignment _ _ _ _ behind => exact Nat.le_succ_of_le (Ends.deep behind)
  | target _ behind => exact Nat.le_succ_of_le (Ends.deep behind)
  | branch _ _ _ _ behind => exact Nat.le_succ_of_le (Ends.deep behind)
  | subject _ _ behind => exact Nat.le_succ_of_le (Ends.deep behind)
  | case _ _ _ _ behind => exact Nat.le_succ_of_le (Ends.deep behind)
  | condition _ _ _ _ behind => exact Nat.le_succ_of_le (Ends.deep behind)
  | result _ behind => exact Nat.le_succ_of_le (Ends.deep behind)
termination_by 2 * K.length

theorem Ends.deep {o : Prop} {r : Ty} {p : Scope} {cs : List Scope} {K : List Frame}
    (h : Ends c bottom s o r p cs K) : bottom.frames.length ≤ K.length := by
  cases h with
  | rest _ _ _ closes => exact Nat.le_succ_of_le (Closes.deep closes)
termination_by 2 * K.length

theorem Closes.deep {o : Prop} {r : Ty} {p : Scope} {cs : List Scope} {K : List Frame}
    (h : Closes c bottom s o r p cs K) : bottom.frames.length ≤ K.length := by
  cases h with
  | block behind => exact Ends.deep behind
  | round _ _ _ _ behind => exact Nat.le_succ_of_le (Ends.deep behind)
  | activation _ behind => exact Nat.le_succ_of_le (Wants.deep behind)
termination_by 2 * K.length + 1
end

theorem Wants.asks {t r : Ty} {p : Scope} {cs : List Scope} {K : List Frame}
    (h : Wants c bottom s t r p cs K) (hK : K = bottom.frames) : bottom.asks t p cs := by
  cases h with
  | bottom asks => exact asks
  | left _ _ _ _ behind | right _ _ _ _ behind | test _ behind | boolean behind | index _ behind
  | argument _ _ _ _ _ _ behind | element _ _ behind =>
    have deep := behind.deep
    rw [← hK] at deep
    exact (Nat.not_succ_le_self _ deep).elim
  | discard behind | declaration _ _ _ _ _ _ behind | assignment _ _ _ _ behind | target _ behind
  | branch _ _ _ _ behind | subject _ _ behind | case _ _ _ _ behind | condition _ _ _ _ behind
  | result _ behind =>
    have deep := behind.deep
    rw [← hK] at deep
    exact (Nat.not_succ_le_self _ deep).elim

end

section

variable {D : Demands} {found : Annotations}

mutual
/-- A new block changes no types. -/
theorem Typed.child {Γ : Context} {e : Node Label} {t : Ty} (h : Typed D found Γ e t) :
    Typed D found Γ.child e t := by
  cases h with
  | literal fits noted => exact .literal fits noted
  | group inside noted => exact .group (Typed.child inside) noted
  | binary first second fits ordered noted =>
    exact .binary (Typed.child first) (Typed.child second) fits ordered noted
  | access isName inScope bound noted => exact .access isName inScope bound noted
  | element listed given index isName inScope bound noted =>
    exact .element listed given (Typed.child index) isName inScope bound noted
  | call isName inScope given noted =>
    exact .call isName inScope (TypedArguments.child given) noted
  | missing listed noted => exact .missing listed noted
  | list listed inside noted => exact .list listed (TypedElements.child inside) noted
termination_by sizeOf e

theorem TypedArguments.child {Γ : Context} {arguments : List (Node Label)} {parameters : List Ty}
    (h : TypedArguments D found Γ arguments parameters) :
    TypedArguments D found Γ.child arguments parameters := by
  cases h with
  | nil => exact .nil
  | cons first fits others =>
    exact .cons (Typed.child first) fits (TypedArguments.child others)
termination_by sizeOf arguments

theorem TypedElements.child {Γ : Context} {elements : List (Node Label)} {t : Ty}
    (h : TypedElements D found Γ elements t) : TypedElements D found Γ.child elements t := by
  cases h with
  | nil => exact .nil
  | cons first others => exact .cons (Typed.child first) (TypedElements.child others)
termination_by sizeOf elements
end

/-- The condition of a loop has its type also in the scope where it is evaluated. -/
theorem Typed.turn {c : Course} {l : Level} {p : Scope} {e : Node Label} {t : Ty}
    (h : Typed D found p.context e t) : Typed D found (c.turn l p).context e t := by
  unfold Course.turn
  split
  · exact h.child
  · exact h

theorem Admitted.snoc {vs : List Value} {ts : List Ty} {v : Value} {t : Ty}
    (h : Admitted D vs ts) (hv : D.typed → t.admits v.tag = true) :
    Admitted D (vs ++ [v]) (ts ++ [t]) := by
  induction h with
  | nil => exact .cons hv .nil
  | cons first _ ih => exact .cons first ih

end

end PlcLang
