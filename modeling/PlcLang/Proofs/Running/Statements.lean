import PlcLang.Proofs.Running.Sound

namespace PlcLang

/-- The scope behind a statement in a scope: the same, or one more variable. -/
def Scope.Follows (p q : Scope) : Prop :=
  q = p ∨ ∃ key b, q = p.declare key b

section

variable {c : Course} {bottom : Waiting} {F : Defined} {made : Made} {t u r : Ty}
  {l : Level} {p q : Scope} {cs : List Scope} {K : List Frame} {calls : Nat} {w : World} {v : Value}
  {o : Prop}

/-- An access to a variable that the checker has resolved. -/
theorem typed_access {label : Label} {name : Json} {offset : Node Label} {Γ : Context}
    (h : Typed c.demands c.found Γ (.access label name offset) t) :
    ∃ key b, name.key? = some key ∧ Γ.findVariable key = some b ∧
      (c.found.of label).binding = some b ∧ t = b.type ∧
      (offset.isAbsent = false → ¬ c.demands.typed ∧
        Typed c.demands c.found Γ offset .integer) := by
  cases h with
  | access isName inScope bound _ =>
    exact ⟨_, _, isName, inScope, bound, rfl, fun given => by simp [Node.isAbsent] at given⟩
  | element listed _ index isName inScope bound _ =>
    exact ⟨_, _, isName, inScope, bound, rfl, fun _ => ⟨listed, index⟩⟩

/-- Statements run in a block of their own. -/
theorem enter_keeps {statements : List (Node Label)} {Γ : Context}
    (all : CheckedAll c.demands c.found r p.context.child statements Γ)
    (reached : Node.lastReturns statements = false → o)
    (behind : Ends c bottom w.store o r p cs K) (live : Live c F w.store made p cs) :
    Keeps c bottom F made ((c.situation K calls w).enter (.list statements) (p.env c.root)) := by
  obtain ⟨l, p, rfl⟩ := behind.inside
  have behind := behind.grow (Store.grows_openBlock w.store ((Scope.inside l p).env c.root))
  exact Sound.execute (l := ⟨w.store.blocks.size, [], false⟩) all
    (fun _ _ looping => by cases looping) reached (.block behind) (live.open false)

theorem take_keeps {statements : List (Node Label)} {Γ : Context} {subject : Value}
    {reason : String} (value : Node Label)
    (all : CheckedAll c.demands c.found r p.context.child statements Γ)
    (reached : Node.lastReturns statements = false → o)
    (behind : Ends c bottom w.store o r p cs K) (live : Live c F w.store made p cs) :
    Keeps c bottom F made ((c.situation K calls w).take subject reason
      (.case value (.list statements)) (p.env c.root)) := by
  refine leads_notingText fun w' hw => ?_
  exact enter_keeps (w := w') all reached (hw ▸ behind) (hw ▸ live)

/-- A branch of a switch is chosen, or another value is asked for. -/
theorem select_keeps {cases : List (Node Label)} {subject : Value}
    (branches : CheckedCases c.demands c.found r p.context t cases)
    (each : Node.eachReturns cases = false → o)
    (behind : Ends c bottom w.store o r p cs K) (live : Live c F w.store made p cs) :
    Keeps c bottom F made
      ((c.situation K calls w).select subject none (p.env c.root) cases) := by
  cases branches with
  | last body =>
    refine take_keeps .absent body (fun h => each ?_) behind live
    simpa [Node.eachReturns, Node.alwaysReturns] using h
  | cons given typed fits body others =>
    simp only [Situation.select, Node.content?, content_ofNode given]
    refine Sound.evaluate typed
      (.case body others (fun h => each ?_) (fun h => each ?_) behind) live
    · simp [Node.eachReturns, Node.alwaysReturns, h]
    · simp [Node.eachReturns, h]

theorem turn_shared (h : c.settings.loops = .shared) :
    c.turn l p = .inside { l with vars := [], loop := true } p := by
  simp only [Course.turn, h]

theorem turn_perRound (h : c.settings.loops = .perRound) : c.turn l p = p := by
  simp only [Course.turn, h]

theorem executeOne_keeps {statement : Node Label} {Γ : Context}
    (checked : Checked c.demands c.found r (Scope.inside l p).context statement Γ)
    (clear : ∀ key ∈ statement.declares, (Scope.inside l p).Clear c key)
    (reached : statement.alwaysReturns = false → o)
    (behind : ∀ q, q.context = Γ → (Scope.inside l p).Follows q →
      Ends c bottom w.store o r q cs K)
    (live : Live c F w.store made (.inside l p) cs) :
    Keeps c bottom F made
      ((c.situation K calls w).executeOne statement ((Scope.inside l p).env c.root)) := by
  cases checked with
  | expression typed =>
    have behind : Ends c bottom w.store True r _ cs K :=
      (behind _ rfl (Or.inl rfl)).weaken fun _ => reached rfl
    exact Sound.evaluate typed (.discard behind) live
  | declaration initial isName adds here bound =>
    rename_i label name typeName value key b
    have behind : Ends c bottom w.store True r ((Scope.inside l p).declare key b) cs K :=
      (behind _ (Scope.context_declare adds) (Or.inr ⟨key, b, rfl⟩)).weaken fun _ => reached rfl
    have hidden := clear key (by simp [Node.declares, isName])
    cases initial with
    | none empty =>
      refine Sound.value (t := b.type) (r := r) (fun d => by rw [empty d]; rfl) ?_ live
      exact .declaration isName adds hidden here bound (Ty.accepts_self _) behind
    | value given typed fits =>
      simp only [Situation.executeOne, given, Bool.false_eq_true, ↓reduceIte]
      exact Sound.evaluate typed (.declaration isName adds hidden here bound fits behind) live
  | assignment target source fits =>
    obtain ⟨key, b, isName, inScope, bound, rfl, _⟩ := typed_access target
    obtain ⟨n, x, _, hx, ht, he⟩ :=
      resolve_eq (s := c.situation K calls w) live.fits rfl isName inScope bound
    simp only [Situation.executeOne, he]
    have behind : Ends c bottom w.store True r _ cs K :=
      (behind _ rfl (Or.inl rfl)).weaken fun _ => reached rfl
    exact Sound.evaluate source (.assignment target hx ht fits behind) live
  | conditional test thenChecked elseChecked =>
    have behind := behind _ rfl (Or.inl rfl)
    refine Sound.evaluate test (.branch thenChecked elseChecked (fun h => reached ?_)
      (fun h => reached ?_) behind) live
    · simp [Node.alwaysReturns, h]
    · simp [Node.alwaysReturns, h]
  | switch subject branches =>
    exact Sound.evaluate subject (.subject branches reached (behind _ rfl (Or.inl rfl))) live
  | loop test hidden body =>
    have behind : Ends c bottom w.store True r _ cs K :=
      (behind _ rfl (Or.inl rfl)).weaken fun _ => reached rfl
    simp only [Situation.executeOne, Course.situation]
    cases loops : c.settings.loops with
    | shared =>
      have around := turn_shared (l := ⟨w.store.blocks.size, [], true⟩) (p := .inside l p) loops
      have behind := behind.grow (Store.grows_openBlock w.store ((Scope.inside l p).env c.root))
      exact Sound.evaluate test.child (.condition around.symm test hidden body behind)
        (live.open true)
    | perRound =>
      exact Sound.evaluate test
        (.condition (turn_perRound (l := l) loops).symm test hidden body behind) live
  | ret typed fits =>
    have behind : Ends c bottom w.store False r _ cs K :=
      (behind _ rfl (Or.inl rfl)).weaken False.elim
    exact Sound.evaluate typed (.result fits behind) live

/-- The statements behind one wait in the scope that it leads to. -/
theorem ends_of_closes {statements : List (Node Label)} {Γ : Context} {o' : Prop}
    (all : CheckedAll c.demands c.found r q.context statements Γ)
    (follows : (Scope.inside l p).Follows q)
    (clear : ∀ key ∈ Node.allDeclares statements, (Scope.inside l p).Clear c key)
    (reached : o → Node.lastReturns statements = false → o')
    (closes : Closes c bottom w.store o' r (.inside l p) cs K) :
    Ends c bottom w.store o r q cs
      (.rest statements ((Scope.inside l p).env c.root) :: K) := by
  rcases follows with rfl | ⟨key, b, rfl⟩
  · exact .rest all clear reached closes
  · exact .rest all clear reached closes.declare

theorem executeAll_keeps {statements : List (Node Label)} {Γ : Context}
    (all : CheckedAll c.demands c.found r (Scope.inside l p).context statements Γ)
    (clear : ∀ key ∈ Node.allDeclares statements, (Scope.inside l p).Clear c key)
    (reached : Node.lastReturns statements = false → o)
    (closes : Closes c bottom w.store o r (.inside l p) cs K)
    (live : Live c F w.store made (.inside l p) cs) :
    Keeps c bottom F made
      ((c.situation K calls w).executeAll statements ((Scope.inside l p).env c.root)) := by
  cases all with
  | nil => exact Sound.ended (reached rfl) (Or.inr closes) live
  | cons first others =>
    rename_i Γ' statement rest
    have declared {key : Key} (h : key ∈ statement.declares ∨ key ∈ Node.allDeclares rest) :
        (Scope.inside l p).Clear c key :=
      clear key (by simpa [Node.allDeclares] using h)
    refine executeOne_keeps first (fun key hk => declared (Or.inl hk)) id
      (fun q hq follows => ?_) live
    subst hq
    refine ends_of_closes others follows (fun key hk => declared (Or.inr hk)) (fun h h' => ?_)
      closes
    apply reached
    cases rest with
    | nil => exact h
    | cons => exact h'

/-- A declaration has its value: a variable is made. -/
theorem resume_declaration {label : Label} {name : Json} {key : Key} {b : Binding} {Γ : Context}
    (isName : name.key? = some key) (adds : (Scope.inside l p).context.Adds key b Γ)
    (clear : (Scope.inside l p).Clear c key)
    (bound : (c.found.of label).binding = some b) (fits : b.type.accepts t = true)
    (admits : c.demands.typed → t.admits v.tag = true)
    (behind : Ends c bottom w.store True r ((Scope.inside l p).declare key b) cs K)
    (live : Live c F w.store made (.inside l p) cs) :
    Keeps c bottom F
      (made.after c.found
        ⟨.value v, .declaration label name ((Scope.inside l p).env c.root) :: K, calls, w⟩)
      ((c.situation K calls w).resume v
        (.declaration label name ((Scope.inside l p).env c.root))) := by
  obtain ⟨G, Ts⟩ := made
  cases Ts with
  | nil => cases live.chain
  | cons T Ts =>
    have after : Made.note c.found label w.store.vars.size T = T.put b.id w.store.vars.size := by
      simp only [Made.note, bound]
    simp only [Made.after, after, Situation.resume, key_ok.2 isName, Situation.require,
      Step.require]
    refine leads_notingText fun w' hw => ?_
    have store : w'.store = w.store.add ((Scope.inside l p).env c.root) key
        ⟨name, (c.program.found.of label).binding.map (·.type), true, v⟩ (c.mark b) := by
      rw [hw, ← mark_of_bound bound]
      rfl
    have behind : Ends c bottom w'.store True r ((Scope.inside l p).declare key b) cs K :=
      store ▸ behind.grow Store.grows_add
    have live : Live c F w'.store ⟨G, T.put b.id w.store.vars.size :: Ts⟩
        ((Scope.inside l p).declare key b) cs :=
      store ▸ live.declare adds clear (type_of_bound bound) fun d =>
        Ty.admits_of_accepts fits (admits d)
    exact Sound.ended trivial (Or.inl behind) live

/-- A variable, or an element of the list in it, takes a value. -/
theorem resume_assignment {n : Nat} {label : Label} {name : Json} {offset node : Node Label}
    {x : Variable}
    (target : Typed c.demands c.found p.context (.access label name offset) t)
    (aim : w.store.vars[n]? = some x) (aimed : c.demands.typed → x.type = some t)
    (fits : t.accepts u = true) (admits : c.demands.typed → u.admits v.tag = true)
    (behind : Ends c bottom w.store True r p cs K) (live : Live c F w.store made p cs) :
    Keeps c bottom F made ((c.situation K calls w).resume v
      (.assignment n offset (.access label name offset) node (p.env c.root))) := by
  obtain ⟨key, b, _, _, _, _, given⟩ := typed_access target
  simp only [Situation.resume, Course.situation, aim]
  split
  · exact leads_fail (s := c.situation K calls w) trivial
  · split
    · have live : Live c F (w.store.setValue n v) made p cs := by
        refine live.setValue fun d y t' hy ht => ?_
        obtain rfl := Option.some.inj (aim.symm.trans hy)
        rw [aimed d] at ht
        cases ht
        exact Ty.admits_of_accepts fits (admits d)
      exact Sound.ended trivial (Or.inl (behind.grow Store.grows_setValue)) live
    · rename_i offset_given
      obtain ⟨listed, index⟩ := given (by simpa using offset_given)
      exact leads_requireList (s := c.situation K calls w) listed fun list =>
        Sound.evaluate index (.target listed behind) live

theorem resume_target {list : Nat} {a : Value} {receiver : Node Label}
    (listed : ¬ c.demands.typed) (behind : Ends c bottom w.store True r p cs K)
    (live : Live c F w.store made p cs) :
    Keeps c bottom F made ((c.situation K calls w).resume v (.target list a receiver)) := by
  simp only [Situation.resume]
  refine leads_requireIndex listed fun i => ?_
  have behind : Ends c bottom (w.store.setElement list i a) True r p cs K :=
    behind.grow Store.grows_lists
  exact Sound.ended trivial (Or.inl behind) live.setLists

theorem resume_branch {condition : Node Label} {thens elses : List (Node Label)}
    {Γ₁ Γ₂ : Context}
    (thenChecked : CheckedAll c.demands c.found r p.context.child thens Γ₁)
    (elseChecked : CheckedAll c.demands c.found r p.context.child elses Γ₂)
    (thenEnds : Node.lastReturns thens = false → o)
    (elseEnds : Node.lastReturns elses = false → o)
    (admits : c.demands.typed → Ty.boolean.admits v.tag = true)
    (behind : Ends c bottom w.store o r p cs K) (live : Live c F w.store made p cs) :
    Keeps c bottom F made ((c.situation K calls w).resume v
      (.branch condition (.list thens) (.list elses) (p.env c.root))) := by
  refine leads_requireBoolean admits fun b _ => leads_notingText fun w' hw => ?_
  have behind : Ends c bottom w'.store o r p cs K := hw ▸ behind
  have live : Live c F w'.store made p cs := hw ▸ live
  cases b with
  | true => exact enter_keeps thenChecked thenEnds behind live
  | false => exact enter_keeps elseChecked elseEnds behind live

/-- A case is taken, or the next one is tried. -/
theorem resume_case {subject : Value} {value : Node Label} {statements rest : List (Node Label)}
    {Γ : Context} (body : CheckedAll c.demands c.found r p.context.child statements Γ)
    (others : CheckedCases c.demands c.found r p.context t rest)
    (bodyEnds : Node.lastReturns statements = false → o)
    (each : Node.eachReturns rest = false → o)
    (behind : Ends c bottom w.store o r p cs K) (live : Live c F w.store made p cs) :
    Keeps c bottom F made ((c.situation K calls w).resume v
      (.case subject none (.case value (.list statements)) rest (p.env c.root))) := by
  refine leads_require (Lists.equal_tolerable _ _ _ _) fun same _ => ?_
  split
  · exact take_keeps value body bodyEnds behind live
  · exact select_keeps others each behind live

/-- A loop goes into another round, or is over. -/
theorem resume_condition {condition : Node Label} {statements : List (Node Label)} {Γ : Context}
    (around : q = c.turn l p) (test : Typed c.demands c.found p.context condition .boolean)
    (hidden : c.demands.clear → ∀ key ∈ Node.allDeclares statements,
      p.context.findVariable key = none)
    (body : CheckedAll c.demands c.found r p.context.child statements Γ)
    (admits : c.demands.typed → Ty.boolean.admits v.tag = true)
    (behind : Ends c bottom w.store True r p cs K) (live : Live c F w.store made q cs) :
    Keeps c bottom F made ((c.situation K calls w).resume v
      (.condition condition (.list statements) (q.env c.root))) := by
  subst around
  refine leads_requireBoolean admits fun b _ => leads_notingText fun w' hw => ?_
  have behind : Ends c bottom w'.store True r p cs K := hw ▸ behind
  have live : Live c F w'.store made (c.turn l p) cs := hw ▸ live
  obtain ⟨l', p, rfl⟩ := behind.inside
  simp only [Situation.withWorld, Course.situation]
  cases loops : c.settings.loops with
  | shared =>
    rw [turn_shared loops] at live ⊢
    cases b with
    | true =>
      have closes : Closes c bottom w'.store True r
          (.inside { l with vars := [], loop := true } (.inside l' p)) cs
          (.round condition (.list statements)
            ((c.turn { l with vars := [], loop := true } (.inside l' p)).env c.root) :: K) :=
        .round (fun _ => rfl) test hidden body behind
      rw [turn_shared loops] at closes
      exact Sound.execute body (fun key hk _ named => hidden (c.plain named).1 key hk)
        (fun _ => trivial) closes live
    | false => exact Sound.ended trivial (Or.inl behind) live.outer
  | perRound =>
    rw [turn_perRound loops] at live ⊢
    cases b with
    | true =>
      have behind := behind.grow (Store.grows_openBlock w'.store ((Scope.inside l' p).env c.root))
      have closes : Closes c bottom _ True r
          (.inside ⟨w'.store.blocks.size, [], false⟩ (.inside l' p)) cs
          (.round condition (.list statements)
            ((c.turn ⟨w'.store.blocks.size, [], false⟩ (.inside l' p)).env c.root) :: K) :=
        .round (fun h => by rw [loops] at h; contradiction) test hidden body behind
      rw [turn_perRound loops] at closes
      exact Sound.execute (l := ⟨w'.store.blocks.size, [], false⟩) body
        (fun _ _ looping => by cases looping) (fun _ => trivial) closes (live.open false)
    | false => exact Sound.ended trivial (Or.inl behind) live

end

end PlcLang
