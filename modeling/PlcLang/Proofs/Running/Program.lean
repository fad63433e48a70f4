import PlcLang.Proofs.Running.Step

namespace PlcLang

/-- Before any function of the program is defined, whose names the checker knows as `S`. -/
structure Early (F : Defined) (S : StaticBlock) : Prop where
  prints : ∀ f ∈ F.all, f.body = .print
  names : ∀ key, S.functions.lookup key = none → F.names.lookup key = none

/-- The points of a run of a whole program: its start, its globals, the definitions of its
functions, and the call of `main`. -/
inductive Stage (c : Course) : Made → Machine → Prop where
  | start {F : Defined} {w : World} (early : Early F .standard)
      (live : Live c F w.store {} (.globals .standard) []) :
      Stage c {} (.initial ⟨c.root, []⟩ w)
  | globals {F : Defined} {rest functions : List (Node Label)} {S S' : StaticBlock}
      {G : Table DeclId Nat} {calls : Nat} {w : World}
      (first : CheckedGlobals c.demands c.found ⟨S, []⟩ rest ⟨S', []⟩)
      (others : CheckedFunctions c.demands c.found ⟨S', []⟩ functions ⟨c.final, []⟩)
      (early : Early F S) (live : Live c F w.store ⟨G, []⟩ (.globals S) []) :
      Stage c ⟨G, []⟩ ⟨.globals rest (.list functions) ⟨c.root, []⟩, [], calls, w⟩
  | global {F : Defined} {label : Label} {name typeName : Json} {isMutable : Bool}
      {value : Node Label} {rest functions : List (Node Label)} {S S' S'' : StaticBlock}
      {key : Key} {b : Binding} {made : Made} {m : Machine} (isName : name.key? = some key)
      (adds : (⟨S, []⟩ : Context).Adds key b ⟨S', []⟩)
      (bound : (c.found.of label).binding = some b)
      (first : CheckedGlobals c.demands c.found ⟨S', []⟩ rest ⟨S'', []⟩)
      (others : CheckedFunctions c.demands c.found ⟨S'', []⟩ functions ⟨c.final, []⟩)
      (early : Early F S)
      (sound : Sound c ⟨[.global (.global label name isMutable typeName value) rest
          (.list functions) ⟨c.root, []⟩],
        fun t p cs => b.type.accepts t = true ∧ p = .globals S ∧ cs = []⟩ F made m) :
      Stage c made m
  | functions {rest : List (Node Label)} {S : StaticBlock} {G : Table DeclId Nat} {calls : Nat}
      {w : World} (others : CheckedFunctions c.demands c.found ⟨S, []⟩ rest ⟨c.final, []⟩)
      (fits : (Scope.globals S).Fits c w.store (Made.latest ⟨G, []⟩))
      (names : ∀ key, S.functions.lookup key = none →
        (w.store.block c.root).functions.lookup key = none)
      (sorted : c.demands.typed → w.store.Sorted) :
      Stage c ⟨G, []⟩ ⟨.functions rest ⟨c.root, []⟩, [], calls, w⟩
  | main {G : Table DeclId Nat} {calls : Nat} {w : World} (base : Based c w.store G)
      (sorted : c.demands.typed → w.store.Sorted) :
      Stage c ⟨G, []⟩ ⟨.main ⟨c.root, []⟩, [], calls, w⟩
  | running {F : Defined} {made : Made} {m : Machine}
      (sound : Sound c ⟨[], fun _ _ _ => True⟩ F made m) : Stage c made m

/-- What a step leads to is a point of the run again, or the run has a tolerated end. -/
abbrev Stays (c : Course) (made : Made) (step : Step) : Prop :=
  step.Leads c.demands (Stage c made)

section

variable {c : Course} {F : Defined} {s : Store} {G : Table DeclId Nat} {S : StaticBlock}
  {key : Key} {b : Binding} {Γ Γ' : Context}

theorem CheckedGlobals.outer {D : Demands} {found : Annotations} {globals : List (Node Label)}
    (h : CheckedGlobals D found Γ globals Γ') : Γ'.outer = Γ.outer := by
  induction h with
  | nil => rfl
  | cons first _ ih =>
    obtain ⟨_, _, adds, _, _⟩ := first
    exact ih.trans adds.outer

/-- Functions add no variables. -/
theorem CheckedFunctions.vars {D : Demands} {found : Annotations} {functions : List (Node Label)}
    (h : CheckedFunctions D found Γ functions Γ') : Γ'.inner.vars = Γ.inner.vars := by
  induction h with
  | nil => rfl
  | cons first _ ih =>
    obtain ⟨_, _, _, _, _, _, added, _⟩ := first
    rw [ih, (addFunction_eq added).2]

/-- A global is made. -/
theorem Live.declareGlobal {x : Variable} {S' : StaticBlock}
    (h : Live c F s ⟨G, []⟩ (.globals S) [])
    (early : Early F S) (adds : (⟨S, []⟩ : Context).Adds key b ⟨S', []⟩)
    (typed : c.demands.typed → x.type = some b.type)
    (value : c.demands.typed → b.type.admits x.value.tag = true) :
    Live c F (s.add ⟨c.root, []⟩ key x (c.mark b)) ⟨G.put b.id s.vars.size, []⟩ (.globals S') []
      where
  chain := by
    have latest : Made.latest ⟨G.put b.id s.vars.size, []⟩ b.id = some s.vars.size := by
      simp [Made.latest, Table.lookup_put]
    have kept (id : DeclId) (hi : id ≠ b.id) :
        Made.latest ⟨G.put b.id s.vars.size, []⟩ id = Made.latest ⟨G, []⟩ id := by
      simp [Made.latest, Table.lookup_put, hi]
    have fits := h.fits.declare (x := x) adds trivial latest kept typed
    have he := adds.eq
    simp only [Context.mk.injEq, and_true] at he
    rw [he]
    exact .bottom fits
  functions := h.functions
  names := by
    have room : (⟨c.root, []⟩ : Env).block < s.blocks.size := h.fits.room
    rw [Store.block_add room]
    simpa using h.names
  ready f hf := Or.inl (early.prints f hf)
  sorted d := (h.sorted d).add fun t ht => by
    rw [typed d] at ht
    cases ht
    exact value d

theorem Early.declare {S' : StaticBlock} (h : Early F S)
    (adds : (⟨S, []⟩ : Context).Adds key b ⟨S', []⟩) : Early F S' := by
  have he := adds.functions
  simp only at he
  exact ⟨h.prints, fun k hk => h.names k (he ▸ hk)⟩

/-- A function is defined. -/
theorem define_fits {latest : DeclId → Option Nat} {f : Callable} {g : Signature}
    {S' : StaticBlock} (fits : (Scope.globals S).Fits c s latest)
    (added : (⟨S, []⟩ : Context).addFunction key g = some ⟨S', []⟩)
    (names : ∀ k, S.functions.lookup k = none → (s.block c.root).functions.lookup k = none)
    (arity : f.arity = g.arity) (fulfils : Fulfils c f g) :
    ∃ s' n, s.defineFunction ⟨c.root, []⟩ key f = some (s', n) ∧
      (Scope.globals S').Fits c s' latest ∧
      (∀ k, S'.functions.lookup k = none → (s'.block c.root).functions.lookup k = none) ∧
      s'.vars = s.vars := by
  obtain ⟨unknown, he⟩ := addFunction_eq added
  simp only [Context.mk.injEq, and_true] at unknown he
  cases fits with
  | globals room own names' offers =>
    have vacant : (s.block (Env.mk c.root []).block).functions.lookup (key, f.arity) = none :=
      arity ▸ names _ unknown
    obtain ⟨s', hs, vars, functions, size, blocks⟩ := Store.defineFunction_eq room vacant
    have root := blocks c.root
    simp only [↓reduceIte] at root
    refine ⟨s', _, hs, ?_, fun k hk => ?_, vars⟩
    · subst he
      refine .globals (size ▸ room) (fun k b' hb => ?_) (fun k hk => ?_) fun k g' hg => ?_
      · obtain ⟨n, x, hc, hl, hx⟩ := own k b' hb
        refine ⟨n, x, ?_, hl, vars ▸ hx⟩
        rw [Course.caught, root]
        exact hc
      · rw [root]
        exact names' k hk
      · rw [root, functions]
        simp only [Table.lookup_put] at hg ⊢
        rw [arity]
        split at hg
        · rename_i same
          cases hg
          exact ⟨_, f, if_pos same, by simp, fulfils⟩
        · rename_i other
          rw [if_neg other]
          obtain ⟨n, f', hn, hf, hd⟩ := offers k g' hg
          refine ⟨n, f', hn, ?_, hd⟩
          obtain ⟨room, _⟩ := Array.getElem?_eq_some_iff.1 hf
          rw [Array.getElem?_push, if_neg (Nat.ne_of_lt room), hf]
    · subst he
      rw [root, arity]
      simp only [Table.lookup_put] at hk ⊢
      split at hk
      · contradiction
      · rename_i other
        rw [if_neg other]
        exact names k hk

variable {made : Made} {m : Machine} {calls : Nat} {w : World} {v : Value}

/-- The first of some globals. -/
theorem global_stays {g : Node Label} {rest functions : List (Node Label)} {S S' : StaticBlock}
    (first : CheckedGlobals c.demands c.found ⟨S, []⟩ (g :: rest) ⟨S', []⟩)
    (others : CheckedFunctions c.demands c.found ⟨S', []⟩ functions ⟨c.final, []⟩)
    (early : Early F S) (live : Live c F w.store ⟨G, []⟩ (.globals S) []) :
    Stays c ⟨G, []⟩
      ((c.situation [] calls w).global g rest (.list functions) ⟨c.root, []⟩) := by
  cases first with
  | cons first more =>
    obtain ⟨initial, isName, adds, here, bound⟩ := first
    rename_i Γ' label name typeName isMutable value key b
    obtain ⟨S₁, outer⟩ := Γ'
    obtain rfl : outer = [] := adds.outer
    have asks {t : Ty} (fits : b.type.accepts t = true) :
        b.type.accepts t = true ∧ Scope.globals S = .globals S ∧ ([] : List Scope) = [] :=
      ⟨fits, rfl, rfl⟩
    cases initial with
    | none empty =>
      exact Stage.global isName adds bound more others early
        (Sound.value (r := .nil) (fun d => by rw [empty d]; rfl)
          (.bottom (asks (Ty.accepts_self b.type))) live)
    | value given typed fits =>
      simp only [Situation.global, Node.content?, content_ofNode given]
      exact Stage.global isName adds bound more others early
        (Sound.evaluate (r := .nil) typed (.bottom (asks fits)) live)

/-- A global has its value: its variable is made. -/
theorem resume_global {label : Label} {name typeName : Json} {isMutable : Bool}
    {value : Node Label} {rest functions : List (Node Label)} {S S' S'' : StaticBlock} {t : Ty}
    (isName : name.key? = some key) (adds : (⟨S, []⟩ : Context).Adds key b ⟨S', []⟩)
    (bound : (c.found.of label).binding = some b)
    (first : CheckedGlobals c.demands c.found ⟨S', []⟩ rest ⟨S'', []⟩)
    (others : CheckedFunctions c.demands c.found ⟨S'', []⟩ functions ⟨c.final, []⟩)
    (early : Early F S) (admits : c.demands.typed → t.admits v.tag = true)
    (fits : b.type.accepts t = true) (live : Live c F w.store ⟨G, []⟩ (.globals S) []) :
    Stays c
      ⟨Made.note c.found label w.store.vars.size G, []⟩
      ((c.situation [] calls w).resume v (.global (.global label name isMutable typeName value)
        rest (.list functions) ⟨c.root, []⟩)) := by
  have free : w.store.taken ⟨c.root, []⟩ key = false := by
    have fits := live.fits
    cases fits with
    | globals _ _ names _ => simp only [Store.taken, Table.has, names key adds.free,
        Option.isSome_none]
  have store := mark_of_bound bound
  have live := live.declareGlobal
    (x := ⟨name, (c.program.found.of label).binding.map (·.type), isMutable, v⟩) early adds
    (type_of_bound bound) fun d => Ty.admits_of_accepts fits (admits d)
  rw [← store] at live
  simp only [Made.note, bound, Situation.resume, Course.situation, Situation.require, Step.require,
    World.addFree_eq (key_ok.2 isName), free]
  exact leads_notingText fun w' hw =>
    Stage.globals first others (early.declare adds) (hw ▸ live)

/-- The first of some functions is defined. -/
theorem defineFunction_stays {f : Node Label} {rest : List (Node Label)}
    (others : CheckedFunctions c.demands c.found ⟨S, []⟩ (f :: rest) ⟨c.final, []⟩)
    (fits : (Scope.globals S).Fits c w.store (Made.latest ⟨G, []⟩))
    (names : ∀ key, S.functions.lookup key = none →
      (w.store.block c.root).functions.lookup key = none)
    (sorted : c.demands.typed → w.store.Sorted) :
    Stays c ⟨G, []⟩ ((c.situation [] calls w).defineFunction f rest ⟨c.root, []⟩) := by
  cases others with
  | cons first more =>
    obtain ⟨headed, returning, isName, own, takes, gives, added, body⟩ := first
    rename_i Γ' label name returnTypeName parameters statements header returns key g
    obtain ⟨_, rfl⟩ := addFunction_eq added
    have vars := more.vars
    have fulfils : Fulfils c ⟨name, header.length, header.map (·.2), returns,
        .code (header.map (·.1)) (.list statements) ⟨c.root, []⟩⟩ g :=
      .code rfl takes body vars.symm fun key f hf => more.lookup hf
    have arity : header.length = g.arity := by
      rw [Signature.arity, takes, List.length_map]
    obtain ⟨s', n, defined, fits, names, same⟩ := define_fits fits added names arity fulfils
    simp only [Situation.defineFunction, Situation.require, Step.require, bind, Except.bind,
      Node.items, headed, returning, key_ok.2 isName, pure, Except.pure, Course.situation, defined]
    refine leads_noting .ok fun w' hw => ?_
    simp only [Situation.withWorld] at hw ⊢
    refine Stage.functions more (hw ▸ fits) (hw ▸ names) fun d => ?_
    rw [hw]
    intro k x t hx ht
    exact sorted d k x t (same ▸ hx) ht

/-- The functions are called from `main`. -/
theorem main_stays (base : Based c w.store G) (sorted : c.demands.typed → w.store.Sorted) :
    Stays c ⟨G, []⟩ (Machine.step c.settings c.program ⟨.main ⟨c.root, []⟩, [], calls, w⟩) := by
  obtain ⟨Γ, checked⟩ := c.checked
  generalize c.program.tree = tree at checked
  cases checked with
  | intro first others main nullary =>
    rename_i globals functions g
    have known : (Scope.globals c.final).context.findFunction (.text "main") 0 = some g := by
      simpa [Scope.context, Context.findFunction, Context.blocks] using main
    obtain ⟨n, f, hn, hf, hd⟩ := base.finds_function known
    have live : Live c ⟨w.store.functions, (w.store.block c.root).functions⟩ w.store ⟨G, []⟩
        (.globals c.final) [] :=
      ⟨.bottom base, rfl, rfl, fun _ _ => Or.inr base, sorted⟩
    have admitted : Admitted c.demands [] g.parameters := nullary ▸ .nil
    have sound : Sound c ⟨[], fun _ _ _ => True⟩ _ ⟨G, []⟩ ⟨.call n [], [], calls, w⟩ :=
      Sound.call (r := .nil) hf hd admitted (.bottom trivial) live
    have found : w.store.findFunction ⟨c.root, []⟩ (.text "main") 0 = some n := hn
    simp only [Machine.step, found]
    exact Stage.running sound

/-- Every step of a run of a program that was checked leads to the next point of it. -/
theorem Stage.step (h : Stage c made m) :
    Stays c (made.after c.found m) (m.step c.settings c.program) := by
  cases h with
  | start early live =>
    obtain ⟨Γ, checked⟩ := c.checked
    generalize tree : c.program.tree = t at checked
    cases checked with
    | intro first others main nullary =>
      rename_i globals functions g
      obtain ⟨S, outer⟩ := Γ
      obtain rfl : outer = [] := first.outer
      simp only [Machine.step, Machine.initial, Situation.start, tree]
      exact Stage.globals first others early live
  | globals first others early live =>
    rename_i rest functions S S' G calls w
    cases rest with
    | nil =>
      cases first
      refine Stage.functions others live.fits (fun key hk => ?_) live.sorted
      rw [live.names]
      exact early.names key hk
    | cons g rest => exact global_stays first others early live
  | global isName adds bound first others early sound =>
    rename_i F label name typeName isMutable value rest functions S S' S'' key b
    by_cases done : ∃ v, m.control = .value v ∧
        m.frames = [.global (.global label name isMutable typeName value) rest (.list functions)
          ⟨c.root, []⟩]
    · obtain ⟨v, hv, hf⟩ := done
      cases sound with
      | value admits wants live =>
        obtain ⟨fits, rfl, rfl⟩ := wants.asks hf
        subst hf
        obtain ⟨G, Ts⟩ := made
        have chain := live.chain
        cases chain with
        | bottom => exact resume_global isName adds bound first others early admits fits live
        | call _ _ below => cases below
      | _ => cases hv
    · exact (sound.step fun v hv hf => done ⟨v, hv, hf⟩).mono fun m sound =>
        Stage.global isName adds bound first others early sound
  | functions others fits names sorted =>
    rename_i rest S G calls w
    cases rest with
    | nil =>
      cases others
      exact Stage.main fits sorted
    | cons f rest => exact defineFunction_stays others fits names sorted
  | main base sorted => exact main_stays base sorted
  | running sound =>
    by_cases done : ∃ v, m.control = .value v ∧ m.frames = []
    · obtain ⟨v, hv, hf⟩ := done
      simp only [Machine.step, hv, hf]
      exact Tolerable.ok
    · exact (sound.step fun v hv hf => done ⟨v, hv, hf⟩).mono fun m sound =>
        Stage.running sound

/-- All of a run of a program that was checked stays right. -/
theorem Stage.reaches {past : List Machine} {m₀ : Machine} (h : Stage c {} m₀)
    (run : m₀.Reaches c.settings c.program past m) : Stage c (Made.of c.found past) m := by
  induction run with
  | start => exact h
  | step before next ih =>
    have stays := ih.step
    rw [next] at stays
    exact stays

end

end PlcLang
