import PlcLang.Proofs.Running.Scope

namespace PlcLang

/-- The scopes of the calls that are open, the latest first, fit a store. Each has its own blocks,
and the program itself is the first caller. -/
inductive Chain (c : Course) (s : Store) (G : Table DeclId Nat) :
    List Scope → List (Table DeclId Nat) → Prop where
  | bottom {S : StaticBlock} (fits : (Scope.globals S).Fits c s (Made.latest ⟨G, []⟩)) :
      Chain c s G [.globals S] []
  | call {p : Scope} {callers : List Scope} {T : Table DeclId Nat} {Ts : List (Table DeclId Nat)}
      (fits : p.Fits c s (Made.latest ⟨G, T :: Ts⟩))
      (apart : ∀ q ∈ callers, ∀ n ∈ p.inner, n ∉ q.inner) (below : Chain c s G callers Ts) :
      Chain c s G (p :: callers) (T :: Ts)

/-- All globals and functions are there. -/
def Based (c : Course) (s : Store) (G : Table DeclId Nat) : Prop :=
  (Scope.globals c.final).Fits c s (Made.latest ⟨G, []⟩)

/-- The functions of a store, and the names for those of the program. -/
structure Defined where
  all : Array Callable
  names : Table (Key × Nat) Nat

/-- A store with the functions `F` fits what the checker knows at the current point of a run and at
those it returns to. No function of the program is called before all are there. -/
structure Live (c : Course) (F : Defined) (s : Store) (made : Made) (p : Scope)
    (callers : List Scope) : Prop where
  chain : Chain c s made.globals (p :: callers) made.calls
  functions : s.functions = F.all
  names : (s.block c.root).functions = F.names
  ready : ∀ f ∈ F.all, f.body = .print ∨ Based c s made.globals
  sorted : c.demands.typed → s.Sorted

section

variable {c : Course} {F : Defined} {s s' : Store} {made : Made} {p : Scope}
  {callers scopes : List Scope} {l : Level} {G : Table DeclId Nat} {Ts : List (Table DeclId Nat)}

theorem Chain.fits (h : Chain c s G (p :: callers) Ts) : p.Fits c s (Made.latest ⟨G, Ts⟩) := by
  cases h <;> assumption

theorem Chain.fits_each (h : Chain c s G scopes Ts) {q : Scope} (hq : q ∈ scopes) {n : Nat}
    (hn : n = c.root ∨ n ∈ q.inner) : n < s.blocks.size := by
  induction h with
  | bottom fits =>
    obtain rfl := List.mem_singleton.1 hq
    exact fits.block_lt hn
  | call fits _ _ ih =>
    rcases List.mem_cons.1 hq with rfl | hq
    · exact fits.block_lt hn
    · exact ih hq

theorem Chain.frame (h : Chain c s G scopes Ts) (grows : s.Grows s')
    (root : s'.block c.root = s.block c.root)
    (same : ∀ q ∈ scopes, ∀ n ∈ q.inner, s'.block n = s.block n) : Chain c s' G scopes Ts := by
  induction h with
  | bottom fits =>
    refine .bottom (fits.frame grows (fun n hn => ?_) fun _ _ _ _ _ => rfl)
    rcases hn with rfl | hn
    · exact root
    · contradiction
  | call fits apart _ ih =>
    refine .call (fits.frame grows (fun n hn => ?_) fun _ _ _ _ _ => rfl) apart
      (ih fun q hq => same q (List.mem_cons_of_mem _ hq))
    rcases hn with rfl | hn
    · exact root
    · exact same _ List.mem_cons_self n hn

theorem Based.frame (h : Based c s G) (grows : s.Grows s')
    (root : s'.block c.root = s.block c.root) : Based c s' G := by
  refine Scope.Fits.frame h grows (fun n hn => ?_) fun _ _ _ _ _ => rfl
  rcases hn with rfl | hn
  · exact root
  · contradiction

theorem Live.fits (h : Live c F s made p callers) : p.Fits c s made.latest :=
  h.chain.fits

/-- A step that leaves the blocks alone. -/
theorem Live.frame (h : Live c F s made p callers) (grows : s.Grows s')
    (blocks : ∀ n, s'.block n = s.block n) (functions : s'.functions = s.functions)
    (sorted : c.demands.typed → s'.Sorted) : Live c F s' made p callers where
  chain := h.chain.frame grows (blocks _) fun _ _ n _ => blocks n
  functions := functions.trans h.functions
  names := (congrArg Block.functions (blocks c.root)).trans h.names
  ready f hf := (h.ready f hf).imp id fun base => base.frame grows (blocks _)
  sorted := sorted

theorem Live.setLists {lists : Lists} (h : Live c F s made p callers) :
    Live c F { s with lists := lists } made p callers :=
  h.frame Store.grows_lists (fun _ => rfl) rfl h.sorted

theorem Live.setValue {n : Nat} {v : Value} (h : Live c F s made p callers)
    (hv : c.demands.typed → ∀ (x : Variable) (t : Ty), s.vars[n]? = some x → x.type = some t →
      t.admits v.tag = true) : Live c F (s.setValue n v) made p callers :=
  h.frame Store.grows_setValue (fun _ => rfl) rfl fun d => (h.sorted d).setValue (hv d)

/-- A block is left. -/
theorem Live.outer (h : Live c F s made (.inside l p) callers) : Live c F s made p callers where
  chain := by
    have chain := h.chain
    obtain ⟨G, Ts⟩ := made
    cases chain with
    | call fits apart below =>
      exact .call fits.outer (fun q hq n hn => apart q hq n (List.mem_cons_of_mem _ hn)) below
  functions := h.functions
  names := h.names
  ready := h.ready
  sorted := h.sorted

/-- A loop goes on to its next round. -/
theorem Live.again (h : Live c F s made (.inside l p) callers) (hl : l.loop = true) :
    Live c F s made (.inside { l with vars := [] } p) callers where
  chain := by
    have chain := h.chain
    obtain ⟨G, Ts⟩ := made
    cases chain with
    | call fits apart below => exact .call (fits.again hl) apart below
  functions := h.functions
  names := h.names
  ready := h.ready
  sorted := h.sorted

/-- A call is left for its caller. -/
theorem Live.return {q : Scope} (h : Live c F s made p (q :: callers)) :
    Live c F s { made with calls := made.calls.tail } q callers where
  chain := by
    have chain := h.chain
    obtain ⟨G, Ts⟩ := made
    cases chain with
    | call _ _ below => exact below
  functions := h.functions
  names := h.names
  ready := h.ready
  sorted := h.sorted

/-- A block is entered in a function. -/
theorem Live.open (h : Live c F s made (.inside l p) callers) (loop : Bool) :
    Live c F (s.openBlock ((Scope.inside l p).env c.root)).1 made
      (.inside ⟨s.blocks.size, [], loop⟩ (.inside l p)) callers where
  chain := by
    have grows := Store.grows_openBlock s ((Scope.inside l p).env c.root)
    have blocks := Store.block_openBlock s ((Scope.inside l p).env c.root)
    have chain := h.chain
    obtain ⟨G, Ts⟩ := made
    cases chain with
    | call fits apart below =>
      refine .call (fits.open loop) (fun q hq n hn => ?_)
        (below.frame grows (blocks _) fun _ _ n _ => blocks n)
      rcases List.mem_cons.1 hn with rfl | hn
      · exact fun hm => Nat.lt_irrefl _ (below.fits_each hq (Or.inr hm))
      · exact apart q hq n hn
  functions := h.functions
  names := by rw [Store.block_openBlock, h.names]
  ready f hf := (h.ready f hf).imp id fun base =>
    base.frame (Store.grows_openBlock _ _) (Store.block_openBlock _ _ _)
  sorted := h.sorted

/-- A function of the program is called; `S` is what it knows. -/
theorem Live.call {S : StaticBlock} (h : Live c F s made p callers)
    (base : Based c s made.globals) (vars : S.vars = c.final.vars)
    (functions : ∀ key f, S.functions.lookup key = some f →
      c.final.functions.lookup key = some f) :
    Live c F (s.openBlock ⟨c.root, []⟩).1 { made with calls := [] :: made.calls }
      (.inside ⟨s.blocks.size, [], false⟩ (.globals S)) (p :: callers) where
  chain := by
    have grows := Store.grows_openBlock s ⟨c.root, []⟩
    have blocks := Store.block_openBlock s ⟨c.root, []⟩
    have globals : (Scope.globals S).Fits c s (Made.latest ⟨made.globals, [] :: made.calls⟩) := by
      cases base with
      | globals room own names offers =>
        exact .globals room (vars ▸ own) (vars ▸ names) fun key g hg =>
          offers key g (functions key g hg)
    refine .call (globals.open false) (fun q hq n hn hm => ?_)
      (h.chain.frame grows (blocks _) fun _ _ n _ => blocks n)
    obtain rfl := List.mem_singleton.1 hn
    exact Nat.lt_irrefl _ (h.chain.fits_each hq (Or.inr hm))
  functions := h.functions
  names := by rw [Store.block_openBlock, h.names]
  ready f hf := (h.ready f hf).imp id fun base =>
    base.frame (Store.grows_openBlock _ _) (Store.block_openBlock _ _ _)
  sorted := h.sorted

theorem latest_put {T : Table DeclId Nat} {id : DeclId} {n : Nat} :
    Made.latest ⟨G, T.put id n :: Ts⟩ id = some n := by
  simp [Made.latest, Table.lookup_put]

theorem latest_put_other {T : Table DeclId Nat} {id other : DeclId} {n : Nat} (h : other ≠ id) :
    Made.latest ⟨G, T.put id n :: Ts⟩ other = Made.latest ⟨G, T :: Ts⟩ other := by
  simp [Made.latest, Table.lookup_put, h]

/-- A variable is declared in a function. -/
theorem Live.declare {key : Key} {b : Binding} {Γ' : Context} {x : Variable}
    {T : Table DeclId Nat} (h : Live c F s ⟨G, T :: Ts⟩ (.inside l p) callers)
    (adds : (Scope.inside l p).context.Adds key b Γ') (clear : (Scope.inside l p).Clear c key)
    (typed : c.demands.typed → x.type = some b.type)
    (value : c.demands.typed → b.type.admits x.value.tag = true) :
    Live c F (s.add ((Scope.inside l p).env c.root) key x (c.mark b))
      ⟨G, T.put b.id s.vars.size :: Ts⟩ ((Scope.inside l p).declare key b) callers := by
  obtain ⟨chain, functions, names, ready, sorted⟩ := h
  have fits := chain.fits
  have room := fits.room
  have apart_root : l.block ≠ c.root := by
    cases fits with
    | inside _ _ apart => exact apart.1
  have root : (s.add ((Scope.inside l p).env c.root) key x (c.mark b)).block c.root =
      s.block c.root := by
    rw [Store.block_add room, if_neg]
    exact fun he => apart_root he.symm
  refine ⟨?_, functions, (congrArg Block.functions root).trans names, fun f hf =>
    (ready f hf).imp id fun base => base.frame Store.grows_add root, fun d =>
    (sorted d).add fun t ht => ?_⟩
  · cases chain with
    | call fits apart below =>
      refine .call (fits.declare adds clear latest_put (fun _ ho => latest_put_other ho) typed)
        (fun q hq n hn => apart q hq n hn) (below.frame Store.grows_add root fun q hq n hn => ?_)
      rw [Store.block_add room, if_neg]
      rintro rfl
      exact apart q hq _ List.mem_cons_self hn
  · rw [typed d] at ht
    cases ht
    exact value d

end

end PlcLang
