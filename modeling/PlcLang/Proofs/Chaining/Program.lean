import PlcLang.Proofs.Chaining.Links
import PlcLang.Proofs.Chaining.Step
import PlcLang.Proofs.Running.History

namespace PlcLang

section

variable {s s' : Store} {env : Env} {key : Key} {f : Callable} {n : Nat}

/-- What a store is like behind the definition of a function. -/
theorem Store.of_defineFunction (room : env.block < s.blocks.size)
    (h : s.defineFunction env key f = some (s', n)) :
    n = s.functions.size ∧ s'.functions = s.functions.push f ∧ s'.blocks.size = s.blocks.size ∧
      ∀ b, (s'.block b).functions =
        if b = env.block then (s.block b).functions.put (key, f.arity) n
        else (s.block b).functions := by
  have free : (s.block env.block).functions.lookup (key, f.arity) = none := by
    unfold Store.defineFunction at h
    simp only at h
    split at h
    · contradiction
    · rename_i free
      exact Option.not_isSome_iff_eq_none.1 free
  obtain ⟨_, defined, _, functions, size, blocks⟩ := Store.defineFunction_eq room free
  rw [h] at defined
  cases defined
  refine ⟨rfl, functions, size, fun b => ?_⟩
  rw [blocks]
  split <;> rfl

theorem Store.functions_old {i : Nat} {f' : Callable} (room : env.block < s.blocks.size)
    (h : s.defineFunction env key f = some (s', n)) (there : s.functions[i]? = some f') :
    s'.functions[i]? = some f' := by
  obtain ⟨_, functions, _, _⟩ := Store.of_defineFunction room h
  obtain ⟨inside, _⟩ := Array.getElem?_eq_some_iff.1 there
  rw [functions, Array.getElem?_push, if_neg (Nat.ne_of_lt inside), there]

/-- A new function is found in its block. -/
theorem Store.findFunction_new (room : env.block < s.blocks.size)
    (h : s.defineFunction env key f = some (s', n)) :
    s'.findFunction env key f.arity = some n := by
  obtain ⟨_, _, _, names⟩ := Store.of_defineFunction room h
  simp only [Store.findFunction, Env.chain, List.findSome?_cons, names, ↓reduceIte,
    Table.lookup_put, beq_self_eq_true]

/-- Under other names, and from where its block is not seen, a new function is not found. -/
theorem Store.findFunction_old {other : Env} {key' : Key} {arity : Nat}
    (room : env.block < s.blocks.size) (h : s.defineFunction env key f = some (s', n))
    (apart : env.block ∈ other.chain → (key', arity) ≠ (key, f.arity)) :
    s'.findFunction other key' arity = s.findFunction other key' arity := by
  obtain ⟨_, _, _, names⟩ := Store.of_defineFunction room h
  unfold Store.findFunction
  generalize other.chain = chain at apart
  induction chain with
  | nil => rfl
  | cons b rest ih =>
    have below := ih fun mem => apart (List.mem_cons_of_mem _ mem)
    have here : (s'.block b).functions.lookup (key', arity) =
        (s.block b).functions.lookup (key', arity) := by
      rw [names]
      split
      · rename_i same
        have different := apart (same ▸ List.mem_cons_self)
        rw [Table.lookup_put, beq_eq_false_iff_ne.2 different, if_neg Bool.false_ne_true]
      · rfl
    rw [List.findSome?_cons, List.findSome?_cons, below, here]

variable {links : List Link}

/-- What a store offers where a new function is not found. -/
theorem Store.Offers.beside {other : Env} {find : Key → Nat → Option Signature}
    (h : s.Offers links other find) (room : env.block < s.blocks.size)
    (defined : s.defineFunction env key f = some (s', n)) (apart : env.block ∉ other.chain) :
    s'.Offers links other find := by
  intro key' arity g known
  obtain ⟨i, f', here, there, realizes⟩ := h key' arity g known
  refine ⟨i, f', ?_, Store.functions_old room defined there, realizes⟩
  rw [Store.findFunction_old room defined fun mem => (apart mem).elim, here]

/-- What a store offers once a function that the checker made known is defined. -/
theorem Store.Offers.define {Γ Γ' : Context} {g : Signature} (h : s.Offers links env Γ.findFunction)
    (room : env.block < s.blocks.size) (defined : s.defineFunction env key f = some (s', n))
    (added : Γ.addFunction key g = some Γ') (arity : f.arity = g.arity)
    (realizes : Realizes links f g) : s'.Offers links env Γ'.findFunction := by
  obtain ⟨rfl, functions, _, _⟩ := Store.of_defineFunction room defined
  obtain ⟨_, rfl⟩ := addFunction_eq added
  intro key' arity' g' known
  simp only [Context.findFunction, Context.blocks, List.findSome?_cons, Table.lookup_put] at known
  by_cases new : (key', arity') = (key, f.arity)
  · cases new
    rw [arity, beq_self_eq_true, if_pos rfl] at known
    cases known
    refine ⟨_, f, Store.findFunction_new room defined, ?_, realizes⟩
    rw [functions, Array.getElem?_push, if_pos rfl]
  · rw [← arity, beq_eq_false_iff_ne.2 new, if_neg Bool.false_ne_true] at known
    obtain ⟨i, f', here, there, realizes⟩ := h key' arity' g' known
    refine ⟨i, f', ?_, Store.functions_old room defined there, realizes⟩
    rw [Store.findFunction_old room defined fun _ => new, here]

end

/-- A program that was checked behind others starts where all of their functions are there, and in a
block that they do not see. `Γ` are the names known behind its globals. -/
structure Link.Founded (L : Link) (links : List Link) (Γ : Context)
    (globals functions : List (Node Label)) : Prop where
  tree : L.tree = .source (.list globals) (.list functions)
  settled : L.store.Settled links L.found
  apart : ∀ L' ∈ links, L.env.block ∉ L'.env.chain
  room : ∀ b ∈ L.env.chain, b < L.store.blocks.size
  offers : L.store.Offers links L.env Γ.findFunction
  traced : Node.EveryOne (Node.Traced Γ.findFunction L.found L.tree.labels) globals
  defines : Defines L.number L.found L.tree.labels Γ functions L.names

/-- The functions of a program are defined up to some, and `Γ` are the names known before those. -/
structure Link.Defining (L : Link) (links : List Link) (Γ : Context) (rest : List (Node Label))
    (s : Store) : Prop where
  ours : ∀ f ∈ rest, L.Has f
  defines : Defines L.number L.found L.tree.labels Γ rest L.names
  placed : ∀ (n : Nat) (f : Callable), s.functions[n]? = some f → f.Placed (L :: links) L.found
  before : ∀ L' ∈ links, s.Offers (L :: links) L'.env L'.names.findFunction
  now : s.Offers (L :: links) L.env Γ.findFunction
  room : ∀ L' ∈ L :: links, ∀ b ∈ L'.env.chain, b < s.blocks.size

/-- The points of a run of a program behind others. -/
inductive Link.Stage (L : Link) (links : List Link) (functions : List (Node Label)) :
    Machine → Prop where
  | start : Stage L links functions L.machine
  | globals {rest : List (Node Label)} {calls : Nat} {w : World}
      (serves : (L.store.ground (L :: links) L.found).ServesAll L.env rest)
      (on : w.store.On (L.store.ground (L :: links) L.found)) :
      Stage L links functions ⟨.globals rest (.list functions) L.env, [], calls, w⟩
  | global {g : Node Label} {rest : List (Node Label)} {m : Machine}
      (serves : (L.store.ground (L :: links) L.found).ServesAll L.env rest)
      (ready : m.Ready (L.store.ground (L :: links) L.found)
        [.global g rest (.list functions) L.env]) : Stage L links functions m
  | functions {Γ : Context} {rest : List (Node Label)} {calls : Nat} {w : World}
      (defining : L.Defining links Γ rest w.store) :
      Stage L links functions ⟨.functions rest L.env, [], calls, w⟩
  | main {calls : Nat} {w : World} (settled : w.store.Settled (L :: links) L.found) :
      Stage L links functions ⟨.main L.env, [], calls, w⟩
  | running {s : Store} {m : Machine} (settled : s.Settled (L :: links) L.found)
      (ready : m.Ready (s.ground (L :: links) L.found) []) : Stage L links functions m

theorem Step.Goes.mono {P Q : Machine → Prop} {next : Step} (h : next.Goes P)
    (hq : ∀ m, P m → Q m) : next.Goes Q := by
  cases next with
  | next m => exact hq m h
  | halt w result => exact h

section

variable {L : Link} {links : List Link} {Γ : Context} {globals functions rest : List (Node Label)}
  {m : Machine} {calls : Nat} {w : World} {settings : Settings} {f : Node Label}

theorem Callable.Placed.mono {f : Callable} {found : Annotations} {links' : List Link}
    (h : f.Placed links found) (sub : links ⊆ links') : f.Placed links' found := by
  intro parameters statements home body
  obtain ⟨L, mem, here, resolved⟩ := h parameters statements home body
  exact ⟨L, sub mem, here, resolved⟩

/-- The next function is defined, and its code stands in the block of the program. -/
theorem Link.Defining.define (h : L.Defining links Γ (f :: rest) w.store)
    (apart : ∀ L' ∈ links, L.env.block ∉ L'.env.chain) :
    (Situation.defineFunction ⟨settings, L.program, [], calls, w⟩ f rest L.env).Goes
      (L.Stage links functions) := by
  obtain ⟨ours, defines, placed, before, now, room⟩ := h
  cases defines with
  | @cons _ Γ' _ label name returnTypeName key parameters _ statements header returns headed
      returning isName added traced others =>
    have home : L.env.block < w.store.blocks.size :=
      room L List.mem_cons_self _ List.mem_cons_self
    simp only [Situation.defineFunction, Situation.require, Step.require, bind, Except.bind,
      Node.items, headed, returning, key_ok.2 isName, pure, Except.pure]
    split
    · exact goes_fail
    · rename_i s' n defined
      refine goes_noting fun w' same => ?_
      obtain ⟨rfl, all, size, _⟩ := Store.of_defineFunction home defined
      have realizes := Link.Realizes.intro (ours _ List.mem_cons_self) headed returning
      have defining : L.Defining links Γ' rest s' := by
        refine ⟨fun g hg => ours g (List.mem_cons_of_mem _ hg), others, fun i g known => ?_,
          fun L' mem => (before L' mem).beside home defined (apart L' mem),
          now.define home defined added ?_ (.code List.mem_cons_self realizes), ?_⟩
        · rw [all, Array.getElem?_push] at known
          split at known
          · cases known
            intro _ _ _ body
            cases body
            exact ⟨L, List.mem_cons_self, rfl, resolved_of_traced others traced⟩
          · exact placed i g known
        · exact (List.length_map _).symm
        · rw [size]
          exact room
      have same : w'.store = s' := same
      rw [← same] at defining
      exact Link.Stage.functions defining

/-- The next global gets its value. -/
theorem Link.global_goes {g : Node Label}
    (on : w.store.On (L.store.ground (L :: links) L.found))
    (serves : (L.store.ground (L :: links) L.found).ServesAll L.env (g :: rest)) :
    (Situation.global ⟨settings, L.program, [], calls, w⟩ g rest (.list functions) L.env).Goes
      (L.Stage links functions) := by
  simp only [Situation.global]
  split
  · exact goes_fail
  · exact Link.Stage.global serves.2 (.intro .value .bottom on)
  · rename_i value given
    exact Link.Stage.global serves.2 (.intro (.evaluate (serves.1.content given)) .bottom on)
  · exact goes_fail

/-- A global is made where the program runs, which leaves the functions as they are. -/
theorem Link.resume_goes {g : Node Label} {v : Value}
    (on : w.store.On (L.store.ground (L :: links) L.found))
    (serves : (L.store.ground (L :: links) L.found).ServesAll L.env rest) :
    (Situation.resume ⟨settings, L.program, [], calls, w⟩ v
      (.global g rest (.list functions) L.env)).Goes (L.Stage links functions) := by
  cases g with
  | global label name isMutable typeName value =>
    refine goes_require fun w' added => goes_notingText fun w'' same => ?_
    have on := World.addFree_on on added
    exact Link.Stage.globals serves (same ▸ on)
  | _ => exact goes_fail

/-- All functions are defined before `main` is called. -/
theorem Link.Defining.settled {s : Store} (h : L.Defining links Γ [] s) :
    s.Settled (L :: links) L.found := by
  obtain ⟨_, defines, placed, before, now, room⟩ := h
  cases defines
  exact ⟨placed, List.forall_mem_cons.2 ⟨now, before⟩, room⟩

/-- The globals have their values, and the functions are defined next. -/
theorem Link.Founded.defining (h : L.Founded links Γ globals functions)
    (on : w.store.On (L.store.ground (L :: links) L.found)) :
    L.Defining links Γ functions w.store where
  ours f hf := ⟨_, functions, h.tree, hf⟩
  defines := h.defines
  placed n f known := by
    rw [on.functions] at known
    exact (h.settled.placed n f known).mono (List.subset_cons_self _ _)
  before L' mem := ((h.settled.offers L' mem).mono (List.subset_cons_self _ _)).moved on
  now := (h.offers.mono (List.subset_cons_self _ _)).moved on
  room := by
    refine List.forall_mem_cons.2 ⟨fun b hb => ?_, fun L' mem b hb => ?_⟩
    · exact Nat.lt_of_lt_of_le (h.room b hb) on.room
    · exact Nat.lt_of_lt_of_le (h.settled.room L' mem b hb) on.room

/-- Every step of a run of a program behind others leads to the next point of it, or the run ends:
with a fault, or with a value where all functions are there. -/
theorem Link.Stage.step (founded : L.Founded links Γ globals functions)
    (h : L.Stage links functions m) (settings : Settings) :
    (m.step settings L.program).Goes (L.Stage links functions) ∨
      ∃ v, m.step settings L.program = .halt m.world (.ok v) ∧
        m.world.store.Settled (L :: links) L.found := by
  cases h with
  | start =>
    left
    have offers := founded.offers.mono (List.subset_cons_self L links)
    have serves : (L.store.ground (L :: links) L.found).ServesAll L.env globals :=
      Node.EveryOne.imp (fun _ call => call.answers List.mem_cons_self offers) globals
        founded.traced
    simp only [Machine.step, Link.machine, Machine.initial, Situation.start, Link.program,
      founded.tree]
    exact Link.Stage.globals serves Store.on_ground
  | @globals rest calls w serves on =>
    left
    cases rest with
    | nil => exact Link.Stage.functions (founded.defining on)
    | cons g rest => exact Link.global_goes on serves
  | @global g rest m serves ready =>
    left
    by_cases done : ∃ v, m.control = .value v ∧ m.frames = [.global g rest (.list functions) L.env]
    · obtain ⟨v, hv, hf⟩ := done
      obtain ⟨next, frames, on⟩ := ready
      cases hv
      cases hf
      exact Link.resume_goes on serves
    · have coded := founded.settled.coded (List.subset_cons_self L links)
      exact (ready.step coded settings L.program fun v hv hf => done ⟨v, hv, hf⟩).mono
        fun m ready => Link.Stage.global serves ready
  | @functions Γ rest calls w defining =>
    left
    cases rest with
    | nil => exact Link.Stage.main defining.settled
    | cons f rest => exact defining.define founded.apart
  | main settled =>
    left
    simp only [Machine.step]
    split
    · exact Link.Stage.running settled (.intro .call .bottom Store.on_ground)
    · exact goes_fail
  | running settled ready =>
    by_cases done : ∃ v, m.control = .value v ∧ m.frames = []
    · obtain ⟨v, hv, hf⟩ := done
      right
      obtain ⟨next, frames, on⟩ := ready
      cases hv
      cases hf
      exact ⟨v, rfl, settled.moved on⟩
    · left
      have coded := settled.coded (List.Subset.refl _)
      exact (ready.step coded settings L.program fun v hv hf => done ⟨v, hv, hf⟩).mono
        fun m ready => Link.Stage.running settled ready

/-- Every machine that a run of a program behind others comes to is at a point of it. -/
theorem Link.Founded.reaches {past : List Machine} (founded : L.Founded links Γ globals functions)
    (run : L.machine.Reaches settings L.program past m) : L.Stage links functions m := by
  induction run with
  | start => exact .start
  | step before next ih =>
    rcases ih.step founded settings with goes | ⟨v, halts, _⟩
    · rw [next] at goes
      exact goes
    · rw [next] at halts
      cases halts

/-- Wherever a program behind others makes a call, that is one it may make. -/
theorem Link.Stage.agrees {label : Label} {name : Json} {arity : Nat}
    (h : L.Stage links functions m) (call : m.Calls label name arity) :
    ∃ key n arguments K, name.key? = some key ∧
      Agrees (L :: links) L.found m.world.store.functions label key arity n ∧
      arguments.length = arity ∧
      m.step settings L.program = .next ⟨.call n arguments, K, m.calls, m.world⟩ := by
  have called {s : Store} {bottom : List Frame}
      (ready : m.Ready (s.ground (L :: links) L.found) bottom)
      (idle : ∀ name done rest node env K, bottom ≠ .argument name done rest node env :: K) :
      ∃ key n arguments K, name.key? = some key ∧
        Agrees (L :: links) L.found m.world.store.functions label key arity n ∧
        arguments.length = arity ∧
        m.step settings L.program = .next ⟨.call n arguments, K, m.calls, m.world⟩ := by
    obtain ⟨key, n, arguments, K, isName, may, count, next⟩ :=
      ready.calls call settings L.program idle
    have same : m.world.store.functions = s.functions := ready.on.functions
    rw [same]
    exact ⟨key, n, arguments, K, isName, may, count, next⟩
  cases h with
  | global _ ready => exact called ready fun _ _ _ _ _ _ same => by cases same
  | running _ ready => exact called ready fun _ _ _ _ _ _ same => by cases same
  | _ => cases call

end

end PlcLang
