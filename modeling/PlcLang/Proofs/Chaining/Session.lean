import PlcLang.Proofs.Chaining.Program
import PlcLang.Session

namespace PlcLang

open Checking Annotations

/-- A session takes up a tree, opens a block inside its own, and accepts the tree behind what it
knows. -/
structure Session.Admits (s : Session) (n : Node Unit) (L : Link) : Prop where
  number : L.number = s.checks
  tree : L.tree = (s.load n).2
  store : L.store = (s.store.openBlock s.env).1
  env : L.env = (s.store.openBlock s.env).2
  accepts : (Annotated.check s.checks s.known ⟨(s.load n).2, (s.load n).1.found⟩).1 = .ok L.names
  found : L.found = (Annotated.check s.checks s.known ⟨(s.load n).2, (s.load n).1.found⟩).2

/-- A session that has run programs, the last first, each in a block inside that of the one before
and checked behind it, and all to a normal end. -/
inductive Session.Chained : List Link → Session → Prop where
  | start : Chained [] .start
  | next {links : List Link} {s s' : Session} {n : Node Unit} {L : Link} {settings : Settings}
      {steps : Nat} {w : World} {v : Value} (before : Chained links s) (admits : s.Admits n L)
      (ends : (s.load n).1.perform settings steps .child true (s.load n).2 =
        (s', .ran L.env w (.ok v))) : Chained (L :: links) s'

/-- A session has all functions of the programs that it has run, and knows them. -/
structure Session.Sound (links : List Link) (s : Session) : Prop where
  settled : s.store.Settled links s.found
  offers : s.store.Offers links s.env (Context.mk .standard s.known).findFunction
  room : ∀ b ∈ s.env.chain, b < s.store.blocks.size
  regular : (Context.mk .standard s.known).Regular

/-- What was found of calls is found of them still. -/
def Annotations.Extends (found found' : Annotations) : Prop :=
  ∀ label b, (found.of label).signature = some b → (found'.of label).signature = some b

section

variable {links : List Link} {found found' : Annotations} {L : Link}

theorem Link.Resolved.extends {n : Node Label} (h : L.Resolved found n)
    (more : found.Extends found') : L.Resolved found' n := by
  cases n with
  | call label name arguments =>
    obtain ⟨ours, items, key, b, given, isName, bound, known⟩ := h
    exact ⟨ours, items, key, b, given, isName, more label b bound, known⟩
  | _ => exact trivial

theorem Store.Settled.extends {s : Store} (h : s.Settled links found)
    (more : found.Extends found') : s.Settled links found' where
  placed n f known parameters statements home body := by
    obtain ⟨L, mem, here, resolved⟩ := h.placed n f known parameters statements home body
    exact ⟨L, mem, here, Node.Every.imp (fun _ call => call.extends more) statements resolved⟩
  offers := h.offers
  room := h.room

/-- A new block changes nothing for the programs that ran. -/
theorem Store.Settled.openBlock {s : Store} (h : s.Settled links found) (env : Env) :
    (s.openBlock env).1.Settled links found := by
  have on : (s.openBlock env).1.On (s.ground links found) := Store.on_ground.openBlock env
  exact h.moved on

end

section

variable {s : Store} {links : List Link} {env : Env} {find : Key → Nat → Option Signature}

/-- Only its functions count for how a context knows functions. -/
theorem Context.Regular.of_functions {Γ Γ' : Context} (h : Γ.Regular)
    (inner : Γ'.inner.functions = Γ.inner.functions) (outer : Γ'.outer = Γ.outer) : Γ'.Regular := by
  intro block mem key arity f known
  rcases List.mem_cons.1 mem with rfl | mem
  · rw [inner] at known
    exact h Γ.inner List.mem_cons_self key arity f known
  · rw [outer] at mem
    exact h block (List.mem_cons_of_mem _ mem) key arity f known

/-- A new block offers what the one around it does. -/
theorem Store.Offers.enter (h : s.Offers links env find) :
    (s.openBlock env).1.Offers links (s.openBlock env).2 find := by
  have on : s.On (s.ground links #[]) := Store.on_ground
  intro key arity g known
  obtain ⟨n, f, here, there, realizes⟩ := h key arity g known
  refine ⟨n, f, ?_, there, realizes⟩
  rw [(on.openBlock env).findFunction, on.find_openBlock, ← on.findFunction, here]

end

/-- Only nodes with a label given out so far were found to call anything. -/
theorem Annotations.lt_of_signature {found : Annotations} {label : Label} {b : Signature}
    (h : (found.of label).signature = some b) : label < found.size := by
  refine Nat.lt_of_not_le fun beyond => ?_
  rw [Annotations.of, Array.getElem?_eq_none beyond] at h
  cases h

/-- The labels of a tree that is taken up are new. -/
theorem Node.annotated_new (n : Node Unit) (found : Annotations) {label : Label}
    (h : label ∈ (n.annotated found).tree.labels) : found.size ≤ label :=
  (n.withLabels_counted found.size).le h

theorem Node.annotated_extends (n : Node Unit) (found : Annotations) :
    found.Extends (n.annotated found).found := by
  intro label b h
  have inside := Annotations.lt_of_signature h
  change (Annotations.of (found ++ Array.replicate _ _) label).signature = some b
  rw [Annotations.of, Array.getElem?_append_left inside]
  exact h

namespace Session.Admits

variable {s s' : Session} {n : Node Unit} {L : Link} {links : List Link} {settings : Settings}
  {steps : Nat} {w : World} {result : Except Fault Value}

theorem outcome (admits : s.Admits n L) :
    (Annotated.mk L.tree (s.load n).1.found).check L.number s.known = (.ok L.names, L.found) := by
  rw [admits.tree, admits.number]
  exact Prod.ext admits.accepts admits.found.symm

/-- What a run of a program that a session admits comes to, and what it leaves. -/
theorem ran (admits : s.Admits n L)
    (ends : (s.load n).1.perform settings steps .child true (s.load n).2 =
      (s', .ran L.env w result)) :
    Machine.run settings L.program steps L.machine = some (w, result) ∧
      s' = ⟨w.store, L.env, L.names.blocks, s.checks + 1, L.found⟩ := by
  have opens : (s.load n).1.store.openBlock (s.load n).1.env = (L.store, L.env) :=
    Prod.ext admits.store.symm admits.env.symm
  have accepts : (Annotated.mk L.tree (s.load n).1.found).check (s.load n).1.checks
      (s.load n).1.known = (.ok L.names, L.found) := admits.number ▸ admits.outcome
  simp only [Session.perform, Session.place, opens, reduceCtorEq, ↓reduceIte, accepts, Session.run,
    ← admits.tree] at ends
  have program : Annotated.mk L.tree L.found = L.program := rfl
  have machine : Machine.initial L.env { store := L.store } = L.machine := rfl
  rw [program, machine] at ends
  cases run : Machine.run settings L.program steps L.machine with
  | none =>
    rw [run] at ends
    cases ends
  | some outcome =>
    rw [run] at ends
    cases ends
    exact ⟨rfl, rfl⟩

/-- What was found of calls in the programs before is not lost in a check. -/
theorem kept (admits : s.Admits n L)
    (within : Within L.tree.labels (s.load n).1.found L.found) : s.found.Extends L.found := by
  intro label b h
  have new : label ∉ L.tree.labels := by
    intro mem
    rw [admits.tree] at mem
    have old := Annotations.lt_of_signature h
    exact Nat.not_le_of_lt old (n.annotated_new s.found mem)
  rw [within.others label new]
  exact n.annotated_extends s.found label b h

/-- A program that a session admits starts where all functions of the programs before it are
there. -/
theorem founded (admits : s.Admits n L) (sound : s.Sound links) :
    ∃ Γ globals functions, L.Founded links Γ globals functions ∧ Γ.Regular ∧
      Γ.inner.functions = StaticBlock.standard.functions := by
  have labels := n.annotated_labels s.found
  rw [show (n.annotated s.found).tree = L.tree from admits.tree.symm] at labels
  obtain ⟨nodup, room⟩ := labels
  have h : (L.tree.checkProgram L.number s.known).Gives (n.annotated s.found).found L.names
    L.found := admits.outcome
  obtain ⟨globals, functions, Γ, _, tree, hg, hf, within, last⟩ := program_of_check h nodup room
  rw [tree] at last
  have wf := within_of_checkFunctions hf
  have kept : s.found.Extends L.found := admits.kept within
  have labels : Node.allLabels globals ++ Node.allLabels functions ⊆ L.tree.labels := by
    rw [tree]
    exact List.Subset.refl _
  have labels := List.append_subset.1 labels
  obtain ⟨traced, named, outer⟩ := tracedGlobals_of_check sound.regular.regularly globals rfl hg
    (last.left wf) labels.1
  have find : Γ.findFunction = (Context.mk .standard s.known).findFunction := by
    funext key arity
    simp only [Context.findFunction, Context.blocks, List.findSome?_cons, named, outer]
  have regular : Γ.Regular := sound.regular.of_functions named outer
  have defines := defines_of_check regular hf last.right labels.2
  have chain : L.env.chain = s.store.blocks.size :: s.env.chain := by
    rw [admits.env]
    rfl
  have grown : L.store.blocks.size = s.store.blocks.size + 1 := by
    rw [admits.store]
    exact Array.size_push _
  have founded : L.Founded links Γ globals functions := by
    refine ⟨tree, ?_, fun L' mem seen => ?_, fun b hb => ?_, ?_, ?_, defines⟩
    · rw [admits.store]
      exact (sound.settled.extends kept).openBlock s.env
    · rw [admits.env] at seen
      exact Nat.lt_irrefl _ (sound.settled.room L' mem _ seen)
    · rw [chain] at hb
      rw [grown]
      rcases List.mem_cons.1 hb with rfl | hb
      · exact Nat.lt_succ_self _
      · exact Nat.lt_succ_of_lt (sound.room b hb)
    · rw [admits.store, admits.env, find]
      exact sound.offers.enter
    · rw [find]
      exact traced
  exact ⟨Γ, globals, functions, founded, regular, named⟩

end Session.Admits

namespace Session

theorem start_sound : start.Sound [] where
  settled := by
    refine ⟨fun n f known => ?_, fun L mem => (List.not_mem_nil mem).elim,
      fun L mem => (List.not_mem_nil mem).elim⟩
    have print : f = ⟨.string "print", 1, [.any], some .nil, .print⟩ := by
      have mem := Array.mem_of_getElem? known
      simpa using (List.mem_singleton.1 (Array.mem_def.1 mem))
    subst print
    intro parameters statements home body
    cases body
  offers := by
    intro key arity g known
    simp only [Context.findFunction, Context.blocks, List.findSome?_cons] at known
    cases standard : StaticBlock.standard.functions.lookup (key, arity) with
    | none =>
      rw [standard] at known
      cases known
    | some g' =>
      rw [standard] at known
      cases known
      obtain ⟨same, rfl⟩ := StaticBlock.standard_lookup standard
      cases same
      exact ⟨0, _, rfl, rfl, .print⟩
  room := by decide
  regular := .standard fun _ mem => (List.not_mem_nil mem).elim

/-- Behind a program, what the built-in functions are called is known for it. -/
theorem findFunction_known {Γ : Context}
    (kept : ∀ key g, StaticBlock.standard.functions.lookup key = some g →
      Γ.inner.functions.lookup key = some g) :
    (Context.mk .standard Γ.blocks).findFunction = Γ.findFunction := by
  funext key arity
  simp only [Context.findFunction, Context.blocks, List.findSome?_cons]
  cases standard : StaticBlock.standard.functions.lookup (key, arity) with
  | none => rfl
  | some g => rw [kept _ g standard]

/-- A session that has run programs has their functions and knows them. -/
theorem Chained.sound {links : List Link} {s : Session} (chained : s.Chained links) :
    s.Sound links := by
  induction chained with
  | start => exact start_sound
  | @next links s s' n L settings steps w v before admits ends ih =>
    obtain ⟨run, rfl⟩ := admits.ran ends
    obtain ⟨Γ, globals, functions, founded, regular, standard⟩ := admits.founded ih
    obtain ⟨past, m, reached, halts⟩ := Machine.Reaches.halts .start run
    rcases (founded.reaches reached).step founded settings with goes | ⟨v', halts', settled⟩
    · rw [halts] at goes
      obtain ⟨f, ended⟩ := goes
      cases ended
    · rw [halts] at halts'
      cases halts'
      have known := findFunction_known fun key g here => by
        rw [← standard] at here
        exact (founded.defines.lookup key).1 g here
      have regular := founded.defines.regular regular
      refine ⟨settled, ?_, settled.room L List.mem_cons_self, .standard regular⟩
      rw [known]
      exact settled.offers L List.mem_cons_self

end Session

end PlcLang
