import PlcLang.Machine.Step
import PlcLang.Proofs.Except
import PlcLang.Proofs.Running.Storage
import PlcLang.Proofs.Tree.Parts

/-! What the characters of a run hold is what those of its program hold; and what a run has printed
stays printed. -/

namespace PlcLang

section

variable (P : Json → Prop)

/-- A character holds one of these. -/
def Value.Among : Value → Prop
  | .character content => P content
  | _ => True

/-- A literal that is a character holds one of these. -/
def Node.Among {α : Type} : Node α → Prop
  | .literal _ (.character content) => P content
  | _ => True

abbrev Node.AllAmong (n : Node Label) : Prop :=
  n.Every (Node.Among P)

abbrev Node.EachAmong (ns : List (Node Label)) : Prop :=
  Node.EveryOne (Node.Among P) ns

structure Store.Among (s : Store) : Prop where
  vars : ∀ (n : Nat) (x : Variable), s.vars[n]? = some x → x.value.Among P
  lists : ∀ (address : Nat) (items : Array Value), s.lists[address]? = some items →
    ∀ v ∈ items, v.Among P
  code : ∀ (n : Nat) (f : Callable) (parameters : List (Declared Label)) (statements : Node Label)
    (home : Env), s.functions[n]? = some f → f.body = .code parameters statements home →
      statements.AllAmong P

/-- What waits holds values and code of this kind. -/
def Frame.Among : Frame → Prop
  | .global _ others code _ => Node.EachAmong P others ∧ code.AllAmong P
  | .left _ operand _ _ | .test _ _ operand _ => operand.AllAmong P
  | .right _ v _ | .target _ v _ => v.Among P
  | .argument _ done others _ _ | .element done others _ =>
    (∀ v ∈ done, v.Among P) ∧ Node.EachAmong P others
  | .assignment _ offset _ _ _ => offset.AllAmong P
  | .branch _ thenStatements elseStatements _ =>
    thenStatements.AllAmong P ∧ elseStatements.AllAmong P
  | .subject branches _ => branches.AllAmong P
  | .case v fallback here others _ =>
    v.Among P ∧ (∀ b ∈ fallback, b.AllAmong P) ∧ here.AllAmong P ∧ Node.EachAmong P others
  | .condition guard statements _ | .round guard statements _ =>
    guard.AllAmong P ∧ statements.AllAmong P
  | .rest statements _ => Node.EachAmong P statements
  | .boolean _ | .index _ _ | .discard | .declaration _ _ _ | .result | .activation _ => True

def Control.Among : Control → Prop
  | .globals others code _ => Node.EachAmong P others ∧ code.AllAmong P
  | .functions others _ => Node.EachAmong P others
  | .evaluate e _ => e.AllAmong P
  | .execute statements _ => Node.EachAmong P statements
  | .call _ arguments => ∀ v ∈ arguments, v.Among P
  | .value v | .leave v => v.Among P
  | .start _ | .main _ | .ended => True

structure Machine.Among (m : Machine) : Prop where
  control : m.control.Among P
  frames : ∀ f ∈ m.frames, f.Among P
  store : m.world.store.Among P

/-- A step goes on with characters of this kind, and keeps what is printed. -/
def Step.Extends (output : String) : Step → Prop
  | .next m => m.Among P ∧ ∃ text, m.world.output = output ++ text
  | .halt w _ => ∃ text, w.output = output ++ text

/-- A rule is about to be applied where so much is printed. -/
structure Situation.Among (output : String) (s : Situation) : Prop where
  frames : ∀ f ∈ s.frames, f.Among P
  store : s.world.store.Among P
  printed : s.world.output = output
  tree : s.program.tree.AllAmong P

end

variable {P : Json → Prop}

/-! ### Values and their store -/

theorem Literal.among_value {label : Label} {value : Literal}
    (h : (Node.literal label value).AllAmong P) : value.value.Among P := by
  cases value with
  | character content => exact h
  | _ => exact trivial

namespace Store.Among

variable {s : Store} {v : Value}

theorem add (h : s.Among P) (hv : v.Among P) {env : Env} {key : Key} {name : Json}
    {type : Option Ty} {isMutable : Bool} {id : Option DeclId} :
    (s.add env key ⟨name, type, isMutable, v⟩ id).Among P where
  vars n x known := by
    have known : (s.vars.push ⟨name, type, isMutable, v⟩)[n]? = some x := known
    rw [Array.getElem?_push] at known
    split at known
    · cases known
      exact hv
    · exact h.vars n x known
  lists := h.lists
  code := h.code

theorem openBlock (h : s.Among P) (env : Env) : (s.openBlock env).1.Among P :=
  ⟨h.vars, h.lists, h.code⟩

theorem setValue (h : s.Among P) (hv : v.Among P) {n : Nat} : (s.setValue n v).Among P where
  vars i x known := by
    have known : (s.vars.modify n fun x => { x with value := v })[i]? = some x := known
    rw [Array.getElem?_modify] at known
    split at known
    · obtain ⟨y, _, rfl⟩ := Option.map_eq_some_iff.1 known
      exact hv
    · exact h.vars i x known
  lists := h.lists
  code := h.code

theorem newList (h : s.Among P) {items : Array Value} (each : ∀ v ∈ items, v.Among P) :
    (s.newList items).1.Among P where
  vars := h.vars
  lists address found known := by
    have known : (s.lists.push items)[address]? = some found := known
    rw [Array.getElem?_push] at known
    split at known
    · cases known
      exact each
    · exact h.lists address found known
  code := h.code

theorem setElement (h : s.Among P) (hv : v.Among P) {address index : Nat} :
    (s.setElement address index v).Among P where
  vars := h.vars
  lists i found known := by
    have known : (s.lists.modify address fun items => items.setIfInBounds index v)[i]? =
      some found := known
    rw [Array.getElem?_modify] at known
    split at known
    · obtain ⟨items, old, rfl⟩ := Option.map_eq_some_iff.1 known
      intro u hu
      rcases Array.mem_or_eq_of_mem_setIfInBounds hu with hu | rfl
      · exact h.lists i items old u hu
      · exact hv
    · exact h.lists i found known
  code := h.code

theorem defineFunction (h : s.Among P) {env : Env} {key : Key} {f : Callable} {s' : Store} {n : Nat}
    (coded : ∀ (parameters : List (Declared Label)) (statements : Node Label) (home : Env),
      f.body = .code parameters statements home → statements.AllAmong P)
    (defined : s.defineFunction env key f = some (s', n)) : s'.Among P := by
  rw [Store.defineFunction] at defined
  simp only at defined
  split at defined
  · cases defined
  · cases defined
    refine ⟨h.vars, h.lists, fun i g parameters statements home known body => ?_⟩
    have known : (s.functions.push f)[i]? = some g := known
    rw [Array.getElem?_push] at known
    split at known
    · cases known
      exact coded parameters statements home body
    · exact h.code i g parameters statements home known body

theorem elements (h : s.Among P) (address : Nat) : ∀ v ∈ s.lists.elements address, v.Among P := by
  intro v hv
  rw [Lists.elements] at hv
  cases known : s.lists[address]? with
  | none =>
    rw [known] at hv
    simp at hv
  | some items =>
    rw [known] at hv
    exact h.lists address items known v (Array.mem_toList_iff.1 hv)

end Store.Among

theorem among_integerResult {op : Operator} {a b : Int} {v : Value}
    {subject : Option (Node Label)} (h : integerResult op a b subject = .ok v) : v.Among P := by
  unfold integerResult at h
  split at h
  · cases h
    exact trivial
  · cases h
    exact trivial
  · cases h
    exact trivial
  · split at h
    · cases h
    · cases h
      exact trivial

theorem among_kept {r : Except Decimal.Signal Decimal} {v : Value}
    (h : (r.map Value.decimal).mapError Fault.decimal = .ok v) : v.Among P := by
  obtain ⟨d, -, rfl⟩ := Except.map_eq_ok.1 (Except.mapError_eq_ok.1 h)
  exact trivial

theorem among_decimalResult {op : Operator} {a b : Decimal} {v : Value}
    {subject : Option (Node Label)} (h : decimalResult op a b subject = .ok v) : v.Among P := by
  unfold decimalResult at h
  simp only at h
  split at h
  · exact among_kept h
  · exact among_kept h
  · exact among_kept h
  · split at h
    · cases h
    · exact among_kept h

theorem among_arithmetic {op : Operator} {a b v : Value} {subject : Option (Node Label)}
    (h : arithmetic op a b subject = .ok v) : v.Among P := by
  unfold arithmetic at h
  split at h
  · exact among_integerResult h
  · exact among_decimalResult h
  · cases h

theorem among_boolean {x : Except Fault Bool} {f : Bool → Bool} {v : Value}
    (h : x.map (fun b => Value.boolean (f b)) = .ok v) : v.Among P := by
  obtain ⟨b, -, rfl⟩ := Except.map_eq_ok.1 h
  exact trivial

theorem among_ordered {wanted : Ordering} {a b v : Value} {subject : Option (Node Label)}
    (h : Value.ordered wanted a b subject = .ok v) : v.Among P := by
  unfold Value.ordered at h
  split at h
  · rename_i order _
    cases order with
    | error e => cases h
    | ok o =>
      cases h
      exact trivial
  · cases h

/-- Operators make no characters. -/
theorem Lists.among_apply {lists : Lists} {depth : Nat} {op : Operator} {a b v : Value}
    {subject : Option (Node Label)} (h : lists.apply depth op a b subject = .ok v) : v.Among P := by
  cases op with
  | equal => exact among_boolean (f := id) h
  | unequal => exact among_boolean h
  | less | greater => exact among_ordered h
  | minus | times | divide => exact among_arithmetic h
  | plus =>
    simp only [apply] at h
    split at h
    · obtain ⟨left, -, h⟩ := Except.bind_eq_ok.1 h
      obtain ⟨right, -, h⟩ := Except.bind_eq_ok.1 h
      cases h
      exact trivial
    · exact among_arithmetic h
  | power =>
    simp only [apply] at h
    split at h
    · split at h
      · cases h
      · cases h
        exact trivial
    · cases h
  | and | or | other => cases h

theorem World.bind_among {w : World} (h : w.store.Among P) (env : Env) (found : Annotations)
    {arguments : List (Declared Label × Value)} (each : ∀ a ∈ arguments, a.2.Among P) :
    (w.bind env found arguments).1.store.Among P ∧
      (w.bind env found arguments).1.output = w.output := by
  induction arguments generalizing w with
  | nil => exact ⟨h, rfl⟩
  | cons argument rest ih =>
    obtain ⟨p, v⟩ := argument
    simp only [World.bind]
    split
    · exact ⟨h, rfl⟩
    · split
      · exact ⟨h, rfl⟩
      · exact ih (h.add (each (p, v) List.mem_cons_self)) fun a ha =>
          each a (List.mem_cons_of_mem _ ha)

namespace Situation.Among

variable {s : Situation} {output : String} {env : Env}

theorem fail (h : s.Among P output) (f : Fault) : (s.fail f).Extends P output :=
  ⟨"", by rw [String.append_empty]; exact h.printed⟩

theorem go (h : s.Among P output) {control : Control} (next : control.Among P) :
    (s.go control).Extends P output :=
  ⟨⟨next, h.frames, h.store⟩, "", by rw [String.append_empty]; exact h.printed⟩

theorem behind (h : s.Among P output) {frame : Frame} (waits : frame.Among P) :
    (s.behind frame).Among P output :=
  ⟨List.forall_mem_cons.2 ⟨waits, h.frames⟩, h.store, h.printed, h.tree⟩

theorem await (h : s.Among P output) {frame : Frame} {control : Control} (waits : frame.Among P)
    (next : control.Among P) : (s.await frame control).Extends P output :=
  (h.behind waits).go next

theorem openBlock (h : s.Among P output) (env : Env) :
    (s.withWorld (s.world.openBlock env).1).Among P output :=
  ⟨h.frames, h.store.openBlock env, h.printed, h.tree⟩

theorem leave (h : s.Among P output) {v : Value} (held : v.Among P) :
    ({ s with calls := s.calls - 1 }.go (.value v)).Extends P output := by
  have back : Among P output { s with calls := s.calls - 1 } :=
    ⟨h.frames, h.store, h.printed, h.tree⟩
  have next : (Control.value v).Among P := held
  exact back.go next

theorem withStore (h : s.Among P output) {store : Store} (among : store.Among P) :
    (s.withWorld { s.world with store := store }).Among P output :=
  ⟨h.frames, among, h.printed, h.tree⟩

theorem require (h : s.Among P output) {α : Type} {x : Except Fault α} {k : α → Step}
    (hk : ∀ a, x = .ok a → (k a).Extends P output) : (s.require x k).Extends P output := by
  cases x with
  | error f => exact h.fail f
  | ok a => exact hk a rfl

theorem noting (h : s.Among P output) {level : Nat} {n : World → Except Fault Note}
    {k : Situation → Step}
    (hk : ∀ t : Situation, t.Among P output → (k t).Extends P output) :
    (s.noting level n k).Extends P output := by
  unfold Situation.noting
  split
  · exact hk s h
  · exact h.require fun note _ => hk _ ⟨h.frames, h.store, h.printed, h.tree⟩

theorem notingText (h : s.Among P output) {level : Nat} {v : Value} {n : String → Note}
    {k : Situation → Step} (hk : ∀ t : Situation, t.Among P output → (k t).Extends P output) :
    (s.notingText level v n k).Extends P output :=
  h.noting hk

theorem requireBoolean (h : s.Among P output) {v : Value} {e : Node Label} {k : Bool → Step}
    (hk : ∀ b, (k b).Extends P output) : (s.requireBoolean v e k).Extends P output := by
  cases v with
  | boolean b => exact hk b
  | _ => exact h.fail _

theorem requireList (h : s.Among P output) {v : Value} {e : Node Label} {k : Nat → Step}
    (hk : ∀ list, (k list).Extends P output) : (s.requireList v e k).Extends P output := by
  cases v with
  | list address => exact hk address
  | _ => exact h.fail _

theorem requireIndex (h : s.Among P output) {list : Nat} {v : Value} {e : Node Label}
    {k : Nat → Step} (hk : ∀ i, (k i).Extends P output) :
    (s.requireIndex list v e k).Extends P output := by
  cases v with
  | integer n =>
    simp only [Situation.requireIndex]
    split
    · exact h.fail _
    · exact hk _
  | _ => exact h.fail _

theorem resolve (h : s.Among P output) {binding : Option Binding} {name : Json} {node : Node Label}
    {k : Nat → Variable → Step} (hk : ∀ n x, x.value.Among P → (k n x).Extends P output) :
    (s.resolve env binding name node k).Extends P output := by
  unfold Situation.resolve
  split
  · exact h.fail _
  · exact h.fail _
  · split
    · rename_i n _ _ x known
      exact hk n x (h.store.vars n x known)
    · exact h.fail _

theorem execute (h : s.Among P output) {statements : Node Label} (code : statements.AllAmong P) :
    (s.execute statements env).Extends P output :=
  h.require fun _ listed => h.go (code.items listed)

theorem enter (h : s.Among P output) {statements : Node Label} (code : statements.AllAmong P) :
    (s.enter statements env).Extends P output :=
  (h.openBlock env).execute code

theorem invoke (h : s.Among P output) {name : Json} {arguments : List Value} {node : Node Label}
    (each : ∀ v ∈ arguments, v.Among P) : (s.invoke env name arguments node).Extends P output := by
  apply h.require
  intro key _
  split
  · exact h.go each
  · exact h.fail _

theorem evaluate (h : s.Among P output) {e : Node Label} (code : e.AllAmong P) :
    (s.evaluate e env).Extends P output := by
  cases e with
  | literal label value => exact h.go (Literal.among_value code)
  | group label inner => exact h.go code.2
  | binary label op left right =>
    obtain ⟨-, first, second⟩ := code
    cases op <;> exact h.await second first
  | access label name offset =>
    apply h.resolve
    intro n x held
    split
    · exact h.go held
    · exact h.requireList fun list => h.await trivial code.2
  | call label name arguments =>
    apply h.require
    intro items listed
    have each := code.2.items listed
    cases items with
    | nil => exact h.invoke (by simp)
    | cons first rest => exact h.await ⟨by simp, each.2⟩ each.1
  | listLiteral label elements =>
    apply h.require
    intro items listed
    have each := code.2.items listed
    cases items with
    | nil =>
      have empty : ∀ v ∈ (#[] : Array Value), v.Among P := by simp
      exact (h.withStore (h.store.newList empty)).go trivial
    | cons first rest => exact h.await ⟨by simp, each.2⟩ each.1
  | _ => exact h.fail _

theorem executeOne (h : s.Among P output) {statement : Node Label} (code : statement.AllAmong P) :
    (s.executeOne statement env).Extends P output := by
  cases statement with
  | expressionStmt e => exact h.await trivial code.2
  | declaration label name typeName value =>
    refine h.await trivial ?_
    split
    · exact trivial
    · exact code.2
  | assignment receiver value =>
    cases receiver with
    | access label name offset =>
      apply h.resolve
      intro n x _
      exact h.await code.2.1.2 code.2.2
    | _ => exact h.fail _
  | conditional condition thenStatements elseStatements => exact h.await code.2.2 code.2.1
  | switch condition cases => exact h.await code.2.2 code.2.1
  | loop condition statements =>
    simp only [Situation.executeOne]
    cases s.settings.loops with
    | shared => exact (h.openBlock env).await code.2 code.2.1
    | perRound => exact h.await code.2 code.2.1
  | ret value => exact h.await trivial code.2
  | _ => exact h.fail _

theorem executeAll (h : s.Among P output) {statements : List (Node Label)}
    (code : Node.EachAmong P statements) : (s.executeAll statements env).Extends P output := by
  cases statements with
  | nil => exact h.go trivial
  | cons first rest =>
    have waits : (Frame.rest rest env).Among P := code.2
    exact (h.behind waits).executeOne code.1

theorem take (h : s.Among P output) {v : Value} {reason : String} {branch : Node Label}
    (code : branch.AllAmong P) : (s.take v reason branch env).Extends P output := by
  apply h.notingText
  intro t h
  cases branch with
  | case value statements => exact h.enter code.2.2
  | _ => exact h.fail _

theorem select (h : s.Among P output) {v : Value} (held : v.Among P)
    (default : Option (Node Label)) (fallback : ∀ b ∈ default, b.AllAmong P)
    {cases : List (Node Label)} (code : Node.EachAmong P cases) :
    (s.select v default env cases).Extends P output := by
  induction cases generalizing default with
  | nil =>
    cases default with
    | none => exact h.go trivial
    | some branch => exact h.take (fallback branch rfl)
  | cons case rest ih =>
    simp only [Situation.select]
    split
    · exact h.fail _
    · refine ih (some case) (fun b same => ?_) code.2
      cases same
      exact code.1
    · rename_i given
      exact h.await ⟨held, fallback, code.1, code.2⟩ (code.1.content given)
    · exact h.fail _

/-- Only a call of `print` adds to what is printed. -/
theorem call (h : s.Among P output) (n : Nat) {arguments : List Value}
    (each : ∀ v ∈ arguments, v.Among P) : (s.call n arguments).Extends P output := by
  unfold Situation.call
  split
  · exact h.go trivial
  · rename_i f known
    apply h.noting
    intro t h'
    split
    · apply h'.require
      intro text _
      refine ⟨⟨trivial, h'.frames, h'.store⟩, text ++ "\n", ?_⟩
      rw [← String.append_assoc, ← h'.printed]
      rfl
    · rename_i parameters statements home body
      split
      · exact h'.fail _
      · have opened : (t.world.openBlock home).1.store.Among P := h'.store.openBlock home
        have given : ∀ a ∈ parameters.zip arguments, a.2.Among P := fun a ha =>
          each a.2 (List.of_mem_zip ha).2
        obtain ⟨bound, silent⟩ :=
          World.bind_among opened (t.world.openBlock home).2 t.program.found given
        have printed := silent.trans h'.printed
        simp only
        generalize World.bind _ _ _ _ = result at bound printed ⊢
        obtain ⟨w, fault⟩ := result
        cases fault with
        | some fault => exact ⟨"", by rw [String.append_empty]; exact printed⟩
        | none =>
          have inside : Among P output { t with world := w, calls := t.calls + 1 } :=
            ⟨h'.frames, bound, printed, h'.tree⟩
          have waits : (Frame.activation n).Among P := trivial
          exact (inside.behind waits).execute (h.store.code n f parameters statements home known ‹_›)

theorem start (h : s.Among P output) : (s.start env).Extends P output := by
  unfold Situation.start
  have tree := h.tree
  split
  · rename_i globals functions same
    rw [same] at tree
    apply h.require
    intro items listed
    exact h.go ⟨tree.2.1.items listed, tree.2.2⟩
  · exact h.fail _

theorem global (h : s.Among P output) {g functions : Node Label} {rest : List (Node Label)}
    (here : g.AllAmong P) (others : Node.EachAmong P rest) (code : functions.AllAmong P) :
    (s.global g rest functions env).Extends P output := by
  unfold Situation.global
  split
  · exact h.fail _
  · exact h.await ⟨others, code⟩ trivial
  · rename_i given
    exact h.await ⟨others, code⟩ (here.content given)
  · exact h.fail _

theorem resume (h : s.Among P output) {v : Value} {frame : Frame} (held : v.Among P)
    (waits : frame.Among P) : (s.resume v frame).Extends P output := by
  cases frame with
  | global g rest functions env =>
    cases g with
    | global label name isMutable typeName value =>
      apply h.require
      intro w added
      have among : (s.withWorld w).Among P output := by
        cases isName : name.key with
        | error f =>
          simp only [World.addFree, isName, Bind.bind, Except.bind] at added
          contradiction
        | ok key =>
          rw [World.addFree_eq isName] at added
          split at added
          · contradiction
          · cases added
            exact h.withStore (h.store.add held)
      apply among.notingText
      intro t h
      exact h.go waits
    | _ => exact h.fail _
  | left op right node env => exact h.await held waits
  | right op left node =>
    apply h.require
    intro u result
    exact h.go (Lists.among_apply result)
  | test decisive left right env =>
    apply h.requireBoolean
    intro b
    split
    · exact h.go trivial
    · exact h.await trivial waits
  | boolean e =>
    apply h.requireBoolean
    intro b
    exact h.go trivial
  | index list node =>
    simp only [Situation.resume]
    apply h.requireIndex
    intro i
    have each := h.store.elements list
    have held : ((s.world.store.lists[list]?.getD #[])[i]?.getD .nil).Among P := by
      cases known : (s.world.store.lists[list]?.getD #[])[i]? with
      | none => exact trivial
      | some u => exact each u (Array.mem_toList_iff.2 (Array.mem_of_getElem? known))
    exact h.go held
  | argument name done rest node env =>
    obtain ⟨each, others⟩ := waits
    have each' : ∀ u ∈ v :: done, u.Among P := List.forall_mem_cons.2 ⟨held, each⟩
    cases rest with
    | nil => exact h.invoke fun u hu => each' u (List.mem_reverse.1 hu)
    | cons e rest => exact h.await ⟨each', others.2⟩ others.1
  | element done rest env =>
    obtain ⟨each, others⟩ := waits
    have each' : ∀ u ∈ v :: done, u.Among P := List.forall_mem_cons.2 ⟨held, each⟩
    cases rest with
    | nil =>
      have elements : ∀ u ∈ (v :: done).reverse.toArray, u.Among P := fun u hu =>
        each' u (List.mem_reverse.1 (List.mem_toArray.1 hu))
      exact (h.withStore (h.store.newList elements)).go trivial
    | cons e rest => exact h.await ⟨each', others.2⟩ others.1
  | discard => exact h.go trivial
  | declaration label name env =>
    apply h.require
    intro key _
    apply (h.withStore (h.store.add held)).notingText
    intro t h
    exact h.go trivial
  | assignment n offset receiver node env =>
    simp only [Situation.resume]
    split
    · exact h.go trivial
    · split
      · exact h.fail _
      · split
        · exact (h.withStore (h.store.setValue held)).go trivial
        · exact h.requireList fun list => h.await held waits
  | target list value receiver =>
    simp only [Situation.resume]
    apply h.requireIndex
    intro i
    exact (h.withStore (h.store.setElement waits)).go trivial
  | branch condition thenStatements elseStatements env =>
    apply h.requireBoolean
    intro b
    apply h.notingText
    intro t h
    apply h.enter
    cases b with
    | true => exact waits.1
    | false => exact waits.2
  | subject cases env =>
    apply h.require
    intro cases listed
    exact h.select held none (by simp) (waits.items listed)
  | case subject default case rest env =>
    obtain ⟨kept, fallback, here, others⟩ := waits
    apply h.require
    intro same _
    split
    · exact h.take here
    · exact h.select kept default fallback others
  | condition condition statements env =>
    apply h.requireBoolean
    intro b
    apply h.notingText
    intro t h
    cases b with
    | false => exact h.go trivial
    | true =>
      have round : (Frame.round condition statements env).Among P := waits
      simp only [↓reduceIte]
      cases t.settings.loops with
      | shared => exact (h.behind round).execute waits.2
      | perRound => exact ((h.openBlock env).behind round).execute waits.2
  | result => exact h.go held
  | activation n => exact h.leave held
  | round | rest => exact h.go held

theorem proceed (h : s.Among P output) {frame : Frame} (waits : frame.Among P) :
    (s.proceed frame).Extends P output := by
  cases frame with
  | rest statements env => exact h.go waits
  | round condition statements env => exact h.await waits waits.1
  | activation n => exact h.leave trivial
  | _ => exact h.go trivial

theorem unwind (h : s.Among P output) {v : Value} (held : v.Among P) (frame : Frame) :
    (s.unwind v frame).Extends P output := by
  cases frame with
  | activation n => exact h.leave held
  | _ => exact h.go held

theorem defineFunction (h : s.Among P output) {f : Node Label} {rest : List (Node Label)}
    (here : f.AllAmong P) (others : Node.EachAmong P rest) :
    (s.defineFunction f rest env).Extends P output := by
  cases f with
  | function label name parameters returnTypeName statements =>
    apply h.require
    rintro ⟨header, returns, key⟩ _
    have coded : ∀ (parameters' : List (Declared Label)) (statements' : Node Label) (home : Env),
        Body.code (header.map (·.1)) statements env = .code parameters' statements' home →
          statements'.AllAmong P := by
      intro _ _ _ same
      cases same
      exact here.2.2
    simp only
    split
    · exact h.fail _
    · rename_i store n defined
      apply (h.withStore (h.store.defineFunction coded defined)).noting
      intro t h
      exact h.go others
  | _ => exact h.fail _

end Situation.Among

/-- A step goes on with the same kind of characters, and keeps what is printed. -/
theorem Machine.Among.step {m : Machine} (h : m.Among P) {settings : Settings}
    {program : Annotated} (tree : program.tree.AllAmong P) :
    (m.step settings program).Extends P m.world.output := by
  obtain ⟨control, frames, calls, w⟩ := m
  obtain ⟨next, waiting, store⟩ := h
  have among : ∀ K : List Frame, (∀ f ∈ K, f.Among P) →
      Situation.Among P w.output ⟨settings, program, K, calls, w⟩ :=
    fun K waiting => ⟨waiting, store, rfl, tree⟩
  have here := among frames waiting
  have ended : ∀ result, (Step.halt w result).Extends P w.output :=
    fun result => ⟨"", String.append_empty.symm⟩
  cases control with
  | start env => exact here.start
  | globals rest functions env =>
    cases rest with
    | nil =>
      apply here.require
      intro items listed
      exact here.go (next.2.items listed)
    | cons g rest => exact here.global next.1.1 next.1.2 next.2
  | functions rest env =>
    cases rest with
    | nil => exact here.go trivial
    | cons f rest => exact here.defineFunction next.1 next.2
  | main env =>
    simp only [Machine.step]
    split
    · exact here.go (by simp [Control.Among])
    · exact here.fail _
  | evaluate e env => exact here.evaluate next
  | execute statements env => exact here.executeAll next
  | call n arguments => exact here.call n next
  | value v =>
    cases frames with
    | nil => exact ended _
    | cons frame frames =>
      obtain ⟨waits, others⟩ := List.forall_mem_cons.1 waiting
      exact (among frames others).resume next waits
  | ended =>
    cases frames with
    | nil => exact ended _
    | cons frame frames =>
      obtain ⟨waits, others⟩ := List.forall_mem_cons.1 waiting
      exact (among frames others).proceed waits
  | leave v =>
    cases frames with
    | nil => exact ended _
    | cons frame frames =>
      obtain ⟨waits, others⟩ := List.forall_mem_cons.1 waiting
      exact (among frames others).unwind next frame

end PlcLang
