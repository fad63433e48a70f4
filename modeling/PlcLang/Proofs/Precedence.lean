import PlcLang.Proofs.Checking.Program
import PlcLang.Proofs.Checking.Verdict
import PlcLang.Proofs.Running.Start

/-! Which fault of a program is reported: that of the first item that has one. -/

namespace PlcLang

open Checking

/-- What a program defines at its top level. -/
inductive Item (α : Type) where
  | global (node : Node α)
  | function (node : Node α)

namespace Node

variable {α : Type}

/-- A program of these globals and functions. -/
abbrev program (globals functions : List (Node α)) : Node α :=
  .source (.list globals) (.list functions)

/-- The globals of a program, and behind them its functions. -/
def topLevel : Node α → List (Item α)
  | .source (.list globals) (.list functions) =>
    globals.map .global ++ functions.map .function
  | _ => []

/-- The function that a program starts with has this name, and no parameters. -/
def isMain : Node α → Bool
  | .function _ name parameters _ _ => decide (name = .string "main") && parameters.isEmpty
  | _ => false

/-- `FUN main() DO END` -/
def emptyMain : Node Unit :=
  .function () (.string "main") (.list []) .null (.list [])

example : Program.parse "FUN main() DO END" = .ok ⟨[], [⟨"main", [], none, []⟩]⟩ ∧
    (⟨[], [⟨"main", [], none, []⟩]⟩ : Program).toNode = program [] [emptyMain] :=
  ⟨by cbv, rfl⟩

/-- What a check of a program on its own comes to. -/
def verdict (n : Node Unit) : Except Fault Context :=
  ((n.annotated #[]).check 0 []).1

end Node

namespace Item

/-- Labels given out in the order of the items. -/
def withLabels {α : Type} : List (Item α) → Label → List (Item Label)
  | [], _ => []
  | .global g :: rest, l => .global (g.withLabels l).1 :: withLabels rest (g.withLabels l).2
  | .function f :: rest, l => .function (f.withLabels l).1 :: withLabels rest (f.withLabels l).2

/-- An item is checked in scope of those before it. -/
def check (number : Nat) (Γ : Context) : Item Label → Checking Context
  | .global g => g.checkGlobal number Γ
  | .function f => do
    let _ ← f.checkMain
    f.checkFunction number Γ

/-- Items are checked one after another. -/
def checkAll (number : Nat) (Γ : Context) (items : List (Item Label)) : Checking Context :=
  items.foldlM (Item.check number) Γ

end Item

/-- The check of a program on its own passes the first `k` items, and ends at the next one for a
fault. -/
def Node.StopsAt (n : Node Unit) (k : Nat) (f : Fault) : Prop :=
  ∃ before item after Γ σ, (n.annotated #[]).tree.topLevel = before ++ item :: after ∧
    before.length = k ∧
    (Item.checkAll 0 ⟨.standard, []⟩ before).Gives (n.annotated #[]).found Γ σ ∧
    ((item.check 0 Γ).run.run σ).1 = .error f

namespace Item

variable {α : Type} {number : Nat} {Γ Γ' : Context} {items before after : List (Item Label)}
  {item : Item Label} {f : Fault}

/-! ### Labels -/

theorem withLabels_functions (fs : List (Node α)) (l : Label) :
    withLabels (fs.map .function) l = (Node.allWithLabels fs l).1.map .function := by
  induction fs generalizing l with
  | nil => rfl
  | cons f rest ih => exact congrArg (.function (f.withLabels l).1 :: ·) (ih (f.withLabels l).2)

theorem withLabels_globals (gs fs : List (Node α)) (l : Label) :
    withLabels (gs.map .global ++ fs.map .function) l =
      (Node.allWithLabels gs l).1.map .global ++
        (Node.allWithLabels fs (Node.allWithLabels gs l).2).1.map .function := by
  induction gs generalizing l with
  | nil => exact withLabels_functions fs l
  | cons g rest ih => exact congrArg (.global (g.withLabels l).1 :: ·) (ih (g.withLabels l).2)

/-- The labels of items do not depend on what is behind them. -/
theorem withLabels_append (xs ys : List (Item α)) (l : Label) :
    ∃ l', withLabels (xs ++ ys) l = withLabels xs l ++ withLabels ys l' := by
  induction xs generalizing l with
  | nil => exact ⟨l, rfl⟩
  | cons x rest ih =>
    cases x with
    | global n | function n =>
      obtain ⟨l', same⟩ := ih (n.withLabels l).2
      exact ⟨l', congrArg (_ :: ·) same⟩

theorem length_withLabels (xs : List (Item α)) (l : Label) :
    (withLabels xs l).length = xs.length := by
  induction xs generalizing l with
  | nil => rfl
  | cons x rest ih => cases x <;> exact congrArg (· + 1) (ih _)

/-! ### Checks in turn -/

theorem check_steady (number : Nat) (Γ : Context) (item : Item Label) :
    (item.check number Γ).Steady := by
  cases item with
  | global g => exact Node.checkGlobal_steady number Γ g
  | function f =>
    exact (steady_lift (failsInPart_checkMain f)).bind fun _ => Node.checkFunction_steady number Γ f

theorem checkAll_cons : checkAll number Γ (item :: items) =
    item.check number Γ >>= fun Γ' => checkAll number Γ' items :=
  List.foldlM_cons

theorem checkAll_append : checkAll number Γ (before ++ after) =
    checkAll number Γ before >>= fun Γ' => checkAll number Γ' after :=
  List.foldlM_append

theorem checkAll_steady (number : Nat) (Γ : Context) (items : List (Item Label)) :
    (checkAll number Γ items).Steady := by
  induction items generalizing Γ with
  | nil => exact steady_pure
  | cons item rest ih =>
    rw [checkAll_cons]
    exact (check_steady number Γ item).bind ih

theorem outcome_append : (checkAll number Γ (before ++ after)).outcome =
    (checkAll number Γ before).outcome >>= fun Γ' => (checkAll number Γ' after).outcome := by
  rw [checkAll_append]
  exact Steady.outcome_bind fun Γ' => checkAll_steady number Γ' after

theorem outcome_cons : (checkAll number Γ (item :: items)).outcome =
    (item.check number Γ).outcome >>= fun Γ' => (checkAll number Γ' items).outcome := by
  rw [checkAll_cons]
  exact Steady.outcome_bind fun Γ' => checkAll_steady number Γ' items

theorem outcome_single :
    (checkAll number Γ [item]).outcome = (item.check number Γ).outcome := by
  rw [outcome_cons]
  cases (item.check number Γ).outcome <;> rfl

/-- Where an item fails behind others that pass, the items behind it do not matter. -/
theorem outcome_stops (passed : (checkAll number Γ before).outcome = .ok Γ')
    (failed : (item.check number Γ').outcome = .error f) (after : List (Item Label)) :
    (checkAll number Γ (before ++ item :: after)).outcome = .error f := by
  rw [outcome_append, passed]
  change (checkAll number Γ' (item :: after)).outcome = .error f
  rw [outcome_cons, failed]
  rfl

/-- Where the check of items fails, one of them does behind others that pass. -/
theorem stops_of_outcome (failed : (checkAll number Γ items).outcome = .error f) :
    ∃ before item after Γ', items = before ++ item :: after ∧
      (checkAll number Γ before).outcome = .ok Γ' ∧ (item.check number Γ').outcome = .error f := by
  induction items generalizing Γ with
  | nil => cases failed
  | cons item rest ih =>
    rw [outcome_cons] at failed
    rcases Except.bind_eq_error.1 failed with here | ⟨Γ₁, passed, later⟩
    · exact ⟨[], item, rest, Γ, rfl, rfl, here⟩
    · obtain ⟨before, next, after, Γ', rfl, others, fails⟩ := ih later
      refine ⟨item :: before, next, after, Γ', rfl, ?_, fails⟩
      rw [outcome_cons, passed]
      exact others

end Item

/-! ### The function to start with -/

theorem Node.isMain_withLabels {α : Type} (n : Node α) (l : Label) :
    (n.withLabels l).1.isMain = n.isMain := by
  cases n with
  | function label name parameters returnTypeName statements =>
    have empty (m : Node α) (l : Label) : (m.withLabels l).1.isEmpty = m.isEmpty := by
      cases m with
      | list items => cases items <;> rfl
      | _ => rfl
    exact congrArg (decide (name = .string "main") && ·) (empty parameters (l + 1))
  | _ => rfl

theorem Node.any_isMain_withLabels {α : Type} (ns : List (Node α)) (l : Label) :
    (Node.allWithLabels ns l).1.any Node.isMain = ns.any Node.isMain := by
  induction ns generalizing l with
  | nil => rfl
  | cons n rest ih => exact congrArg₂ or (n.isMain_withLabels l) (ih _)

theorem Node.isMain_of_checkMain {f : Node Label} {b : Bool} (h : f.checkMain = .ok b) :
    b = f.isMain := by
  unfold Node.checkMain at h
  obtain ⟨name, named, h⟩ := Except.bind_eq_ok.1 h
  cases f with
  | function label given parameters returnTypeName statements =>
    cases named
    simp only [ne_eq, ite_not] at h
    split at h
    · rename_i main
      split at h
      · rename_i some_parameter
        cases h
        simp_all [Node.isMain]
      · rename_i none
        split at h
        · cases h
        · cases h
          simp_all [Node.isMain]
    · rename_i other
      cases h
      simp [Node.isMain, other]
  | _ =>
    simp only at h
    split at h
    · cases h
      rfl
    · cases h

section

variable {number : Nat} {Γ Γ' : Context} {σ σ' : Annotations}

theorem Node.checkFunctions_eq (functions : List (Node Label)) :
    Node.checkFunctions number Γ functions =
      Item.checkAll number Γ (functions.map .function) >>= fun Γ' =>
        pure (Γ', functions.any Node.isMain) := by
  induction functions generalizing Γ with
  | nil => rfl
  | cons f rest ih =>
    have main {α : Type} (k : Bool → Checking α) :
        ((liftM f.checkMain : Checking Bool) >>= k) =
          (liftM f.checkMain : Checking Bool) >>= fun _ => k f.isMain := by
      cases found : f.checkMain with
      | error e => rfl
      | ok b =>
        rw [Node.isMain_of_checkMain found]
        rfl
    rw [Node.checkFunctions, main, List.map_cons, Item.checkAll_cons, Item.check]
    simp only [ih, bind_assoc, pure_bind, List.any_cons]

theorem Node.checkGlobals_eq (globals : List (Node Label)) :
    Node.checkGlobals number Γ globals = Item.checkAll number Γ (globals.map .global) := by
  induction globals generalizing Γ with
  | nil => rfl
  | cons g rest ih =>
    rw [Node.checkGlobals, List.map_cons, Item.checkAll_cons]
    exact congrArg (g.checkGlobal number Γ >>= ·) (funext fun Γ' => ih)

/-- The items of a program are checked in turn, and last that one is the function to start with. -/
theorem Node.checkProgram_eq (globals functions : List (Node Label)) (outer : List StaticBlock) :
    (Node.program globals functions).checkProgram number outer =
      Item.checkAll number ⟨.standard, outer⟩ (Node.program globals functions).topLevel >>= fun Γ =>
        if functions.any Node.isMain then pure Γ
        else throw (.ofCause (.noMain .check) (Node.program globals functions)) := by
  have items {α : Type} (ns : List (Node Label)) (k : List (Node Label) → Checking α) :
      (liftM (Node.list ns).items : Checking (List (Node Label))) >>= k = k ns := rfl
  rw [Node.program, Node.checkProgram]
  simp only [items, Node.checkGlobals_eq, Node.checkFunctions_eq, bind_assoc, pure_bind, topLevel,
    Item.checkAll_append]
  cases functions.any Node.isMain <;> rfl

/-- Only a text tells names apart as itself. -/
theorem Json.eq_of_key?_text {name : Json} {s : String} (h : name.key? = some (.text s)) :
    name = .string s := by
  cases name with
  | string t => simpa [Json.key?] using h
  | real x =>
    simp only [Json.key?, Option.some.injEq] at h
    split at h <;> cases h
  | _ => simp [Json.key?] at h

/-- Only a function by the name of `main` and without parameters takes that place. -/
theorem Item.main_free {item : Item Label} (h : (item.check number Γ).Gives σ Γ' σ')
    (other : ∀ f, item = .function f → f.isMain = false)
    (free : Γ.inner.functions.lookup (.text "main", 0) = none) :
    Γ'.inner.functions.lookup (.text "main", 0) = none := by
  cases item with
  | global g =>
    obtain ⟨label, name, isMutable, typeName, value, rfl⟩ := global_of_gives h
    obtain ⟨declared, u, t, τ, -, -, -, h⟩ := gives_checkGlobal.1 h
    obtain ⟨key, -, added, -⟩ := gives_declare.1 h
    rw [(addVariable_eq added).2]
    exact free
  | function f =>
    obtain ⟨isMain, _, -, h⟩ := gives_bind.1 h
    obtain ⟨label, name, parameters, returnTypeName, statements, rfl⟩ := function_of_gives h
    obtain ⟨header, returns, _, _, _, typed, -, declares, -, -⟩ := (gives_checkFunction rfl).1 h
    obtain ⟨key, named, added, -⟩ := gives_declareFunction.1 declares
    have other := other _ rfl
    rw [(addFunction_eq added).2, Table.lookup_put, if_neg, free]
    rw [beq_iff_eq, Prod.mk.injEq]
    rintro ⟨rfl, bare⟩
    have length := headerTypes_length typed
    simp only [Signature.arity, List.length_map] at bare
    obtain rfl := List.length_eq_zero_iff.1 (length.symm.trans bare.symm)
    obtain rfl := Json.eq_of_key?_text named
    cases other

theorem Item.main_free_all {items : List (Item Label)}
    (passed : (checkAll number Γ items).outcome = .ok Γ')
    (other : ∀ f, .function f ∈ items → f.isMain = false)
    (free : Γ.inner.functions.lookup (.text "main", 0) = none) :
    Γ'.inner.functions.lookup (.text "main", 0) = none := by
  induction items generalizing Γ with
  | nil =>
    cases passed
    exact free
  | cons item rest ih =>
    rw [outcome_cons] at passed
    obtain ⟨Γ₁, first, passed⟩ := Except.bind_eq_ok.1 passed
    have gives : (item.check number Γ).Gives #[] Γ₁ ((item.check number Γ).run.run #[]).2 :=
      Prod.ext first rfl
    have still := Item.main_free gives (fun f same => other f (same ▸ List.mem_cons_self)) free
    exact ih passed (fun f mem => other f (List.mem_cons_of_mem _ mem)) still

/-- An empty `main` passes wherever its place is free. -/
theorem Item.check_emptyMain (l : Label)
    (free : Γ.inner.functions.lookup (.text "main", 0) = none) :
    ∃ Γ', (Item.check number Γ (.function (Node.emptyMain.withLabels l).1)).outcome = .ok Γ' := by
  have added : ∃ Γ', Γ.addFunction (.text "main") ⟨some ⟨number, l⟩, .string "main", [], .nil⟩ =
      some Γ' := by
    refine ⟨_, if_neg ?_⟩
    simp only [Signature.arity, List.length_nil, Table.has, free, Option.isSome_none]
    exact Bool.false_ne_true
  obtain ⟨Γ', added⟩ := added
  have declared : (Γ.declareFunction number l (.string "main") [] .nil
      (Node.emptyMain.withLabels l).1).Gives #[] Γ' _ :=
    gives_declareFunction.2 ⟨_, rfl, added, rfl⟩
  have body : ((Node.emptyMain.withLabels l).1.checkFunction number Γ).Gives #[] Γ' _ :=
    gives_bind.2 ⟨[], #[], rfl, gives_bind.2 ⟨[], #[], rfl, gives_bind.2 ⟨none, #[], rfl,
      gives_bind.2 ⟨Γ', _, declared, gives_bind.2 ⟨Γ'.child, _, rfl, rfl⟩⟩⟩⟩⟩
  have checked : (Item.check number Γ (.function (Node.emptyMain.withLabels l).1)).Gives #[] Γ' _ :=
    gives_bind.2 ⟨true, #[], rfl, body⟩
  exact ⟨Γ', congrArg Prod.fst checked⟩

end

namespace Node

variable {globals functions : List (Node Unit)} {f : Fault}

theorem topLevel_annotated (globals functions : List (Node Unit)) :
    ((program globals functions).annotated #[]).tree.topLevel =
      Item.withLabels (program globals functions).topLevel 0 :=
  (Item.withLabels_globals globals functions 0).symm

/-- What the checks of its items in turn come to. -/
def itemwise (n : Node Unit) : Except Fault Context :=
  (Item.checkAll 0 ⟨.standard, []⟩ (Item.withLabels n.topLevel 0)).outcome

/-- The items of a program decide what its check comes to, and behind them that it has no `main`. -/
theorem verdict_eq (globals functions : List (Node Unit)) :
    (program globals functions).verdict =
      (program globals functions).itemwise >>= fun Γ =>
        if functions.any isMain then .ok Γ
        else .error
          (.ofCause (.noMain .check) ((program globals functions).annotated #[]).tree) := by
  let gs := (Node.allWithLabels globals 0).1
  let fs := (Node.allWithLabels functions (Node.allWithLabels globals 0).2).1
  have tree : ((program globals functions).annotated #[]).tree = program gs fs := rfl
  have main : fs.any isMain = functions.any isMain := any_isMain_withLabels ..
  have start : (Item.checkAll 0 ⟨.standard, []⟩ (program gs fs).topLevel).outcome = _ :=
    ((Item.checkAll_steady ..).run_eq ((program globals functions).annotated #[]).found).symm
  rw [itemwise, ← topLevel_annotated, verdict, Annotated.check, tree, checkProgram_eq, start,
    ← main]
  simp only [ExceptT.run_bind, StateT.run_bind]
  obtain ⟨r, σ⟩ := (Item.checkAll 0 ⟨.standard, []⟩ (program gs fs).topLevel).run.run
    ((program globals functions).annotated #[]).found
  cases r with
  | error f => rfl
  | ok Γ => cases fs.any isMain <;> rfl

theorem StopsAt.prefix_fails {k : Nat} (stops : (program globals functions).StopsAt k f)
    {items : List (Item Unit)}
    (same : (program globals functions).topLevel.take (k + 1) <+: items) :
    (Item.checkAll 0 ⟨.standard, []⟩ (Item.withLabels items 0)).outcome = .error f := by
  obtain ⟨before, item, after, Γ, σ, split, rfl, passed, failed⟩ := stops
  obtain ⟨later, rfl⟩ := same
  set all := (program globals functions).topLevel
  have front : Item.withLabels (all.take (before.length + 1)) 0 = before ++ [item] := by
    obtain ⟨l, whole⟩ := Item.withLabels_append (all.take (before.length + 1))
      (all.drop (before.length + 1)) 0
    rw [List.take_append_drop, ← topLevel_annotated, split, List.append_cons] at whole
    have length : all.length = before.length + (after.length + 1) := by
      rw [← Item.length_withLabels all 0, ← topLevel_annotated, split, List.length_append,
        List.length_cons]
    refine (List.append_inj_left whole ?_).symm
    rw [Item.length_withLabels, List.length_take, List.length_append, List.length_singleton]
    omega
  obtain ⟨l, whole⟩ := Item.withLabels_append (all.take (before.length + 1)) later 0
  rw [whole, front, List.append_assoc, List.singleton_append]
  have passed' : (Item.checkAll 0 ⟨.standard, []⟩ before).outcome = .ok Γ :=
    ((Item.checkAll_steady ..).run_eq _).symm.trans (congrArg Prod.fst passed)
  have failed' : (item.check 0 Γ).outcome = .error f :=
    ((Item.check_steady ..).run_eq σ).symm.trans failed
  exact Item.outcome_stops passed' failed' _

/-- Where the items pass, all that can be wrong is that there is no `main`. -/
theorem verdict_passed {Γ : Context} (passed : (program globals functions).itemwise = .ok Γ) :
    (program globals functions).verdict = if functions.any isMain then .ok Γ
      else .error (.ofCause (.noMain .check) ((program globals functions).annotated #[]).tree) := by
  rw [verdict_eq, passed]
  rfl

/-- An item that fails is reported. -/
theorem verdict_failed (failed : (program globals functions).itemwise = .error f) :
    (program globals functions).verdict = .error f := by
  rw [verdict_eq, failed]
  rfl

theorem StopsAt.of_itemwise (failed : (program globals functions).itemwise = .error f) :
    ∃ k, (program globals functions).StopsAt k f := by
  obtain ⟨before, item, after, Γ, split, passed, failed⟩ := Item.stops_of_outcome failed
  let σ := ((program globals functions).annotated #[]).found
  have gives := (Item.checkAll_steady 0 ⟨.standard, []⟩ before).run_eq σ
  refine ⟨before.length, before, item, after, Γ, _, topLevel_annotated .. ▸ split, rfl,
    Prod.ext (gives.trans passed) rfl, ?_⟩
  rw [(Item.check_steady 0 Γ item).run_eq, failed]

/-! ### A program without `main` -/

theorem topLevel_withMain (globals functions : List (Node Unit)) :
    (program globals (functions ++ [emptyMain])).topLevel =
      (program globals functions).topLevel ++ [.function emptyMain] := by
  rw [topLevel, topLevel, List.map_append, ← List.append_assoc]
  rfl

theorem any_isMain_eq_false : functions.any isMain = false ↔ ∀ g ∈ functions, g.isMain = false := by
  simp only [List.any_eq_false, Bool.not_eq_true]

/-- The place of `main` is free behind a program that has none. -/
theorem main_free {Γ : Context} (none : ∀ g ∈ functions, g.isMain = false)
    (passed : (program globals functions).itemwise = .ok Γ) :
    Γ.inner.functions.lookup (.text "main", 0) = .none := by
  refine Item.main_free_all passed (fun g mem => ?_) rfl
  rw [topLevel, Item.withLabels_globals, List.mem_append] at mem
  rcases mem with mem | mem
  · obtain ⟨_, -, same⟩ := List.mem_map.1 mem
    cases same
  · obtain ⟨_, mem, same⟩ := List.mem_map.1 mem
    cases same
    have labelled := any_isMain_withLabels functions (Node.allWithLabels globals 0).2
    rw [any_isMain_eq_false.2 none] at labelled
    exact Bool.eq_false_iff.2 (List.any_eq_false.1 labelled g mem)

/-- With an empty `main` behind it, a program without one is accepted once its items pass. -/
theorem accepted_withMain {Γ : Context} (none : ∀ g ∈ functions, g.isMain = false)
    (passed : (program globals functions).itemwise = .ok Γ) :
    (program globals (functions ++ [emptyMain])).Accepted := by
  obtain ⟨l, labels⟩ :=
    Item.withLabels_append (program globals functions).topLevel [.function emptyMain] 0
  rw [← topLevel_withMain] at labels
  obtain ⟨Γ', checked⟩ := Item.check_emptyMain l (main_free none passed)
  have whole : (program globals (functions ++ [emptyMain])).itemwise = .ok Γ' := by
    rw [itemwise] at passed
    rw [itemwise, labels, Item.outcome_append, passed]
    exact Item.outcome_single.trans checked
  have ends : (functions ++ [emptyMain]).any isMain = true := by
    rw [List.any_append, Bool.or_eq_true]
    exact .inr rfl
  exact ⟨Γ', (verdict_passed whole).trans (if_pos ends)⟩

/-- With an empty `main` behind it, a program fails where it did. -/
theorem verdict_withMain (failed : (program globals functions).itemwise = .error f) :
    (program globals (functions ++ [emptyMain])).verdict = .error f := by
  obtain ⟨k, stops⟩ := StopsAt.of_itemwise failed
  refine verdict_failed (stops.prefix_fails ?_)
  rw [topLevel_withMain]
  exact (List.take_prefix ..).trans (List.prefix_append ..)

theorem stops_or_noMain (failed : (program globals functions).verdict = .error f) :
    (∃ k, (program globals functions).StopsAt k f) ∨
      f = .ofCause (.noMain .check) ((program globals functions).annotated #[]).tree := by
  cases items : (program globals functions).itemwise with
  | error e =>
    rw [verdict_failed items] at failed
    cases failed
    exact .inl (StopsAt.of_itemwise items)
  | ok Γ =>
    rw [verdict_passed items] at failed
    split at failed
    · cases failed
    · cases failed
      exact .inr rfl

theorem missingEntryPoint_iff :
    (∃ p, (program globals functions).verdict = .error (.problem p) ∧
        p.cause.errorClass = .missingEntryPoint) ↔
      (∀ g ∈ functions, g.isMain = false) ∧
        (program globals (functions ++ [emptyMain])).Accepted := by
  cases items : (program globals functions).itemwise with
  | error e =>
    have ofPart : e.OfPart := (Item.checkAll_steady ..).failsInPart e items
    refine iff_of_false ?_ ?_
    · rintro ⟨p, failed, missing⟩
      rw [verdict_failed items] at failed
      cases failed
      exact ofPart missing
    · rintro ⟨-, Γ, accepted⟩
      cases accepted.symm.trans (verdict_withMain items)
  | ok Γ =>
    have verdict := verdict_passed items
    cases main : functions.any isMain with
    | true =>
      rw [main] at verdict
      refine iff_of_false ?_ ?_
      · rintro ⟨p, failed, -⟩
        cases failed.symm.trans verdict
      · rintro ⟨none, -⟩
        cases main.symm.trans (any_isMain_eq_false.2 none)
    | false =>
      rw [main] at verdict
      have none := any_isMain_eq_false.1 main
      exact iff_of_true ⟨_, verdict, rfl⟩ ⟨none, accepted_withMain none items⟩

theorem verdict_of_withMain (none : ∀ g ∈ functions, g.isMain = false)
    (failed : (program globals (functions ++ [emptyMain])).verdict = .error f) :
    (program globals functions).verdict = .error f := by
  cases items : (program globals functions).itemwise with
  | error e =>
    rw [← failed, verdict_failed items, verdict_withMain items]
  | ok Γ =>
    obtain ⟨Γ', accepted⟩ := accepted_withMain none items
    cases accepted.symm.trans failed

end Node

open Node

/-- The item that a check ends at decides its fault whatever stands behind it: a fault is that of
some item, or that there is no `main`. That one is told of a program just where it has none and an
empty one behind it makes up for it, so whatever else is wrong is told in its place. -/
theorem first_fault_reported (globals functions : List (Node Unit)) :
    (∀ k f, (program globals functions).StopsAt k f → ∀ globals' functions',
      (program globals functions).topLevel.take (k + 1) <+: (program globals' functions').topLevel →
      (program globals' functions').verdict = .error f) ∧
    (∀ f, (program globals functions).verdict = .error f →
      (∃ k, (program globals functions).StopsAt k f) ∨
        f = .ofCause (.noMain .check) ((program globals functions).annotated #[]).tree) ∧
    ((∃ p, (program globals functions).verdict = .error (.problem p) ∧
        p.cause.errorClass = .missingEntryPoint) ↔
      (∀ g ∈ functions, g.isMain = false) ∧
        (program globals (functions ++ [emptyMain])).Accepted) ∧
    ((∀ g ∈ functions, g.isMain = false) →
      ∀ f, (program globals (functions ++ [emptyMain])).verdict = .error f →
        (program globals functions).verdict = .error f) :=
  ⟨fun _ _ stops _ _ same => verdict_failed (stops.prefix_fails same),
    fun _ => stops_or_noMain, missingEntryPoint_iff, fun none _ => verdict_of_withMain none⟩

/-- `LET a: Integer; LET a: Integer;` -/
def Node.twiceDefined : List (Node Unit) :=
  List.replicate 2 (.global () (.string "a") false (.string "Integer") .absent)

theorem twice_defined_reported :
    ∃ f, (program twiceDefined [emptyMain]).StopsAt 1 f ∧
      ∀ functions, (program twiceDefined functions).verdict = .error f := by
  have stops : ∃ f, (program twiceDefined [emptyMain]).StopsAt 1 f :=
    ⟨_, [_], _, [_], _, _, rfl, rfl, rfl, rfl⟩
  obtain ⟨f, stops⟩ := stops
  obtain ⟨others, -⟩ := first_fault_reported twiceDefined [emptyMain]
  exact ⟨f, stops, fun functions => others 1 f stops twiceDefined functions (List.prefix_append ..)⟩

end PlcLang
