import PlcLang.Proofs.Checking.Program
import PlcLang.Proofs.Elaboration.Names
import PlcLang.Proofs.Elaboration.Types

namespace PlcLang

open Checking Annotations

namespace Annotations

variable {found σ τ σ' : Annotations} {xs ys : List Label} {label : Label}
  {change : Annotation → Annotation}

/-- A walk came from `σ` to `σ'`. Nothing was known before of nodes with these labels, and what is
known of them then is what is found in the end. -/
structure Span (found σ σ' : Annotations) (labels : List Label) : Prop where
  blank : ∀ label ∈ labels, σ.of label = {}
  lasts : Lasts found σ' labels

namespace Span

theorem left (h : Span found σ σ' (xs ++ ys)) (w : Within ys τ σ') : Span found σ τ xs :=
  ⟨fun label mem => h.blank label (List.mem_append_left ys mem), h.lasts.left w⟩

theorem right (h : Span found σ σ' (xs ++ ys)) (w : Within xs σ τ) : Span found τ σ' ys where
  blank label mem := by
    have apart : label ∉ xs := fun other =>
      (List.nodup_append.1 h.lasts.nodup).2.2 _ other _ mem rfl
    rw [w.others label apart, h.blank label (List.mem_append_right xs mem)]
  lasts := h.lasts.right

theorem tail (h : Span found σ (τ.modify label change) (label :: xs)) : Span found σ τ xs :=
  ⟨fun other mem => h.blank other (List.mem_cons_of_mem _ mem), h.lasts.tail⟩

/-- What is noted last about the node in front of others is all that is found of it. -/
theorem head (h : Span found σ (τ.modify label change) (label :: xs)) (w : Within xs σ τ) :
    found.of label = change {} := by
  have apart : label ∉ xs := (List.nodup_cons.1 h.lasts.nodup).1
  rw [h.lasts.head, w.others label apart, h.blank label List.mem_cons_self]

/-- Something is noted about one node only. -/
theorem modified (h : Span found σ (σ.modify label change) xs) :
    ∀ other ∈ xs, found.of other = if other = label then change {} else {} := by
  intro other mem
  rw [h.lasts.kept other mem]
  split
  · rename_i same
    subst same
    have room := h.lasts.room other mem
    rw [Array.size_modify] at room
    rw [of_modify_self room, h.blank other mem]
  · rename_i different
    rw [of_modify_other different, h.blank other mem]

end Span

end Annotations

theorem Lexical.FindsFunction.takes {Γ : Lexical} {key : Key} {arity : Nat} {f : Signature}
    (h : Γ.FindsFunction key arity f) : f.arity = arity := by
  unfold Lexical.FindsFunction at h
  induction h with
  | here this => exact this.2
  | outside _ _ ih => exact ih

section

variable {C : Context} {Γ : Lexical} {found : Annotations}

mutual
/-- An expression that the checker accepts is well-typed, and what it found of its nodes is what the
rules give them. -/
theorem infers_of_check (knows : C.Knows Γ) (e : Node Label) {t : Ty} {σ σ' : Annotations}
    (h : (e.checkExpression C).Gives σ t σ') (span : Span found σ σ' e.labels) :
    Infers Γ e (e.map found.of) t := by
  match e with
  | .literal label value =>
    obtain ⟨ht, rfl⟩ := gives_literal.1 h
    rw [Node.map, span.head .refl]
    exact .literal (literalHas_iff.1 ht)
  | .group label inner =>
    obtain ⟨isBinary, _, hi, rfl⟩ := gives_group.1 h
    have inside := infers_of_check knows inner hi span.tail
    rw [Node.map, span.head (within_of_check hi)]
    cases inner with
    | binary => exact .group inside
    | _ => simp [Node.isBinary] at isBinary
  | .binary label op left right =>
    obtain ⟨l, r, _, _, hl, hr, ht, rfl⟩ := gives_binary.1 h
    have wl := within_of_check hl
    have wr := within_of_check hr
    have first := infers_of_check knows left hl (span.tail.left wr)
    have second := infers_of_check knows right hr (span.tail.right wl)
    rw [Node.map, span.head (wl.append wr)]
    exact .binary first second (applies_iff.1 ht)
  | .access label name offset =>
    cases given : offset.isAbsent with
    | true =>
      obtain rfl := isAbsent_iff.1 given
      obtain ⟨key, b, hk, hb, rfl, rfl⟩ := gives_access.1 h
      rw [Node.map, span.head .refl]
      exact .access hk (knows.finds_iff.1 hb)
    | false =>
      obtain ⟨key, b, _, ho, hk, hb, rfl, rfl⟩ := (gives_element given).1 h
      have index := infers_of_check knows offset ho span.tail
      rw [Node.map, span.head (within_of_check ho)]
      exact .element index hk (knows.finds_iff.1 hb)
  | .call label name arguments =>
    cases arguments with
    | list arguments =>
      obtain ⟨key, f, _, hk, hf, ha, rfl, rfl⟩ := gives_call.1 h
      have hf := knows.findsFunction_iff.1 hf
      have given := infersArguments_of_check knows arguments f.parameters ha hf.takes span.tail
      rw [Node.map, span.head (within_of_checkArguments ha)]
      exact .call hk hf given
    | _ => exact (gives_throw h).elim
  | .listLiteral label elements =>
    cases elements with
    | absent =>
      obtain ⟨rfl, rfl⟩ := gives_missing.1 h
      rw [Node.map, span.head .refl]
      exact .missing
    | list elements =>
      obtain ⟨_, he, rfl⟩ := gives_list.1 h
      have inside := infersElements_of_check knows elements he span.tail
      rw [Node.map, span.head (within_of_checkElements he)]
      exact .list inside
    | _ => exact (gives_throw h).elim
  | .absent | .list _ | .source .. | .global .. | .parameter .. | .function .. | .expressionStmt _
  | .declaration .. | .assignment .. | .conditional .. | .case .. | .switch .. | .loop ..
  | .ret _ => exact (gives_throw h).elim

theorem infersArguments_of_check (knows : C.Knows Γ) (arguments : List (Node Label))
    (parameters : List Ty) {u : Unit} {σ σ' : Annotations}
    (h : (Node.checkArguments C arguments parameters).Gives σ u σ')
    (takes : parameters.length = arguments.length)
    (span : Span found σ σ' (Node.allLabels arguments)) :
    InfersArguments Γ arguments (Node.mapAll found.of arguments) parameters := by
  match arguments, parameters with
  | [], [] => exact .nil
  | [], _ :: _ | _ :: _, [] => simp at takes
  | argument :: rest, p :: parameters =>
    obtain ⟨t, _, ht, fits, ho⟩ := gives_checkArguments_cons.1 h
    have wo := within_of_checkArguments ho
    refine .cons (infers_of_check knows argument ht (span.left wo)) (assignable_iff.2 fits) ?_
    exact infersArguments_of_check knows rest parameters ho (by simpa using takes)
      (span.right (within_of_check ht))

theorem infersElements_of_check (knows : C.Knows Γ) (elements : List (Node Label)) {t : Ty}
    {σ σ' : Annotations} (h : (Node.checkElements C elements).Gives σ t σ')
    (span : Span found σ σ' (Node.allLabels elements)) :
    InfersElements Γ elements (Node.mapAll found.of elements) t := by
  match elements with
  | [] =>
    obtain ⟨rfl, _⟩ := gives_pure.1 h
    exact .nil
  | first :: rest =>
    obtain ⟨_, _, hf, ho⟩ := gives_checkElements_cons.1 h
    have wo := within_of_checkElements ho
    exact .cons (infers_of_check knows first hf (span.left wo))
      (infersElements_of_check knows rest ho (span.right (within_of_check hf)))
end

end

section

variable {check : Nat} {returns : Ty} {found : Annotations}

theorem inferred_of_check {C : Context} {Γ : Lexical} {value : Node Label} {u : Option Ty}
    {σ σ' : Annotations} (knows : C.Knows Γ) (h : (value.checkOptional C).Gives σ u σ')
    (span : Span found σ σ' value.labels) : InfersOptional Γ value (value.map found.of) u := by
  rcases gives_checkOptional.1 h with ⟨rfl, rfl, _⟩ | ⟨_, t, ht, rfl⟩
  · exact .leftOut
  · exact .given (infers_of_check knows value ht span)

theorem within_of_checkOptional {C : Context} {value : Node Label} {u : Option Ty}
    {σ σ' : Annotations} (h : (value.checkOptional C).Gives σ u σ') :
    Within value.labels σ σ' := by
  rcases gives_checkOptional.1 h with ⟨_, _, rfl⟩ | ⟨_, _, ht, _⟩
  · exact .refl
  · exact within_of_check ht

mutual
/-- A statement that the checker accepts is well-typed. -/
theorem elaborates_of_check (s : Node Label) {C C' : Context} {Γ : Lexical} {σ σ' : Annotations}
    (knows : C.Knows Γ) (h : (s.checkStatement check returns C).Gives σ C' σ')
    (span : Span found σ σ' s.labels) :
    ∃ Γ', Elaborates check returns Γ s (s.map found.of) Γ' ∧ C'.Knows Γ' := by
  match s with
  | .expressionStmt e =>
    obtain ⟨_, isCall, he, rfl⟩ := gives_expressionStmt.1 h
    have typed := infers_of_check knows e he span
    cases e with
    | call => exact ⟨Γ, .call typed, knows⟩
    | _ => simp [Node.isCall] at isCall
  | .declaration label name typeName value =>
    obtain ⟨u, declared, t, _, hv, hd, ht, declares⟩ := gives_declaration.1 h
    obtain ⟨key, named, added, rfl⟩ := gives_declare.1 declares
    have initial := inferred_of_check knows hv span.tail
    obtain ⟨Γ', declares, knows⟩ := knows.declares added
    rw [Node.map, span.head (within_of_checkOptional hv)]
    exact ⟨Γ', .declaration (namesType_iff.1 hd) initial (variableType_iff.1 ht) named declares,
      knows⟩
  | .assignment receiver value =>
    obtain ⟨t, u, _, isAccess, ht, hu, fits, rfl⟩ := gives_assignment.1 h
    have target := infers_of_check knows receiver ht (span.left (within_of_check hu))
    have source := infers_of_check knows value hu (span.right (within_of_check ht))
    cases receiver with
    | access => exact ⟨Γ, .assignment target source (assignable_iff.2 fits), knows⟩
    | _ => simp [Node.isAccess] at isAccess
  | .conditional condition thenStatements elseStatements =>
    obtain ⟨_, _, hc, nonempty, ht, he, rfl⟩ := gives_conditional.1 h
    have wc := within_of_check hc
    have wt := within_of_checkBlock ht
    have we := within_of_checkBlock he
    have test := infers_of_check knows condition hc (span.left (wt.append we))
    obtain ⟨thens, Γ₁, rfl, chosen⟩ :=
      elaboratesBlock_of_check thenStatements knows.child ht ((span.right wc).left we)
    obtain ⟨elses, Γ₂, rfl, otherwise⟩ :=
      elaboratesBlock_of_check elseStatements knows.child he ((span.right wc).right wt)
    cases thens with
    | nil => simp [Node.isEmpty] at nonempty
    | cons first thens => exact ⟨Γ, .conditional test chosen otherwise, knows⟩
  | .switch condition cases =>
    obtain ⟨t, _, hc, nonempty, hb, rfl⟩ := gives_switch.1 h
    cases cases with
    | list cases =>
      have wb := within_of_checkCases hb
      have subject := infers_of_check knows condition hc (span.left wb)
      have nonempty : cases ≠ [] := by simpa [Node.isEmpty] using nonempty
      have branches := elaboratesCases_of_check cases knows hb nonempty
        (span.right (within_of_check hc))
      exact ⟨Γ, .switch subject branches, knows⟩
    | _ => exact (gives_throw hb).elim
  | .loop condition statements =>
    obtain ⟨_, hc, hb, rfl⟩ := gives_loop.1 h
    have test := infers_of_check knows condition hc (span.left (within_of_checkBlock hb))
    obtain ⟨statements, Γ', rfl, body⟩ :=
      elaboratesBlock_of_check statements knows.child hb (span.right (within_of_check hc))
    exact ⟨Γ, .loop test body, knows⟩
  | .ret value =>
    obtain ⟨t, ht, fits, rfl⟩ := gives_ret.1 h
    exact ⟨Γ, .ret (infers_of_check knows value ht span) (assignable_iff.2 fits), knows⟩
  | .absent | .list _ | .source .. | .global .. | .parameter .. | .function .. | .case ..
  | .literal .. | .group .. | .binary .. | .access .. | .call .. | .listLiteral .. =>
    exact (gives_throw h).elim

theorem elaboratesBlock_of_check (b : Node Label) {C : Context} {Γ : Lexical} {u : Unit}
    {σ σ' : Annotations} (knows : C.Knows Γ) (h : (b.checkBlock check returns C).Gives σ u σ')
    (span : Span found σ σ' b.labels) :
    ∃ statements Γ', b = .list statements ∧
      ElaboratesAll check returns Γ statements (Node.mapAll found.of statements) Γ' := by
  cases b with
  | list statements =>
    obtain ⟨_, hs⟩ := gives_checkBlock.1 h
    obtain ⟨Γ', all⟩ := elaboratesAll_of_check statements knows hs span
    exact ⟨statements, Γ', rfl, all⟩
  | _ => exact (gives_throw h).elim

theorem elaboratesAll_of_check (statements : List (Node Label)) {C C' : Context} {Γ : Lexical}
    {σ σ' : Annotations} (knows : C.Knows Γ)
    (h : (Node.checkStatements check returns C statements).Gives σ C' σ')
    (span : Span found σ σ' (Node.allLabels statements)) :
    ∃ Γ', ElaboratesAll check returns Γ statements (Node.mapAll found.of statements) Γ' := by
  match statements with
  | [] => exact ⟨Γ, .nil⟩
  | statement :: rest =>
    obtain ⟨C₁, _, hs, ho⟩ := gives_bind.1 h
    have ws := within_of_checkStatement hs
    have wo := within_of_checkStatements ho
    obtain ⟨Γ₁, first, knows⟩ := elaborates_of_check statement knows hs (span.left wo)
    obtain ⟨Γ', others⟩ := elaboratesAll_of_check rest knows ho (span.right ws)
    exact ⟨Γ', .cons first others⟩

theorem elaboratesCases_of_check (cases : List (Node Label)) {C : Context} {Γ : Lexical} {t : Ty}
    {u : Unit} {σ σ' : Annotations} (knows : C.Knows Γ)
    (h : (Node.checkEachCase check returns C t cases).Gives σ u σ') (nonempty : cases ≠ [])
    (span : Span found σ σ' (Node.allLabels cases)) :
    ElaboratesCases check returns Γ t cases (Node.mapAll found.of cases) := by
  match cases with
  | [] => exact (nonempty rfl).elim
  | branch :: rest =>
    obtain ⟨_, _, hb, ho⟩ := gives_bind.1 h
    have wo := within_of_checkCases ho
    cases branch with
    | case value statements =>
      obtain ⟨_, hv, hb⟩ := gives_checkCase.1 hb
      have wb := within_of_checkBlock hb
      rcases hv with ⟨rfl, last, rfl⟩ | ⟨_, more, v, hv, fits⟩
      · obtain rfl := List.isEmpty_iff.1 last
        obtain ⟨statements, _, rfl, body⟩ :=
          elaboratesBlock_of_check statements knows.child hb (span.left wo)
        exact .default body
      · have wv := within_of_check hv
        have typed := infers_of_check knows value hv ((span.left wo).left wb)
        obtain ⟨statements, _, rfl, body⟩ :=
          elaboratesBlock_of_check statements knows.child hb ((span.left wo).right wv)
        cases rest with
        | nil => cases more
        | cons next rest =>
          have others := elaboratesCases_of_check (next :: rest) knows ho (by simp)
            (span.right (wv.append wb))
          exact .branch typed (assignable_iff.2 fits) body others
    | _ => nomatch case_of_gives hb
end

theorem elaboratesParameters_of_check {function : Node Label} {parameters : List (Node Label)}
    {header : List (Declared Label × Ty)} {C C' : Context} {Γ : Lexical} {σ σ' : Annotations}
    (knows : C.Knows Γ) (headed : function.headerTypes parameters = .ok header)
    (h : (function.checkParameters check C header).Gives σ C' σ')
    (span : Span found σ σ' (Node.allLabels parameters)) :
    ∃ Γ', ElaboratesParameters check Γ parameters (Node.mapAll found.of parameters)
      (header.map (·.2)) Γ' ∧ C'.Knows Γ' := by
  induction parameters generalizing C Γ header σ with
  | nil =>
    cases headed
    obtain ⟨rfl, rfl⟩ := gives_pure.1 h
    exact ⟨Γ, .nil, knows⟩
  | cons p rest ih =>
    obtain ⟨d, t, others, hd, ht, ho, rfl⟩ := headerTypes_cons.1 headed
    obtain ⟨C₁, _, hp, h⟩ := gives_bind.1 h
    obtain ⟨key, named, added, rfl⟩ := gives_declare.1 hp
    have wo := (bound_of_check h).1.mono (headerTypes_labels ho).subset
    have here : d.label ∈ p.labels := by
      cases p <;> cases hd <;> simp [Node.labels]
    obtain ⟨Γ₁, declares, knows⟩ := knows.declares added
    obtain ⟨Γ', more, knows⟩ := ih knows ho h
      (span.right (Within.modify.mono (List.cons_subset.2 ⟨here, List.nil_subset _⟩)))
    -- A global or a declaration in place of a parameter has parts that are never visited.
    rw [Node.mapAll, p.map_congr (span.left wo).modified]
    exact ⟨Γ', .cons hd (resolveType_ok.1 ht) named declares more, knows⟩

theorem elaboratesFunction_of_check {f : Node Label} {C C' : Context} {Γ : Lexical}
    {σ σ' : Annotations} (knows : C.Knows Γ) (h : (f.checkFunction check C).Gives σ C' σ')
    (span : Span found σ σ' f.labels) :
    ∃ Γ', ElaboratesFunction check Γ f (f.map found.of) Γ' ∧ C'.Knows Γ' := by
  obtain ⟨label, name, parameters, returnTypeName, statements, rfl⟩ := function_of_gives h
  obtain ⟨header, returns, inside, _, _, hh, hr, hd, hp, hb⟩ := (gives_checkFunction rfl).1 h
  obtain ⟨key, named, added, rfl⟩ := gives_declareFunction.1 hd
  have wp := (bound_of_check hp).1.mono (headerTypes_labels hh).subset
  have wb := within_of_checkBlock hb
  -- Unlike an expression, a function is noted before its parts are walked.
  have span : Span found σ σ' ([label] ++ (Node.allLabels parameters ++ statements.labels)) :=
    span
  have noted := (span.left (wp.append wb)).modified label (List.mem_singleton_self label)
  obtain ⟨Γ', declares, knows⟩ := knows.declaresFunction added
  obtain ⟨_, takes, inner⟩ :=
    elaboratesParameters_of_check knows.child hh hp ((span.right .modify).left wb)
  obtain ⟨statements, _, rfl, body⟩ :=
    elaboratesBlock_of_check statements inner hb ((span.right .modify).right wp)
  rw [Node.map, noted, if_pos rfl]
  exact ⟨Γ', .intro named (namesType_iff.1 hr) declares takes body, knows⟩

theorem elaboratesGlobals_of_check {globals : List (Node Label)} {C C' : Context} {Γ : Lexical}
    {σ σ' : Annotations} (knows : C.Knows Γ)
    (h : (Node.checkGlobals check C globals).Gives σ C' σ')
    (span : Span found σ σ' (Node.allLabels globals)) :
    ∃ Γ', ElaboratesGlobals check Γ globals (Node.mapAll found.of globals) Γ' ∧ C'.Knows Γ' := by
  induction globals generalizing C Γ σ with
  | nil =>
    obtain ⟨rfl, rfl⟩ := gives_pure.1 h
    exact ⟨Γ, .nil, knows⟩
  | cons g rest ih =>
    obtain ⟨C₁, τ, hg, ho⟩ := gives_bind.1 h
    have wg := within_of_checkGlobal hg
    have wo := within_of_checkGlobals ho
    have here := span.left wo
    obtain ⟨label, name, isMutable, typeName, value, rfl⟩ := global_of_gives hg
    obtain ⟨declared, u, t, _, hr, hv, ht, hd⟩ := gives_checkGlobal.1 hg
    obtain ⟨key, named, added, rfl⟩ := gives_declare.1 hd
    have initial := inferred_of_check knows hv here.tail
    obtain ⟨Γ₁, declares, knows⟩ := knows.declares added
    obtain ⟨Γ', others, knows⟩ := ih knows ho (span.right wg)
    rw [Node.mapAll, Node.map, here.head (within_of_checkOptional hv)]
    exact ⟨Γ', .cons (namesType_iff.1 hr) initial (variableType_iff.1 ht) named declares others,
      knows⟩

theorem elaboratesFunctions_of_check {functions : List (Node Label)} {C C' : Context}
    {Γ : Lexical} {isMain : Bool} {σ σ' : Annotations} (knows : C.Knows Γ)
    (h : (Node.checkFunctions check C functions).Gives σ (C', isMain) σ')
    (span : Span found σ σ' (Node.allLabels functions)) :
    (∃ Γ', ElaboratesFunctions check Γ functions (Node.mapAll found.of functions) Γ') ∧
      (isMain = true → ∃ f ∈ functions, ∃ r, f.IsMain r) ∧
      ∀ f ∈ functions, ∀ r, f.IsMain r → r = .null ∨ r = .string "Integer" := by
  induction functions generalizing C Γ σ isMain with
  | nil =>
    obtain ⟨same, _⟩ := gives_pure.1 h
    cases same
    exact ⟨⟨Γ, .nil⟩, nofun, List.forall_mem_nil _⟩
  | cons f rest ih =>
    obtain ⟨_, _, C₁, _, hm, hf, ho, rfl⟩ := gives_checkFunctions_cons.1 h
    have wf := within_of_checkFunction hf
    have wo := within_of_checkFunctions ho
    obtain ⟨Γ₁, first, knows⟩ := elaboratesFunction_of_check knows hf (span.left wo)
    obtain ⟨⟨Γ', others⟩, starts, returns⟩ := ih knows ho (span.right wf)
    obtain ⟨isMain_iff, result⟩ := first.checkMain_ok.1 hm
    refine ⟨⟨Γ', .cons first others⟩, fun found => ?_, List.forall_mem_cons.2 ⟨result, returns⟩⟩
    rcases Bool.or_eq_true_iff.1 found with here | later
    · exact ⟨f, List.mem_cons_self, isMain_iff.1 here⟩
    · obtain ⟨g, mem, isMain⟩ := starts later
      exact ⟨g, List.mem_cons_of_mem _ mem, isMain⟩

/-- A program that the checker accepts on its own is well-typed, and what is found of its nodes is
what the rules give them. -/
theorem elaboratesProgram_of_check {tree : Node Label} {C : Context} {σ σ' : Annotations}
    (h : (tree.checkProgram check []).Gives σ C σ') (nodup : tree.labels.Nodup)
    (room : ∀ label ∈ tree.labels, label < σ.size)
    (blank : ∀ label ∈ tree.labels, σ.of label = {}) :
    ElaboratesProgram check tree (tree.map σ'.of) := by
  obtain ⟨globals, functions, C₀, τ, rfl, hg, hf, -, last⟩ := program_of_check h nodup room
  have span : Span σ' σ σ' (Node.allLabels globals ++ Node.allLabels functions) := ⟨blank, last⟩
  have wg := within_of_checkGlobals hg
  have wf := within_of_checkFunctions hf
  obtain ⟨Γ, first, knows⟩ := elaboratesGlobals_of_check .standard hg (span.left wf)
  obtain ⟨⟨Γ', others⟩, starts, returns⟩ := elaboratesFunctions_of_check knows hf (span.right wg)
  exact .intro first others (starts rfl) returns

end

end PlcLang
