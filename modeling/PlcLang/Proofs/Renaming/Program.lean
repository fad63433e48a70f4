import PlcLang.Proofs.Checking.Program
import PlcLang.Proofs.Renaming.Statement
import PlcLang.Proofs.Running.Start

namespace PlcLang

open Checking Annotations

/-- The parameters of a function with the other names. -/
def renameHeader (r : Renaming) (header : List (Declared Label × Ty)) :
    List (Declared Label × Ty) :=
  header.map fun (d, t) => (d.rename r, t)

theorem headerTypes_concur {r : Renaming} (function function' : Node Label)
    (parameters : List (Node Label)) :
    Concur (fun header header' => header' = renameHeader r header)
      (function.headerTypes parameters) (function'.headerTypes (Node.renameAll r parameters)) := by
  induction parameters with
  | nil => exact .ok rfl
  | cons p rest ih =>
    simp only [Node.renameAll, Node.headerTypes, Node.declared?_rename]
    cases p.declared? with
    | none => exact .error rfl
    | some d =>
      refine (resolveType_concur d.typeName function function').bind fun t t' same => ?_
      refine ih.bind fun header header' renamed => ?_
      rw [← same, renamed]
      exact .ok rfl

theorem headerTypes_declarations {function : Node Label} {parameters : List (Node Label)}
    {header : List (Declared Label × Ty)} (h : function.headerTypes parameters = .ok header) :
    (headerLabels header).Sublist (Node.allDeclarations parameters) := by
  induction parameters generalizing header with
  | nil =>
    cases h
    exact .slnil
  | cons p rest ih =>
    obtain ⟨d, t, others, hd, -, ho, rfl⟩ := headerTypes_cons.1 h
    have first : [d.label].Sublist p.declarations := by
      cases p <;> cases hd <;> simp [Node.declarations]
    exact first.append (ih ho)

section

variable {r : Renaming} {Γ Γ' : Context} {σ σ' : Annotations} {check : Nat} {xs : List Label}

theorem checkParameters_rename {function : Node Label} (function' : Node Label)
    {header : List (Declared Label × Ty)}
    (h : (function.checkParameters check Γ header).Gives σ Γ' σ')
    (named : Γ.Named r (headerLabels header ++ xs)) :
    (function'.checkParameters check (Γ.rename r) (renameHeader r header)).Gives (σ.rename r)
        (Γ'.rename r) (σ'.rename r) ∧ Γ'.Named r xs := by
  induction header generalizing Γ σ with
  | nil =>
    obtain ⟨rfl, rfl⟩ := gives_pure.1 h
    exact ⟨gives_pure.2 ⟨rfl, rfl⟩, named⟩
  | cons p rest ih =>
    obtain ⟨p, t⟩ := p
    obtain ⟨Γ₁, _, hp, ho⟩ := gives_bind.1 h
    obtain ⟨first, named⟩ := declare_rename function' named hp
    obtain ⟨others, named⟩ := ih ho named
    exact ⟨gives_bind.2 ⟨_, _, first, others⟩, named⟩

theorem declareFunction_rename {label : Label} {name : Json} {parameters : List Ty} {returns : Ty}
    {subject : Node Label} (subject' : Node Label) (named : Γ.Named r xs)
    (h : (Γ.declareFunction check label name parameters returns subject).Gives σ Γ' σ') :
    ((Γ.rename r).declareFunction check label name parameters returns subject').Gives (σ.rename r)
        (Γ'.rename r) (σ'.rename r) ∧ Γ'.Named r xs := by
  obtain ⟨key, isName, added, rfl⟩ := gives_declareFunction.1 h
  obtain ⟨added, named⟩ := named.addFunction added
  have noted : Annotations.rename r (σ.modify label fun a => { a with signature := some _ }) = _ :=
    rename_signature (f := some ⟨some ⟨check, label⟩, name, parameters, returns⟩)
  exact ⟨gives_declareFunction.2 ⟨key, isName, added, noted.symm⟩, named⟩

/-- A function with the other names is accepted. -/
theorem checkFunction_rename (f : Node Label) (h : (f.checkFunction check Γ).Gives σ Γ' σ')
    (last : Lasts r.found σ' f.labels) (named : Γ.Named r (f.declarations ++ xs)) :
    ((f.rename r).checkFunction check (Γ.rename r)).Gives (σ.rename r) (Γ'.rename r)
        (σ'.rename r) ∧ Γ'.Named r xs := by
  obtain ⟨label, name, parameters, returnTypeName, statements, whole⟩ := function_of_gives h
  obtain ⟨header, returns, inside, _, _, hh, hr, hd, hp, hb⟩ := (gives_checkFunction whole).1 h
  rw [whole] at last named
  obtain ⟨_, headed, rfl⟩ := (headerTypes_concur _ (f.rename r) parameters).succeeds hh
  have returning := (resolveOptional_concur returnTypeName _ (f.rename r)).eq_ok hr
  have types : (renameHeader r header).map (·.2) = header.map (·.2) := by
    rw [renameHeader, List.map_map]
    rfl
  have parts : Γ.Named r (Node.allDeclarations parameters ++ (statements.declarations ++ xs)) := by
    simpa [Node.declarations] using named
  obtain ⟨defined, parts⟩ := declareFunction_rename (f.rename r) parts hd
  obtain ⟨binds, named⟩ := checkParameters_rename (f.rename r) hp
    (parts.child.mono ((headerTypes_declarations hh).append (List.Sublist.refl _)))
  obtain ⟨key, _, _, rfl⟩ := gives_declareFunction.1 hd
  have after : Lasts r.found _ ((label :: Node.allLabels parameters) ++ statements.labels) := last
  have body := checkBlock_rename statements hb after.right named.left
  have renamed : f.rename r = .function label name (.list (Node.renameAll r parameters))
      returnTypeName (statements.rename r) := by
    rw [whole]
    rfl
  exact ⟨(gives_checkFunction renamed).2 ⟨_, returns, _, _, _, headed, returning, types ▸ defined,
    binds, body⟩, parts.right.right⟩

/-- A global with its other name is accepted. -/
theorem checkGlobal_rename (g : Node Label) (h : (g.checkGlobal check Γ).Gives σ Γ' σ')
    (last : Lasts r.found σ' g.labels) (named : Γ.Named r (g.declarations ++ xs)) :
    ((g.rename r).checkGlobal check (Γ.rename r)).Gives (σ.rename r) (Γ'.rename r)
        (σ'.rename r) ∧ Γ'.Named r xs := by
  obtain ⟨label, name, isMutable, typeName, value, rfl⟩ := global_of_gives h
  obtain ⟨declared, u, t, τ, hr, hv, ht, h⟩ := gives_checkGlobal.1 h
  have typeName' := (resolveOptional_concur typeName _
    (.global label (r.declared label) isMutable typeName (value.rename r))).eq_ok hr
  have type := (declaredType_concur declared u (.untypedGlobal name)
    (.untypedGlobal (r.declared label)) _
    (.global label (r.declared label) isMutable typeName (value.rename r)) rfl).eq_ok ht
  have one : Γ.Named r (label :: xs) :=
    named.mono ((List.sublist_append_right _ _).cons_cons label)
  obtain ⟨declares, named'⟩ := declare_rename
    (.global label (r.declared label) isMutable typeName (value.rename r)) one h
  obtain ⟨key, _, _, rfl⟩ := gives_declare.1 h
  have initial := checkOptional_rename named.told hv last.tail
  exact ⟨gives_checkGlobal.2 ⟨declared, u, t, _, typeName', initial, type, declares⟩, named'⟩

theorem checkGlobals_rename (globals : List (Node Label))
    (h : (Node.checkGlobals check Γ globals).Gives σ Γ' σ')
    (last : Lasts r.found σ' (Node.allLabels globals))
    (named : Γ.Named r (Node.allDeclarations globals ++ xs)) :
    (Node.checkGlobals check (Γ.rename r) (Node.renameAll r globals)).Gives (σ.rename r)
        (Γ'.rename r) (σ'.rename r) ∧ Γ'.Named r xs := by
  induction globals generalizing Γ σ with
  | nil =>
    obtain ⟨rfl, rfl⟩ := gives_pure.1 h
    exact ⟨gives_pure.2 ⟨rfl, rfl⟩, named⟩
  | cons g rest ih =>
    obtain ⟨Γ₁, _, hg, ho⟩ := gives_bind.1 h
    have wo := within_of_checkGlobals ho
    rw [Node.allDeclarations, List.append_assoc] at named
    obtain ⟨first, named⟩ := checkGlobal_rename g hg (last.left wo) named
    obtain ⟨others, named⟩ := ih ho last.right named
    exact ⟨gives_bind.2 ⟨_, _, first, others⟩, named⟩

/-- Functions keep their names: `main` is still the one to start with. -/
theorem checkMain_rename {f : Node Label} {isMain : Bool} (h : f.checkMain = .ok isMain) :
    (f.rename r).checkMain = .ok isMain ∨ ∀ {Γ Γ' : Context} {σ σ' : Annotations},
      ¬ (f.checkFunction check Γ).Gives σ Γ' σ' := by
  cases f with
  | function label name parameters returnTypeName statements =>
    left
    simp only [Node.checkMain, Node.rename, Node.name?, Node.isEmpty_rename] at h ⊢
    simp only [required, bind, Except.bind, pure, Except.pure] at h ⊢
    split at h
    · rename_i other
      rw [if_pos other]
      exact h
    · rename_i main
      rw [if_neg main]
      split at h
      · rename_i given
        rw [if_pos given]
        exact h
      · rename_i given
        rw [if_neg given]
        split at h
        · cases h
        · rename_i returns
          rw [if_neg returns]
          exact h
  | _ => exact Or.inr fun h => gives_throw h

theorem checkFunctions_rename (functions : List (Node Label)) {isMain : Bool}
    (h : (Node.checkFunctions check Γ functions).Gives σ (Γ', isMain) σ')
    (last : Lasts r.found σ' (Node.allLabels functions))
    (named : Γ.Named r (Node.allDeclarations functions)) :
    (Node.checkFunctions check (Γ.rename r) (Node.renameAll r functions)).Gives (σ.rename r)
      (Γ'.rename r, isMain) (σ'.rename r) := by
  induction functions generalizing Γ σ isMain with
  | nil =>
    obtain ⟨same, rfl⟩ := gives_pure.1 h
    cases same
    exact gives_pure.2 ⟨rfl, rfl⟩
  | cons f rest ih =>
    obtain ⟨main, more, Γ₁, _, hm, hf, ho, rfl⟩ := gives_checkFunctions_cons.1 h
    have wo := within_of_checkFunctions ho
    obtain ⟨first, named⟩ := checkFunction_rename f hf (last.left wo) named
    have others := ih ho last.right named
    have isMain : (f.rename r).checkMain = .ok main :=
      (checkMain_rename hm).resolve_right fun no => no hf
    exact gives_checkFunctions_cons.2 ⟨main, more, _, _, isMain, first, others, rfl⟩

/-- A tree with the other names is accepted, if it was accepted before. -/
theorem checkProgram_rename (tree : Node Label)
    (h : (tree.checkProgram check []).Gives σ Γ σ') (found : r.found = σ')
    (nodup : tree.labels.Nodup) (room : ∀ label ∈ tree.labels, label < σ.size)
    (named : (tree.declarations.map r.name).Nodup) :
    ((tree.rename r).checkProgram check []).Gives (σ.rename r) (Γ.rename r) (σ'.rename r) := by
  subst found
  obtain ⟨globals, functions, _, _, rfl, hg, hf, -, last⟩ := program_of_check h nodup room
  have wf := within_of_checkFunctions hf
  have named : (⟨.standard, []⟩ : Context).Named r
      (Node.allDeclarations globals ++ Node.allDeclarations functions) := named
  obtain ⟨first, named⟩ := checkGlobals_rename globals hg (last.left wf) named
  have others := checkFunctions_rename functions hf last.right named
  exact gives_checkProgram.2 ⟨_, _, _, _, rfl, first, others⟩

end

section

variable {n : Node Unit} {name : Label → String}

/-- The renaming of the variables of a program that was checked on its own. -/
def Node.renaming (n : Node Unit) (name : Label → String) : Renaming :=
  ⟨n.checked.found, name⟩

/-- A program with other names for its variables: one for the label of each declaration. -/
def Node.renamed (n : Node Unit) (name : Label → String) : Node Unit :=
  (n.checked.tree.rename (n.renaming name)).plain

/-- The new names of the declarations of a program are all different. -/
def Node.Distinct (n : Node Unit) (name : Label → String) : Prop :=
  ∀ l ∈ n.checked.tree.declarations, ∀ l' ∈ n.checked.tree.declarations, name l = name l' → l = l'

theorem nodup_names (distinct : n.Distinct name) :
    (n.checked.tree.declarations.map name).Nodup :=
  List.Nodup.map_on distinct
    ((n.annotated_labels #[]).1.sublist n.checked.tree.declarations_sublist)

theorem blank_rename {r : Renaming} (count : Nat) :
    Annotations.rename r (#[] ++ Array.replicate count ({} : Annotation)) =
      #[] ++ Array.replicate count ({} : Annotation) := by
  simp [Annotations.rename, Annotation.rename]

/-- What the checker comes to for the program with the other names: the tree with them is accepted,
and what is found is what was found before, with them. -/
theorem check_renamed {Γ : Context} (accepted : ((n.annotated #[]).check 0 []).1 = .ok Γ)
    (distinct : n.Distinct name) :
    (((n.renamed name).annotated #[]).check 0 []).1 = .ok (Γ.rename (n.renaming name)) ∧
      (n.renamed name).checked = ⟨n.checked.tree.rename (n.renaming name),
        n.checked.found.rename (n.renaming name)⟩ := by
  have gives : ((n.annotated #[]).tree.checkProgram 0 []).Gives (n.annotated #[]).found Γ
      n.checked.found := Prod.ext accepted rfl
  obtain ⟨nodup, room⟩ := n.annotated_labels #[]
  have gives := checkProgram_rename (r := n.renaming name) _ gives rfl nodup room
    (nodup_names distinct)
  have taken : (n.renamed name).annotated #[] =
      ⟨n.checked.tree.rename (n.renaming name), (n.annotated #[]).found⟩ := n.annotated_rename #[]
  have blank : Annotations.rename (n.renaming name) (n.annotated #[]).found =
      (n.annotated #[]).found := blank_rename _
  rw [blank] at gives
  have check : ((n.renamed name).annotated #[]).check 0 [] =
      (.ok (Γ.rename (n.renaming name)), n.checked.found.rename (n.renaming name)) := by
    rw [taken]
    exact gives
  refine ⟨by rw [check], ?_⟩
  rw [Node.checked, check, taken]

end

end PlcLang
