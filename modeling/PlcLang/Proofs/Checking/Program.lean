import PlcLang.Proofs.Checking.Statement
import PlcLang.Proofs.Except

namespace PlcLang

open Checking Annotations

theorem Context.Sees.mono {Γ : Context} {xs ys : List Key} (h : Γ.Sees xs) (hs : xs ⊆ ys) :
    Γ.Sees ys :=
  fun key b hf => hs (h key b hf)

theorem Annotations.Lasts.sublist {found σ : Annotations} {xs ys : List Label}
    (h : Lasts found σ ys) (hs : xs.Sublist ys) : Lasts found σ xs :=
  ⟨h.nodup.sublist hs, fun label hl => h.room label (hs.subset hl),
    fun label hl => h.kept label (hs.subset hl)⟩

theorem items_ok {n : Node Label} {items : List (Node Label)} :
    n.items = .ok items ↔ n = .list items := by
  cases n <;> simp [Node.items]

/-- The labels of the nodes that parameters were declared at. -/
def headerLabels (header : List (Declared Label × Ty)) : List Label :=
  header.map fun p => p.1.label

section

variable {D : Demands} {found : Annotations} {Γ Γ' : Context} {header : List (Declared Label × Ty)}
  {check : Nat} {σ σ' : Annotations}

theorem required_ok {α : Type} {x : Option α} {a : α} : required x = .ok a ↔ x = some a := by
  cases x <;> simp [required]

theorem headerTypes_cons {function p : Node Label} {rest : List (Node Label)} :
    function.headerTypes (p :: rest) = .ok header ↔ ∃ d t others, p.declared? = some d ∧
      resolveType d.typeName function = .ok t ∧ function.headerTypes rest = .ok others ∧
      header = (d, t) :: others := by
  simp only [Node.headerTypes, Except.bind_eq_ok, required_ok]
  constructor
  · rintro ⟨d, hd, t, ht, others, ho, same⟩
    exact ⟨d, t, others, hd, ht, ho, (Except.ok.inj same).symm⟩
  · rintro ⟨d, t, others, hd, ht, ho, rfl⟩
    exact ⟨d, hd, t, ht, others, ho, rfl⟩

theorem headerTypes_labels {function : Node Label} {parameters : List (Node Label)}
    (h : function.headerTypes parameters = .ok header) :
    (headerLabels header).Sublist (Node.allLabels parameters) := by
  induction parameters generalizing header with
  | nil =>
    cases h
    exact .slnil
  | cons p rest ih =>
    obtain ⟨d, t, others, hd, -, ho, rfl⟩ := headerTypes_cons.1 h
    have first : [d.label].Sublist p.labels := by
      cases p <;> cases hd <;> simp [Node.labels]
    exact first.append (ih ho)

theorem headerTypes_names {function : Node Label} {parameters : List (Node Label)}
    (h : function.headerTypes parameters = .ok header) :
    (Node.list parameters).names = header.filterMap fun p => p.1.name.key? := by
  induction parameters generalizing header with
  | nil =>
    cases h
    rfl
  | cons p rest ih =>
    obtain ⟨d, t, others, hd, -, ho, rfl⟩ := headerTypes_cons.1 h
    have hr := ih ho
    simp only [Node.names] at hr ⊢
    simp only [List.filterMap_cons, hd, Option.bind_some, hr]

theorem headerTypes_length {function : Node Label} {parameters : List (Node Label)}
    (h : function.headerTypes parameters = .ok header) :
    header.length = parameters.length := by
  induction parameters generalizing header with
  | nil =>
    cases h
    rfl
  | cons p rest ih =>
    obtain ⟨d, t, others, -, -, ho, rfl⟩ := headerTypes_cons.1 h
    simp only [List.length_cons, ih ho]

theorem bound_of_check {function : Node Label}
    (h : (function.checkParameters check Γ header).Gives σ Γ' σ') :
    Within (headerLabels header) σ σ' ∧ ∀ {found : Annotations},
      Γ.Avoids (headerLabels header) → Lasts found σ' (headerLabels header) →
      Bound found Γ header Γ' := by
  induction header generalizing Γ σ with
  | nil =>
    obtain ⟨rfl, rfl⟩ := gives_pure.1 h
    exact ⟨.refl, fun _ _ => .nil⟩
  | cons p rest ih =>
    obtain ⟨p, t⟩ := p
    obtain ⟨Γ₁, _, hp, ho⟩ := gives_bind.1 h
    obtain ⟨key, hk, added, rfl⟩ := gives_declare.1 hp
    obtain ⟨w, others⟩ := ih ho
    refine ⟨Within.append .modify w, fun ha last => ?_⟩
    have last : Lasts _ _ ([p.label] ++ headerLabels rest) := last
    have adds := Context.Adds.of_avoids added ha List.mem_cons_self
    have other : p.label ∉ headerLabels rest := (List.nodup_cons.1 last.nodup).1
    refine .cons hk adds rfl (by rw [(last.left w).head]) (others ?_ last.right)
    exact adds.avoids (ha.mono (List.subset_cons_self _ _)) other

theorem Bound.regular (h : Bound found Γ header Γ') (hr : Γ.Regular) : Γ'.Regular := by
  induction h with
  | nil => exact hr
  | cons _ adds _ _ _ ih => exact ih (adds.regular hr)

theorem Bound.avoids {xs : List Label} (h : Bound found Γ header Γ') (ha : Γ.Avoids xs)
    (hd : ∀ label ∈ headerLabels header, label ∉ xs) : Γ'.Avoids xs := by
  induction h with
  | nil => exact ha
  | cons _ adds here _ _ ih =>
    refine ih (adds.avoids ha ?_) fun label hl => hd label (List.mem_cons_of_mem _ hl)
    exact here ▸ hd _ List.mem_cons_self

theorem Bound.sees {visible : List Key} (h : Bound found Γ header Γ') (hs : Γ.Sees visible) :
    Γ'.Sees (header.filterMap (fun p => p.1.name.key?) ++ visible) := by
  induction h generalizing visible with
  | nil => exact hs
  | cons isName adds _ _ _ ih =>
    refine (ih (adds.sees hs)).mono ?_
    simp only [List.filterMap_cons, isName]
    grind

theorem gives_declareFunction {label : Label} {name : Json} {parameters : List Ty} {returns : Ty}
    {subject : Node Label} :
    (Γ.declareFunction check label name parameters returns subject).Gives σ Γ' σ' ↔
      ∃ key, name.key? = some key ∧
        Γ.addFunction key ⟨some ⟨check, label⟩, name, parameters, returns⟩ = some Γ' ∧
        σ.modify label (fun a =>
          { a with signature := some ⟨some ⟨check, label⟩, name, parameters, returns⟩ }) = σ' := by
  simp only [Context.declareFunction, gives_lift_bind, key_ok]
  constructor
  · rintro ⟨key, hk, h⟩
    split at h
    · rename_i added
      simp only [gives_bind, gives_annotate, gives_pure] at h
      obtain ⟨_, _, rfl, rfl, rfl⟩ := h
      exact ⟨key, hk, added, rfl⟩
    · exact (gives_throw h).elim
  · rintro ⟨key, hk, added, rfl⟩
    refine ⟨key, hk, ?_⟩
    simp only [added, gives_bind, gives_annotate, gives_pure]
    exact ⟨(), _, rfl, trivial, rfl⟩

theorem function_of_gives {f : Node Label} (h : (f.checkFunction check Γ).Gives σ Γ' σ') :
    ∃ label name parameters returnTypeName statements,
      f = .function label name (.list parameters) returnTypeName statements := by
  cases f with
  | function label name parameters returnTypeName statements =>
    obtain ⟨parameters, items, -⟩ := gives_lift_bind.1 h
    obtain rfl := items_ok.1 items
    exact ⟨_, _, _, _, _, rfl⟩
  | _ => exact (gives_throw h).elim

/-- The check of a function, in the order in which it goes. -/
theorem gives_checkFunction {f statements : Node Label} {label : Label}
    {name returnTypeName : Json} {parameters : List (Node Label)}
    (whole : f = .function label name (.list parameters) returnTypeName statements) :
    (f.checkFunction check Γ).Gives σ Γ' σ' ↔
      ∃ header returns inside τ τ', f.headerTypes parameters = .ok header ∧
        resolveOptional returnTypeName f = .ok returns ∧
        (Γ.declareFunction check label name (header.map (·.2)) (returns.getD .nil) f).Gives σ Γ'
          τ ∧
        (f.checkParameters check Γ'.child header).Gives τ inside τ' ∧
        (statements.checkBlock check (returns.getD .nil) inside).Gives τ' () σ' := by
  subst whole
  constructor
  · intro h
    obtain ⟨_, items, h⟩ := gives_lift_bind.1 h
    cases items
    obtain ⟨header, headed, h⟩ := gives_lift_bind.1 h
    obtain ⟨returns, returning, h⟩ := gives_lift_bind.1 h
    obtain ⟨_, τ, declares, h⟩ := gives_bind.1 h
    obtain ⟨inside, τ', binds, h⟩ := gives_bind.1 h
    obtain ⟨_, _, body, h⟩ := gives_bind.1 h
    obtain ⟨rfl, rfl⟩ := gives_pure.1 h
    exact ⟨header, returns, inside, τ, τ', headed, returning, declares, binds, body⟩
  · rintro ⟨header, returns, inside, τ, τ', headed, returning, declares, binds, body⟩
    refine gives_lift_bind.2 ⟨parameters, rfl, gives_lift_bind.2 ⟨header, headed, ?_⟩⟩
    refine gives_lift_bind.2 ⟨returns, returning, gives_bind.2 ⟨Γ', τ, declares, ?_⟩⟩
    refine gives_bind.2 ⟨inside, τ', binds, gives_bind.2 ⟨(), σ', body, ?_⟩⟩
    exact gives_pure.2 ⟨rfl, rfl⟩

theorem gives_checkFunctions_cons {f : Node Label} {rest : List (Node Label)} {isMain : Bool} :
    (Node.checkFunctions check Γ (f :: rest)).Gives σ (Γ', isMain) σ' ↔
      ∃ main more Γ₁ τ, f.checkMain = .ok main ∧ (f.checkFunction check Γ).Gives σ Γ₁ τ ∧
        (Node.checkFunctions check Γ₁ rest).Gives τ (Γ', more) σ' ∧ (main || more) = isMain := by
  constructor
  · intro h
    obtain ⟨main, starts, h⟩ := gives_lift_bind.1 h
    obtain ⟨Γ₁, τ, first, h⟩ := gives_bind.1 h
    obtain ⟨⟨_, more⟩, _, others, h⟩ := gives_bind.1 h
    obtain ⟨same, rfl⟩ := gives_pure.1 h
    cases same
    exact ⟨main, more, Γ₁, τ, starts, first, others, rfl⟩
  · rintro ⟨main, more, Γ₁, τ, starts, first, others, rfl⟩
    refine gives_lift_bind.2 ⟨main, starts, gives_bind.2 ⟨Γ₁, τ, first, ?_⟩⟩
    exact gives_bind.2 ⟨(Γ', more), σ', others, gives_pure.2 ⟨rfl, rfl⟩⟩

/-- What a function returns is nil, or its code ends with a `RETURN`. -/
theorem ends_of_disciplined {returnTypeName : Json} {subject : Node Label} {returns : Option Ty}
    {statements : List (Node Label)} (h : resolveOptional returnTypeName subject = .ok returns)
    (hd : returnTypeName = .null ∨ returnTypeName = .string Ty.nil.name ∨
      (Node.list statements).alwaysReturns = true) :
    returns.getD .nil = .nil ∨ Node.lastReturns statements = true := by
  rcases hd with rfl | rfl | hd
  · cases h
    exact Or.inl rfl
  · rw [resolveOptional_nil] at h
    cases h
    exact Or.inl rfl
  · exact Or.inr hd

theorem function_of_check {f : Node Label} (h : (f.checkFunction check Γ).Gives σ Γ' σ') :
    Within f.labels σ σ' ∧ ∀ {found : Annotations} {visible : List Key},
      Fit Γ visible found σ' f.labels → (D.typed → f.Every (Node.Disciplined found)) →
      (D.clear → f.HidesNothing visible) → CheckedFunction D found Γ f Γ' := by
  obtain ⟨label, name, parameters, returnTypeName, statements, rfl⟩ := function_of_gives h
  obtain ⟨header, returns, inside, _, _, hh, hr, declares, hp, hb⟩ := (gives_checkFunction rfl).1 h
  obtain ⟨key, hk, added, rfl⟩ := gives_declareFunction.1 declares
  obtain ⟨wp, binds⟩ := bound_of_check hp
  obtain ⟨wb, statements, last, rfl, body⟩ := checkedBlock_of_check (D := D) statements hb
  have sub := headerTypes_labels hh
  refine ⟨Within.append (Within.modify : Within [label] σ _)
    ((wp.mono sub.subset).append wb), fun {found visible} fit hd hides => ?_⟩
  have fit : Fit Γ visible found _
    ([label] ++ (Node.allLabels parameters ++ Node.allLabels statements)) := fit
  have avoids := fit.right.avoids.addFunction added
  have apart := (List.nodup_append.1 fit.right.lasts.nodup).2.2
  have bound := binds ((avoids.mono (List.subset_append_left _ _)).mono sub.subset).child
    ((fit.right.left wb).lasts.sublist sub)
  have inside_fit : Fit inside ((Node.list parameters).names ++ visible) found σ'
      (Node.allLabels statements) := by
    refine ⟨bound.regular (fit.regular.addFunction added).child, ?_, ?_, fit.right.right.lasts⟩
    · exact bound.avoids (avoids.mono (List.subset_append_right _ _)).child fun l hl hs =>
        apart l (sub.subset hl) l hs rfl
    · rw [headerTypes_names hh]
      have sees : Γ'.Sees visible := fit.sees.addFunction added
      exact bound.sees sees
  refine .intro hh hr hk rfl rfl rfl added (.intro bound (body inside_fit ?_ hides) ?_)
  · exact fun d => (hd d).2.2.2
  · exact fun d => ends_of_disciplined hr (hd d).1

/-- The check of a global, in the order in which it goes. -/
theorem gives_checkGlobal {label : Label} {name typeName : Json} {isMutable : Bool}
    {value : Node Label} :
    ((Node.global label name isMutable typeName value).checkGlobal check Γ).Gives σ Γ' σ' ↔
      ∃ declared u t τ,
        resolveOptional typeName (.global label name isMutable typeName value) = .ok declared ∧
        (value.checkOptional Γ).Gives σ u τ ∧
        declaredType declared u (.untypedGlobal name)
          (.global label name isMutable typeName value) = .ok t ∧
        (Γ.declare check label name t isMutable
          (.global label name isMutable typeName value)).Gives τ Γ' σ' := by
  constructor
  · intro h
    obtain ⟨_, here, h⟩ := gives_lift_bind.1 h
    cases here
    obtain ⟨declared, names, h⟩ := gives_lift_bind.1 h
    obtain ⟨_, content, h⟩ := gives_lift_bind.1 h
    cases content
    cases given : value.isAbsent with
    | true =>
      obtain rfl := isAbsent_iff.1 given
      obtain ⟨_, _, found, h⟩ := gives_bind.1 h
      obtain ⟨rfl, rfl⟩ := gives_pure.1 found
      obtain ⟨t, type, declares⟩ := gives_lift_bind.1 h
      refine ⟨declared, none, t, σ, names, ?_, type, declares⟩
      exact gives_checkOptional.2 (.inl ⟨rfl, rfl, rfl⟩)
    | false =>
      rw [content_ofNode given] at h
      obtain ⟨u, τ, found, h⟩ := gives_bind.1 h
      obtain ⟨_, _, same, h⟩ := gives_bind.1 h
      obtain ⟨rfl, rfl⟩ := gives_pure.1 same
      obtain ⟨t, type, declares⟩ := gives_lift_bind.1 h
      refine ⟨declared, some u, t, τ, names, ?_, type, declares⟩
      exact gives_checkOptional.2 (.inr ⟨given, u, found, rfl⟩)
  · rintro ⟨declared, u, t, τ, names, initial, type, declares⟩
    refine gives_lift_bind.2 ⟨_, rfl, gives_lift_bind.2 ⟨declared, names, ?_⟩⟩
    refine gives_lift_bind.2 ⟨_, rfl, ?_⟩
    rcases gives_checkOptional.1 initial with ⟨rfl, rfl, rfl⟩ | ⟨given, v, found, rfl⟩
    · refine gives_bind.2 ⟨none, σ, gives_pure.2 ⟨rfl, rfl⟩, ?_⟩
      exact gives_lift_bind.2 ⟨t, type, declares⟩
    · rw [content_ofNode given]
      refine gives_bind.2 ⟨v, τ, found, gives_bind.2 ⟨some v, τ, gives_pure.2 ⟨rfl, rfl⟩, ?_⟩⟩
      exact gives_lift_bind.2 ⟨t, type, declares⟩

theorem global_of_gives {g : Node Label} (h : (g.checkGlobal check Γ).Gives σ Γ' σ') :
    ∃ label name isMutable typeName value, g = .global label name isMutable typeName value := by
  cases g with
  | global label name isMutable typeName value => exact ⟨_, _, _, _, _, rfl⟩
  | _ =>
    simp only [Node.checkGlobal, gives_bind] at h
    obtain ⟨_, _, _, _, _, _, _, _, _, h⟩ := h
    split at h <;> simp [gives_bind, gives_throw] at h

theorem global_of_check {g : Node Label} (h : (g.checkGlobal check Γ).Gives σ Γ' σ') :
    Within g.labels σ σ' ∧ ∀ {found : Annotations} {visible : List Key},
      Fit Γ visible found σ' g.labels → (D.typed → g.Every (Node.Disciplined found)) →
      CheckedGlobal D found Γ g Γ' := by
  obtain ⟨label, name, isMutable, typeName, value, rfl⟩ := global_of_gives h
  obtain ⟨declared, u, t, τ, hr, hv, ht, h⟩ := gives_checkGlobal.1 h
  obtain ⟨key, hk, added, rfl⟩ := gives_declare.1 h
  obtain ⟨w, initial⟩ := initial_of_check hv hr ht
  refine ⟨(w.append Within.modify).mono (by grind [Node.labels]), fun fit hd => ?_⟩
  have adds := Context.Adds.of_avoids added fit.avoids (by simp [Node.labels])
  refine .intro ?_ hk adds rfl (by rw [fit.lasts.head])
  exact initial fit.regular fit.lasts.tail (fun d => (hd d).2) fun d => (hd d).1

theorem CheckedGlobal.fit {visible : List Key} {g : Node Label} {ys : List Label}
    (h : CheckedGlobal D found Γ g Γ') (hf : Fit Γ visible found σ (g.labels ++ ys)) :
    Fit Γ' ((Node.list [g]).names ++ visible) found σ ys := by
  obtain ⟨_, isName, adds, here, _⟩ := h
  have apart := (List.nodup_append.1 hf.lasts.nodup).2.2
  refine ⟨adds.regular hf.regular, adds.avoids hf.right.avoids fun hy => ?_, ?_, hf.right.lasts⟩
  · exact apart _ (by simp [Node.labels, here]) _ hy rfl
  · simpa [Node.names, Node.declared?, isName] using adds.sees hf.sees

/-- The names of globals, the last first. -/
theorem globals_of_check {globals : List (Node Label)}
    (h : (Node.checkGlobals check Γ globals).Gives σ Γ' σ') :
    Within (Node.allLabels globals) σ σ' ∧ ∀ {found : Annotations} {visible : List Key}
      {τ : Annotations} {ys : List Label}, Annotations.Within ys σ' τ →
      Fit Γ visible found τ (Node.allLabels globals ++ ys) →
      (D.typed → Node.EveryOne (Node.Disciplined found) globals) →
      CheckedGlobals D found Γ globals Γ' ∧
        Fit Γ' ((Node.list globals).names ++ visible) found τ ys := by
  induction globals generalizing Γ σ with
  | nil =>
    obtain ⟨rfl, rfl⟩ := gives_pure.1 h
    exact ⟨.refl, fun _ fit _ => ⟨.nil, fit⟩⟩
  | cons g rest ih =>
    obtain ⟨Γ₁, _, hg, ho⟩ := gives_bind.1 h
    obtain ⟨wg, first⟩ := global_of_check (D := D) hg
    obtain ⟨wo, others⟩ := ih ho
    refine ⟨wg.append wo, fun {found visible τ ys} w fit hd => ?_⟩
    have fit : Fit Γ visible found τ (g.labels ++ (Node.allLabels rest ++ ys)) := by
      simpa [Node.allLabels] using fit
    have first := first (fit.left (wo.append w)) fun d => (hd d).1
    obtain ⟨others, fit⟩ := others w (first.fit fit) fun d => (hd d).2
    refine ⟨.cons first others, fit.regular, fit.avoids, fit.sees.mono ?_, fit.lasts⟩
    simp only [Node.names, List.filterMap_cons, List.filterMap_nil]
    split <;> grind

theorem CheckedFunction.fit {visible : List Key} {f : Node Label} {ys : List Label}
    (h : CheckedFunction D found Γ f Γ') (hf : Fit Γ visible found σ (f.labels ++ ys)) :
    Fit Γ' visible found σ ys := by
  obtain ⟨_, _, _, _, _, _, added, _⟩ := h
  exact ⟨hf.regular.addFunction added, hf.right.avoids.addFunction added,
    hf.sees.addFunction added, hf.right.lasts⟩

/-- A function once known stays known. -/
theorem CheckedFunction.lookup {f : Node Label} {key : Key × Nat} {known : Signature}
    (h : CheckedFunction D found Γ f Γ') (hk : Γ.inner.functions.lookup key = some known) :
    Γ'.inner.functions.lookup key = some known := by
  obtain ⟨_, _, _, _, _, _, added, _⟩ := h
  obtain ⟨free, rfl⟩ := addFunction_eq added
  simp only [Table.lookup_put]
  split
  · rename_i he
    rw [beq_iff_eq.1 he, free] at hk
    cases hk
  · exact hk

theorem CheckedFunctions.lookup {functions : List (Node Label)} {key : Key × Nat}
    {known : Signature} (h : CheckedFunctions D found Γ functions Γ')
    (hk : Γ.inner.functions.lookup key = some known) :
    Γ'.inner.functions.lookup key = some known := by
  induction h with
  | nil => exact hk
  | cons first _ ih => exact ih (first.lookup hk)

/-- The function that is met as `main` is known by that name, and takes nothing. -/
theorem CheckedFunction.main {f : Node Label} (h : CheckedFunction D found Γ f Γ')
    (hm : f.checkMain = .ok true) :
    ∃ s, Γ'.inner.functions.lookup (.text "main", 0) = some s ∧ s.parameters = [] := by
  obtain ⟨headed, returning, isName, own, takes, gives, added, body⟩ := h
  rename_i label name returnTypeName parameters statements header returns key s
  simp only [Node.checkMain, Node.name?, required, bind, Except.bind] at hm
  split at hm
  · cases hm
  · rename_i named
    split at hm
    · cases hm
    · rename_i empty
      have named := Decidable.not_not.1 named
      have empty : parameters = [] := by simpa [Node.isEmpty] using empty
      subst named empty
      cases headed
      cases isName
      obtain ⟨_, rfl⟩ := addFunction_eq added
      exact ⟨s, by simp [Table.lookup_put, Signature.arity, takes], takes⟩

theorem functions_of_check {functions : List (Node Label)} {isMain : Bool}
    (h : (Node.checkFunctions check Γ functions).Gives σ (Γ', isMain) σ') :
    Within (Node.allLabels functions) σ σ' ∧ ∀ {found : Annotations} {visible : List Key},
      Fit Γ visible found σ' (Node.allLabels functions) →
      (D.typed → Node.EveryOne (Node.Disciplined found) functions) →
      (D.clear → Node.NoneHides visible functions) →
      CheckedFunctions D found Γ functions Γ' ∧
        (isMain = true →
          ∃ s, Γ'.inner.functions.lookup (.text "main", 0) = some s ∧ s.parameters = []) := by
  induction functions generalizing Γ σ isMain with
  | nil =>
    obtain ⟨he, rfl⟩ := gives_pure.1 h
    cases he
    exact ⟨.refl, fun _ _ _ => ⟨.nil, fun h => by cases h⟩⟩
  | cons f rest ih =>
    obtain ⟨main, more, Γ₁, _, hm, hf, ho, rfl⟩ := gives_checkFunctions_cons.1 h
    obtain ⟨wf, first⟩ := function_of_check (D := D) hf
    obtain ⟨wo, others⟩ := ih ho
    refine ⟨wf.append wo, fun fit hd hh => ?_⟩
    have first := first (fit.left wo) (fun d => (hd d).1) fun d => (hh d).1
    obtain ⟨others, last⟩ := others (first.fit fit) (fun d => (hd d).2) fun d => (hh d).2
    refine ⟨.cons first others, fun found_main => ?_⟩
    rcases Bool.or_eq_true_iff.1 found_main with rfl | rfl
    · obtain ⟨s, hs, nullary⟩ := first.main hm
      exact ⟨s, others.lookup hs, nullary⟩
    · exact last rfl

theorem within_of_checkGlobal {g : Node Label} (h : (g.checkGlobal check Γ).Gives σ Γ' σ') :
    Within g.labels σ σ' :=
  (global_of_check (D := ⟨False, False⟩) h).1

theorem within_of_checkGlobals {globals : List (Node Label)}
    (h : (Node.checkGlobals check Γ globals).Gives σ Γ' σ') :
    Within (Node.allLabels globals) σ σ' :=
  (globals_of_check (D := ⟨False, False⟩) h).1

theorem within_of_checkFunction {f : Node Label} (h : (f.checkFunction check Γ).Gives σ Γ' σ') :
    Within f.labels σ σ' :=
  (function_of_check (D := ⟨False, False⟩) h).1

theorem within_of_checkFunctions {functions : List (Node Label)} {isMain : Bool}
    (h : (Node.checkFunctions check Γ functions).Gives σ (Γ', isMain) σ') :
    Within (Node.allLabels functions) σ σ' :=
  (functions_of_check (D := ⟨False, False⟩) h).1

/-- The check of a program, in the order in which it goes. -/
theorem gives_checkProgram {tree : Node Label} {outer : List StaticBlock} :
    (tree.checkProgram check outer).Gives σ Γ σ' ↔
      ∃ globals functions Γ₀ τ, tree = .source (.list globals) (.list functions) ∧
        (Node.checkGlobals check ⟨.standard, outer⟩ globals).Gives σ Γ₀ τ ∧
        (Node.checkFunctions check Γ₀ functions).Gives τ (Γ, true) σ' := by
  constructor
  · intro h
    cases tree with
    | source globals functions =>
      obtain ⟨globals, first, h⟩ := gives_lift_bind.1 h
      obtain rfl := items_ok.1 first
      obtain ⟨Γ₀, τ, hg, h⟩ := gives_bind.1 h
      obtain ⟨functions, second, h⟩ := gives_lift_bind.1 h
      obtain rfl := items_ok.1 second
      obtain ⟨⟨_, isMain⟩, _, hf, h⟩ := gives_bind.1 h
      cases isMain with
      | false => exact (gives_throw h).elim
      | true =>
        obtain ⟨rfl, rfl⟩ := gives_pure.1 h
        exact ⟨globals, functions, Γ₀, τ, rfl, hg, hf⟩
    | _ => exact (gives_throw h).elim
  · rintro ⟨globals, functions, Γ₀, τ, rfl, hg, hf⟩
    refine gives_lift_bind.2 ⟨globals, rfl, gives_bind.2 ⟨Γ₀, τ, hg, ?_⟩⟩
    refine gives_lift_bind.2 ⟨functions, rfl, gives_bind.2 ⟨(Γ, true), σ', hf, ?_⟩⟩
    exact gives_pure.2 ⟨rfl, rfl⟩

/-- A program that the checker accepts has globals, which are checked first, and functions, with a
`main`. What is found of its nodes is found once. -/
theorem program_of_check {tree : Node Label} {outer : List StaticBlock}
    (h : (tree.checkProgram check outer).Gives σ Γ σ') (nodup : tree.labels.Nodup)
    (room : ∀ label ∈ tree.labels, label < σ.size) :
    ∃ globals functions Γ₀ τ, tree = .source (.list globals) (.list functions) ∧
      (Node.checkGlobals check ⟨.standard, outer⟩ globals).Gives σ Γ₀ τ ∧
      (Node.checkFunctions check Γ₀ functions).Gives τ (Γ, true) σ' ∧
      Within tree.labels σ σ' ∧ Lasts σ' σ' tree.labels := by
  obtain ⟨globals, functions, Γ₀, τ, rfl, hg, hf⟩ := gives_checkProgram.1 h
  have wg := within_of_checkGlobals hg
  have wf := within_of_checkFunctions hf
  have within := wg.append wf
  exact ⟨globals, functions, Γ₀, τ, rfl, hg, hf, within, nodup,
    fun label mem => within.size ▸ room label mem, fun _ _ => rfl⟩

/-- A program that the checker accepts, in a check of its own, fits what is found of it. -/
theorem checkedProgram_of_check {n : Node Unit} {known : Annotations}
    (h : (n.annotated known).check check [] = (.ok Γ, found))
    (hd : D.typed → (n.annotated known).tree.Every (Node.Disciplined found))
    (hh : D.clear → (n.annotated known).tree.HidesNothing []) :
    ∃ Γ₀, CheckedProgram D found (n.annotated known).tree Γ₀ Γ := by
  obtain ⟨nodup, room⟩ := n.annotated_labels known
  change Gives _ _ _ _ at h
  generalize (n.annotated known).tree = tree at *
  generalize (n.annotated known).found = start at *
  obtain ⟨globals, functions, Γ₀, _, rfl, hg, hf, -, last⟩ := program_of_check h nodup room
  obtain ⟨_, first⟩ := globals_of_check (D := D) hg
  obtain ⟨wf, others⟩ := functions_of_check (D := D) hf
  have fit : Fit ⟨.standard, []⟩ [] found found
      (Node.allLabels globals ++ Node.allLabels functions) := by
    refine ⟨.standard fun _ mem => (List.not_mem_nil mem).elim, ?_, ?_, last⟩
    · intro block hb key b hl
      obtain rfl := List.mem_singleton.1 hb
      cases hl
    · intro key b hf
      cases hf
  obtain ⟨first, fit⟩ := first wf fit fun d => (hd d).2.1.2
  obtain ⟨others, main⟩ := others fit (fun d => (hd d).2.2.2) hh
  obtain ⟨f, main, nullary⟩ := main rfl
  exact ⟨Γ₀, .intro first others main nullary⟩

end

end PlcLang
