import PlcLang.Proofs.Checking.Expression

namespace PlcLang

/-- No variable in scope was declared at one of these labels. -/
def Context.Avoids (Γ : Context) (labels : List Label) : Prop :=
  ∀ block ∈ Γ.blocks, ∀ key b, block.vars.lookup key = some b → b.id.label ∉ labels

/-- The names of all variables in scope are among these. -/
def Context.Sees (Γ : Context) (visible : List Key) : Prop :=
  ∀ key b, Γ.findVariable key = some b → key ∈ visible

/-- How the names in scope at a part of a tree, with these labels, and what a walk over it left
stand to what is found in the end. -/
structure Fit (Γ : Context) (visible : List Key) (found σ : Annotations) (labels : List Label) :
    Prop where
  regular : Γ.Regular
  avoids : Γ.Avoids labels
  sees : Γ.Sees visible
  lasts : found.Lasts σ labels

section

variable {Γ Γ' : Context} {key : Key} {b : Binding} {xs ys : List Label} {visible : List Key}

theorem Context.Avoids.child (h : Γ.Avoids xs) : Γ.child.Avoids xs := by
  intro block hb key b hl
  rcases List.mem_cons.1 hb with rfl | hb
  · cases hl
  · exact h block hb key b hl

theorem Context.Avoids.mono (h : Γ.Avoids xs) (hs : ys ⊆ xs) : Γ.Avoids ys :=
  fun block hb key b hl hy => h block hb key b hl (hs hy)

theorem addVariable_eq (h : Γ.addVariable key b = some Γ') :
    Γ.inner.vars.lookup key = none ∧
      Γ' = ⟨{ Γ.inner with vars := Γ.inner.vars.put key b }, Γ.outer⟩ := by
  unfold Context.addVariable at h
  split at h
  · contradiction
  · rename_i free
    exact ⟨Option.not_isSome_iff_eq_none.1 free, (Option.some.inj h).symm⟩

theorem addFunction_eq {f : Signature} (h : Γ.addFunction key f = some Γ') :
    Γ.inner.functions.lookup (key, f.arity) = none ∧
      Γ' = ⟨{ Γ.inner with functions := Γ.inner.functions.put (key, f.arity) f }, Γ.outer⟩ := by
  unfold Context.addFunction at h
  simp only at h
  split at h
  · contradiction
  · rename_i free
    exact ⟨Option.not_isSome_iff_eq_none.1 free, (Option.some.inj h).symm⟩

namespace Context.Adds

theorem free (h : Γ.Adds key b Γ') : Γ.inner.vars.lookup key = none :=
  (addVariable_eq h.added).1

theorem eq (h : Γ.Adds key b Γ') :
    Γ' = ⟨{ Γ.inner with vars := Γ.inner.vars.put key b }, Γ.outer⟩ :=
  (addVariable_eq h.added).2

theorem outer (h : Γ.Adds key b Γ') : Γ'.outer = Γ.outer := by
  rw [h.eq]

theorem functions (h : Γ.Adds key b Γ') : Γ'.inner.functions = Γ.inner.functions := by
  rw [h.eq]

theorem lookup (h : Γ.Adds key b Γ') (other : Key) :
    Γ'.inner.vars.lookup other = if other = key then some b else Γ.inner.vars.lookup other := by
  rw [h.eq]
  simp [Table.lookup_put]

theorem findVariable (h : Γ.Adds key b Γ') (other : Key) :
    Γ'.findVariable other = if other = key then some b else Γ.findVariable other := by
  unfold Context.findVariable Context.blocks
  rw [List.findSome?_cons, List.findSome?_cons, h.lookup, h.outer]
  by_cases he : other = key
  · rw [if_pos he, if_pos he]
  · rw [if_neg he, if_neg he]

theorem avoids (h : Γ.Adds key b Γ') (ha : Γ.Avoids xs) (hb : b.id.label ∉ xs) : Γ'.Avoids xs := by
  intro block hm k c hl
  rcases List.mem_cons.1 hm with rfl | hm
  · rw [h.lookup] at hl
    split at hl
    · cases hl
      exact hb
    · exact ha Γ.inner (List.mem_cons_self) k c hl
  · rw [h.outer] at hm
    exact ha block (List.mem_cons_of_mem _ hm) k c hl

theorem sees (h : Γ.Adds key b Γ') (hs : Γ.Sees visible) : Γ'.Sees (key :: visible) := by
  intro k c hf
  rw [h.findVariable] at hf
  split at hf
  · rename_i he
    exact he ▸ List.mem_cons_self
  · exact List.mem_cons_of_mem _ (hs k c hf)

theorem regular (h : Γ.Adds key b Γ') (hr : Γ.Regular) : Γ'.Regular := by
  intro block hm k arity f hl
  rcases List.mem_cons.1 hm with rfl | hm
  · rw [h.functions] at hl
    exact hr Γ.inner (List.mem_cons_self) k arity f hl
  · rw [h.outer] at hm
    exact hr block (List.mem_cons_of_mem _ hm) k arity f hl

/-- A variable that is declared where no variable in scope was is new. -/
theorem of_avoids (h : Γ.addVariable key b = some Γ') (ha : Γ.Avoids xs) (hb : b.id.label ∈ xs) :
    Γ.Adds key b Γ' :=
  ⟨h, fun block hm k c hl he => ha block hm k c hl (he ▸ hb)⟩

end Context.Adds

theorem Context.Regular.addFunction {f : Signature} (hr : Γ.Regular)
    (h : Γ.addFunction key f = some Γ') : Γ'.Regular := by
  rw [(addFunction_eq h).2]
  intro block hm k arity g hl
  rcases List.mem_cons.1 hm with rfl | hm
  · rw [Table.lookup_put] at hl
    split at hl
    · rename_i he
      cases hl
      simp only [beq_iff_eq, Prod.mk.injEq] at he
      exact he.2.symm
    · exact hr Γ.inner (List.mem_cons_self) k arity g hl
  · exact hr block (List.mem_cons_of_mem _ hm) k arity g hl

theorem Context.Avoids.addFunction {f : Signature} (ha : Γ.Avoids xs)
    (h : Γ.addFunction key f = some Γ') : Γ'.Avoids xs := by
  rw [(addFunction_eq h).2]
  intro block hm k c hl
  rcases List.mem_cons.1 hm with rfl | hm
  · exact ha Γ.inner (List.mem_cons_self) k c hl
  · exact ha block (List.mem_cons_of_mem _ hm) k c hl

theorem Context.Sees.addFunction {f : Signature} (hs : Γ.Sees visible)
    (h : Γ.addFunction key f = some Γ') : Γ'.Sees visible := by
  rw [(addFunction_eq h).2]
  exact hs

namespace Fit

variable {found σ τ : Annotations}

theorem child (h : Fit Γ visible found σ xs) : Fit Γ.child visible found σ xs :=
  ⟨h.regular.child, h.avoids.child, h.sees, h.lasts⟩

theorem left (h : Fit Γ visible found σ (xs ++ ys)) (w : Annotations.Within ys τ σ) :
    Fit Γ visible found τ xs :=
  ⟨h.regular, h.avoids.mono (List.subset_append_left xs ys), h.sees, h.lasts.left w⟩

theorem right (h : Fit Γ visible found σ (xs ++ ys)) : Fit Γ visible found σ ys :=
  ⟨h.regular, h.avoids.mono (List.subset_append_right xs ys), h.sees, h.lasts.right⟩

end Fit

end

section

variable {D : Demands} {found : Annotations} {returns : Ty} {Γ Γ' : Context} {s : Node Label}

/-- Only a declaration changes what is in scope. -/
theorem Checked.scope (h : Checked D found returns Γ s Γ') :
    Γ' = Γ ∨ ∃ label name typeName value key b,
      s = .declaration label name typeName value ∧ name.key? = some key ∧
        b.id.label = label ∧ Γ.Adds key b Γ' := by
  cases h with
  | declaration _ isName adds here _ =>
    exact Or.inr ⟨_, _, _, _, _, _, rfl, isName, here, adds⟩
  | _ => exact Or.inl rfl

theorem Checked.regular (h : Checked D found returns Γ s Γ') (hr : Γ.Regular) : Γ'.Regular := by
  rcases h.scope with rfl | ⟨_, _, _, _, _, _, _, _, _, adds⟩
  · exact hr
  · exact adds.regular hr

theorem Checked.avoids {xs : List Label} (h : Checked D found returns Γ s Γ') (ha : Γ.Avoids xs)
    (hd : ∀ label ∈ s.labels, label ∉ xs) : Γ'.Avoids xs := by
  rcases h.scope with rfl | ⟨_, _, _, _, _, _, rfl, _, rfl, adds⟩
  · exact ha
  · exact adds.avoids ha (hd _ (by simp [Node.labels]))

theorem Checked.sees {visible : List Key} (h : Checked D found returns Γ s Γ')
    (hs : Γ.Sees visible) : Γ'.Sees (s.declares ++ visible) := by
  rcases h.scope with rfl | ⟨_, _, _, _, key, _, rfl, isName, _, adds⟩
  · exact fun key b hf => List.mem_append_right _ (hs key b hf)
  · simpa [Node.declares, isName] using adds.sees hs

/-- What follows a statement fits what is in scope behind it. -/
theorem Checked.fit {visible : List Key} {σ : Annotations} {ys : List Label}
    (h : Checked D found returns Γ s Γ') (hf : Fit Γ visible found σ (s.labels ++ ys)) :
    Fit Γ' (s.declares ++ visible) found σ ys where
  regular := h.regular hf.regular
  avoids := h.avoids hf.right.avoids fun _ hs hy =>
    (List.nodup_append.1 hf.lasts.nodup).2.2 _ hs _ hy rfl
  sees := h.sees hf.sees
  lasts := hf.lasts.right

end

end PlcLang
