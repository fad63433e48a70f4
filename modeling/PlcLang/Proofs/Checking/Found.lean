import PlcLang.Proofs.Checking.Walk

namespace PlcLang

namespace Annotations

variable {σ τ σ' found : Annotations} {label other : Label} {xs ys ls : List Label}
  {change : Annotation → Annotation}

theorem of_modify_self (h : label < σ.size) :
    of (σ.modify label change) label = change (σ.of label) := by
  simp only [of, Array.getElem?_modify, ↓reduceIte, Array.getElem?_eq_getElem h, Option.map_some,
    Option.getD_some]

theorem of_modify_other (h : other ≠ label) :
    of (σ.modify label change) other = σ.of other := by
  simp [of, Array.getElem?_modify, Ne.symm h]

theorem modify_modify {further : Annotation → Annotation} :
    Array.modify (σ.modify label change) label further =
      σ.modify label fun a => further (change a) := by
  apply Array.ext
  · simp
  · intro i _ _
    by_cases h : label = i <;> simp [Array.getElem_modify, h]

/-- A walk finds something out about nodes with these labels only. -/
structure Within (labels : List Label) (σ σ' : Annotations) : Prop where
  size : σ'.size = σ.size
  others : ∀ label ∉ labels, σ'.of label = σ.of label

theorem Within.refl : Within xs σ σ :=
  ⟨rfl, fun _ _ => rfl⟩

theorem Within.mono (h : Within xs σ σ') (hs : xs ⊆ ys) : Within ys σ σ' :=
  ⟨h.size, fun label hl => h.others label fun hx => hl (hs hx)⟩

theorem Within.trans (h : Within xs σ τ) (h' : Within xs τ σ') : Within xs σ σ' :=
  ⟨h'.size.trans h.size, fun label hl => (h'.others label hl).trans (h.others label hl)⟩

theorem Within.append (h : Within xs σ τ) (h' : Within ys τ σ') : Within (xs ++ ys) σ σ' :=
  (h.mono (List.subset_append_left xs ys)).trans (h'.mono (List.subset_append_right xs ys))

theorem Within.modify : Within [label] σ (σ.modify label change) :=
  ⟨Array.size_modify, fun _ hl => of_modify_other (by simpa using hl)⟩

/-- What a walk over nodes with these labels left, each its own, is what is found in the end. -/
structure Lasts (found σ : Annotations) (labels : List Label) : Prop where
  nodup : labels.Nodup
  room : ∀ label ∈ labels, label < σ.size
  kept : ∀ label ∈ labels, found.of label = σ.of label

/-- What was left before a walk over other nodes lasts as well. -/
theorem Lasts.before (h : Lasts found σ' ls) (w : Within ys τ σ') (hx : xs.Sublist ls)
    (hd : ∀ label ∈ xs, label ∉ ys) : Lasts found τ xs where
  nodup := h.nodup.sublist hx
  room label hl := w.size ▸ h.room label (hx.subset hl)
  kept label hl := (h.kept label (hx.subset hl)).trans (w.others label (hd label hl))

theorem Lasts.left (h : Lasts found σ' (xs ++ ys)) (w : Within ys τ σ') : Lasts found τ xs :=
  h.before w (List.sublist_append_left xs ys) fun _ hx hy =>
    (List.nodup_append.1 h.nodup).2.2 _ hx _ hy rfl

theorem Lasts.right (h : Lasts found σ (xs ++ ys)) : Lasts found σ ys :=
  ⟨h.nodup.sublist (List.sublist_append_right xs ys),
    fun label hl => h.room label (List.mem_append_right xs hl),
    fun label hl => h.kept label (List.mem_append_right xs hl)⟩

/-- What was left before the last note about the node in front of others. -/
theorem Lasts.tail (h : Lasts found (σ.modify label change) (label :: xs)) : Lasts found σ xs :=
  h.before Within.modify (List.sublist_cons_self label xs) fun other ho he => by
    rw [List.mem_singleton.1 he] at ho
    exact (List.nodup_cons.1 h.nodup).1 ho

theorem Lasts.head (h : Lasts found (σ.modify label change) (label :: xs)) :
    found.of label = change (σ.of label) := by
  have hroom := h.room label (List.mem_cons_self)
  rw [Array.size_modify] at hroom
  rw [h.kept label (List.mem_cons_self), of_modify_self hroom]

end Annotations

end PlcLang
