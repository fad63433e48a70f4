import Mathlib.Logic.Basic

/-! Arrays that are changed in place, seen through a map or behind other entries. -/

namespace PlcLang

theorem map_modify {α β : Type} {g : α → β} {f : α → α} {f' : β → β} (h : ∀ a, g (f a) = f' (g a))
    (xs : Array α) (i : Nat) : (xs.modify i f).map g = (xs.map g).modify i f' := by
  refine Array.ext_getElem? fun j => ?_
  simp only [Array.getElem?_map, Array.getElem?_modify]
  split
  · cases xs[j]? with
    | none => rfl
    | some a => exact congrArg some (h a)
  · rfl

/-- Arrays that are the same in some respect are so after a change that respects it. -/
theorem modify_congr {α β : Type} {g : α → β} {xs ys : Array α} {f f' : α → α}
    (same : xs.map g = ys.map g) (h : ∀ a b, g a = g b → g (f a) = g (f' b)) (i : Nat) :
    (xs.modify i f).map g = (ys.modify i f').map g := by
  refine Array.ext_getElem? fun j => ?_
  have here : (xs.map g)[j]? = (ys.map g)[j]? := by rw [same]
  simp only [Array.getElem?_map, Array.getElem?_modify] at here ⊢
  split
  · cases hx : xs[j]? <;> cases hy : ys[j]? <;>
      simp_all only [Option.map_some, Option.map_none, Option.some.injEq, reduceCtorEq]
    exact h _ _ here
  · exact here

theorem modify_beyond {α : Type} {xs : Array α} {i : Nat} {f : α → α} (beyond : ¬ i < xs.size) :
    xs.modify i f = xs := by
  refine Array.ext_getElem? fun j => ?_
  rw [Array.getElem?_modify]
  split
  · rename_i here
    rw [← here, Array.getElem?_eq_none (Nat.le_of_not_lt beyond)]
    rfl
  · rfl

theorem modify_append {α : Type} (xs ys : Array α) (i : Nat) (f : α → α) :
    (xs ++ ys).modify (xs.size + i) f = xs ++ ys.modify i f := by
  refine Array.ext_getElem? fun j => ?_
  rw [Array.getElem?_modify, Array.getElem?_append, Array.getElem?_append]
  by_cases first : j < xs.size
  · rw [if_neg (by omega), if_pos first, if_pos first]
  · rw [if_neg first, if_neg first, Array.getElem?_modify]
    have same : xs.size + i = j ↔ i = j - xs.size := by omega
    simp only [same]

/-- An entry behind others is changed as it is without them. -/
theorem modify_behind {α β : Type} {g : α → β} {f : α → α} {f' : β → β}
    (h : ∀ a, g (f a) = f' (g a)) (base : Array β) (xs : Array α) (i : Nat) :
    (base ++ xs.map g).modify (base.size + i) f' = base ++ (xs.modify i f).map g := by
  rw [modify_append, map_modify h]

theorem push_behind {α β : Type} (g : α → β) (base : Array β) (xs : Array α) (a : α) :
    (base ++ xs.map g).push (g a) = base ++ (xs.push a).map g := by
  rw [Array.map_push, Array.append_push]

theorem size_behind {α β : Type} (g : α → β) (base : Array β) (xs : Array α) :
    (base ++ xs.map g).size = base.size + xs.size := by
  rw [Array.size_append, Array.size_map]

theorem getElem?_behind {α β : Type} (g : α → β) (base : Array β) (xs : Array α) (i : Nat) :
    (base ++ xs.map g)[base.size + i]? = xs[i]?.map g := by
  rw [Array.getElem?_append_right (Nat.le_add_right _ _), Nat.add_sub_cancel_left,
    Array.getElem?_map]

end PlcLang
