import PlcLang.Proofs.Running.Statements

namespace PlcLang

section

variable {c : Course} {bottom : Waiting} {F : Defined} {made : Made} {r : Ty}
  {l : Level} {p : Scope} {cs : List Scope} {K : List Frame} {calls : Nat} {w : World} {v : Value}
  {o : Prop}

/-- A name that the checker does not know in the block of a function is free there. -/
theorem Live.free {key : Key} (live : Live c F w.store made (.inside l p) cs)
    (plain : l.loop = false) (unknown : l.vars.lookup key = none) :
    w.store.taken ((Scope.inside l p).env c.root) key = false := by
  have fits := live.fits
  cases fits with
  | inside _ _ _ _ _ _ names =>
    simp only [Store.taken, Table.has, Scope.env, names plain key unknown, Option.isSome_none]

/-- Arguments become the variables that the checker knows as parameters. -/
theorem bind_live {header : List (Declared Label × Ty)} {arguments : List Value} {Γ Γ' : Context}
    {G T : Table DeclId Nat} {Ts : List (Table DeclId Nat)}
    (bound : Bound c.found Γ header Γ') (context : (Scope.inside l p).context = Γ)
    (plain : l.loop = false) (admitted : Admitted c.demands arguments (header.map (·.2)))
    (live : Live c F w.store ⟨G, T :: Ts⟩ (.inside l p) cs) :
    ∃ (w' : World) (vars : Table Key Binding),
      w.bind ((Scope.inside l p).env c.root) c.program.found
        ((header.map (·.1)).zip arguments) = (w', none) ∧
      (Scope.inside { l with vars := vars } p).context = Γ' ∧ w.store.Grows w'.store ∧
      Live c F w'.store
        ⟨G, Made.noteAll c.found (header.map (·.1)) w.store.vars.size T :: Ts⟩
        (.inside { l with vars := vars } p) cs := by
  induction bound generalizing l arguments w T with
  | nil =>
    cases admitted
    exact ⟨w, l.vars, rfl, context, .refl, live⟩
  | cons isName adds here known others ih =>
    rename_i Γ Γ₁ Γ₂ param key b rest
    cases admitted with
    | cons first admitted =>
      rename_i a arguments
      subst context
      have free := live.free plain adds.free
      have live := live.declare (x := ⟨param.name, _, true, a⟩) adds
        (fun looping => by rw [plain] at looping; contradiction) (type_of_bound known) first
      rw [← mark_of_bound known] at live
      obtain ⟨w', vars, hb, hΓ, grows, live⟩ :=
        ih (w := w.add ((Scope.inside l p).env c.root) key param.name
          (c.program.found.of param.label).binding true a)
          (l := { l with vars := l.vars.put key b })
          (Scope.context_declare adds) plain admitted live
      refine ⟨w', vars, ?_, hΓ, Store.grows_add.trans grows, ?_⟩
      · simp only [List.map_cons, List.zip_cons_cons, World.bind, key_ok.2 isName, free,
          Bool.false_eq_true, ↓reduceIte]
        exact hb
      · simpa [Made.noteAll, Made.note, known, World.add, Store.add] using live

/-- A function is called: what is built in gives nil, and code of the program runs in a new
block. -/
theorem call_keeps {n : Nat} {f : Callable} {g : Signature} {arguments : List Value}
    (known : w.store.functions[n]? = some f) (fulfils : Fulfils c f g)
    (admitted : Admitted c.demands arguments g.parameters)
    (wants : Wants c bottom w.store g.returns r p cs K) (live : Live c F w.store made p cs) :
    Keeps c bottom F (made.after c.found ⟨.call n arguments, K, calls, w⟩)
      ((c.situation K calls w).call n arguments) := by
  obtain ⟨name, arity, types, returns, body⟩ := f
  simp only [Situation.call, Course.situation, known]
  refine leads_noting (Tolerable.mapM (Lists.text_tolerable _ _) _).map fun w' hw => ?_
  simp only [Situation.withWorld] at hw ⊢
  rw [← hw] at known wants live
  cases fulfils with
  | print body gives =>
    cases body
    simp only [Made.after, ← hw, known]
    refine leads_require (Lists.text_tolerable _ _ _) fun text _ => ?_
    exact Sound.value (w := w'.print text) (fun _ => by rw [gives]; rfl) wants live
  | code body takes checked vars functions =>
    rename_i header statements S
    cases body
    simp only [Made.after, ← hw, known]
    change Keeps c bottom F _ (if c.settings.depth ≤ calls then _ else _)
    by_cases deep : c.settings.depth ≤ calls
    · rw [if_pos deep]
      exact leads_fail (s := c.situation K calls w') trivial
    · rw [if_neg deep]
      have base : Based c w'.store made.globals := by
        have mem := Array.mem_of_getElem? known
        rw [live.functions] at mem
        exact (live.ready _ mem).resolve_left (by simp)
      obtain ⟨binds, body, ends⟩ := checked
      have called := live.call base vars functions
      rw [takes] at admitted
      obtain ⟨w₁, inner, hb, hΓ, grows, live⟩ :=
        bind_live (w := (w'.openBlock ⟨c.root, []⟩).1) binds rfl rfl admitted called
      have bound : (w'.openBlock ⟨c.root, []⟩).1.bind (w'.openBlock ⟨c.root, []⟩).2
          c.program.found ((header.map (·.1)).zip arguments) = (w₁, none) := hb
      simp only [bound]
      subst hΓ
      have wants := wants.grow ((Store.grows_openBlock w'.store ⟨c.root, []⟩).trans grows)
      exact Sound.execute body (fun _ _ looping => by cases looping) id
        (.activation (fun open_end d => (ends d).resolve_right (by simp [open_end])) wants) live

/-- The end of a statement is passed on. -/
theorem proceed_keeps {frame : Frame} (reached : o)
    (flows : Ends c bottom w.store o r p cs (frame :: K) ∨
      Closes c bottom w.store o r p cs (frame :: K))
    (live : Live c F w.store made p cs) :
    Keeps c bottom F (made.after c.found ⟨.ended, frame :: K, calls, w⟩)
      ((c.situation K calls w).proceed frame) := by
  have rest {p : Scope} (behind : Ends c bottom w.store o r p cs (frame :: K))
      (live : Live c F w.store made p cs) :
      Keeps c bottom F (made.after c.found ⟨.ended, frame :: K, calls, w⟩)
        ((c.situation K calls w).proceed frame) := by
    cases behind with
    | rest all clear reached' closes =>
      exact Sound.execute all clear (reached' reached) closes live
  rcases flows with behind | closes
  · exact rest behind live
  · cases closes with
    | block behind => exact rest behind live.outer
    | round looping test hidden body behind =>
      rename_i condition statements Γ l p
      have live : Live c F w.store made (c.turn l p) cs := by
        cases loops : c.settings.loops with
        | shared =>
          have live := live.again (looping loops)
          rw [turn_shared loops]
          simpa [looping loops] using live
        | perRound =>
          rw [turn_perRound loops]
          exact live.outer
      exact Sound.evaluate test.turn (.condition rfl test hidden body behind) live
    | activation ends behind =>
      exact Sound.value (fun d => by rw [ends reached d]; rfl) behind live.return

/-- A `RETURN` passes on its value. -/
theorem unwind_keeps {frame : Frame} (admits : c.demands.typed → r.admits v.tag = true)
    (flows : Ends c bottom w.store o r p cs (frame :: K) ∨
      Closes c bottom w.store o r p cs (frame :: K))
    (live : Live c F w.store made p cs) :
    Keeps c bottom F (made.after c.found ⟨.leave v, frame :: K, calls, w⟩)
      ((c.situation K calls w).unwind v frame) := by
  have rest {p : Scope} (behind : Ends c bottom w.store o r p cs (frame :: K))
      (live : Live c F w.store made p cs) :
      Keeps c bottom F (made.after c.found ⟨.leave v, frame :: K, calls, w⟩)
        ((c.situation K calls w).unwind v frame) := by
    cases behind with
    | rest all clear reached closes => exact Sound.leave admits (Or.inr closes) live
  rcases flows with behind | closes
  · exact rest behind live
  · cases closes with
    | block behind => exact rest behind live.outer
    | round looping test hidden body behind =>
      exact Sound.leave admits (Or.inl behind) live.outer
    | activation ends behind => exact Sound.value admits behind live.return

end

end PlcLang
