import ScriptEngine.Proofs.Session.Requests
import ScriptEngine.Proofs.Universe.Attribution

/-!
The methods that a session declares.

`Session.declared` says what an action declares: for a successful declaration of a method, the
interpreter and the universe, the method, the callable that was allocated for it and the function
that implements it. `Ledger log` says of a session how its parts agree with the log of all its
declarations: what is bound in its universes was logged, and the code that an interpreter knows is
that of its own declarations. Main statement: a session whose methods are declared through its
interpreters only keeps its ledger (`Leads.ledger`).
-/

namespace ScriptEngine

/-! ### Declaring a method in a universe -/

namespace Universe

/-- The name `ty` has a method called `name`. -/
def Declares (u : Universe) (ty : TypeId) (name : String) : Prop :=
  ∃ d, u.catalog.decl? ty = some (.named d) ∧ ∃ m ∈ d.methods, m.name = name

section Declaring

variable {u u' : Universe} {ty : TypeId} {name : String} {m : MethodDecl} {a : Act} {A : Set Act}

theorem Declares.grows (h : u.Declares ty name) (g : Catalog.Grows u.catalog u'.catalog) :
    u'.Declares ty name := by
  obtain ⟨d, hd, m, hm, hname⟩ := h
  obtain ⟨d', hd', -, -, -, hmethods⟩ := g.named ty d hd
  exact ⟨d', hd', m, hmethods.subset hm, hname⟩

/-- A step hands out no callable twice. -/
theorem Step.funcs_le (s : Step u a u') : u.funcs ≤ u'.funcs := by
  cases s with
  | allocate => exact Nat.le_succ _
  | bind r name callable =>
    rw [bindCallable_eq]
  | _ => exact Nat.le_refl _

theorem Steps.funcs_le (s : Steps A u u') : u.funcs ≤ u'.funcs := by
  induction s with
  | refl => exact Nat.le_refl _
  | tail _ last ih =>
    obtain ⟨a, -, step⟩ := last
    exact ih.trans step.funcs_le

/-- A method is declared once. -/
theorem declares_of_addMethod {c : Catalog} {i : Nat}
    (h : u.catalog.addMethod ty m = .ok (i, c)) :
    ¬ u.Declares ty m.name ∧ Declares { u with catalog := c } ty m.name := by
  unfold Catalog.addMethod at h
  split at h
  · cases h
  next d hd =>
  rw [Catalog.named?_eq_some] at hd
  split at h
  · cases h
  split at h
  · cases h
  next hnew =>
  dsimp only at h
  split at h
  · cases h
    constructor
    · rintro ⟨d', hd', m', hm', hname⟩
      obtain rfl := TypeDecl.named.inj (Option.some.inj (hd.symm.trans hd'))
      exact hnew (List.any_eq_true.mpr ⟨m', hm', beq_iff_eq.mpr hname⟩)
    · refine ⟨_, Catalog.decl?_setNamed_self (Catalog.lt_size_of_decl? hd) _, _,
        List.mem_append_right _ (List.mem_singleton_self _), ?_⟩
      rfl
  · cases h

/-- The method `name` of `ty` was declared in `u`, which left `u'`, and bound to the next callable,
`func`. -/
structure DeclaredBound (u : Universe) (ty : TypeId) (name : String) (func : FuncId)
    (u' : Universe) : Prop where
  next : func = ⟨u.funcs⟩
  fresh : ¬ u.Declares ty name
  declares : u'.Declares ty name
  bound : ∃ u₁, Steps {.declare, .allocate} u u₁ ∧ u₁.funcs = u.funcs + 1 ∧
    BindsMethod u₁ ty name func u'

/-- Declaring a method is a matter of steps. -/
theorem DeclaredBound.steps {func : FuncId} (hd : DeclaredBound u ty name func u') (h : Sound u) :
    Steps Set.univ u u' := by
  obtain ⟨u₁, s, -, hb⟩ := hd.bound
  have hbinds : Steps (Set.univ \ {.breakOff}) u₁ u' :=
    hb.steps (s.sound h) (Set.subset_univ _) (Set.mem_univ _)
  exact .trans (Steps.mono (Set.subset_univ _) s) (Steps.mono (Set.subset_univ _) hbinds)

/-- What may happen when the declaration of a method fails. -/
def Act.declaring : Set Act :=
  {.declare, .allocate, .build, .breakOff}

/-- Declaring a method whose receiver is known. -/
theorem ends_addBound (h : Sound u) (hm : ∀ p ∈ m.sig.types, p.index < u.catalog.size) :
    Ends (do
        let index ← addMethod ty m
        let func ← allocFunc
        let _ ← bindMethod ty m.name func
        return (index, func)) u
      (fun answer u' => DeclaredBound u ty m.name answer.2 u')
      (fun _ u' => Steps Act.declaring u u') := by
  refine ends_bind.mpr (ends_tryDeclare.mpr ⟨fun i c hc => ?_, fun e _ => .refl⟩)
  obtain ⟨hfresh, hdeclares⟩ := declares_of_addMethod hc
  have hadd : Step u .declare { u with catalog := c } := .declare c (Catalog.change_addMethod hm hc)
  have hallocate : Step { u with catalog := c } .allocate
      { u with catalog := c, funcs := u.funcs + 1 } := .allocate
  have hsound := hallocate.sound (hadd.sound h)
  refine ends_bind.mpr ((ends_modifyGet _).mpr (ends_bind.mpr ?_))
  refine Ends.mono (ends_bindMethod hsound ty m.name ⟨u.funcs⟩)
    (fun _ u' hb => ?_) fun e u' hb => ?_
  · refine ⟨rfl, hfresh, ?_, _, .tail (.single ⟨_, by simp, hadd⟩) ⟨_, by simp, hallocate⟩, rfl, hb⟩
    have hbinds := hb.steps hsound (A := insert .bind Act.building) (Set.subset_insert ..)
      (Set.mem_insert ..)
    exact Declares.grows (u := { u with catalog := c, funcs := u.funcs + 1 }) hdeclares hbinds.grows
  · have hbuilding : Steps Act.building _ u' := Steps.mono (fun _ ha => ha.1) hb
    refine .trans (.tail (.single ⟨_, ?_, hadd⟩) ⟨_, ?_, hallocate⟩) (Steps.mono ?_ hbuilding)
    · simp [Act.declaring]
    · simp [Act.declaring]
    · rintro a (rfl | rfl) <;> simp [Act.declaring]

/-- **A method is declared and bound to the next callable, or some steps of that are taken.** -/
theorem ends_declareBound (h : Sound u) (hty : ty.index < u.catalog.size)
    (hm : ∀ p ∈ m.sig.types, p.index < u.catalog.size) (pointerReceiver : Bool) :
    Ends (Evaluator.declareBound ty m pointerReceiver) u
      (fun answer u' => DeclaredBound u ty m.name answer.2 u')
      (fun _ u' => Steps Act.declaring u u') := by
  unfold Evaluator.declareBound
  cases pointerReceiver with
  | false =>
    simp only [Bool.false_eq_true, if_false]
    exact ends_bind.mpr (ends_addBound h hm)
  | true =>
    simp only [if_true]
    have hpointer : Step u .declare { u with catalog := (u.catalog.pointerTo ty).2 } :=
      .declare _ (Catalog.change_pointerTo hty)
    have hsize := hpointer.grows.size_le
    have hrecv := Catalog.lt_size_of_decl? (Catalog.decl?_intern u.catalog (.pointer ty))
    refine ends_bind.mpr (ends_map.mpr ((ends_modifyGet _).mpr ?_))
    refine Ends.mono (ends_addBound (m := { m with sig := { m.sig with
      recv := some (u.catalog.pointerTo ty).1 } }) (hpointer.sound h) fun p hp => ?_)
      (fun answer u' hd => ?_) fun e u' s => ?_
    · rcases List.mem_append.mp hp with hp | hp
      · rcases List.mem_cons.mp hp with rfl | hp
        · exact hrecv
        · exact Nat.lt_of_lt_of_le (hm p (Signature.mem_types (List.mem_append_left _ hp))) hsize
      · exact Nat.lt_of_lt_of_le (hm p (Signature.mem_types (List.mem_append_right _ hp))) hsize
    · obtain ⟨u₁, s, hfuncs, hb⟩ := hd.bound
      have hfresh : ¬ u.Declares ty m.name := fun hold => hd.fresh (hold.grows hpointer.grows)
      have s' : Steps {.declare, .allocate} u u₁ := .head ⟨_, by simp, hpointer⟩ s
      exact ⟨hd.next, hfresh, hd.declares, u₁, s', hfuncs, hb⟩
    · exact .head ⟨_, by simp [Act.declaring], hpointer⟩ s

end Declaring

end Universe

/-! ### What evaluation meets -/

/-- Evaluation that started in `m` may meet `m'`: it declares and binds nothing, and leaves the code
of the callables as it is. -/
structure Machine.Meets (m m' : Machine) : Prop where
  functions : m'.functions = m.functions
  types : Universe.Steps Universe.Act.quiet m.types m'.types

theorem Machine.Meets.refl (m : Machine) : m.Meets m :=
  ⟨rfl, .refl⟩

theorem Machine.Meets.trans {m₁ m₂ m₃ : Machine} (h : m₁.Meets m₂) (h' : m₂.Meets m₃) :
    m₁.Meets m₃ :=
  ⟨h'.functions.trans h.functions, h.types.trans h'.types⟩

/-- **Evaluation resolves methods, and does nothing else to the universe.** -/
theorem Evolves.meets {P : Value → Prop} {binds : Bool} {m m' : Machine} (h : Evolves P binds m m')
    (hsound : Universe.Sound m.types) : m.Meets m' := by
  refine ⟨h.functions_eq, ?_⟩
  induction h with
  | refl | define | assign => exact .refl
  | trans _ _ ih₁ ih₂ =>
    have s := ih₁ hsound
    exact s.trans (ih₂ (Universe.Steps.sound s hsound))
  | inFrame _ ih | underOrdinal _ ih | called _ _ ih => exact ih hsound
  | resolve => exact (Universe.resolves_method hsound _ _).1

/-- So does every request but for the declaration of a method. -/
theorem Request.ends_run_meets {r : Request} (hr : ∀ ty decl f p, r ≠ .method ty decl f p)
    (budget : Nat) {m : Machine} (hsound : Universe.Sound m.types) :
    (r.run budget).Ends m (fun _ => m.Meets) fun _ => m.Meets := by
  have hkeeps : r.Evaluates → (r.run budget).Ends m (fun _ => m.Meets) fun _ => m.Meets := by
    intro evaluates
    have hobeys : r.Obeys Policy.any := by
      cases r <;> simp [Obeys, Policy.any, Policy.function, Stmt.Obeys, Expr.Obeys]
    apply (Policy.any.keeps_request hobeys evaluates budget m (Policy.holds_any m)).mono
    · exact fun _ _ ⟨hm, _⟩ => hm.meets hsound
    · exact fun _ _ ⟨hm, _⟩ => hm.meets hsound
  cases r with
  | method ty decl f pointerReceiver => exact absurd rfl (hr ty decl f pointerReceiver)
  | enterFrame | leaveFrame => exact ⟨rfl, .refl⟩
  | program | nested | stmt | expr | call | define | assign => exact hkeeps trivial

/-! ### The log of all declarations -/

/-- A method that a session declared. -/
structure Declaration where
  /-- The interpreter that declared it. -/
  key : String
  /-- The position of its universe. -/
  universeIndex : Nat
  ty : TypeId
  name : String
  /-- The callable that was allocated for it. -/
  func : FuncId
  /-- The function that implements it. -/
  function : Function

/-- What is bound in a universe was logged, and the log holds each method and each callable once. -/
structure Universe.LoggedIn (D : Set Declaration) (u : Universe) : Prop where
  sound : Sound u
  attributed : ∃ B, Attributed B u ∧ ∀ ty name func, B ty name = some func →
    ∃ d ∈ D, d.ty = ty ∧ d.name = name ∧ d.func = func
  declares : ∀ d ∈ D, u.Declares d.ty d.name
  allocated : ∀ d ∈ D, d.func.index < u.funcs
  distinct : ∀ d ∈ D, ∀ d' ∈ D, d.func = d'.func ∨ d.ty = d'.ty ∧ d.name = d'.name → d = d'

namespace Universe.LoggedIn

variable {D : Set Declaration} {u u' : Universe} {A : Set Act}

theorem empty : LoggedIn ∅ .empty where
  sound := sound_empty
  attributed := ⟨fun _ _ => none, (BoundBy.empty : BoundBy (fun _ _ => True) _ _).attributed, nofun⟩
  declares _ := False.elim
  allocated _ := False.elim
  distinct _ := False.elim

/-- Steps that bind nothing keep a universe in accord with the log. -/
theorem steps (h : u.LoggedIn D) (hA : .bind ∉ A) (s : Steps A u u') : u'.LoggedIn D where
  sound := s.sound h.sound
  attributed := by
    obtain ⟨B, hB, hlogged⟩ := h.attributed
    exact ⟨B, s.attributed hA h.sound hB, hlogged⟩
  declares d hd := (h.declares d hd).grows s.grows
  allocated d hd := Nat.lt_of_lt_of_le (h.allocated d hd) s.funcs_le
  distinct := h.distinct

/-- **A method that is declared and bound is new to the log, and so is its callable.** -/
theorem add {d : Declaration} (h : u.LoggedIn D)
    (hd : DeclaredBound u d.ty d.name d.func u') : u'.LoggedIn (insert d D) := by
  obtain ⟨u₁, s, hfuncs, hb⟩ := hd.bound
  have h₁ := h.steps (by simp) s
  have s' : Steps (insert .bind Act.building \ {.breakOff}) u₁ u' :=
    hb.steps h₁.sound (Set.subset_insert ..) (Set.mem_insert ..)
  obtain ⟨B, hB, hlogged⟩ := h₁.attributed
  have hnew : ∀ d' ∈ D, ¬ (d.func = d'.func ∨ d.ty = d'.ty ∧ d.name = d'.name) := by
    rintro d' hd' (hfunc | ⟨hty, hname⟩)
    · have hlt := h.allocated d' hd'
      rw [← hfunc, hd.next] at hlt
      exact absurd hlt (Nat.lt_irrefl _)
    · exact hd.fresh (hty ▸ hname ▸ h.declares d' hd')
  constructor
  · exact s'.sound h₁.sound
  · refine ⟨_, hb.attributed h₁.sound hB, fun ty name func hbound => ?_⟩
    by_cases heq : ty = d.ty ∧ name = d.name
    · obtain ⟨rfl, rfl⟩ := heq
      rw [B.bind_self] at hbound
      exact ⟨d, Set.mem_insert .., rfl, rfl, Option.some.inj hbound⟩
    · rw [B.bind_of_ne heq] at hbound
      obtain ⟨d', hd', hsame⟩ := hlogged ty name func hbound
      exact ⟨d', Set.mem_insert_of_mem _ hd', hsame⟩
  · rintro d' (rfl | hd')
    · exact hd.declares
    · exact (h₁.declares d' hd').grows s'.grows
  · rintro d' (rfl | hd')
    · rw [hd.next]
      exact Nat.lt_of_lt_of_le (hfuncs ▸ Nat.lt_succ_self _) s'.funcs_le
    · exact Nat.lt_of_lt_of_le (h₁.allocated d' hd') s'.funcs_le
  · rintro d₁ (rfl | h₁) d₂ (rfl | h₂) hsame
    · rfl
    · exact absurd hsame (hnew d₂ h₂)
    · exact absurd (hsame.imp Eq.symm fun hs => ⟨hs.1.symm, hs.2.symm⟩) (hnew d₁ h₁)
    · exact h.distinct d₁ h₁ d₂ h₂ hsame

end Universe.LoggedIn

namespace Session

variable {log : List Declaration} {s : Session}

/-- The universe at a position, without its guard. -/
def typesAt (s : Session) (index : Nat) : Universe :=
  (s.guardedUniverse index).types

theorem typesAt_setUniverse (index j : Nat) (u : Universe) : (s.setUniverse index u).typesAt j =
    if j = index ∧ index < s.universes.size then u else s.typesAt j := by
  unfold typesAt guardedUniverse setUniverse
  by_cases hj : j = index
  · subst hj
    by_cases hlt : j < s.universes.size
    · simp [hlt, Array.getElem_modify]
    · simp [hlt]
  · simp [hj, Array.getElem?_modify, Ne.symm hj]

@[simp]
theorem size_setUniverse (index : Nat) (u : Universe) :
    (s.setUniverse index u).universes.size = s.universes.size := by
  simp [setUniverse]

/-- The universe at a position without one is empty, and so is a new one. -/
theorem typesAt_addUniverse (threadSafe : Bool) (j : Nat) :
    (s.addUniverse threadSafe).2.typesAt j = s.typesAt j := by
  unfold typesAt guardedUniverse addUniverse
  dsimp only
  rw [Array.getElem?_push]
  split
  · next h =>
    rw [h, Array.getElem?_eq_none (Nat.le_refl _)]
    rfl
  · rfl

/-- What an action declares. -/
def declared (s : Session) : Action → Option Declaration
  | .request key _ (.method ty decl f pointerReceiver) =>
    match s.interpreters.find? key with
    | none => none
    | some i =>
      if f.params.length = decl.sig.params.length + 1 then
        match ((Evaluator.declareBound ty decl pointerReceiver).run.run (s.machine i).types).1 with
        | .ok (_, func) => some ⟨key, i.universeIndex, ty, decl.name, func, f⟩
        | .error _ => none
      else
        none
  | _ => none

/-- **What the declaration of a method does to a session**: nothing; or the interpreter is put back
on a universe that has taken some steps, and nothing is declared; or it is put back with the code of
a method that was declared and bound. What holds of the session and of what is declared in each case
holds after the request. -/
theorem perform_method {P : Session → Option Declaration → Prop} {key : String} {budget : Nat}
    {ty : TypeId} {decl : MethodDecl} {f : Function} {pointerReceiver : Bool}
    (hsound : ∀ j, Universe.Sound (s.typesAt j))
    (hrange : ∀ i ∈ s.interpreters.find? key,
      ty.index < (s.typesAt i.universeIndex).catalog.size ∧
        ∀ p ∈ decl.sig.types, p.index < (s.typesAt i.universeIndex).catalog.size)
    (hsame : P s none)
    (hfailed : ∀ i u, s.interpreters.find? key = some i →
      Universe.Steps Universe.Act.declaring (s.typesAt i.universeIndex) u →
      P (s.absorb key i { s.machine i with types := u }) none)
    (hbound : ∀ i func u, s.interpreters.find? key = some i →
      Universe.DeclaredBound (s.typesAt i.universeIndex) ty decl.name func u →
      P (s.absorb key i { s.machine i with types := u, functions := i.functions.set func f })
        (some ⟨key, i.universeIndex, ty, decl.name, func, f⟩)) :
    P (s.perform (.request key budget (.method ty decl f pointerReceiver)))
      (s.declared (.request key budget (.method ty decl f pointerReceiver))) := by
  unfold perform run declared
  dsimp only
  cases hi : s.interpreters.find? key with
  | none => exact hsame
  | some i =>
    obtain ⟨hty, hsig⟩ := hrange i hi
    have hends := Universe.ends_declareBound (u := (s.machine i).types) (hsound i.universeIndex)
      hty hsig pointerReceiver
    simp only [Request.run_method]
    by_cases harity : f.params.length = decl.sig.params.length + 1
    · simp only [if_pos harity]
      unfold Ends at hends
      rcases hrun : (Evaluator.declareBound ty decl pointerReceiver).run.run
        (s.machine i).types with ⟨e | ⟨index, func⟩, u⟩
      · rw [hrun] at hends
        by_cases hendless : e = .endless
        · simpa [hendless] using hsame
        · simpa [hendless] using hfailed i u hi hends
      · rw [hrun] at hends
        exact hbound i func u hi hends
    · simp only [if_neg harity]
      exact hfailed i (s.machine i).types hi .refl

/-- The parts of a session agree with the log of its declarations. -/
structure Ledger (log : List Declaration) (s : Session) : Prop where
  universes : ∀ j, (s.typesAt j).LoggedIn {d ∈ log | d.universeIndex = j}
  placed : ∀ key i, s.interpreters.find? key = some i → i.universeIndex < s.universes.size
  makers : ∀ d ∈ log, ∃ i, s.interpreters.find? d.key = some i ∧ i.universeIndex = d.universeIndex
  /-- An interpreter knows the code of its own declarations and of nothing else. -/
  code : ∀ key i, s.interpreters.find? key = some i → ∀ func f,
    i.functions.find? func = some f ↔ ∃ d ∈ log, d.key = key ∧ d.func = func ∧ d.function = f

namespace Ledger

/-- A session begins with nothing declared. -/
theorem start (threadSafe : Bool) : Ledger [] (.start threadSafe) where
  universes j := by
    have hempty : (Session.start threadSafe).typesAt j = .empty := by
      cases j <;> rfl
    have hnone : {d ∈ ([] : List Declaration) | d.universeIndex = j} = ∅ := by simp
    rw [hempty, hnone]
    exact .empty
  placed key i hi := by
    rcases Assoc.eq_or_find?_of_set hi with rfl | hold
    · exact Nat.zero_lt_one
    · cases hold
  makers d hd := by cases hd
  code key i hi func f := by
    rcases Assoc.eq_or_find?_of_set hi with rfl | hold
    · simp
    · cases hold

theorem addUniverse (h : Ledger log s) (threadSafe : Bool) :
    Ledger log (s.addUniverse threadSafe).2 where
  universes j := by
    rw [typesAt_addUniverse]
    exact h.universes j
  placed key i hi := by
    have hlt := h.placed key i hi
    simp only [Session.addUniverse, Array.size_push]
    omega
  makers := h.makers
  code := h.code

theorem addInterpreter (h : Ledger log s) {key : String} {index : Nat} {limit : Option Nat}
    {globals : List (String × Value)} (hkey : s.interpreters.find? key = none)
    (hindex : index < s.universes.size) :
    Ledger log (s.addInterpreter key index limit globals) where
  universes := h.universes
  placed key' i hi := by
    rcases Assoc.eq_or_find?_of_set hi with rfl | hold
    · exact hindex
    · exact h.placed key' i hold
  makers d hd := by
    obtain ⟨i, hi, hsame⟩ := h.makers d hd
    have hne : d.key ≠ key := fun heq => by
      rw [heq, hkey] at hi
      cases hi
    exact ⟨i, (Assoc.find?_set_of_ne _ hne _).trans hi, hsame⟩
  code key' i hi func f := by
    rcases Assoc.find?_set hi with ⟨rfl, rfl⟩ | hold
    · -- The key is new, so it declared nothing.
      refine iff_of_false (by simp) ?_
      rintro ⟨d, hd, rfl, -⟩
      obtain ⟨i, hi, -⟩ := h.makers d hd
      cases hkey.symm.trans hi
    · exact h.code key' i hold func f

/-- A universe takes steps that bind nothing. -/
theorem setUniverse (h : Ledger log s) {A : Set Universe.Act} (hA : .bind ∉ A) {index : Nat}
    {u : Universe} (hsteps : Universe.Steps A (s.typesAt index) u) :
    Ledger log (s.setUniverse index u) where
  universes j := by
    rw [typesAt_setUniverse]
    split
    · next hj =>
      rw [hj.1]
      exact (h.universes index).steps hA hsteps
    · exact h.universes j
  placed key i hi := by
    rw [size_setUniverse]
    exact h.placed key i hi
  makers := h.makers
  code := h.code

/-- What an interpreter ran on is put back, with the declaration that it made, if any. -/
theorem absorb (h : Ledger log s) {key : String} {i : Interpreter} {m : Machine}
    {new : Option Declaration} (hi : s.interpreters.find? key = some i)
    (hnew : ∀ d ∈ new, d.key = key ∧ d.universeIndex = i.universeIndex)
    (htypes : m.types.LoggedIn {d ∈ log ++ new.toList | d.universeIndex = i.universeIndex})
    (hcode : ∀ func f, m.functions.find? func = some f ↔
      ∃ d ∈ log ++ new.toList, d.key = key ∧ d.func = func ∧ d.function = f) :
    Ledger (log ++ new.toList) (s.absorb key i m) where
  universes j := by
    change ((s.setUniverse i.universeIndex m.types).typesAt j).LoggedIn _
    rw [typesAt_setUniverse]
    by_cases hj : j = i.universeIndex
    · subst hj
      rw [if_pos ⟨rfl, h.placed key i hi⟩]
      exact htypes
    · -- The declaration was made in another universe.
      rw [if_neg fun hsame => hj hsame.1]
      have hsame : {d ∈ log ++ new.toList | d.universeIndex = j} =
          {d ∈ log | d.universeIndex = j} := by
        ext d
        simp only [List.mem_append, Option.mem_toList, Set.mem_ofPred_eq]
        constructor
        · rintro ⟨hd | hd, rfl⟩
          · exact ⟨hd, rfl⟩
          · exact absurd (hnew d hd).2 hj
        · exact fun ⟨hd, hj⟩ => ⟨.inl hd, hj⟩
      rw [hsame]
      exact h.universes j
  placed key' i' hi' := by
    change i'.universeIndex < (s.setUniverse i.universeIndex m.types).universes.size
    rw [size_setUniverse]
    rcases Assoc.find?_set hi' with ⟨-, rfl⟩ | hold
    · exact h.placed key i hi
    · exact h.placed key' i' hold
  makers d hd := by
    obtain ⟨i', hi', hindex⟩ : ∃ i', s.interpreters.find? d.key = some i' ∧
        i'.universeIndex = d.universeIndex := by
      rcases List.mem_append.mp hd with hd | hd
      · exact h.makers d hd
      · obtain ⟨hkey, hindex⟩ := hnew d (Option.mem_toList.mp hd)
        exact ⟨i, hkey ▸ hi, hindex.symm⟩
    by_cases hkey : d.key = key
    · rw [hkey] at hi' ⊢
      obtain rfl := Option.some.inj (hi.symm.trans hi')
      exact ⟨_, Assoc.find?_set_self .., hindex⟩
    · exact ⟨i', (Assoc.find?_set_of_ne _ hkey _).trans hi', hindex⟩
  code key' i' hi' func f := by
    by_cases hkey : key' = key
    · rw [hkey] at hi' ⊢
      obtain rfl := Option.some.inj ((Assoc.find?_set_self ..).symm.trans hi')
      exact hcode func f
    · rw [h.code key' i' ((Assoc.find?_set_of_ne _ hkey _).symm.trans hi') func f]
      constructor
      · rintro ⟨d, hd, hsame⟩
        exact ⟨d, List.mem_append_left _ hd, hsame⟩
      · rintro ⟨d, hd, rfl, hsame⟩
        rcases List.mem_append.mp hd with hd | hd
        · exact ⟨d, hd, rfl, hsame⟩
        · exact absurd (hnew d (Option.mem_toList.mp hd)).1 hkey

/-- An interpreter has declared nothing, and its universe took steps that bind nothing. -/
theorem absorb_of_steps (h : Ledger log s) {key : String} {i : Interpreter} {m : Machine}
    (hi : s.interpreters.find? key = some i) (hfunctions : m.functions = i.functions)
    {A : Set Universe.Act} (hA : .bind ∉ A)
    (hsteps : Universe.Steps A (s.typesAt i.universeIndex) m.types) :
    Ledger log (s.absorb key i m) := by
  have hnone : log ++ (none : Option Declaration).toList = log := List.append_nil log
  rw [← hnone]
  refine absorb h hi nofun ?_ fun func f => ?_
  · rw [hnone]
    exact (h.universes i.universeIndex).steps hA hsteps
  · rw [hnone, hfunctions]
    exact h.code key i hi func f

/-- An interpreter has declared a method. -/
theorem absorb_declared (h : Ledger log s) {i : Interpreter} {d : Declaration} {u : Universe}
    (hi : s.interpreters.find? d.key = some i) (hindex : d.universeIndex = i.universeIndex)
    (hd : Universe.DeclaredBound (s.typesAt i.universeIndex) d.ty d.name d.func u) :
    Ledger (log ++ [d]) (s.absorb d.key i { s.machine i with
      types := u, functions := i.functions.set d.func d.function }) := by
  have hfresh : ∀ e ∈ log, e.key = d.key → e.func ≠ d.func := by
    intro e he hkey hfunc
    obtain ⟨i', hi', hplace⟩ := h.makers e he
    rw [hkey, hi] at hi'
    obtain rfl := Option.some.inj hi'
    have hlt := (h.universes i.universeIndex).allocated e ⟨he, hplace.symm⟩
    rw [hfunc, hd.next] at hlt
    exact absurd hlt (Nat.lt_irrefl _)
  have hnew : ∀ e ∈ some d, e.key = d.key ∧ e.universeIndex = i.universeIndex := by
    rintro _ ⟨⟩
    exact ⟨rfl, hindex⟩
  refine absorb h hi hnew ?_ fun func f => ?_
  · have hset : {e ∈ log ++ (some d).toList | e.universeIndex = i.universeIndex} =
        insert d {e ∈ log | e.universeIndex = i.universeIndex} := by
      ext e
      simp only [Option.toList_some, List.mem_append, List.mem_singleton, Set.mem_ofPred_eq,
        Set.mem_insert_iff]
      constructor
      · rintro ⟨he | rfl, hplace⟩
        · exact .inr ⟨he, hplace⟩
        · exact .inl rfl
      · rintro (rfl | ⟨he, hplace⟩)
        · exact ⟨.inr rfl, hindex⟩
        · exact ⟨.inl he, hplace⟩
    rw [hset]
    exact (h.universes i.universeIndex).add hd
  · by_cases hfunc : func = d.func
    · subst hfunc
      rw [Assoc.find?_set_self]
      constructor
      · rintro ⟨⟩
        exact ⟨d, by simp, rfl, rfl, rfl⟩
      · rintro ⟨e, he, hkey, hfunc, rfl⟩
        rcases List.mem_append.mp he with he | he
        · exact absurd hfunc (hfresh e he hkey)
        · rw [List.mem_singleton.mp he]
    · rw [Assoc.find?_set_of_ne _ hfunc, h.code d.key i hi func f]
      constructor
      · rintro ⟨e, he, hsame⟩
        exact ⟨e, List.mem_append_left _ he, hsame⟩
      · rintro ⟨e, he, hkey, rfl, hsame⟩
        rcases List.mem_append.mp he with he | he
        · exact ⟨e, he, hkey, rfl, hsame⟩
        · exact absurd (congrArg (·.func) (List.mem_singleton.mp he)) hfunc

/-- An interpreter has run a request that declares nothing. -/
theorem request (h : Ledger log s) {key : String} {budget : Nat} {r : Request}
    (hr : ∀ ty decl f p, r ≠ .method ty decl f p) :
    Ledger log (s.perform (.request key budget r)) := by
  refine perform_request h fun i hi => ?_
  have hA : .bind ∉ Universe.Act.quiet := by simp [Universe.Act.quiet]
  apply (r.ends_run_meets hr budget (h.universes i.universeIndex).sound).mono
  · exact fun _ _ hm => h.absorb_of_steps hi hm.functions hA hm.types
  · exact fun _ _ hm => h.absorb_of_steps hi hm.functions hA hm.types

/-- An interpreter has declared a method, or has failed to. -/
theorem method (h : Ledger log s) {key : String} {budget : Nat} {ty : TypeId} {decl : MethodDecl}
    {f : Function} {pointerReceiver : Bool}
    (hrange : ∀ i ∈ s.interpreters.find? key,
      ty.index < (s.typesAt i.universeIndex).catalog.size ∧
        ∀ p ∈ decl.sig.types, p.index < (s.typesAt i.universeIndex).catalog.size) :
    Ledger (log ++ (s.declared (.request key budget (.method ty decl f pointerReceiver))).toList)
      (s.perform (.request key budget (.method ty decl f pointerReceiver))) := by
  refine perform_method (P := fun s' d => Ledger (log ++ d.toList) s')
    (fun j => (h.universes j).sound) hrange (by simpa using h) (fun i u hi hsteps => ?_)
    fun i func u hi hb => h.absorb_declared hi rfl hb
  simpa using h.absorb_of_steps (m := { s.machine i with types := u }) hi rfl
    (by simp [Universe.Act.declaring]) hsteps

end Ledger

end Session

/-- An operation that binds a callable. -/
def Operation.binds : Operation → Bool
  | bindMethod .. | bindCallable .. => true
  | _ => false

theorem Operation.bind_notMem_acts {op : Operation} (h : op.binds = false) :
    .bind ∉ op.acts := by
  cases op with
  | bindMethod | bindCallable => cases h
  | _ => simp [acts, Universe.Act.building, Universe.Act.resolving]

/-- The action is given what there is, and no method is bound but as a declaration of an
interpreter. -/
def Action.Admissible (s : Session) : Action → Prop
  | .addInterpreter key index _ _ =>
    s.interpreters.contains key = false ∧ index < s.universes.size
  | .types op => op.InRange s.types ∧ op.binds = false
  | .request key _ (.method ty decl _ _) => ∀ i ∈ s.interpreters.find? key,
    ty.index < (s.typesAt i.universeIndex).catalog.size ∧
      ∀ p ∈ decl.sig.types, p.index < (s.typesAt i.universeIndex).catalog.size
  | .addUniverse _ | .request .. => True

namespace Session

variable {log : List Declaration} {s : Session}

/-- **An admissible action keeps the ledger.** -/
theorem Ledger.perform (h : Ledger log s) {a : Action} (ha : a.Admissible s) :
    Ledger (log ++ (s.declared a).toList) (s.perform a) := by
  have hnone : s.declared a = none → Ledger log (s.perform a) →
      Ledger (log ++ (s.declared a).toList) (s.perform a) := by
    intro hdeclared hperform
    simpa [hdeclared] using hperform
  cases a with
  | addUniverse threadSafe => exact hnone rfl (h.addUniverse threadSafe)
  | addInterpreter key index limit globals =>
    have hkey : s.interpreters.find? key = none := by simpa [Assoc.contains] using ha.1
    exact hnone rfl (h.addInterpreter hkey ha.2)
  | types op =>
    obtain ⟨inRange, hbinds⟩ := ha
    have hsteps := Universe.perform_steps (h.universes 0).sound inRange
    exact hnone rfl (h.setUniverse (fun ha => Operation.bind_notMem_acts hbinds ha.1) hsteps)
  | request key budget r =>
    cases r with
    | method ty decl f pointerReceiver => exact h.method ha
    | _ => exact hnone rfl (h.request (by simp))

/-- An action, and the log that it leaves. -/
inductive Acts : List Declaration × Session → List Declaration × Session → Prop where
  | act (log : List Declaration) (s : Session) (a : Action) : a.Admissible s →
      Acts (log, s) (log ++ (s.declared a).toList, s.perform a)

/-- Any number of actions. -/
abbrev Leads : List Declaration × Session → List Declaration × Session → Prop :=
  Relation.ReflTransGen Acts

variable {p q : List Declaration × Session}

/-- **A session whose methods are declared through its interpreters keeps its ledger.** -/
theorem Leads.ledger (h : Leads p q) (hp : Ledger p.1 p.2) : Ledger q.1 q.2 := by
  induction h with
  | refl => exact hp
  | tail _ last ih =>
    obtain ⟨log, s, a, ha⟩ := last
    exact ih.perform ha

/-- What was logged stays in the log. -/
theorem Leads.subset (h : Leads p q) : p.1 ⊆ q.1 := by
  induction h with
  | refl => exact List.Subset.refl _
  | tail _ last ih =>
    obtain ⟨log, s, a, ha⟩ := last
    exact List.subset_append_of_subset_left _ ih

instance (s : Session) (a : Action) : Decidable (a.Admissible s) :=
  match a with
  | .addInterpreter key index _ _ =>
    inferInstanceAs (Decidable (s.interpreters.contains key = false ∧ index < s.universes.size))
  | .types op => inferInstanceAs (Decidable (op.InRange s.types ∧ op.binds = false))
  | .request key _ (.method ty decl _ _) =>
    inferInstanceAs (Decidable (∀ i ∈ s.interpreters.find? key,
      ty.index < (s.typesAt i.universeIndex).catalog.size ∧
        ∀ p ∈ decl.sig.types, p.index < (s.typesAt i.universeIndex).catalog.size))
  | .addUniverse _ | .request _ _ (.program _) | .request _ _ (.nested _) | .request _ _ (.stmt _)
  | .request _ _ (.expr _) | .request _ _ (.call ..) | .request _ _ (.define ..)
  | .request _ _ (.assign ..) | .request _ _ .enterFrame | .request _ _ .leaveFrame =>
    .isTrue trivial

/-- The log and the session that a list of actions leads to. -/
def along (p : List Declaration × Session) : List Action → List Declaration × Session
  | [] => p
  | a :: rest => along (p.1 ++ (p.2.declared a).toList, p.2.perform a) rest

/-- Each action of the list is admissible in the session it meets. -/
def admits (s : Session) : List Action → Bool
  | [] => true
  | a :: rest => decide (a.Admissible s) && (s.perform a).admits rest

theorem leads_along {actions : List Action} (h : p.2.admits actions = true) :
    Leads p (along p actions) := by
  induction actions generalizing p with
  | nil => exact .refl
  | cons a rest ih =>
    rw [admits, Bool.and_eq_true, decide_eq_true_iff] at h
    exact .head (.act p.1 p.2 a h.1) (ih h.2)

end Session

end ScriptEngine
