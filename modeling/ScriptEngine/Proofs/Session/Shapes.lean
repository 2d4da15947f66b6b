import Mathlib
import ScriptEngine.Proofs.Eval.Shapes
import ScriptEngine.Proofs.Session.Declarations

/-!
Struct values keep the shape of their types.

Types are declared in a session's own universe, and its shapes are never taken back. So a session
that only got values shaped by it binds no others (`Session.Shaped.perform`), and its interpreters
handle no others (`Machine.HandlesOnly`). Then a field of a struct value is where its name is found,
and a path to a method breaks off only at a field that does not hold a struct value of its type.

Main statement: `Session.struct_values_are_shaped`.
-/

namespace ScriptEngine

/-! ### What is handled -/

section Handling

variable {ε α : Type}

/-- From `m`, the computation binds and assigns only values that `P` holds of, and `V` holds of the
value and `X` of the exit that it ends with. -/
def Machine.Handles (P : Value → Prop) (m : Machine) (x : Eval ε α) (V : α → Prop) (X : ε → Prop) :
    Prop :=
  x.Ends m (fun a m' => Evolves P true m m' ∧ V a) fun e m' => Evolves P true m m' ∧ X e

/-- Whatever is evaluated from `m`, only values that `P` holds of are bound and assigned on the way,
are the value in the end, or are returned. A call gets its arguments bound. -/
structure Machine.HandlesOnly (P : Value → Prop) (m : Machine) : Prop where
  expr : ∀ budget e, m.Handles P (evalExpr budget e) P fun _ => True
  stmt : ∀ budget s, m.Handles P (evalStmt budget s) P
    fun x => ∀ vs, x = .result vs → ∀ v ∈ vs, P v
  program : ∀ budget stmts, m.Handles P (runProgram budget stmts) P fun _ => True
  call : ∀ budget callee args name span, P callee → (∀ v ∈ args, P v) →
    m.Handles P (callValue budget callee args name span) P fun _ => True

theorem Policy.Keeps.handles {π : Policy} {binds : Bool} {x : Eval ε α} {V : α → Prop}
    {X : ε → Prop} (h : π.Keeps binds x V X) {m : Machine} (hm : π.Holds m) :
    m.Handles π.value x V X :=
  h.lift m hm

end Handling

section Shaped

variable {shape : TypeId → Nat → Prop} {c : Catalog} {hc : ∀ ty n, c.Shapes ty n → shape ty n}

theorem Policy.holds_shaped {m : Machine} (hframes : m.frames.Binds (Value.Shaped shape))
    (hsound : Universe.Sound m.types) (hcatalog : m.types.catalog = c) :
    (Policy.shaped shape c hc).Holds m :=
  ⟨hframes, fun _ => ⟨fun _ _ => trivial, trivial⟩, hsound, hcatalog⟩

/-- **A machine that is given shaped values handles no others.** -/
theorem Policy.Holds.handlesOnly {m : Machine} (hm : (Policy.shaped shape c hc).Holds m) :
    m.HandlesOnly (Value.Shaped shape) where
  expr budget e := by
    have h := ((Policy.shaped shape c hc).governs budget).expr (e := e) fun _ _ => trivial
    exact (h.exits fun _ _ => trivial).handles hm
  stmt budget s := by
    have h := ((Policy.shaped shape c hc).governs budget).stmt none (s := s) fun _ _ => trivial
    refine (h.exits fun x hx vs hvs => ?_).handles hm
    subst hvs
    exact hx.2
  program budget stmts := by
    have hobeys : ∀ s ∈ stmts, s.Obeys (Policy.shaped shape c hc).body := fun _ _ _ _ => trivial
    have h := (Policy.shaped shape c hc).keeps_runProgram budget hobeys
    exact (h.exits fun _ _ => trivial).handles hm
  call budget callee args name span hcallee hargs := by
    have h : (Policy.shaped shape c hc).Keeps false (callValue budget callee args name span)
        (Value.Shaped shape) (Policy.shaped shape c hc).error :=
      ((Policy.shaped shape c hc).governs budget).callValue hcallee hargs
    exact (h.exits fun _ _ => trivial).handles hm

end Shaped

/-! ### Requests -/

/-- The values that a request brings along are within `P`. -/
def Request.Brings (P : Value → Prop) : Request → Prop
  | define _ b => P b.value
  | assign _ v => P v
  | _ => True

section Requests

variable {shape : TypeId → Nat → Prop} {c : Catalog} {hc : ∀ ty n, c.Shapes ty n → shape ty n}

theorem Request.Brings.obeys {r : Request} (hr : r.Brings (Value.Shaped shape)) :
    r.Obeys (Policy.shaped shape c hc) := by
  cases r with
  | define | assign => exact hr
  | program | nested => exact fun _ _ _ _ => trivial
  | stmt | expr => exact fun _ _ => trivial
  | call => exact ⟨fun _ _ => trivial, fun _ _ _ _ => trivial⟩
  | method => exact ⟨fun _ _ => trivial, trivial⟩
  | enterFrame | leaveFrame => trivial

/-- A request that declares no method leaves shaped values where it met shaped values. -/
theorem Request.ends_run_shaped {r : Request} (hr : r.Brings (Value.Shaped shape))
    (hmethod : ∀ ty decl f p, r ≠ .method ty decl f p) (budget : Nat) {m : Machine}
    (hm : (Policy.shaped shape c hc).Holds m) :
    (r.run budget).Ends m (fun _ => (Policy.shaped shape c hc).Holds)
      fun _ => (Policy.shaped shape c hc).Holds := by
  have hkeeps : r.Evaluates → (r.run budget).Ends m (fun _ => (Policy.shaped shape c hc).Holds)
      fun _ => (Policy.shaped shape c hc).Holds := by
    intro evaluates
    apply ((Policy.keeps_request _ hr.obeys evaluates budget).holds hm).mono
    · exact fun _ _ h => h.1
    · exact fun _ _ h => h.1
  cases r with
  | method ty decl f p => exact absurd rfl (hmethod ty decl f p)
  | enterFrame => exact ⟨hm.frames.grow _, hm.functions, hm.types⟩
  | leaveFrame => exact ⟨hm.frames, hm.functions, hm.types⟩
  | program | nested | stmt | expr | call | define | assign => exact hkeeps trivial

end Requests

/-! ### Sessions -/

namespace Session

/-- Every value that a frame binds is shaped by the session's own universe, and no other universe
declares a type. -/
structure Shaped (s : Session) : Prop where
  sound : ∀ j, Universe.Sound (s.typesAt j)
  others : ∀ j, j ≠ 0 → (s.typesAt j).catalog.size = 0
  frames : s.frames.Binds (Value.Shaped s.types.catalog.Shapes)

end Session

/-- The action is given what there is, and the values that it brings along are shaped, as those
without struct values are. -/
def Action.BringsShaped (s : Session) : Action → Prop
  | .addUniverse _ => True
  | .addInterpreter _ _ _ globals => ∀ g ∈ globals, g.2.Shaped s.types.catalog.Shapes
  | .types op => op.InRange s.types
  | .request key _ (.method ty decl _ _) => ∀ i ∈ s.interpreters.find? key,
    ty.index < (s.typesAt i.universeIndex).catalog.size ∧
      ∀ p ∈ decl.sig.types, p.index < (s.typesAt i.universeIndex).catalog.size
  | .request _ _ r => r.Brings (Value.Shaped s.types.catalog.Shapes)

namespace Session

variable {s : Session}

theorem types_setUniverse (index : Nat) (u : Universe) : (s.setUniverse index u).types =
    if index = 0 ∧ 0 < s.universes.size then u else s.types := by
  change (s.setUniverse index u).typesAt 0 = _
  rw [typesAt_setUniverse]
  by_cases h : index = 0
  · subst h
    simp only [true_and]
    rfl
  · rw [if_neg fun hsame => h hsame.1.symm, if_neg fun hsame => h hsame.1]
    rfl

namespace Shaped

/-- A universe grows, another one than the session's own by nothing. -/
theorem setUniverse (h : s.Shaped) {index : Nat} {u : Universe} (hsound : Universe.Sound u)
    (g : Catalog.Grows (s.typesAt index).catalog u.catalog)
    (hother : index ≠ 0 → u.catalog.size = 0) {fs : Frames}
    (hframes : fs.Binds (Value.Shaped s.types.catalog.Shapes)) :
    Shaped { s.setUniverse index u with frames := fs } where
  sound j := by
    change Universe.Sound ((s.setUniverse index u).typesAt j)
    rw [typesAt_setUniverse]
    split
    · exact hsound
    · exact h.sound j
  others j hj := by
    change ((s.setUniverse index u).typesAt j).catalog.size = 0
    rw [typesAt_setUniverse]
    split
    · next hsame => exact hother (hsame.1 ▸ hj)
    · exact h.others j hj
  frames id f name b hf hb := by
    refine (hframes id f name b hf hb).mono fun ty n hshapes => ?_
    change (s.setUniverse index u).types.catalog.Shapes ty n
    rw [types_setUniverse]
    split
    · next hsame =>
      rw [hsame.1] at g
      exact hshapes.grows g
    · exact hshapes

/-- What an interpreter ran on is put back. -/
theorem absorb (h : s.Shaped) {key : String} {i : Interpreter} {m : Machine}
    (hsound : Universe.Sound m.types)
    (g : Catalog.Grows (s.typesAt i.universeIndex).catalog m.types.catalog)
    (hother : i.universeIndex ≠ 0 → m.types.catalog.size = 0)
    (hframes : m.frames.Binds (Value.Shaped s.types.catalog.Shapes)) : (s.absorb key i m).Shaped :=
  have h' := h.setUniverse hsound g hother hframes
  ⟨h'.sound, h'.others, h'.frames⟩

theorem addUniverse (h : s.Shaped) (threadSafe : Bool) : (s.addUniverse threadSafe).2.Shaped where
  sound j := by
    rw [typesAt_addUniverse]
    exact h.sound j
  others j hj := by
    rw [typesAt_addUniverse]
    exact h.others j hj
  frames := by
    have htypes : (s.addUniverse threadSafe).2.types = s.types := typesAt_addUniverse threadSafe 0
    rw [htypes]
    exact h.frames

theorem addInterpreter (h : s.Shaped) {key : String} {index : Nat} {limit : Option Nat}
    {globals : List (String × Value)}
    (hglobals : ∀ g ∈ globals, g.2.Shaped s.types.catalog.Shapes) :
    (s.addInterpreter key index limit globals).Shaped :=
  ⟨h.sound, h.others, binds_defineGlobals hglobals (h.frames.grow none)⟩

/-- The shapes that an interpreter knows are those of the session. -/
theorem shapes (h : s.Shaped) (j : Nat) (ty : TypeId) (n : Nat)
    (hshapes : (s.typesAt j).catalog.Shapes ty n) : s.types.catalog.Shapes ty n := by
  by_cases hj : j = 0
  · subst hj
    exact hshapes
  · obtain ⟨d, hd⟩ := Catalog.isNamed_iff.mp hshapes.1
    have hlt := Catalog.lt_size_of_decl? hd
    rw [h.others j hj] at hlt
    exact absurd hlt (Nat.not_lt_zero _)

/-- An interpreter meets machines that bind shaped values and have its declarations. -/
theorem holds (h : s.Shaped) {i : Interpreter} {m : Machine} (hm : (s.machine i).Meets m)
    (hframes : m.frames.Binds (Value.Shaped s.types.catalog.Shapes)) :
    (Policy.shaped s.types.catalog.Shapes (s.typesAt i.universeIndex).catalog
      (h.shapes i.universeIndex)).Holds m :=
  Policy.holds_shaped hframes (hm.types.sound (h.sound _))
    (Universe.Steps.catalog_eq (by simp [Universe.Act.quiet]) hm.types (h.sound _))

theorem absorb_of_holds (h : s.Shaped) {key : String} {i : Interpreter} {m : Machine}
    (hm : (Policy.shaped s.types.catalog.Shapes (s.typesAt i.universeIndex).catalog
      (h.shapes i.universeIndex)).Holds m) : (s.absorb key i m).Shaped := by
  obtain ⟨hsound, hcatalog⟩ := hm.types
  refine h.absorb hsound ?_ (fun hne => ?_) hm.frames
  · rw [hcatalog]
    exact .refl _
  · rw [hcatalog]
    exact h.others _ hne

/-- An interpreter has run a request that declares no method. -/
theorem request (h : s.Shaped) {key : String} {budget : Nat} {r : Request}
    (hr : r.Brings (Value.Shaped s.types.catalog.Shapes))
    (hmethod : ∀ ty decl f p, r ≠ .method ty decl f p) :
    (s.perform (.request key budget r)).Shaped := by
  refine perform_request h fun i _ => ?_
  have hholds := h.holds (.refl (s.machine i)) h.frames
  apply (Request.ends_run_shaped hr hmethod budget hholds).mono
  · exact fun _ _ hm => h.absorb_of_holds hm
  · exact fun _ _ hm => h.absorb_of_holds hm

/-- An interpreter has declared a method, or has failed to. -/
theorem method (h : s.Shaped) {key : String} {budget : Nat} {ty : TypeId} {decl : MethodDecl}
    {f : Function} {pointerReceiver : Bool}
    (hrange : ∀ i ∈ s.interpreters.find? key,
      ty.index < (s.typesAt i.universeIndex).catalog.size ∧
        ∀ p ∈ decl.sig.types, p.index < (s.typesAt i.universeIndex).catalog.size) :
    (s.perform (.request key budget (.method ty decl f pointerReceiver))).Shaped := by
  have habsorb : ∀ i m, s.interpreters.find? key = some i →
      Universe.Steps Set.univ (s.typesAt i.universeIndex) m.types → m.frames = s.frames →
      (s.absorb key i m).Shaped := by
    intro i m hi hsteps hframes
    refine h.absorb (hsteps.sound (h.sound _)) hsteps.grows (fun hne => ?_) (hframes ▸ h.frames)
    -- There is a type, so this is the session's own universe.
    have hlt := (hrange i hi).1
    rw [h.others _ hne] at hlt
    exact absurd hlt (Nat.not_lt_zero _)
  refine perform_method (P := fun s' _ => s'.Shaped) h.sound hrange h (fun i u hi hsteps => ?_)
    fun i func u hi hb => ?_
  · exact habsorb i _ hi (Universe.Steps.mono (Set.subset_univ _) hsteps) rfl
  · exact habsorb i _ hi (hb.steps (h.sound _)) rfl

/-- **An action that brings along shaped values leaves only shaped values.** -/
theorem perform (h : s.Shaped) {a : Action} (ha : a.BringsShaped s) : (s.perform a).Shaped := by
  cases a with
  | addUniverse threadSafe => exact h.addUniverse threadSafe
  | addInterpreter key index limit globals => exact h.addInterpreter ha
  | types op =>
    have hsteps := Universe.perform_steps (h.sound 0) ha
    exact h.setUniverse (hsteps.sound (h.sound 0)) hsteps.grows (absurd rfl) h.frames
  | request key budget r =>
    cases r with
    | method ty decl f pointerReceiver => exact h.method ha
    | _ => exact h.request ha (by simp)

end Shaped

/-- The sessions that only got shaped values bind no others. -/
theorem ReachableBy.shaped (h : s.ReachableBy Action.BringsShaped) : s.Shaped := by
  induction h with
  | start threadSafe =>
    have hempty : ∀ j, (Session.start threadSafe).typesAt j = .empty := by
      intro j
      cases j <;> rfl
    constructor
    · intro j
      rw [hempty]
      exact Universe.sound_empty
    · intro j _
      rw [hempty]
      rfl
    · exact binds_defineGlobals (by simp) (Frames.binds_empty.grow none)
  | step a _ ha ih => exact ih.perform ha

/-! ### The main result -/

/-- **Struct values keep the shape of their types.** Where a session only got shaped values, every
value that a frame binds is shaped by the session's own universe. From the machine that an
interpreter stands on, and from every machine that its evaluation meets while shaped values are bound

- whatever is evaluated, only shaped values are bound and assigned, and none but shaped values is the
  value or is returned;
- a shaped struct value has every field that is found by its name;
- following the path to a method in it fails only at a field that does not hold a struct value of its
  type. -/
theorem struct_values_are_shaped (h : s.ReachableBy Action.BringsShaped) :
    s.frames.Binds (Value.Shaped s.types.catalog.Shapes) ∧
      ∀ key i, s.interpreters.find? key = some i → ∀ m, (s.machine i).Meets m →
        m.frames.Binds (Value.Shaped s.types.catalog.Shapes) →
        m.HandlesOnly (Value.Shaped s.types.catalog.Shapes) ∧
        ∀ ty vs, (Value.struct ty vs).Shaped s.types.catalog.Shapes →
          (∀ name decls k, m.types.catalog.structFields? ty = some decls →
            decls.findIdx? (fun d => d.name == name) = some k →
            ∃ v, vs[k]? = some v ∧
              Evaluator.field? m.types.catalog name (.struct ty vs) = some v) ∧
          ∀ name p cause, m.types.catalog.findMethod ty name = some p →
            Evaluator.follow name p.fields (.struct ty vs) = .error cause →
            Evaluator.BreaksOff m.types.catalog ty (.struct ty vs) name p.fields cause := by
  have hshaped : s.Shaped := h.shaped
  refine ⟨hshaped.frames, fun key i _ m hm hframes => ?_⟩
  have hholds := hshaped.holds hm hframes
  refine ⟨hholds.handlesOnly, fun ty vs hvs => ?_⟩
  obtain ⟨hsound, hcatalog⟩ := hholds.types
  by_cases hown : i.universeIndex = 0
  · have hshapes : (Value.struct ty vs).Shaped m.types.catalog.Shapes := by
      rw [hcatalog, hown]
      exact hvs
    constructor
    · exact fun name decls k hdecls hk => hshapes.exists_field? hdecls hk
    · exact fun name p cause hfound hfollow =>
        hshapes.breaksOff_of_follow hsound.catalog hfound hfollow
  · -- Where no type is declared, there is nothing to find.
    have hsize : m.types.catalog.size = 0 := by
      rw [hcatalog]
      exact hshaped.others _ hown
    constructor
    · intro name decls k hdecls
      rw [Catalog.structFields?, Catalog.decl?_of_size_eq_zero hsize] at hdecls
      cases hdecls
    · intro name p cause hfound
      rw [hsound.catalog.findMethod_of_size_eq_zero hsize] at hfound
      cases hfound

end Session

/-! ### A value that does not hold what its type says -/

/-- The action brings along values. -/
def Action.bringsValues : Action → Bool
  | .addInterpreter .. | .request _ _ (.define ..) | .request _ _ (.assign ..) => true
  | _ => false

/-- An action without values need only be given what there is. -/
theorem Action.Admissible.bringsShaped {s : Session} {a : Action} (h : a.Admissible s)
    (hvalues : a.bringsValues = false) : a.BringsShaped s := by
  cases a with
  | addUniverse => trivial
  | addInterpreter => cases hvalues
  | types op => exact h.1
  | request key budget r =>
    cases r with
    | method => exact h
    | define | assign => cases hvalues
    | _ => trivial

namespace Session

theorem ReachableBy.along {p : List Declaration × Session} {actions : List Action}
    (hp : p.2.ReachableBy Action.BringsShaped) (h : p.2.admits actions = true)
    (hvalues : ∀ a ∈ actions, a.bringsValues = false) :
    (along p actions).2.ReachableBy Action.BringsShaped := by
  induction actions generalizing p with
  | nil => exact hp
  | cons a rest ih =>
    rw [admits, Bool.and_eq_true, decide_eq_true_iff] at h
    have hbrings := h.1.bringsShaped (hvalues a (List.mem_cons_self ..))
    exact ih (hp.step a hbrings) h.2 fun b hb => hvalues b (List.mem_cons_of_mem _ hb)

/-- `type F struct{}` with `func (f F) M() {}`, `type E struct { F }` and `type T struct { E }`, and
then `t := T{F{}}`: an `F` where an `E` should be. -/
def misfitting : List Action := [
  .types (.structOf []),
  .types (.declareNamed "F" none),
  .types (.setUnderlying ⟨1⟩ ⟨0⟩),
  .types (.structOf [⟨"F", ⟨1⟩, true⟩]),
  .types (.declareNamed "E" none),
  .types (.setUnderlying ⟨3⟩ ⟨2⟩),
  .types (.structOf [⟨"E", ⟨3⟩, true⟩]),
  .types (.declareNamed "T" none),
  .types (.setUnderlying ⟨5⟩ ⟨4⟩),
  .request "main" 0 (.method ⟨1⟩ ⟨"M", none, ⟨none, [], [], false⟩⟩
    ⟨["f"], .empty default, default⟩ false),
  .request "main" 9 (.program [.define default ["t"]
    [.composite default "T" [.composite default "F" []]]])]

/-- The session that these actions lead to. -/
def misfit : Session :=
  (along ([], .start false) misfitting).2

/-- Its interpreter. -/
def misfitInterpreter : Interpreter :=
  (misfit.interpreters.find? "main").getD default

theorem reachableBy_misfit : misfit.ReachableBy Action.BringsShaped :=
  .along (p := ([], .start false)) (.start false) (by cbv) (by decide)

theorem find?_misfit : misfit.interpreters.find? "main" = some misfitInterpreter := by cbv

theorem evalExpr_misfit : evalExpr 3 (.ident default "t") (misfit.machine misfitInterpreter) =
    .value (.struct ⟨5⟩ [.struct ⟨1⟩ []]) (misfit.machine misfitInterpreter) := by cbv

theorem types_misfit : (misfit.machine misfitInterpreter).types = misfit.types := by
  have hplace : misfitInterpreter.universeIndex = 0 := by cbv
  change misfit.typesAt misfitInterpreter.universeIndex = _
  rw [hplace]
  rfl

theorem findMethod_misfit :
    misfit.types.catalog.findMethod ⟨5⟩ "M" = some ⟨[0, 0], ⟨1⟩, 0, false⟩ := by cbv

theorem follow_misfit : Evaluator.follow "M" [0, 0] (.struct ⟨5⟩ [.struct ⟨1⟩ []]) =
    .error (.undefinedField "M" "struct") := rfl

/-- The value of `t` is shaped and has its field `E`. The path to `M` breaks off at this field. -/
theorem struct_values_are_shaped_misfit :
    (Value.struct ⟨5⟩ [.struct ⟨1⟩ []]).Shaped misfit.types.catalog.Shapes ∧
      Evaluator.field? misfit.types.catalog "E" (.struct ⟨5⟩ [.struct ⟨1⟩ []]) =
        some (.struct ⟨1⟩ []) ∧
      Evaluator.BreaksOff misfit.types.catalog ⟨5⟩ (.struct ⟨5⟩ [.struct ⟨1⟩ []]) "M" [0, 0]
        (.undefinedField "M" "struct") := by
  obtain ⟨hframes, hmachines⟩ := struct_values_are_shaped reachableBy_misfit
  obtain ⟨hhandles, hreads⟩ := hmachines "main" _ find?_misfit _ (.refl _) hframes
  have hexpr := hhandles.expr 3 (.ident default "t")
  unfold Machine.Handles Eval.Ends at hexpr
  rw [evalExpr_misfit] at hexpr
  obtain ⟨hfields, hpaths⟩ := hreads _ _ hexpr.2
  have hdecls : misfit.types.catalog.structFields? ⟨5⟩ = some [⟨"E", ⟨3⟩, true⟩] := by cbv
  rw [types_misfit] at hfields hpaths
  refine ⟨hexpr.2, ?_, hpaths "M" _ _ findMethod_misfit follow_misfit⟩
  obtain ⟨v, hv, hfield⟩ := hfields "E" _ 0 hdecls rfl
  cases hv
  exact hfield

/-- A path to a method can break off at a field that holds a struct value. -/
theorem follow_breaks_off_at_struct : ¬ ∀ (s : Session), s.ReachableBy Action.BringsShaped →
    ∀ (key : String) (i : Interpreter) (budget : Nat) (e : Expr) (m : Machine) (ty : TypeId)
      (vs : List Value) (name : String) (p : MethodPath) (cause : Cause),
      s.interpreters.find? key = some i →
      evalExpr budget e (s.machine i) = .value (.struct ty vs) m →
      m.types.catalog.findMethod ty name = some p →
      Evaluator.follow name p.fields (.struct ty vs) = .error cause →
      ∃ front j rest held, p.fields = front ++ j :: rest ∧ front ≠ [] ∧
        Evaluator.follow name front (.struct ty vs) = .ok held ∧
        ∀ t fields, held ≠ .struct t fields := by
  intro hstops
  have hfound : (misfit.machine misfitInterpreter).types.catalog.findMethod ⟨5⟩ "M" =
      some ⟨[0, 0], ⟨1⟩, 0, false⟩ := by
    rw [types_misfit]
    exact findMethod_misfit
  obtain ⟨front, j, rest, held, hfields, hne, hheld, hstruct⟩ :=
    hstops misfit reachableBy_misfit "main" _ 3 _ _ _ _ "M" _ _ find?_misfit evalExpr_misfit hfound
      follow_misfit
  -- The only field before the last one is the first, and it holds a struct value.
  match front, hfields with
  | [], _ => exact hne rfl
  | [_], hfields =>
    obtain ⟨rfl, -⟩ := List.cons.inj hfields
    cases hheld
    exact hstruct _ _ rfl
  | _ :: _ :: front, hfields => simp at hfields

end Session

end ScriptEngine
