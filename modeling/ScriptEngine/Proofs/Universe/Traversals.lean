import Mathlib
import ScriptEngine.Proofs.Types.Traversals
import ScriptEngine.Proofs.Universe.History

/-!
Traversals of a universe's types end.

Building a representation is the fourth traversal: a name is entered at most once, since from then
on it stands for its placeholder. Main statement: in every reachable universe, what declarations
mention is declared, what an unnamed type is composed of is older, and all traversals end
(`traversals_end`).
-/

namespace ScriptEngine

namespace ReprM

/-! ### Building -/

section Congr

variable {part part' : TypeId → ReprM ReprId}

theorem mapM_congr {α β : Type} {f g : α → ReprM β} {xs : List α} (h : ∀ x ∈ xs, f x = g x) :
    xs.mapM f = xs.mapM g := by
  induction xs with
  | nil => rfl
  | cons x xs ih =>
    rw [List.mapM_cons, List.mapM_cons, h x (List.mem_cons_self ..),
      ih fun y hy => h y (List.mem_cons_of_mem _ hy)]

theorem funcReprWith_congr {sig : Signature}
    (h : ∀ p ∈ sig.params ++ sig.results, part p = part' p) :
    funcReprWith part sig = funcReprWith part' sig := by
  unfold funcReprWith
  rw [mapM_congr fun p hp => h p (List.mem_append_left _ hp),
    mapM_congr fun p hp => h p (List.mem_append_right _ hp)]

theorem structFieldsWith_congr {fields : List FieldDecl}
    (h : ∀ f ∈ fields, part f.ty = part' f.ty) :
    structFieldsWith part fields = structFieldsWith part' fields :=
  mapM_congr fun f hf => by rw [h f hf]

theorem markersWith_congr {c : Catalog} {embedded : List TypeId}
    (h : ∀ e ∈ embedded, part e = part' e) :
    markersWith c part embedded = markersWith c part' embedded :=
  mapM_congr fun e he => by rw [h e he]

theorem methodFieldsWith_congr {methods : List MethodDecl}
    (h : ∀ m ∈ methods, ∀ p ∈ m.sig.params ++ m.sig.results, part p = part' p) :
    methodFieldsWith part methods = methodFieldsWith part' methods :=
  mapM_congr fun m hm => by rw [funcReprWith_congr (h m hm)]

/-- Assembling asks for the parts of a declaration only. -/
theorem assemble_congr {c : Catalog} {d : TypeDecl} (h : ∀ p ∈ Catalog.parts d, part p = part' p) :
    assemble c part d = assemble c part' d := by
  cases d with
  | basic | named => rfl
  | pointer elem | slice elem => rw [assemble, assemble, h elem (List.mem_singleton_self elem)]
  | func sig => rw [assemble, assemble, funcReprWith_congr h]
  | struct fields =>
    rw [assemble, assemble, structFieldsWith_congr fun f hf => h f.ty (List.mem_map_of_mem hf)]
  | interface d =>
    have hmethods : ∀ m ∈ d.complete, ∀ p ∈ m.sig.params ++ m.sig.results, part p = part' p :=
      fun m hm p hp => h p (List.mem_append_right _ (List.mem_flatMap.mpr ⟨m, hm, hp⟩))
    rw [assemble, assemble, emulateWith, emulateWith, methodFieldsWith_congr hmethods,
      markersWith_congr fun e he => h e (List.mem_append_left _ he)]

end Congr

/-- One round of building the representation of a type while names are being built; `part` builds
the types that the declaration is built from. -/
def buildStep (c : Catalog) (part : Building × TypeId → ReprM ReprId) (x : Building × TypeId) :
    ReprM ReprId :=
  match x.1.lookup x.2 with
  | some placeholder => return placeholder
  | none => do
    match (← get).built.find? x.2 with
    | some r => return r
    | none =>
      match c.decl? x.2 with
      | none => throw (.incompleteType (c.typeName x.2))
      | some (.named d) =>
        match d.underlying with
        | none => throw (.incompleteType (c.typeName x.2))
        | some u => do
          let placeholder ← push ⟨some (c.typeName x.2), .invalid, .empty⟩
          let source ← part ((x.2, placeholder) :: x.1, u)
          finishNamed x.2 placeholder source
      | some d => do
        let r ← assemble c (fun p => part (x.1, p)) d
        finish x.2 r

/-- **Building the representation of a type ends**, though names refer to themselves and to each
other. -/
theorem reprOf_answers {c : Catalog} (wf : c.WellFormed) (ty : TypeId) :
    AnswersWithin c.searchDepth (buildStep c) ([], ty) (reprOf c ty) := by
  refine answersWithin (f := fun x : Building × TypeId => build c x.1 x.2)
    (R := fun n x => c.rank (x.1.map (·.1)) x.2 < n) (fun _ => Nat.not_lt_zero _)
    (fun n ⟨building, ty⟩ part hn hpart => ?_) (c.rank_lt_searchDepth [] ty)
  have hn : c.rank (building.map (·.1)) ty ≤ n := Nat.le_of_lt_succ hn
  symm
  dsimp only
  rw [build]
  split
  · next placeholder hopen => simp only [buildStep, hopen]
  next hopen =>
  simp only [buildStep, hopen]
  refine congrArg (get >>= ·) (funext fun t => ?_)
  cases t.built.find? ty with
  | some r => rfl
  | none =>
    dsimp only
    split
    · next hd => simp only [hd]
    · next d hd =>
      simp only [hd]
      cases d.underlying with
      | none => rfl
      | some u =>
        refine congrArg (push _ >>= ·) (funext fun placeholder => ?_)
        have hentered : c.rank (ty :: building.map (·.1)) u < c.rank (building.map (·.1)) ty :=
          Catalog.rank_lt_of_entered (Catalog.lt_size_of_decl? hd) (not_mem_trail hopen)
        rw [hpart ((ty, placeholder) :: building, u) (Nat.lt_of_lt_of_le hentered hn)]
    · next d hunnamed hd =>
      have hparts : ∀ p ∈ Catalog.parts d, (if _older : p.index < ty.index then
          build c building p else throw (.incompleteType (c.typeName p))) = part (building, p) := by
        intro p hp
        have holder := wf.parts_lt ty d hd p hp
        have hlt : c.rank (building.map (·.1)) p < c.rank (building.map (·.1)) ty :=
          Catalog.rank_lt_of_older (Catalog.lt_size_of_decl? hd) holder
        rw [dif_pos holder, hpart (building, p) (Nat.lt_of_lt_of_le hlt hn)]
      rw [assemble_congr hparts]
      split
      · next heq => cases hd.symm.trans heq
      · next n heq => exact absurd (Option.some.inj (hd.symm.trans heq)) (hunnamed n)
      · next d' _ heq => rw [Option.some.inj (hd.symm.trans heq)]

end ReprM

/-! ### Reachable universes -/

/-- What is asked of a type by traversal ends within the bound: what it is written as, what
represents it, how many methods it reaches, which method has a name, and what it implements. -/
structure Catalog.TraversalsEnd (c : Catalog) (ty : TypeId) : Prop where
  typeName : AnswersWithin c.searchDepth c.nameStep ty (c.typeName ty)
  reprOf : AnswersWithin c.searchDepth (ReprM.buildStep c) ([], ty) (ReprM.reprOf c ty)
  numAllMethod : AnswersWithin c.searchDepth c.countStep ([], ty) (c.numAllMethod ty)
  findMethod : ∀ name,
    AnswersWithin c.searchDepth (c.searchStep name) (c.searchStart ty) (c.findMethod ty name)
  implements : ∀ iface (deeper : String → List TypeId × List Candidate → Option MethodPath),
    c.implementsWith (fun ty name =>
      (c.searchStep name)^[c.searchDepth] (deeper name) (c.searchStart ty)) ty iface =
        c.implements ty iface

namespace Universe

/-- **Types are well founded below names, and traversals end.** What a declaration mentions is
declared, a name does not stand for a name, and what a type is composed of is declared before it;
so traversals end on every type, however names refer to each other. -/
theorem traversals_end {u : Universe} (h : u.Reachable) :
    (∀ ty d, u.catalog.decl? ty = some d → ∀ p ∈ Catalog.mentions d, p.index < u.catalog.size) ∧
    (∀ ty n v, u.catalog.decl? ty = some (.named n) → n.underlying = some v →
      u.catalog.isNamed v = false) ∧
    (∀ ty d, u.catalog.decl? ty = some d → ∀ p ∈ Catalog.components d, p.index < ty.index) ∧
    ∀ ty, u.catalog.TraversalsEnd ty := by
  have wf := h.wellFormed
  have hl := h.layered
  refine ⟨fun ty d hd p => wf.mentions_lt hl hd, fun ty n v hn hv => ?_,
    fun ty d hd p => wf.components_lt hl hd, fun ty => ?_⟩
  · exact (wf.underlying_unnamed ty n hn v hv).2
  · exact ⟨wf.typeName_answers hl ty, ReprM.reprOf_answers wf ty, wf.numAllMethod_answers ty,
      wf.findMethod_answers ty, fun iface deeper => wf.implements_answers deeper ty iface⟩

/-- Two names that embed each other, one of them behind a pointer: `type A struct { *B }` and
`type B struct { A }`, with a method `Get` of `B`. -/
def tangled : Universe := after [
  .declareNamed "A" none,
  .declareNamed "B" none,
  .pointerTo ⟨1⟩,
  .structOf [⟨"B", ⟨2⟩, true⟩],
  .structOf [⟨"A", ⟨0⟩, true⟩],
  .setUnderlying ⟨0⟩ ⟨3⟩,
  .setUnderlying ⟨1⟩ ⟨4⟩,
  .addMethod ⟨1⟩ ⟨"Get", none, ⟨none, [], [], false⟩⟩]

/-- One method is counted, and a method that is not there is not found. -/
theorem traversals_end_tangled : tangled.Reachable ∧
    AnswersWithin tangled.catalog.searchDepth tangled.catalog.nameStep ⟨4⟩ "struct\x7bA\x7d" ∧
    AnswersWithin tangled.catalog.searchDepth tangled.catalog.countStep ([], ⟨0⟩) 1 ∧
    AnswersWithin tangled.catalog.searchDepth (tangled.catalog.searchStep "Get")
      (tangled.catalog.searchStart ⟨0⟩) (some ⟨[0], ⟨1⟩, 0, true⟩) ∧
    AnswersWithin tangled.catalog.searchDepth (tangled.catalog.searchStep "Put")
      (tangled.catalog.searchStart ⟨0⟩) none := by
  have hreach : tangled.Reachable := reachable_after (by cbv)
  have hname : tangled.catalog.typeName ⟨4⟩ = "struct\x7bA\x7d" := by cbv
  have hcount : tangled.catalog.numAllMethod ⟨0⟩ = 1 := by cbv
  have hfound : tangled.catalog.findMethod ⟨0⟩ "Get" = some ⟨[0], ⟨1⟩, 0, true⟩ := by cbv
  have hmissing : tangled.catalog.findMethod ⟨0⟩ "Put" = none := by cbv
  obtain ⟨-, -, -, hends⟩ := traversals_end hreach
  exact ⟨hreach, hname ▸ (hends ⟨4⟩).typeName, hcount ▸ (hends ⟨0⟩).numAllMethod,
    hfound ▸ (hends ⟨0⟩).findMethod "Get", hmissing ▸ (hends ⟨0⟩).findMethod "Put"⟩

end Universe

end ScriptEngine
