import ScriptEngine.Proofs.Types.Traversals

/-!
Catalogs that agree on the types of one of them.

A new declaration leaves the older ones alone. Everything that is asked of an older type follows
declarations that are older still, or names that stand for such, so it has the same answer with the
new declaration as without it: what the type stands for and its methods, the embedding paths from it
(`Agrees.pathEnd?`) and with them the search (`Agrees.findMethod`), and the number of methods along
them (`Agrees.numAllMethod`). `SameMethods` is all of that together.
-/

namespace ScriptEngine

/-- More rounds than are needed give the same answer. -/
theorem AnswersWithin.add {α β : Type} {step : (α → β) → α → β} {x : α} {b : β} {n : Nat}
    (h : AnswersWithin n step x b) (k : Nat) : AnswersWithin (n + k) step x b := by
  intro deeper
  rw [Function.iterate_add_apply]
  exact h _

namespace Catalog

/-- What `c` declares, `c'` declares in the same way. -/
def Agrees (c c' : Catalog) : Prop :=
  ∀ ty, ty.index < c.size → c'.decl? ty = c.decl? ty

theorem agrees_refl (c : Catalog) : c.Agrees c :=
  fun _ _ => rfl

theorem agrees_push (c : Catalog) (d : TypeDecl) : c.Agrees (c.push d).2 :=
  fun _ h => decl?_push_of_lt d h

theorem agrees_intern (c : Catalog) (d : TypeDecl) : c.Agrees (c.intern d).2 := by
  unfold intern
  split
  · exact c.agrees_refl
  · exact c.agrees_push d

section Agrees

variable {c c' : Catalog} {ty : TypeId}

theorem Agrees.size_le (agree : c.Agrees c') : c.size ≤ c'.size := by
  by_contra hlt
  have hnext : c'.next.index < c.size := Nat.lt_of_not_le hlt
  obtain ⟨d, hd⟩ := exists_decl? hnext
  rw [← agree c'.next hnext] at hd
  exact absurd (lt_size_of_decl? hd) (Nat.lt_irrefl _)

/-- What a declared type stands for is declared. -/
theorem WellFormed.underlying_lt (wf : c.WellFormed) (h : ty.index < c.size) :
    (c.underlying ty).index < c.size := by
  unfold underlying
  split
  · next d hd =>
    cases hu : d.underlying with
    | none => exact h
    | some u => exact (wf.underlying_unnamed ty d hd u hu).1
  · exact h

variable (agree : c.Agrees c') (wf : c.WellFormed) (h : ty.index < c.size)
include agree h

theorem Agrees.stripPointer : c'.stripPointer ty = c.stripPointer ty := by
  rw [Catalog.stripPointer, Catalog.stripPointer, agree ty h]

theorem Agrees.isPointer : c'.isPointer ty = c.isPointer ty := by
  rw [Catalog.isPointer, Catalog.isPointer, agree ty h]

include wf

/-- A declared type stands for what it stood for. -/
theorem Agrees.underlying : c'.underlying ty = c.underlying ty ∧
    c'.decl? (c.underlying ty) = c.decl? (c.underlying ty) := by
  refine ⟨?_, agree _ (wf.underlying_lt h)⟩
  rw [Catalog.underlying, Catalog.underlying, agree ty h]

theorem Agrees.structFields? : c'.structFields? ty = c.structFields? ty := by
  obtain ⟨hunder, hdecl⟩ := agree.underlying wf h
  rw [Catalog.structFields?, Catalog.structFields?, hunder, hdecl]

theorem Agrees.methods : c'.methods ty = c.methods ty := by
  obtain ⟨hunder, hdecl⟩ := agree.underlying wf h
  rw [Catalog.methods, Catalog.methods, interface?, interface?, named?, named?, hunder, hdecl,
    agree ty h]

theorem Agrees.methodIndex? (name : String) : c'.methodIndex? ty name = c.methodIndex? ty name := by
  rw [Catalog.methodIndex?, Catalog.methodIndex?, agree.methods wf h]

/-! ### Searching -/

theorem Agrees.embedded? (i : Nat) : c'.embedded? ty i = c.embedded? ty i := by
  rw [Catalog.embedded?, Catalog.embedded?, agree.structFields? wf h]

omit agree h in
/-- What a declared type embeds is declared. -/
theorem WellFormed.embedded?_lt_size {i : Nat} {field : TypeId}
    (hfield : c.embedded? ty i = some field) : field.index < c.size := by
  unfold Catalog.embedded? Catalog.structFields? at hfield
  split at hfield
  · next fields hd =>
    obtain ⟨f, hf, rfl⟩ := Option.map_eq_some_iff.mp hfield
    have hmem := List.mem_of_getElem? (Option.filter_eq_some_iff.mp hf).1
    have hlt := wf.parts_lt _ _ hd f.ty (List.mem_map_of_mem hmem)
    exact Nat.lt_trans hlt (lt_size_of_decl? hd)
  · cases hfield

/-- Paths from a declared type lead where they led. -/
theorem Agrees.pathEnd? (path : List Nat) : c'.pathEnd? ty path = c.pathEnd? ty path := by
  induction path generalizing ty with
  | nil => rfl
  | cons i rest ih =>
    have hstrip := Nat.lt_of_le_of_lt (wf.stripPointer_le ty) h
    rw [Catalog.pathEnd?, Catalog.pathEnd?, agree.stripPointer h, agree.embedded? wf hstrip]
    exact Option.bind_congr fun field hfield => ih (wf.embedded?_lt_size hfield)

omit agree in
theorem WellFormed.pathEnd?_lt_size {path : List Nat} {last : TypeId}
    (hlast : c.pathEnd? ty path = some last) : last.index < c.size := by
  induction path generalizing ty with
  | nil => exact Option.some.inj hlast ▸ h
  | cons i rest ih =>
    obtain ⟨field, hfield, hlast⟩ := Option.bind_eq_some_iff.mp hlast
    exact ih (wf.embedded?_lt_size hfield) hlast

theorem Agrees.target? (path : List Nat) : c'.target? ty path = c.target? ty path := by
  rw [Catalog.target?, Catalog.target?, agree.pathEnd? wf h]
  exact Option.map_congr fun last hlast => agree.stripPointer (wf.pathEnd?_lt_size h hlast)

omit agree in
theorem WellFormed.target?_lt_size {path : List Nat} {t : TypeId}
    (ht : c.target? ty path = some t) : t.index < c.size := by
  obtain ⟨last, hlast, rfl⟩ := Option.map_eq_some_iff.mp ht
  exact Nat.lt_of_le_of_lt (wf.stripPointer_le last) (wf.pathEnd?_lt_size h hlast)

theorem Agrees.declares_iff {name : String} {path : List Nat} :
    c'.Declares ty name path ↔ c.Declares ty name path := by
  unfold Declares
  rw [agree.target? wf h]
  exact exists_congr fun t => and_congr_right fun ht => by
    rw [agree.methodIndex? wf (wf.target?_lt_size h ht)]

theorem Agrees.isShallowest_iff {name : String} {path : List Nat} :
    c'.IsShallowest ty name path ↔ c.IsShallowest ty name path := by
  unfold IsShallowest
  simp only [agree.declares_iff wf h]

theorem Agrees.describes_iff {name : String} {p : MethodPath} :
    c'.Describes ty name p ↔ c.Describes ty name p := by
  unfold Describes
  rw [agree.pathEnd? wf h]
  refine exists_congr fun last => and_congr_right fun hlast => ?_
  have hlt := wf.pathEnd?_lt_size h hlast
  have hstrip := Nat.lt_of_le_of_lt (wf.stripPointer_le last) hlt
  rw [agree.stripPointer hlt, agree.isPointer hlt]
  refine and_congr_right fun howner => ?_
  rw [howner, agree.methodIndex? wf hstrip]

/-- **The search from a declared type finds what it found**: there is one answer that its paths
allow. -/
theorem Agrees.findMethod (wf' : c'.WellFormed) (name : String) :
    c'.findMethod ty name = c.findMethod ty name := by
  refine Option.ext fun p => ?_
  rw [wf'.findMethod_finds ty name p, wf.findMethod_finds ty name p, agree.describes_iff wf h,
    agree.isShallowest_iff wf h]
  simp only [agree.isShallowest_iff wf h]

/-! ### Counting -/

/-- Rounds of counting from a declared type are the same. -/
theorem Agrees.iterate_countStep (deeper : List TypeId × TypeId → Nat) (n : Nat)
    (trail : List TypeId) :
    c'.countStep^[n] deeper (trail, ty) = c.countStep^[n] deeper (trail, ty) := by
  induction n generalizing trail ty with
  | zero => rfl
  | succ n ih =>
    rw [Function.iterate_succ_apply', Function.iterate_succ_apply', countStep, countStep]
    dsimp only
    rw [agree ty h]
    cases hd : c.decl? ty with
    | none => rfl
    | some d =>
      cases d with
      | named d =>
        cases hu : d.underlying with
        | none => simp only [hu]
        | some u => simp only [hu, ih (wf.underlying_unnamed ty d hd u hu).1]
      | struct fields =>
        dsimp only
        congr 1
        refine List.map_congr_left fun f hf => ?_
        have hfield := Nat.lt_trans (wf.parts_lt ty _ hd f.ty (List.mem_map_of_mem hf)) h
        have hbase := Nat.lt_of_le_of_lt (wf.stripPointer_le f.ty) hfield
        rw [agree.stripPointer hfield, ih hbase]
      | _ => rfl

/-- **The methods along the embedding paths of a declared type are as many as they were.** -/
theorem Agrees.numAllMethod (wf' : c'.WellFormed) : c'.numAllMethod ty = c.numAllMethod ty := by
  have hdepth : c.searchDepth ≤ c'.searchDepth := by
    have hsize := Nat.succ_le_succ agree.size_le
    exact Nat.succ_le_succ (Nat.mul_le_mul hsize hsize)
  have hanswer := (wf.numAllMethod_answers ty).add (c'.searchDepth - c.searchDepth)
  rw [Nat.add_sub_cancel' hdepth] at hanswer
  have hcount := agree.iterate_countStep wf h (fun _ => 0) c'.searchDepth []
  rwa [wf'.numAllMethod_answers ty, hanswer] at hcount

end Agrees

/-- What is asked of the methods of the types of `c` has the same answers in `c'`. -/
def SameMethods (c c' : Catalog) : Prop :=
  ∀ ty, ty.index < c.size → c'.methods ty = c.methods ty ∧ c'.numMethod ty = c.numMethod ty ∧
    c'.numAllMethod ty = c.numAllMethod ty ∧ ∀ name,
      c'.methodIndex? ty name = c.methodIndex? ty name ∧
      c'.findMethod ty name = c.findMethod ty name

theorem Agrees.sameMethods {c c' : Catalog} (agree : c.Agrees c') (wf : c.WellFormed)
    (wf' : c'.WellFormed) : c.SameMethods c' := by
  intro ty h
  have hmethods := agree.methods wf h
  refine ⟨hmethods, congrArg List.length hmethods, agree.numAllMethod wf h wf', fun name => ?_⟩
  exact ⟨agree.methodIndex? wf h name, agree.findMethod wf h wf' name⟩

end Catalog

end ScriptEngine
