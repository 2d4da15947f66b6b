import Mathlib
import ScriptEngine.Proofs.Types.EmbeddingPath

/-!
What the number of methods counts.

`counted` lists the methods that `numAllMethod` counts, each with the embedding path that it was
counted at, and `Simple` says of a path that no name comes up on it twice. Main statements: the
list is as long as the number says (`length_counted`), it holds exactly the methods declared at the
ends of simple paths (`WellFormed.mem_counted`), and shortest paths to a declaration are simple
(`IsShallowest.simple`), so what the search finds is counted.
-/

namespace ScriptEngine.Catalog

/-- The methods declared with a name. -/
def namedMethods (c : Catalog) (ty : TypeId) : List MethodDecl :=
  (c.named? ty).elim [] (·.methods)

/-- The complete set of the interface that a type is or stands for. -/
def interfaceMethods (c : Catalog) (ty : TypeId) : List MethodDecl :=
  (c.interface? ty).elim [] (·.complete)

/-- The methods of a type itself, also those that its indices do not count. -/
def declaredMethods (c : Catalog) (ty : TypeId) : List MethodDecl :=
  c.namedMethods ty ++ c.interfaceMethods ty

/-- The methods that are counted along embedding paths, with their paths. -/
def counted (c : Catalog) (trail : List TypeId) (ty : TypeId) : List (List Nat × MethodDecl) :=
  match _declared : c.decl? ty with
  | some (.named d) =>
    if _seen : ty ∈ trail then []
    else d.methods.map ([], ·) ++ match d.underlying with
      | some u => c.counted (ty :: trail) u
      | none => []
  | some (.interface d) => d.complete.map ([], ·)
  | some (.struct fields) => (embeddedFrom 0 fields).flatMap fun e =>
      if _older : (c.stripPointer e.2.ty).index < ty.index then
        (c.counted trail (c.stripPointer e.2.ty)).map fun p => (e.1 :: p.1, p.2)
      else []
  | _ => []
termination_by (c.unvisited trail, ty.index)
decreasing_by
  · exact .left _ _ (unvisited_cons_lt (lt_size_of_decl? _declared) _seen)
  · exact .right _ _older

variable {c : Catalog} {ty t : TypeId} {trail : List TypeId} {path : List Nat} {m : MethodDecl}
  {name : String}

section Equations

variable {n : NamedDecl} {d : InterfaceDecl} {fields : List FieldDecl}

theorem counted_of_seen (hn : c.decl? ty = some (.named n)) (h : ty ∈ trail) :
    c.counted trail ty = [] := by
  rw [counted]
  split <;> simp_all

theorem counted_of_named (hn : c.decl? ty = some (.named n)) (h : ty ∉ trail) :
    c.counted trail ty =
      n.methods.map ([], ·) ++ n.underlying.elim [] (c.counted (ty :: trail)) := by
  rw [counted]
  split
  · next n' hn' =>
    cases hn.symm.trans hn'
    rw [dif_neg h]
    cases n.underlying <;> rfl
  all_goals simp_all

theorem counted_of_interface (hd : c.decl? ty = some (.interface d)) :
    c.counted trail ty = d.complete.map ([], ·) := by
  rw [counted]
  split <;> simp_all

theorem counted_of_struct (hs : c.decl? ty = some (.struct fields)) :
    c.counted trail ty = (embeddedFrom 0 fields).flatMap fun e =>
      if (c.stripPointer e.2.ty).index < ty.index then
        (c.counted trail (c.stripPointer e.2.ty)).map fun p => (e.1 :: p.1, p.2)
      else [] := by
  rw [counted]
  split
  · simp_all
  · simp_all
  · next fields' hs' =>
    cases hs.symm.trans hs'
    rfl
  · simp_all

theorem counted_of_other (hn : ∀ n, c.decl? ty ≠ some (.named n))
    (hd : ∀ d, c.decl? ty ≠ some (.interface d))
    (hs : ∀ fields, c.decl? ty ≠ some (.struct fields)) : c.counted trail ty = [] := by
  rw [counted]
  split <;> simp_all

end Equations

/-! ### How many -/

theorem length_flatMap_embeddedFrom {α : Type} {fields : List FieldDecl} {i : Nat}
    {list : Nat × FieldDecl → List α} {count : FieldDecl → Nat}
    (h : ∀ e, e.2.embedded = true → (list e).length = count e.2)
    (hzero : ∀ f, f.embedded = false → count f = 0) :
    ((embeddedFrom i fields).flatMap list).length = (fields.map count).foldr (· + ·) 0 := by
  induction fields generalizing i with
  | nil => rfl
  | cons f rest ih =>
    rw [embeddedFrom, List.map_cons, List.foldr_cons, ← ih (i := i + 1)]
    split
    · next hf => rw [List.flatMap_cons, List.length_append, h (i, f) hf]
    · next hf => rw [hzero f (Bool.eq_false_iff.mpr hf), Nat.zero_add]

/-- **As many methods are listed as are counted.** -/
theorem length_counted (c : Catalog) (trail : List TypeId) (ty : TypeId) :
    (c.counted trail ty).length = c.countMethods trail ty := by
  fun_induction c.countMethods trail ty with
  | case1 trail ty n hn hseen => rw [counted_of_seen hn hseen, List.length_nil]
  | case2 trail ty n hn hseen ih =>
    rw [counted_of_named hn hseen, List.length_append, List.length_map]
    cases n.underlying with
    | none => rfl
    | some u => exact congrArg _ (ih u)
  | case3 trail ty d hd => rw [counted_of_interface hd, List.length_map]
  | case4 trail ty fields hs ih =>
    rw [counted_of_struct hs]
    refine length_flatMap_embeddedFrom (fun e he => ?_) fun f hf => by simp [hf]
    by_cases holder : (c.stripPointer e.2.ty).index < ty.index
    · rw [if_pos holder, dif_pos ⟨he, holder⟩, List.length_map, ih e.2 ⟨he, holder⟩]
    · rw [if_neg holder, dif_neg fun h => holder h.2, List.length_nil]
  | case5 trail ty hn hd hs => rw [counted_of_other hn hd hs, List.length_nil]

/-! ### Which methods -/

/-- The names entered with a type: a traversal marks names only. -/
def entered (c : Catalog) (trail : List TypeId) (ty : TypeId) : List TypeId :=
  if c.isNamed ty then ty :: trail else trail

/-- An embedding path from `ty` to `t` that meets no name twice and none of `trail`. -/
inductive Simple (c : Catalog) : List TypeId → TypeId → List Nat → TypeId → Prop where
  | stop {trail : List TypeId} {ty : TypeId} : c.stripPointer ty ∉ trail →
      Simple c trail ty [] (c.stripPointer ty)
  | step {trail : List TypeId} {ty field t : TypeId} {i : Nat} {rest : List Nat} :
      c.stripPointer ty ∉ trail → c.embedded? (c.stripPointer ty) i = some field →
      Simple c (c.entered trail (c.stripPointer ty)) field rest t → Simple c trail ty (i :: rest) t

/-- A simple path ends where the path does. -/
theorem Simple.target? (h : c.Simple trail ty path t) : c.target? ty path = some t := by
  induction h with
  | stop => rfl
  | step _ hfield _ ih =>
    rw [Catalog.target?, pathEnd?, hfield]
    exact ih

theorem simple_nil_iff :
    c.Simple trail ty [] t ↔ c.stripPointer ty ∉ trail ∧ t = c.stripPointer ty := by
  constructor
  · rintro ⟨h⟩
    exact ⟨h, rfl⟩
  · rintro ⟨h, rfl⟩
    exact .stop h

theorem simple_cons_iff {i : Nat} {rest : List Nat} :
    c.Simple trail ty (i :: rest) t ↔ c.stripPointer ty ∉ trail ∧ ∃ field,
      c.embedded? (c.stripPointer ty) i = some field ∧
        c.Simple (c.entered trail (c.stripPointer ty)) field rest t := by
  constructor
  · rintro (_ | ⟨h, hfield, hrest⟩)
    exact ⟨h, _, hfield, hrest⟩
  · rintro ⟨h, field, hfield, hrest⟩
    exact .step h hfield hrest

theorem mem_entered {t : TypeId} :
    t ∈ c.entered trail ty ↔ t ∈ trail ∨ t = ty ∧ c.isNamed ty = true := by
  unfold entered
  cases c.isNamed ty <;> simp [or_comm]

/-- What is counted below the fields that a type embeds. -/
def countedBelow (c : Catalog) (trail : List TypeId) (ty : TypeId) :
    List (List Nat × MethodDecl) :=
  (c.embeddedFields ty).flatMap fun e =>
    (c.counted trail (c.stripPointer e.2.ty)).map fun p => (e.1 :: p.1, p.2)

theorem underlying_of_isNamed_eq_false (h : c.isNamed ty = false) : c.underlying ty = ty := by
  unfold underlying
  split
  · next n hn =>
    rw [isNamed_iff.mpr ⟨n, hn⟩] at h
    cases h
  · rfl

theorem nil_notMem_countedBelow : ([], m) ∉ c.countedBelow trail ty := by
  simp [countedBelow]

/-- What is counted below a type is counted at one of its fields. -/
theorem mem_countedBelow {i : Nat} {rest : List Nat} :
    (i :: rest, m) ∈ c.countedBelow trail ty ↔ ∃ field, c.embedded? ty i = some field ∧
      (rest, m) ∈ c.counted trail (c.stripPointer field) := by
  unfold countedBelow
  constructor
  · intro h
    obtain ⟨⟨j, f⟩, hf, h⟩ := List.mem_flatMap.mp h
    obtain ⟨⟨path, m'⟩, hmem, heq⟩ := List.mem_map.mp h
    cases heq
    exact ⟨f.ty, embedded?_eq_some.mpr ⟨f, hf, rfl⟩, hmem⟩
  · rintro ⟨field, hfield, hmem⟩
    obtain ⟨f, hf, rfl⟩ := embedded?_eq_some.mp hfield
    exact List.mem_flatMap.mpr ⟨(i, f), hf, List.mem_map.mpr ⟨(rest, m), hmem, rfl⟩⟩

/-- Below an unnamed type, methods are counted with the trail that led to it. -/
theorem WellFormed.counted_of_unnamed (wf : c.WellFormed) (h : c.isNamed ty = false) :
    c.counted trail ty =
      (c.interfaceMethods ty).map ([], ·) ++ c.countedBelow trail ty := by
  have hunder := underlying_of_isNamed_eq_false h
  unfold interfaceMethods interface? countedBelow embeddedFields structFields?
  rw [hunder]
  cases hd : c.decl? ty with
  | none => rw [counted_of_other (by simp [hd]) (by simp [hd]) (by simp [hd])]; rfl
  | some d =>
    cases d with
    | named n =>
      rw [isNamed_iff.mpr ⟨n, hd⟩] at h
      cases h
    | interface d => rw [counted_of_interface hd]; simp
    | struct fields =>
      rw [counted_of_struct hd]
      refine List.flatMap_congr fun e he => if_pos ?_
      obtain ⟨j, -, hf, -⟩ := mem_embeddedFrom.mp he
      have hpart : e.2.ty ∈ parts (.struct fields) := List.mem_map_of_mem (List.mem_of_getElem? hf)
      exact Nat.lt_of_le_of_lt (wf.stripPointer_le e.2.ty) (wf.parts_lt ty _ hd _ hpart)
    | _ => rw [counted_of_other (by simp [hd]) (by simp [hd]) (by simp [hd])]; rfl

/-- **What is counted at a type**: its methods, unless the trail has it already, and what is counted
below it, with its name marked. -/
theorem WellFormed.counted_eq (wf : c.WellFormed) (htrail : ∀ t ∈ trail, c.isNamed t = true) :
    c.counted trail ty = if ty ∈ trail then [] else
      (c.declaredMethods ty).map ([], ·) ++ c.countedBelow (c.entered trail ty) ty := by
  cases hnamed : c.isNamed ty with
  | false =>
    have hnot : ty ∉ trail := fun hmem => by simp [htrail ty hmem] at hnamed
    have hnone : c.named? ty = none := by simpa [isNamed] using hnamed
    rw [if_neg hnot, wf.counted_of_unnamed hnamed, declaredMethods, namedMethods, hnone, entered,
      hnamed]
    rfl
  | true =>
    obtain ⟨n, hn⟩ := isNamed_iff.mp hnamed
    split
    · next hseen => exact counted_of_seen hn hseen
    · next hseen =>
      have hmethods : c.namedMethods ty = n.methods := by
        rw [namedMethods, named?_eq_some.mpr hn]
        rfl
      have hentered : c.entered trail ty = ty :: trail := if_pos hnamed
      rw [counted_of_named hn hseen, declaredMethods, hmethods, hentered, List.map_append,
        List.append_assoc]
      congr 1
      cases hu : n.underlying with
      | none =>
        have hunder : c.underlying ty = ty := by simp [underlying, hn, hu]
        simp [interfaceMethods, interface?, countedBelow, embeddedFields, structFields?, hunder, hn]
      | some u =>
        -- What the name stands for is no name, so it is counted with the trail as it is.
        have hunnamed := (wf.underlying_unnamed ty n hn u hu).2
        rw [Option.elim_some, wf.counted_of_unnamed hunnamed]
        simp only [interfaceMethods, interface?, countedBelow, embeddedFields, structFields?,
          underlying_of_named hn hu, underlying_of_isNamed_eq_false hunnamed]

/-- **The methods that are counted are those declared at the ends of simple paths.** -/
theorem WellFormed.mem_counted (wf : c.WellFormed) (htrail : ∀ t ∈ trail, c.isNamed t = true) :
    (path, m) ∈ c.counted trail (c.stripPointer ty) ↔
      ∃ t, c.Simple trail ty path t ∧ m ∈ c.declaredMethods t := by
  induction path generalizing trail ty with
  | nil =>
    rw [wf.counted_eq htrail]
    by_cases hseen : c.stripPointer ty ∈ trail
    · simp [hseen, simple_nil_iff]
    · simp [hseen, simple_nil_iff, nil_notMem_countedBelow]
  | cons i rest ih =>
    have hentered : ∀ t ∈ c.entered trail (c.stripPointer ty), c.isNamed t = true := fun t ht =>
      (mem_entered.mp ht).elim (htrail t) fun h => h.1 ▸ h.2
    rw [wf.counted_eq htrail]
    by_cases hseen : c.stripPointer ty ∈ trail
    · simp [hseen, simple_cons_iff]
    · rw [if_neg hseen, List.mem_append, mem_countedBelow]
      constructor
      · rintro (hown | ⟨field, hfield, hmem⟩)
        · obtain ⟨_, -, heq⟩ := List.mem_map.mp hown
          cases heq
        · obtain ⟨t, hsimple, hm⟩ := (ih hentered).mp hmem
          exact ⟨t, .step hseen hfield hsimple, hm⟩
      · rintro ⟨t, hsimple, hm⟩
        obtain ⟨-, field, hfield, hrest⟩ := simple_cons_iff.mp hsimple
        exact .inr ⟨field, hfield, (ih hentered).mpr ⟨t, hrest, hm⟩⟩

/-! ### Shortest paths -/

theorem target?_cons (i : Nat) (rest : List Nat) : c.target? ty (i :: rest) =
    (c.embedded? (c.stripPointer ty) i).bind fun field => c.target? field rest := by
  rw [Catalog.target?, pathEnd?, Option.map_bind]
  rfl

/-- A shortest path to a declaration meets no name twice, nor a name from which all paths to
declarations are longer: from there, a shorter path would lead to the declaration. -/
theorem simple_of_shortest
    (htrail : ∀ t ∈ trail, c.isNamed t = true ∧ ∀ path', c.Declares t name path' →
      path.length < path'.length)
    (hdeclares : c.Declares ty name path)
    (hshortest : ∀ path', c.Declares ty name path' → path.length ≤ path'.length)
    (ht : c.target? ty path = some t) : c.Simple trail ty path t := by
  -- A type on the path joins the trail when the path leaves it, with the shortest paths from it
  -- longer than what is left of the path.
  induction path generalizing trail ty with
  | nil =>
    cases ht
    refine .stop fun hmem => ?_
    obtain ⟨hn, hless⟩ := htrail _ hmem
    exact Nat.lt_irrefl _ (hless [] ((declares_congr (stripPointer_of_isNamed hn)).mpr hdeclares))
  | cons i rest ih =>
    obtain ⟨field, hfield, hrest⟩ := Option.bind_eq_some_iff.mp (target?_cons i rest ▸ ht)
    have hbelow : ∀ path', c.Declares field name path' ↔ c.Declares ty name (i :: path') :=
      fun path' => by rw [Declares, Declares, target?_cons, hfield, Option.bind_some]
    refine .step (fun hmem => ?_) hfield (ih (fun t ht => ?_) ((hbelow rest).mpr hdeclares)
      (fun path' h => Nat.le_of_succ_le_succ (hshortest _ ((hbelow path').mp h))) hrest)
    · obtain ⟨hn, hless⟩ := htrail _ hmem
      exact Nat.lt_irrefl _ (hless _ ((declares_congr (stripPointer_of_isNamed hn)).mpr hdeclares))
    · rcases mem_entered.mp ht with hmem | ⟨rfl, hn⟩
      · exact ⟨(htrail t hmem).1, fun path' h => Nat.lt_of_succ_lt ((htrail t hmem).2 path' h)⟩
      · exact ⟨hn, fun path' h =>
          Nat.lt_of_succ_le (hshortest path' ((declares_congr (stripPointer_of_isNamed hn)).mp h))⟩

theorem IsShallowest.simple (h : c.IsShallowest ty name path) (ht : c.target? ty path = some t) :
    c.Simple [] ty path t :=
  simple_of_shortest (by simp) h.1 h.2 ht

/-- Among the paths to declarations is a shortest one. -/
theorem exists_isShallowest (h : c.Declares ty name path) :
    ∃ path', c.IsShallowest ty name path' := by
  obtain ⟨path', hdeclares, hleast⟩ :=
    (measure List.length).wf.has_min {path | c.Declares ty name path} ⟨path, h⟩
  exact ⟨path', hdeclares, fun path'' h'' => Nat.le_of_not_lt (hleast path'' h'')⟩

/-! ### What the search finds -/

/-- The methods that indices count are declared methods. -/
theorem mem_declaredMethods_of_mem_methods (h : m ∈ c.methods ty) : m ∈ c.declaredMethods ty := by
  unfold methods at h
  unfold declaredMethods namedMethods interfaceMethods
  split at h
  · next d hd => simp [hd, h]
  · split at h
    · next n hn => simp [hn, h]
    · cases h

/-- What a shallowest path leads to is counted. -/
theorem WellFormed.exists_counted (wf : c.WellFormed) (h : c.IsShallowest ty name path) :
    ∃ m, (path, m) ∈ c.counted [] (c.stripPointer ty) ∧ m.name = name := by
  obtain ⟨t, ht, hindex⟩ := h.1
  obtain ⟨m, hm, hname⟩ := isSome_methodIndex?.mp hindex
  exact ⟨m, (wf.mem_counted (by simp)).mpr
    ⟨t, h.simple ht, mem_declaredMethods_of_mem_methods hm⟩, hname⟩

/-- The names of the methods that are counted from a type. -/
def countedNames (c : Catalog) (ty : TypeId) : List String :=
  (c.counted [] (c.stripPointer ty)).map (·.2.name)

theorem length_countedNames (c : Catalog) (ty : TypeId) :
    (c.countedNames ty).length = c.numAllMethod (c.stripPointer ty) := by
  rw [countedNames, List.length_map, length_counted, numAllMethod]

/-- **What the search finds is counted.** -/
theorem WellFormed.mem_countedNames (wf : c.WellFormed)
    (h : (c.findMethod ty name).isSome = true) : name ∈ c.countedNames ty := by
  obtain ⟨path, hpath, -⟩ := (wf.findMethod_finds ty name).isSome_iff.mp h
  obtain ⟨m, hm, rfl⟩ := wf.exists_counted hpath
  exact List.mem_map_of_mem hm

/-- If no name is counted twice, and only methods that indices count are counted, all that is
counted is found. -/
theorem WellFormed.findMethod_of_mem_countedNames (wf : c.WellFormed)
    (hdeclared : ∀ t, c.declaredMethods t = c.methods t) (hnodup : (c.countedNames ty).Nodup)
    (h : name ∈ c.countedNames ty) : (c.findMethod ty name).isSome = true := by
  obtain ⟨⟨path, m⟩, hm, rfl⟩ := List.mem_map.mp h
  obtain ⟨t, hsimple, hmem⟩ := (wf.mem_counted (by simp)).mp hm
  have hdeclares : c.Declares ty m.name path :=
    ⟨t, hsimple.target?, isSome_methodIndex?.mpr ⟨m, hdeclared t ▸ hmem, rfl⟩⟩
  obtain ⟨shortest, hshortest⟩ := exists_isShallowest hdeclares
  refine (wf.findMethod_finds ty m.name).isSome_iff.mpr
    ⟨shortest, hshortest, fun path' hpath' => ?_⟩
  obtain ⟨m₁, hm₁, hname₁⟩ := wf.exists_counted hshortest
  obtain ⟨m₂, hm₂, hname₂⟩ := wf.exists_counted hpath'
  exact (Prod.ext_iff.mp (List.inj_on_of_nodup_map hnodup hm₂ hm₁ (hname₂.trans hname₁.symm))).1

end ScriptEngine.Catalog
