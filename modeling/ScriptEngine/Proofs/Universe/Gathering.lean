import Mathlib
import ScriptEngine.Proofs.Types.Agreement
import ScriptEngine.Proofs.Universe.Declared
import ScriptEngine.Proofs.Universe.MethodSets

/-!
How the interfaces of a catalog gathered their methods.

An interface embeds interfaces that are declared before it, and its complete set holds, of each
name, its own methods or what the first embedded interface with that name says
(`Catalog.Gathers`). All interfaces of a reachable catalog do (`ReachableBy.gathered`). So the
names of a complete set pass on to the interfaces that embed it, at any depth
(`Gathered.mem_names`), but what is said of a name need not; and what a complete set says is
written in some interface at or below it (`Gathered.written`).
-/

namespace ScriptEngine

namespace Catalog

/-- `ty` is or stands for an interface that embeds `e`. -/
def Embeds (c : Catalog) (ty e : TypeId) : Prop :=
  ∃ d, c.interface? ty = some d ∧ e ∈ d.embedded

/-- The method is written in the body of the interface `ty` or of one that it embeds, directly or
through others. -/
def Writes (c : Catalog) (ty : TypeId) (m : MethodDecl) : Prop :=
  ∃ t d, Relation.ReflTransGen c.Embeds ty t ∧ c.interface? t = some d ∧ m ∈ d.explicit

/-- How the interface `ty` gathered its complete set from its own methods and the interfaces that it
embeds, which are older. -/
structure Gathers (c : Catalog) (ty : TypeId) (d : InterfaceDecl) : Prop where
  embedded : ∀ e ∈ d.embedded, (c.interface? e).isSome = true ∧ (c.underlying e).index < ty.index
  complete : ∀ name, d.complete.filter (·.isCalled name) =
    if name ∈ d.explicit.map (·.name) then d.explicit.filter (·.isCalled name)
    else (c.inherited? d.embedded name).toList

/-- Every interface is as it gathered its methods. -/
def Gathered (c : Catalog) : Prop :=
  ∀ ty d, c.decl? ty = some (.interface d) → c.Gathers ty d

variable {c c' : Catalog} {ty e : TypeId} {d i : InterfaceDecl} {name : String} {m : MethodDecl}

/-! ### One interface -/

/-- The names of a complete set are those of the own methods and of the embedded interfaces. -/
theorem Gathers.mem_names_iff (h : c.Gathers ty d) : name ∈ d.complete.map (·.name) ↔
    name ∈ d.explicit.map (·.name) ∨
      ∃ e ∈ d.embedded, ∃ i, c.interface? e = some i ∧ name ∈ i.complete.map (·.name) := by
  rw [ScriptEngine.mem_names_iff, h.complete, ← inherited?_isSome_iff]
  by_cases hown : name ∈ d.explicit.map (·.name)
  · rw [if_pos hown]
    exact iff_of_true (ScriptEngine.mem_names_iff.mp hown) (.inl hown)
  · rw [if_neg hown]
    cases c.inherited? d.embedded name <;> simp [hown]

/-- A method of a complete set is an own one or one of an embedded interface. -/
theorem Gathers.own_or_inherited (h : c.Gathers ty d) (hm : m ∈ d.complete) :
    m ∈ d.explicit ∨ ∃ e ∈ d.embedded, ∃ i, c.interface? e = some i ∧ m ∈ i.complete := by
  have hfilter : m ∈ d.complete.filter (·.isCalled m.name) :=
    List.mem_filter.mpr ⟨hm, MethodDecl.isCalled_iff.mpr rfl⟩
  rw [h.complete] at hfilter
  split at hfilter
  · exact .inl (List.mem_filter.mp hfilter).1
  · obtain ⟨e, he, hfound⟩ := List.exists_of_findSome?_eq_some (Option.mem_toList.mp hfilter)
    obtain ⟨i, hi, hfind⟩ := Option.bind_eq_some_iff.mp hfound
    exact .inr ⟨e, he, i, hi, List.mem_of_find?_eq_some hfind⟩

/-- An own method is as often in the complete set as it is written. -/
theorem Gathers.subperm (h : c.Gathers ty d) : d.explicit.Subperm d.complete := by
  refine List.subperm_iff_count.mpr fun m => ?_
  have hcalled : (m.isCalled m.name) = true := MethodDecl.isCalled_iff.mpr rfl
  rw [← List.count_filter (l := d.explicit) hcalled, ← List.count_filter (l := d.complete) hcalled,
    h.complete]
  split
  · exact Nat.le_refl _
  · next hown =>
    rw [not_not.mp (mt ScriptEngine.mem_names_iff.mpr hown)]
    exact Nat.zero_le _

/-- Only interfaces are embedded. -/
theorem isSome_interface?_of_inheritAll {explicit acc complete : List MethodDecl}
    {embedded : List TypeId} (h : c.inheritAll explicit acc embedded = .ok complete)
    (he : e ∈ embedded) : (c.interface? e).isSome = true := by
  induction embedded generalizing acc with
  | nil => cases he
  | cons e' rest ih =>
    rw [inheritAll] at h
    split at h
    · next d hd =>
      rcases List.mem_cons.mp he with rfl | he
      · rw [hd]
        rfl
      · exact ih h he
    · cases h

/-- A new interface gathers what is there. -/
theorem gathers_of_interfaceOf {methods : List MethodDecl} {embedded : List TypeId}
    (hembedded : ∀ e ∈ embedded, (c.underlying e).index < c.size)
    (hnew : c.interfaceOf methods embedded = .ok (ty, c'))
    (hd : c'.decl? ty = some (.interface d)) : c.Gathers ty d := by
  unfold interfaceOf at hnew
  dsimp only at hnew
  split at hnew
  · next complete hcomplete =>
    cases hnew
    cases (decl?_push_next ..).symm.trans hd
    refine ⟨fun e he => ⟨isSome_interface?_of_inheritAll hcomplete he, hembedded e he⟩,
      fun name => ?_⟩
    rw [filter_sortByName, filter_inheritAll hcomplete name]
    split
    · exact List.append_nil _
    · next hown => rw [not_not.mp (mt ScriptEngine.mem_names_iff.mpr hown), List.nil_append]
  · cases hnew

/-- What an interface gathered, it keeps. -/
theorem Gathers.grows (h : c.Gathers ty d) (g : Grows c c') : c'.Gathers ty d := by
  have hkind : ∀ e ∈ d.embedded, c.kindOf e ≠ .invalid := fun e he => by
    rw [isSome_interface?.mp (h.embedded e he).1]
    nofun
  have hinherited : ∀ name, c'.inherited? d.embedded name = c.inherited? d.embedded name :=
    fun name => by
      rw [inherited?, inherited?, ← List.head?_filterMap, ← List.head?_filterMap]
      exact congrArg List.head? (List.filterMap_congr fun e he => by rw [g.interface? (hkind e he)])
  refine ⟨fun e he => ?_, fun name => ?_⟩
  · rw [g.interface? (hkind e he), (g.underlying (hkind e he)).1]
    exact h.embedded e he
  · rw [hinherited]
    exact h.complete name

/-! ### All interfaces -/

theorem gathered_empty : Gathered empty :=
  fun _ _ h => by simp [empty, decl?] at h

/-- **Every operation leaves the interfaces as they gathered their methods.** -/
theorem Gathered.declared {u : Universe} {op : Operation} (h : Gathered u.catalog)
    (hsound : Universe.Sound u) (inRange : op.InRange u)
    (g : Grows u.catalog (op.declared u.catalog)) : Gathered (op.declared u.catalog) := by
  intro ty d hd
  cases Operation.makes_of_declared hd with
  | kept hd => exact (h ty d hd).grows g
  | plain hnot => exact absurd rfl (hnot d)
  | interface hnew hd =>
    refine (gathers_of_interfaceOf (fun e he => ?_) hnew hd).grows g
    exact hsound.catalog.underlying_lt (inRange.types e (List.mem_append_right _ he))

/-- The interface that a type is or stands for gathered its methods. -/
theorem Gathered.of_interface? (h : Gathered c) (hd : c.interface? ty = some d) :
    c.Gathers (c.underlying ty) d :=
  h _ _ (decl?_of_interface? hd)

theorem Gathered.exists_interface? (h : Gathered c) (he : c.Embeds ty e) :
    ∃ i, c.interface? e = some i := by
  obtain ⟨d, hd, hmem⟩ := he
  exact Option.isSome_iff_exists.mp ((h.of_interface? hd).embedded e hmem).1

/-- **The names of a complete set pass on to the interfaces that embed it**, at any depth. -/
theorem Gathered.mem_names (h : Gathered c) (hembeds : Relation.TransGen c.Embeds ty e)
    (hd : c.interface? ty = some d) (hi : c.interface? e = some i)
    (hname : name ∈ i.complete.map (·.name)) : name ∈ d.complete.map (·.name) := by
  have hstep : ∀ {t e : TypeId} {d i : InterfaceDecl}, c.Embeds t e → c.interface? t = some d →
      c.interface? e = some i → name ∈ i.complete.map (·.name) →
        name ∈ d.complete.map (·.name) := by
    rintro t e d i ⟨d', hd', he⟩ hd hi hname
    cases hd.symm.trans hd'
    exact (h.of_interface? hd).mem_names_iff.mpr (.inr ⟨e, he, i, hi, hname⟩)
  induction hembeds generalizing i with
  | single he => exact hstep he hd hi hname
  | tail _ he ih =>
    obtain ⟨j, hj⟩ : ∃ j, c.interface? _ = some j := ⟨_, he.choose_spec.1⟩
    exact ih hj (hstep he hj hi hname)

/-- **What a complete set says is written in an interface at or below it.** -/
theorem Gathered.written (h : Gathered c) (hd : c.interface? ty = some d) (hm : m ∈ d.complete) :
    c.Writes ty m := by
  -- An embedded interface is older, whatever the age of the name that it is embedded by.
  induction hn : (c.underlying ty).index using Nat.strong_induction_on generalizing ty d with
  | _ n ih =>
    subst hn
    have hgathers := h.of_interface? hd
    rcases hgathers.own_or_inherited hm with hown | ⟨e, he, i, hi, hmem⟩
    · exact ⟨ty, d, .refl, hd, hown⟩
    · obtain ⟨t, j, hbelow, hj, hwritten⟩ := ih _ (hgathers.embedded e he).2 hi hmem rfl
      exact ⟨t, j, .head ⟨d, hd, he⟩ hbelow, hj, hwritten⟩

theorem Writes.of_embeds (hembeds : Relation.TransGen c.Embeds ty e) (h : c.Writes e m) :
    c.Writes ty m := by
  obtain ⟨t, d, hbelow, hd, hm⟩ := h
  exact ⟨t, d, hembeds.to_reflTransGen.trans hbelow, hd, hm⟩

end Catalog

/-- **The interfaces of a reachable universe are as they gathered their methods.** -/
theorem Universe.ReachableBy.gathered {allowed : Universe → Operation → Prop} {u : Universe}
    (h : ReachableBy allowed u) : u.catalog.Gathered :=
  h.keeps_declared Catalog.gathered_empty fun hsound inRange _ g hg =>
    hg.declared hsound inRange g

end ScriptEngine
