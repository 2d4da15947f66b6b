import Mathlib
import ScriptEngine.Proofs.Types.Counting
import ScriptEngine.Proofs.Universe.Gathering

/-!
Method counters and what selectors can reach.

The number of methods along embedding paths bounds the number of names that the search finds, since
what it finds is counted. It can be larger: a name may be counted along several paths, a shallow
method hides deeper ones, and the methods of a name are counted, but have no indices, if the name
comes to stand for an interface after they were added. A history that adds methods only to names
that stand for something already has no such names (`ReachableBy.grounded`). Main statement:
`method_counts`.
-/

namespace ScriptEngine

namespace Catalog

/-- A name that has methods stands for a type that is no interface. -/
def Grounded (c : Catalog) : Prop :=
  ∀ ty d, c.decl? ty = some (.named d) → d.methods ≠ [] →
    c.kindOf ty ≠ .invalid ∧ c.kindOf ty ≠ .interface

variable {c c' : Catalog} {ty : TypeId}

theorem grounded_empty : Grounded empty :=
  fun _ _ h => by simp [empty, decl?] at h

/-- Then all declared methods have indices. -/
theorem Grounded.declaredMethods (h : c.Grounded) (ty : TypeId) :
    c.declaredMethods ty = c.methods ty := by
  unfold Catalog.declaredMethods namedMethods interfaceMethods methods
  cases hi : c.interface? ty with
  | none => cases c.named? ty <;> simp
  | some d =>
    cases hn : c.named? ty with
    | none => rfl
    | some n =>
      have hnil : n.methods = [] := by
        by_contra hmethods
        exact (h ty n (named?_eq_some.mp hn) hmethods).2
          (isSome_interface?.mp (Option.isSome_of_eq_some hi))
      simp [hnil]

/-- A name that stands for something has a kind. -/
theorem WellFormed.kindOf_ne_invalid_of_underlying (wf : c.WellFormed) {n : NamedDecl}
    (hn : c.decl? ty = some (.named n)) (hu : n.underlying.isSome = true) :
    c.kindOf ty ≠ .invalid := by
  obtain ⟨u, hu⟩ := Option.isSome_iff_exists.mp hu
  obtain ⟨hlt, hunnamed⟩ := wf.underlying_unnamed ty n hn u hu
  obtain ⟨d, hd⟩ := exists_decl? hlt
  refine kindOf_ne_invalid.mpr ⟨d, by rw [underlying_of_named hn hu, hd], fun n' hn' => ?_⟩
  rw [isNamed_iff.mpr ⟨n', hn' ▸ hd⟩] at hunnamed
  cases hunnamed

/-- Methods are not added to interfaces. -/
theorem kindOf_ne_interface_of_addMethod {m : MethodDecl} {i : Nat}
    (h : c.addMethod ty m = .ok (i, c')) : c.kindOf ty ≠ .interface := by
  unfold addMethod at h
  split at h
  · cases h
  dsimp only at h
  split at h
  · cases h
  next hrefuses =>
  rintro hkind
  simp [hkind, refusesMethods] at hrefuses

/-! ### Counters -/

theorem numExplicitMethod_le_numMethod (h : c.Gathered) (ty : TypeId) :
    c.numExplicitMethod ty ≤ c.numMethod ty := by
  unfold numExplicitMethod numMethod methods
  cases hi : c.interface? ty with
  | none => cases c.named? ty <;> simp
  | some d => exact (h.of_interface? hi).subperm.length_le

theorem WellFormed.numMethod_le_numAllMethod (wf : c.WellFormed) (ty : TypeId) :
    c.numMethod ty ≤ c.numAllMethod ty := by
  rw [numAllMethod, ← length_counted, wf.counted_eq (by simp), if_neg (List.not_mem_nil),
    List.length_append, List.length_map]
  refine Nat.le_add_right_of_le ?_
  unfold numMethod methods declaredMethods namedMethods interfaceMethods
  cases c.interface? ty <;> cases c.named? ty <;> simp

end Catalog

namespace Universe

/-- A method is added only to a name that stands for a type already. -/
def addsWhenSet (u : Universe) : Operation → Bool
  | .addMethod ty m => match u.catalog.addMethod ty m with
    | .ok _ => (u.catalog.named? ty).any (·.underlying.isSome)
    | .error _ => true
  | _ => true

variable {u : Universe}

/-- **Then names with methods stand for types that are no interfaces.** -/
theorem ReachableBy.grounded (h : ReachableBy (fun u op => u.addsWhenSet op = true) u) :
    u.catalog.Grounded := by
  refine h.keeps_declared Catalog.grounded_empty ?_
  intro u op hsound _ hadds g hgrounded ty n hn hne
  have hkind : u.catalog.kindOf ty ≠ .invalid ∧ u.catalog.kindOf ty ≠ .interface := by
    cases Operation.makes_of_declared hn with
    | kept hold => exact hgrounded ty n hold hne
    | plain _ hnot => exact absurd rfl (hnot n)
    | name _ hnil => exact absurd hnil hne
    | underlying hold => exact hgrounded ty _ hold hne
    | method hadd _ =>
      rw [addsWhenSet, hadd] at hadds
      obtain ⟨d, hd, hset⟩ := (Option.any_eq_true ..).mp hadds
      exact ⟨hsound.catalog.kindOf_ne_invalid_of_underlying (Catalog.named?_eq_some.mp hd) hset,
        Catalog.kindOf_ne_interface_of_addMethod hadd⟩
  rwa [g.kindOf hkind.1]

/-- **Method counters bound what selection can reach.** The methods that a type writes are among its
methods, and these among those along its embedding paths. The search finds at most as many names
as there are methods along the paths; exactly as many if no two of them have one name and methods
were only added to names that stood for a type already. -/
theorem method_counts (h : u.Reachable) (ty : TypeId) :
    u.catalog.numExplicitMethod ty ≤ u.catalog.numMethod ty ∧
    u.catalog.numMethod ty ≤ u.catalog.numAllMethod ty ∧
    (u.catalog.countedNames ty).length = u.catalog.numAllMethod (u.catalog.stripPointer ty) ∧
    {name | (u.catalog.findMethod ty name).isSome = true}.encard ≤
      u.catalog.numAllMethod (u.catalog.stripPointer ty) ∧
    (ReachableBy (fun u op => u.addsWhenSet op = true) u → (u.catalog.countedNames ty).Nodup →
      {name | (u.catalog.findMethod ty name).isSome = true}.encard =
        u.catalog.numAllMethod (u.catalog.stripPointer ty)) := by
  have hlength := u.catalog.length_countedNames ty
  have hsub : {name | (u.catalog.findMethod ty name).isSome = true} ⊆
      ↑(u.catalog.countedNames ty).toFinset := fun name hname =>
    List.mem_toFinset.mpr (h.wellFormed.mem_countedNames hname)
  refine ⟨Catalog.numExplicitMethod_le_numMethod h.gathered ty,
    h.wellFormed.numMethod_le_numAllMethod ty, hlength, ?_, fun hadds hnodup => ?_⟩
  · rw [← hlength]
    refine (Set.encard_le_encard hsub).trans ?_
    rw [Set.encard_coe_eq_coe_finsetCard]
    exact Nat.cast_le.mpr (List.toFinset_card_le _)
  · have heq : {name | (u.catalog.findMethod ty name).isSome = true} =
        ↑(u.catalog.countedNames ty).toFinset := hsub.antisymm fun name hname =>
      h.wellFormed.findMethod_of_mem_countedNames hadds.grounded.declaredMethods hnodup
        (List.mem_toFinset.mp hname)
    rw [heq, Set.encard_coe_eq_coe_finsetCard, List.toFinset_card_of_nodup hnodup, hlength]

/-- `type S struct{}` with `func (s S) A()`, `interface { B() }` under the name `I`, and
`type T struct { S; I; *T }` with `func (t T) C()`. -/
def countable : Universe := after [
  .structOf [],
  .declareNamed "S" none,
  .setUnderlying ⟨1⟩ ⟨0⟩,
  .addMethod ⟨1⟩ ⟨"A", none, ⟨none, [], [], false⟩⟩,
  .interfaceOf [⟨"B", none, ⟨none, [], [], false⟩⟩] [],
  .declareNamed "I" none,
  .setUnderlying ⟨3⟩ ⟨2⟩,
  .declareNamed "T" none,
  .pointerTo ⟨4⟩,
  .structOf [⟨"S", ⟨1⟩, true⟩, ⟨"I", ⟨3⟩, true⟩, ⟨"T", ⟨5⟩, true⟩],
  .setUnderlying ⟨4⟩ ⟨6⟩,
  .addMethod ⟨4⟩ ⟨"C", none, ⟨none, [], [], false⟩⟩]

/-- `T` has one method and counts three, though it embeds itself; three names are found. -/
theorem method_counts_countable :
    ReachableBy (fun u op => u.addsWhenSet op = true) countable ∧
      (countable.catalog.countedNames ⟨4⟩).Nodup ∧
      countable.catalog.numExplicitMethod ⟨4⟩ = 1 ∧ countable.catalog.numMethod ⟨4⟩ = 1 ∧
      countable.catalog.numAllMethod ⟨4⟩ = 3 ∧
      {name | (countable.catalog.findMethod ⟨4⟩ name).isSome = true}.encard = 3 := by
  have hreach : ReachableBy (fun u op => u.addsWhenSet op = true) countable :=
    reachableBy_after (by cbv)
  have hnames : countable.catalog.countedNames ⟨4⟩ = ["C", "A", "B"] := by cbv
  have hnodup : (countable.catalog.countedNames ⟨4⟩).Nodup := by
    rw [hnames]
    decide
  have hstrip : countable.catalog.stripPointer ⟨4⟩ = ⟨4⟩ := by cbv
  obtain ⟨-, -, hlength, -, hequal⟩ := method_counts hreach.reachable ⟨4⟩
  rw [hnames, hstrip] at hlength
  refine ⟨hreach, hnodup, by cbv, by cbv, hlength.symm, ?_⟩
  rw [hequal hreach hnodup, hstrip, ← hlength]
  rfl

end Universe

end ScriptEngine
