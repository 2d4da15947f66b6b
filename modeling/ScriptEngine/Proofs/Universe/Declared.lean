import ScriptEngine.Proofs.Universe.History

/-!
What operations do to the declared types.

Nine operations declare, and each does what the catalog's declaration of that name does, or nothing
if that fails; the others leave the catalog as it is (`catalog_perform`). `Operation.Makes` lists
how a type can come to be declared as it is, with the operation that interfaces and methods come
from. So what declarations keep, reachable catalogs have (`ReachableBy.keeps_declared`).
-/

namespace ScriptEngine

/-- The catalog after a declaration that may have failed. -/
def Catalog.orUnchanged {α : Type} (c : Catalog) : Except TypeError (α × Catalog) → Catalog
  | .ok (_, c') => c'
  | .error _ => c

/-- What an operation makes of the declared types. -/
def Operation.declared (c : Catalog) : Operation → Catalog
  | basic kind => (c.basic kind).2
  | pointerTo elem => (c.pointerTo elem).2
  | sliceOf elem => (c.sliceOf elem).2
  | funcOf sig => (c.funcOf sig).2
  | structOf fields => (c.structOf fields).2
  | interfaceOf methods embedded => c.orUnchanged (c.interfaceOf methods embedded)
  | declareNamed name pkg => c.orUnchanged (c.declareNamed name pkg)
  | setUnderlying ty underlying =>
    c.orUnchanged ((c.setUnderlying ty underlying).map fun c' => ((), c'))
  | addMethod ty m => c.orUnchanged (c.addMethod ty m)
  | _ => c

/-- How a type came to be declared as it is in the catalog after an operation. -/
inductive Operation.Makes (c : Catalog) (ty : TypeId) : Operation → TypeDecl → Prop where
  | kept {op : Operation} {d : TypeDecl} : c.decl? ty = some d → Makes c ty op d
  /-- A new type that is neither an interface nor a name. -/
  | plain {op : Operation} {d : TypeDecl} : (∀ i, d ≠ .interface i) → (∀ n, d ≠ .named n) →
      Makes c ty op d
  | interface {methods : List MethodDecl} {embedded : List TypeId} {c' : Catalog}
      {d : InterfaceDecl} : c.interfaceOf methods embedded = .ok (ty, c') →
      c'.decl? ty = some (.interface d) → Makes c ty (.interfaceOf methods embedded) (.interface d)
  | name {op : Operation} {n : NamedDecl} : n.underlying = none → n.methods = [] →
      Makes c ty op (.named n)
  | underlying {op : Operation} {n : NamedDecl} {u : TypeId} : c.decl? ty = some (.named n) →
      Makes c ty op (.named { n with underlying := some u })
  | method {m : MethodDecl} {i : Nat} {c' : Catalog} {n : NamedDecl} :
      c.addMethod ty m = .ok (i, c') → c'.decl? ty = some (.named n) →
      Makes c ty (.addMethod ty m) (.named n)

namespace Operation

variable {c c' : Catalog} {ty : TypeId} {d : TypeDecl} {op : Operation}

theorem makes_of_push {new : TypeDecl} (h : (c.push new).2.decl? ty = some d)
    (hnew : Makes c ty op new) : Makes c ty op d := by
  rcases Catalog.decl?_push h with ⟨-, rfl⟩ | hold
  · exact hnew
  · exact .kept hold

theorem makes_of_intern {new : TypeDecl} (h : (c.intern new).2.decl? ty = some d)
    (hnew : Makes c ty op new) : Makes c ty op d := by
  unfold Catalog.intern at h
  split at h
  · exact .kept h
  · exact makes_of_push h hnew

theorem makes_of_setUnderlying {t u : TypeId} (hset : c.setUnderlying t u = .ok c')
    (h : c'.decl? ty = some d) : Makes c ty op d := by
  unfold Catalog.setUnderlying at hset
  split at hset
  · cases hset
  split at hset
  · cases hset
  split at hset
  · cases hset
  next n hn =>
  split at hset
  · cases hset
  · cases hset
    have ht := Catalog.named?_eq_some.mp hn
    rcases Catalog.decl?_setNamed (Catalog.lt_size_of_decl? ht) h with ⟨rfl, rfl⟩ | ⟨-, hold⟩
    · exact .underlying ht
    · exact .kept hold

theorem makes_of_addMethod {t : TypeId} {m : MethodDecl} {i : Nat}
    (hadd : c.addMethod t m = .ok (i, c')) (h : c'.decl? ty = some d) :
    Makes c ty (.addMethod t m) d := by
  have hadd' := hadd
  unfold Catalog.addMethod at hadd'
  split at hadd'
  · cases hadd'
  next n hn =>
  dsimp only at hadd'
  split at hadd'
  · cases hadd'
  split at hadd'
  · cases hadd'
  split at hadd'
  · cases hadd'
    have ht := Catalog.named?_eq_some.mp hn
    rcases Catalog.decl?_setNamed (Catalog.lt_size_of_decl? ht) h with ⟨rfl, rfl⟩ | ⟨-, hold⟩
    · exact .method hadd h
    · exact .kept hold
  · cases hadd'

/-- **How a type can come to be declared as it is.** -/
theorem makes_of_declared (h : (op.declared c).decl? ty = some d) : Makes c ty op d := by
  cases op with
  | basic kind | pointerTo elem | sliceOf elem => exact makes_of_intern h (.plain nofun nofun)
  | funcOf sig | structOf fields => exact makes_of_push h (.plain nofun nofun)
  | interfaceOf methods embedded =>
    change (c.orUnchanged (c.interfaceOf methods embedded)).decl? ty = some d at h
    cases hnew : c.interfaceOf methods embedded with
    | error e =>
      rw [hnew] at h
      exact .kept h
    | ok made =>
      obtain ⟨t, c'⟩ := made
      rw [hnew] at h
      have hpushed := hnew
      unfold Catalog.interfaceOf at hpushed
      dsimp only at hpushed
      split at hpushed
      · cases hpushed
        rcases Catalog.decl?_push h with ⟨rfl, rfl⟩ | hold
        · exact .interface hnew (Catalog.decl?_push_next ..)
        · exact .kept hold
      · cases hpushed
  | declareNamed name pkg =>
    change (c.orUnchanged (c.declareNamed name pkg)).decl? ty = some d at h
    unfold Catalog.declareNamed at h
    split at h
    · exact .kept h
    · exact makes_of_push h (.name rfl rfl)
  | setUnderlying t u =>
    change (c.orUnchanged ((c.setUnderlying t u).map fun c' => ((), c'))).decl? ty = some d at h
    cases hset : c.setUnderlying t u with
    | error e =>
      rw [hset] at h
      exact .kept h
    | ok c' =>
      rw [hset] at h
      exact makes_of_setUnderlying hset h
  | addMethod t m =>
    change (c.orUnchanged (c.addMethod t m)).decl? ty = some d at h
    cases hadd : c.addMethod t m with
    | error e =>
      rw [hadd] at h
      exact .kept h
    | ok made =>
      rw [hadd] at h
      exact makes_of_addMethod hadd h
  | _ => exact .kept h

end Operation

namespace Universe

variable {u : Universe} {op : Operation}

theorem catalog_tryDeclare {α : Type} (f : Catalog → Except TypeError (α × Catalog))
    (u : Universe) :
    ((tryDeclare f).run.run u).2.catalog = u.catalog.orUnchanged (f u.catalog) := by
  have hends : Ends (tryDeclare f) u
      (fun _ v => v.catalog = u.catalog.orUnchanged (f u.catalog))
      fun _ v => v.catalog = u.catalog.orUnchanged (f u.catalog) := by
    refine ends_tryDeclare.mpr ⟨fun a c hc => ?_, fun e he => ?_⟩
    · rw [hc]
      rfl
    · rw [he]
      rfl
  exact hends.state

/-- **Operations declare what the catalog declares**, and all others leave it as it is. -/
theorem catalog_perform (h : Sound u) (inRange : op.InRange u) :
    (u.perform op).2.catalog = op.declared u.catalog := by
  have hsteps := perform_steps h inRange
  unfold perform at hsteps ⊢
  cases op with
  | basic | pointerTo | sliceOf | funcOf | structOf => rfl
  | interfaceOf | declareNamed | addMethod =>
    rw [Operation.run, run_discard_snd]
    exact catalog_tryDeclare _ u
  | setUnderlying => exact catalog_tryDeclare _ u
  | _ =>
    refine Steps.catalog_eq (fun ha => ?_) hsteps h
    simp [Operation.acts, Act.building, Act.resolving] at ha

/-- What every declaration keeps, the catalog of every reachable universe has. -/
theorem ReachableBy.keeps_declared {allowed : Universe → Operation → Prop} {P : Catalog → Prop}
    (hempty : P .empty)
    (hdeclared : ∀ {u op}, Sound u → op.InRange u → allowed u op →
      Catalog.Grows u.catalog (op.declared u.catalog) → P u.catalog → P (op.declared u.catalog))
    (h : ReachableBy allowed u) : P u.catalog := by
  induction h with
  | empty => exact hempty
  | step op before inRange hallowed ih =>
    have hcatalog := catalog_perform before.sound inRange
    have hgrows := (perform_steps before.sound inRange).grows
    rw [hcatalog] at hgrows ⊢
    exact hdeclared before.sound inRange hallowed hgrows ih

end Universe

end ScriptEngine
