import ScriptEngine.Proofs.Universe.Gathering

/-!
Declarations that succeed or leave no trace.

A universe finds types in three ways: by handle, by name, and, for the types that are declared once
each, by declaration (`Catalog.interned?`). A declaration that succeeds changes one of its types, or
adds one, and what is found in these ways of everything else stays (`Catalog.Spares`); one that
fails leaves the universe itself (`Universe.Atomic`). Main statement: `declarations_are_atomic`.
-/

namespace ScriptEngine

/-- What an array finds first depends on nothing but what is looked for at each position. -/
theorem Array.findIdx?_setIfInBounds {α : Type} {xs : Array α} {i : Nat} {a b : α}
    {p : α → Bool} (ha : xs[i]? = some a) (hp : p b = p a) :
    (xs.setIfInBounds i b).findIdx? p = xs.findIdx? p := by
  have hmap : (xs.setIfInBounds i b).map p = xs.map p := by
    apply Array.ext_getElem?
    intro j
    rw [Array.getElem?_map, Array.getElem?_map, Array.getElem?_setIfInBounds]
    split
    · next hij =>
      subst hij
      rw [ha, if_pos (Array.getElem?_eq_some_iff.mp ha).1, Option.map_some, Option.map_some, hp]
    · rfl
  have hid : ∀ ys : Array α, (ys.map p).findIdx? id = ys.findIdx? p := fun ys =>
    Array.findIdx?_map
  rw [← hid, hmap, hid]

namespace Catalog

variable {c c' : Catalog} {ty : TypeId}

/-! ### What is found in a catalog -/

/-- The type that has a declaration, if there is one. -/
def interned? (c : Catalog) (d : TypeDecl) : Option TypeId :=
  (c.decls.findIdx? (· == d)).map TypeId.mk

/-- The declarations that are made once each. -/
inductive DeclaredOnce : TypeDecl → Prop where
  | basic (kind : BasicKind) : DeclaredOnce (.basic kind)
  | pointer (elem : TypeId) : DeclaredOnce (.pointer elem)
  | slice (elem : TypeId) : DeclaredOnce (.slice elem)

/-- Nothing is found otherwise in `c'` than in `c`, but for the type `ty` and the name `entered`. -/
structure Spares (c : Catalog) (ty : TypeId) (entered : Option String) (c' : Catalog) : Prop where
  decls : ∀ t, t ≠ ty → c'.decl? t = c.decl? t
  names : ∀ name, some name ≠ entered → c'.lookupNamed name = c.lookupNamed name
  interned : ∀ d, DeclaredOnce d → c'.interned? d = c.interned? d

/-- `c'` has one type that `c` has not: `ty`, declared as `d`. -/
structure Adds (c : Catalog) (ty : TypeId) (d : TypeDecl) (entered : Option String)
    (c' : Catalog) : Prop extends Spares c ty entered c' where
  next : ty = c.next
  size : c'.size = c.size + 1
  decl : c'.decl? ty = some d

/-- The name `ty` is declared as `d` in `c` and as `d'` in `c'`. -/
structure Renews (c : Catalog) (ty : TypeId) (d d' : NamedDecl) (c' : Catalog) : Prop extends
    Spares c ty none c' where
  size : c'.size = c.size
  before : c.decl? ty = some (.named d)
  after : c'.decl? ty = some (.named d')

/-- A new type is found in no other way than it must be. -/
theorem adds_push {d : TypeDecl} {entered : Option String} (hd : ¬ DeclaredOnce d)
    (hname : ∀ n, d = .named n → entered = some n.name) : c.Adds c.next d entered (c.push d).2 where
  decls t ht := by
    have hne : t.index ≠ c.decls.size := fun heq => ht (congrArg TypeId.mk heq)
    simp [push, decl?, Array.getElem?_push, hne]
  names name hne := by
    unfold lookupNamed push
    rw [Array.findIdx?_push, if_neg, Option.or_none]
    cases d with
    | named n =>
      intro heq
      exact hne ((congrArg some (beq_iff_eq.mp heq)).symm.trans (hname n rfl).symm)
    | _ => exact Bool.false_ne_true
  interned e he := by
    unfold interned? push
    rw [Array.findIdx?_push, if_neg, Option.or_none]
    intro heq
    rw [beq_iff_eq.mp heq] at hd
    exact hd he
  next := rfl
  size := Array.size_push ..
  decl := decl?_push_next c d

/-- A name that is not in use is found once it is declared. -/
theorem lookupNamed_push {n : NamedDecl} (h : c.lookupNamed n.name = none) :
    (c.push (.named n)).2.lookupNamed n.name = some c.next := by
  unfold lookupNamed push at *
  rw [Option.map_eq_none_iff] at h
  rw [Array.findIdx?_push, h, Option.none_or, if_pos (beq_self_eq_true n.name)]
  rfl

/-- A name is found whatever it stands for and whatever methods it has. -/
theorem renews_setNamed {d d' : NamedDecl} (hd : c.decl? ty = some (.named d))
    (hname : d'.name = d.name) : c.Renews ty d d' (c.setNamed ty d') where
  decls t ht := decl?_setNamed_of_ne ht d'
  names name _ :=
    congrArg (Option.map TypeId.mk) (Array.findIdx?_setIfInBounds hd (by simp only [hname]))
  interned e he := by
    refine congrArg (Option.map TypeId.mk) (Array.findIdx?_setIfInBounds hd ?_)
    cases he <;> rfl
  size := size_setNamed ..
  before := hd
  after := decl?_setNamed_self (lt_size_of_decl? hd) d'

/-! ### The declarations -/

/-- Methods are inherited exactly from interfaces. -/
theorem exists_inheritAll_iff {explicit acc : List MethodDecl} {embedded : List TypeId} :
    (∃ complete, c.inheritAll explicit acc embedded = .ok complete) ↔
      ∀ e ∈ embedded, (c.interface? e).isSome = true := by
  refine ⟨fun ⟨_, h⟩ e he => isSome_interface?_of_inheritAll h he, fun h => ?_⟩
  induction embedded generalizing acc with
  | nil => exact ⟨acc, rfl⟩
  | cons e rest ih =>
    obtain ⟨d, hd⟩ := Option.isSome_iff_exists.mp (h e (List.mem_cons_self ..))
    rw [inheritAll, hd]
    exact ih fun e' he' => h e' (List.mem_cons_of_mem _ he')

/-- What a type that is set as underlying type must be: anything but a name that stands for nothing
yet. -/
def IsSettled (c : Catalog) (ty : TypeId) : Prop :=
  ∀ d, c.named? ty = some d → d.underlying ≠ none

theorem resolveUnderlying_of_isSettled (h : c.IsSettled ty) :
    c.resolveUnderlying ty = .ok (c.underlying ty) := by
  unfold resolveUnderlying underlying named?
  cases hd : c.decl? ty with
  | none => rfl
  | some d =>
    cases d with
    | named n =>
      cases hu : n.underlying with
      | none => exact absurd hu (h n (named?_eq_some.mpr hd))
      | some u => simp [hu]
    | _ => rfl

theorem exists_resolveUnderlying_error (h : ¬ c.IsSettled ty) :
    ∃ e, c.resolveUnderlying ty = .error e := by
  unfold IsSettled at h
  push Not at h
  obtain ⟨d, hd, hu⟩ := h
  refine ⟨.incompleteType (c.typeName ty), ?_⟩
  simp only [resolveUnderlying, hd, hu]

/-- The name `ty` can be told what it stands for: `underlying`. -/
structure CanStandFor (c : Catalog) (ty underlying : TypeId) : Prop where
  ne : ty ≠ underlying
  settled : c.IsSettled underlying
  unset : ∃ d, c.named? ty = some d ∧ d.underlying = none

/-- A method can be added to the name `ty`. -/
structure Takes (c : Catalog) (ty : TypeId) (m : MethodDecl) : Prop where
  owner : refusesMethods (c.kindOf ty) = false
  fresh : ∃ d, c.named? ty = some d ∧ ∀ m' ∈ d.methods, m'.name ≠ m.name
  receiver : c.isReceiverOf (m.sig.recv.getD ty) ty = true

end Catalog

namespace Universe

variable {α : Type} {u : Universe}

/-- `x` succeeds in `u` exactly if `allowed` holds. Then it answers and leaves a catalog as `Done`
says, and the rest of the universe as it was; otherwise it leaves `u`. -/
def Atomic (u : Universe) (x : UniverseM α) (allowed : Prop) (Done : α → Catalog → Prop) : Prop :=
  (allowed ∧ ∃ a c, x.run.run u = (.ok a, { u with catalog := c }) ∧ Done a c) ∨
    (¬ allowed ∧ ∃ e, x.run.run u = (.error e, u))

theorem atomic_of_ok {f : Catalog → Except TypeError (α × Catalog)} {allowed : Prop}
    {Done : α → Catalog → Prop} {a : α} {c : Catalog} (h : f u.catalog = .ok (a, c))
    (hallowed : allowed) (hdone : Done a c) : u.Atomic (tryDeclare f) allowed Done := by
  refine .inl ⟨hallowed, a, c, Ends.run_eq (ends_tryDeclare.mpr ⟨?_, ?_⟩), hdone⟩
  · rintro a' c' h'
    cases h.symm.trans h'
    rfl
  · rintro e h'
    cases h.symm.trans h'

theorem atomic_of_error {f : Catalog → Except TypeError (α × Catalog)} {allowed : Prop}
    {Done : α → Catalog → Prop} {e : TypeError} (h : f u.catalog = .error e)
    (hallowed : ¬ allowed) : u.Atomic (tryDeclare f) allowed Done := by
  refine .inr ⟨hallowed, e, Ends.run_eq (ends_tryDeclare.mpr ⟨?_, ?_⟩)⟩
  · rintro a' c' h'
    cases h.symm.trans h'
  · rintro e' h'
    cases h.symm.trans h'
    rfl

theorem atomic_interfaceOf (methods : List MethodDecl) (embedded : List TypeId) :
    u.Atomic (interfaceOf methods embedded)
      (∀ e ∈ embedded, (u.catalog.interface? e).isSome = true)
      fun ty c => ∃ d, u.catalog.Adds ty (.interface d) none c ∧ d.embedded = embedded ∧
        d.explicit = sortByName (Catalog.ownMethods ty methods) := by
  set own := sortByName (Catalog.ownMethods u.catalog.next methods) with hown
  have hnew : u.catalog.interfaceOf methods embedded =
      (u.catalog.inheritAll own own embedded).map fun complete =>
        u.catalog.push (.interface ⟨own, embedded, sortByName complete⟩) := by
    unfold Catalog.interfaceOf
    dsimp only
    split
    · next complete h =>
      rw [show u.catalog.inheritAll own own embedded = .ok complete from h]
      rfl
    · next e h =>
      rw [show u.catalog.inheritAll own own embedded = .error e from h]
      rfl
  cases hall : u.catalog.inheritAll own own embedded with
  | ok complete =>
    rw [hall] at hnew
    refine atomic_of_ok hnew (Catalog.exists_inheritAll_iff.mp ⟨complete, hall⟩)
      ⟨_, Catalog.adds_push (by rintro ⟨⟩) nofun, rfl, hown⟩
  | error e =>
    rw [hall] at hnew
    refine atomic_of_error hnew fun hinterfaces => ?_
    obtain ⟨complete, hok⟩ := Catalog.exists_inheritAll_iff.mpr hinterfaces
    cases hall.symm.trans hok

theorem atomic_declareNamed (name : String) (pkg : Option String) :
    u.Atomic (declareNamed name pkg) (u.catalog.lookupNamed name = none)
      fun ty c => u.catalog.Adds ty (.named ⟨name, pkg, none, []⟩) (some name) c ∧
        c.lookupNamed name = some ty := by
  cases hname : u.catalog.lookupNamed name with
  | none =>
    have hnew : u.catalog.declareNamed name pkg =
        .ok (u.catalog.push (.named ⟨name, pkg, none, []⟩)) := by
      simp only [Catalog.declareNamed, hname]
    refine atomic_of_ok hnew rfl ⟨Catalog.adds_push ?_ ?_, ?_⟩
    · rintro ⟨⟩
    · rintro n ⟨⟩
      rfl
    · exact Catalog.lookupNamed_push (n := ⟨name, pkg, none, []⟩) hname
  | some ty =>
    exact atomic_of_error (by rw [Catalog.declareNamed, hname]) nofun

theorem atomic_setUnderlying (ty underlying : TypeId) :
    u.Atomic (setUnderlying ty underlying) (u.catalog.CanStandFor ty underlying)
      fun _ c => ∃ d, d.underlying = none ∧
        u.catalog.Renews ty d { d with underlying := some (u.catalog.underlying underlying) } c := by
  have hfails : ∀ {e}, u.catalog.setUnderlying ty underlying = .error e →
      (u.catalog.setUnderlying ty underlying).map (((), ·)) = .error e := fun h => by rw [h]; rfl
  by_cases hself : ty = underlying
  · exact atomic_of_error (hfails (by rw [Catalog.setUnderlying, if_pos hself]))
      fun h => h.ne hself
  by_cases hsettled : u.catalog.IsSettled underlying
  · have hresolve := Catalog.resolveUnderlying_of_isSettled hsettled
    cases hn : u.catalog.named? ty with
    | none =>
      refine atomic_of_error (hfails (by
        rw [Catalog.setUnderlying, if_neg hself, hresolve, hn])) fun h => ?_
      obtain ⟨d, hd, -⟩ := h.unset
      cases hn.symm.trans hd
    | some d =>
      cases hu : d.underlying with
      | some v =>
        refine atomic_of_error (hfails (by
          simp only [Catalog.setUnderlying, if_neg hself, hresolve, hn, hu, Option.isSome_some,
            if_true]
          rfl)) fun h => ?_
        obtain ⟨d', hd', hnone⟩ := h.unset
        cases hn.symm.trans hd'
        cases hu.symm.trans hnone
      | none =>
        refine atomic_of_ok (a := ()) ?_ ⟨hself, hsettled, d, hn, hu⟩
          ⟨d, hu, Catalog.renews_setNamed (Catalog.named?_eq_some.mp hn) rfl⟩
        simp only [Catalog.setUnderlying, if_neg hself, hresolve, hn, hu]
        rfl
  · obtain ⟨e, hresolve⟩ := Catalog.exists_resolveUnderlying_error hsettled
    exact atomic_of_error (hfails (by rw [Catalog.setUnderlying, if_neg hself, hresolve]))
      fun h => hsettled h.settled

theorem atomic_addMethod (ty : TypeId) (m : MethodDecl) :
    u.Atomic (addMethod ty m) (u.catalog.Takes ty m)
      fun index c => ∃ d, index = d.methods.length ∧ u.catalog.Renews ty d { d with
        methods := d.methods ++
          [{ m with sig := { m.sig with recv := some (m.sig.recv.getD ty) } }] } c := by
  cases hn : u.catalog.named? ty with
  | none =>
    refine atomic_of_error (by rw [Catalog.addMethod, hn]) fun h => ?_
    obtain ⟨d, hd, -⟩ := h.fresh
    cases hn.symm.trans hd
  | some d =>
    have hadd := Catalog.addMethod.eq_def u.catalog ty m
    rw [hn] at hadd
    dsimp only at hadd
    by_cases howner : Catalog.refusesMethods (u.catalog.kindOf ty) = true
    · rw [if_pos howner] at hadd
      exact atomic_of_error hadd fun h => Bool.eq_false_iff.mp h.owner howner
    by_cases htaken : d.methods.any (·.name == m.name) = true
    · rw [if_neg howner, if_pos htaken] at hadd
      refine atomic_of_error hadd fun h => ?_
      obtain ⟨d', hd', hfresh⟩ := h.fresh
      cases hn.symm.trans hd'
      obtain ⟨m', hm', heq⟩ := List.any_eq_true.mp htaken
      exact hfresh m' hm' (beq_iff_eq.mp heq)
    by_cases hrecv : u.catalog.isReceiverOf (m.sig.recv.getD ty) ty = true
    · rw [if_neg howner, if_neg htaken, if_pos hrecv] at hadd
      have hfresh : ∀ m' ∈ d.methods, m'.name ≠ m.name := fun m' hm' heq =>
        htaken (List.any_eq_true.mpr ⟨m', hm', beq_iff_eq.mpr heq⟩)
      exact atomic_of_ok hadd ⟨Bool.eq_false_iff.mpr howner, ⟨d, hn, hfresh⟩, hrecv⟩
        ⟨d, rfl, Catalog.renews_setNamed (Catalog.named?_eq_some.mp hn) rfl⟩
    · rw [if_neg howner, if_neg htaken, if_neg hrecv] at hadd
      exact atomic_of_error hadd fun h => hrecv h.receiver

/-- **Declarations are atomic.** In every universe, each of the four declarations that can fail
either fails and leaves the universe as it was, or changes only what it names. A new interface is
one new type, whose own methods have it as their receiver; it is refused exactly if it embeds what
is no interface. A new name is one new type and one name that finds it; it is refused exactly if the
name is in use. What a name stands for is set once, and a method is put at the end of those of its
type; nothing else is found otherwise than before. -/
theorem declarations_are_atomic (u : Universe) :
    (∀ methods embedded, u.Atomic (interfaceOf methods embedded)
      (∀ e ∈ embedded, (u.catalog.interface? e).isSome = true)
      fun ty c => ∃ d, u.catalog.Adds ty (.interface d) none c ∧ d.embedded = embedded ∧
        d.explicit = sortByName (Catalog.ownMethods ty methods)) ∧
    (∀ name pkg, u.Atomic (declareNamed name pkg) (u.catalog.lookupNamed name = none)
      fun ty c => u.catalog.Adds ty (.named ⟨name, pkg, none, []⟩) (some name) c ∧
        c.lookupNamed name = some ty) ∧
    (∀ ty underlying, u.Atomic (setUnderlying ty underlying)
      (u.catalog.CanStandFor ty underlying)
      fun _ c => ∃ d, d.underlying = none ∧ u.catalog.Renews ty d
        { d with underlying := some (u.catalog.underlying underlying) } c) ∧
    ∀ ty m, u.Atomic (addMethod ty m) (u.catalog.Takes ty m)
      fun index c => ∃ d, index = d.methods.length ∧ u.catalog.Renews ty d { d with
        methods := d.methods ++
          [{ m with sig := { m.sig with recv := some (m.sig.recv.getD ty) } }] } c :=
  ⟨atomic_interfaceOf, atomic_declareNamed, atomic_setUnderlying, atomic_addMethod⟩

end Universe

end ScriptEngine
