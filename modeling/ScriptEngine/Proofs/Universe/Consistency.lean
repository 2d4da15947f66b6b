import Mathlib
import ScriptEngine.Proofs.Universe.History

/-!
When the representations of a universe are consistent.

A universe is `Consistent` if no type is represented by something that reaches a placeholder, and if
the representation of pointers to a type is the pointer to its representation. Building that breaks
off leaves placeholders behind and keeps what was built on them, so not every reachable universe is
consistent. It is exactly if no recorded representation reaches a placeholder (`Settled`), and it
always is if no operation failed for want of an underlying type (`consistent_iff_settled`).
-/

namespace ScriptEngine

theorem ReprTable.Grounded.mono {t : ReprTable} {G G' : ReprId → Prop} (hG : ∀ r, G r → G' r)
    {r : ReprId} (h : t.Grounded G r) : t.Grounded G' r := by
  induction h with
  | ground hr => exact .ground (hG _ hr)
  | node hkind _ ih => exact .node hkind ih

namespace ReprM

/-- A pointer to a recorded type is built by interning the pointer to what is recorded. -/
theorem ends_build_pointer {c : Catalog} (wf : c.WellFormed) {ptr ty : TypeId} {r : ReprId}
    {t : ReprTable} {V : ReprId → ReprTable → Prop} {X : TypeError → ReprTable → Prop}
    (hptr : c.decl? ptr = some (.pointer ty)) (hnone : t.built.find? ptr = none)
    (h : t.built.find? ty = some r) :
    Ends (build c [] ptr) t V X ↔
      V (t.pointerTo r).1 ((t.pointerTo r).2.record ptr (t.pointerTo r).1)
    := by
  have holder : ty.index < ptr.index := wf.parts_lt ptr _ hptr ty (List.mem_singleton_self _)
  rw [build]
  split
  · next hopen => cases hopen
  rw [ends_bind, ends_get]
  split
  · next r' hr' =>
    rw [hnone] at hr'
    cases hr'
  split
  · next hd =>
    rw [hptr] at hd
    cases hd
  · next d hd =>
    rw [hptr] at hd
    cases hd
  · next d _ hd =>
    rw [hptr] at hd
    obtain rfl := Option.some.inj hd
    rw [ends_bind, assemble, ends_bind, dif_pos holder, ends_build_recorded h]
    exact Iff.rfl

end ReprM

namespace Universe

/-- The representations of a type and of pointers to it fit together and are finished. -/
def Consistent (u : Universe) : Prop :=
  ∀ ty r u', (reprOf ty).run.run u = (.ok r, u') →
    (∀ r', u'.reprs.Reaches r r' → u'.reprs.kind r' ≠ .invalid) ∧
    ∃ ptr u₁ u₂, (pointerTo ty >>= reprOf).run.run u' = (.ok ptr, u₁) ∧
      (pointerToRepr r).run.run u' = (.ok ptr, u₂) ∧ (pointerToRepr r).run.run u₁ = (.ok ptr, u₁)

/-- No recorded representation reaches a placeholder. -/
def Settled (u : Universe) : Prop :=
  ∀ ty r, u.reprs.built.find? ty = some r →
    ∀ r', u.reprs.Reaches r r' → u.reprs.kind r' ≠ .invalid

variable {u u' : Universe} {ty : TypeId} {r : ReprId}

theorem exists_run_of_reprOf (run : (reprOf ty).run.run u = (.ok r, u')) :
    ∃ t, (ReprM.reprOf u.catalog ty).run.run u.reprs = (.ok r, t) ∧
      u' = { u with reprs := t } := by
  have hends : Ends (reprOf ty) u (fun r u' =>
      ∃ t, (ReprM.reprOf u.catalog ty).run.run u.reprs = (.ok r, t) ∧ u' = { u with reprs := t })
      fun _ _ => True :=
    ends_onReprs.mpr (Ends.mono (ends_self ..) (fun _ t h => ⟨t, h, rfl⟩) fun _ _ _ => trivial)
  exact hends.ok run

/-- In a settled universe, a type that can be represented reaches no placeholder. -/
theorem Settled.kind_ne (h : Sound u) (hsettled : Settled u) {t : ReprTable}
    (hb : Builds True u.catalog [] u.reprs t) (hr : t.built.find? ty = some r) {r' : ReprId}
    (hreach : t.Reaches r r') : t.kind r' ≠ .invalid := by
  -- What was there reaches no placeholder, and what is new is structural down to what is recorded.
  let clean := fun x => ∀ y, u.reprs.Reaches x y → u.reprs.kind y ≠ .invalid
  let ground := fun x => clean x ∨ ∃ n, t.built.find? n = some x
  have hclean : ∀ x, clean x →
      t.kind x ≠ .invalid ∧ ∀ p ∈ (t.kind x).parts, t.Grounded ground p := by
    intro x hx
    have hkind : t.kind x = u.reprs.kind x :=
      hb.extended.kind_eq (ReprTable.lt_size_of_kind (hx x .refl))
    rw [hkind]
    exact ⟨hx x .refl, fun p hp => .ground (.inl fun y hy => hx y (.head hp hy))⟩
  have hunnamed : ∀ n x, u.catalog.isNamed n = false → t.built.find? n = some x →
      t.kind x ≠ .invalid ∧ ∀ p ∈ (t.kind x).parts, t.Grounded ground p := by
    intro n x hn hx
    rcases hb.made n x hx with hold | hmade
    · exact hclean x (hsettled n x hold)
    · cases hmade with
      | unnamed d hd _ hrep =>
        refine ⟨hrep.kind_ne, fun p hp => (hrep.grounded p hp).mono ?_⟩
        exact fun y ⟨q, _, hq⟩ => .inr ⟨q, hq.current⟩
      | named d _ _ hd =>
        rw [Catalog.isNamed_iff.mpr ⟨d, hd⟩] at hn
        cases hn
  refine ReprTable.Grounded.kind_ne (G := ground) (fun x hx => ?_) (.ground (.inr ⟨ty, hr⟩)) hreach
  rcases hx with hx | ⟨n, hx⟩
  · exact hclean x hx
  · rcases hb.made n x hx with hold | hmade
    · exact hclean x (hsettled n x hold)
    · cases hmade with
      | unnamed d hd hn hrep => exact hunnamed n x hn hx
      | named d v source hd hv hsource hkind _ =>
        rw [hkind]
        exact hunnamed v source (h.catalog.underlying_unnamed n d hd v hv).2 hsource

/-- In a settled universe, what is recorded for pointers to a type is the pointer to its
representation. -/
theorem Settled.interned_pointer (h : Sound u) (hsettled : Settled u) {t : ReprTable}
    (hb : Builds True u.catalog [] u.reprs t) (hr : t.built.find? ty = some r) {ptr : TypeId}
    {q : ReprId} (hptr : ∀ d, u.catalog.decl? ptr = some d → d = .pointer ty)
    (hq : t.built.find? ptr = some q) : t.Interned (.pointer r) q := by
  have hmade : ∀ {c : Catalog} {s : ReprTable} {cur : TypeId → ReprId → Prop},
      (∀ d, c.decl? ptr = some d → d = .pointer ty) → Made c s cur ptr q →
        ∃ x, cur ty x ∧ s.Interned (.pointer x) q := by
    intro c s cur hptr hmade
    cases hmade with
    | unnamed d hd _ hrep =>
      obtain rfl := hptr d hd
      cases hrep with
      | pointer hx hq => exact ⟨_, hx, hq⟩
    | named d _ _ hd => cases hptr _ hd
  rcases hb.made ptr q hq with hold | hnew
  · rcases h.recorded ptr q hold with hnew | ⟨hiface, -⟩
    · obtain ⟨x, hx, hinterned⟩ := hmade hptr hnew
      have hinterned' := hinterned.mono (h.reprs.carries hb.extended)
      rcases hx with hx | ⟨-, d, hd, hkind⟩
      · have hx' := hb.extended.built ty x hx
        rw [hr] at hx'
        obtain rfl := Option.some.inj hx'
        exact hinterned'
      · refine absurd ?_ (hsettled ptr q hold x (.single ?_))
        · rw [ReprTable.kind_of_get? hd, hkind]
        · rw [hinterned.kind_eq]
          exact List.mem_singleton_self x
    · cases hd : u.catalog.decl? ptr with
      | none => simp [Catalog.interface?, Catalog.underlying, hd] at hiface
      | some d =>
        obtain rfl := hptr d hd
        simp [Catalog.interface?, Catalog.underlying, hd] at hiface
  · obtain ⟨x, hx, hinterned⟩ := hmade hptr hnew
    have hx' := hx.current
    rw [show t.current? [] ty = t.built.find? ty from rfl, hr] at hx'
    obtain rfl := Option.some.inj hx'
    exact hinterned

/-- What is recorded is declared. -/
theorem Sound.lt_size_of_recorded (h : Sound u) (hr : u.reprs.built.find? ty = some r) :
    ty.index < u.catalog.size := by
  rcases h.recorded ty r hr with hmade | ⟨hiface, -⟩
  · cases hmade with
    | unnamed d hd => exact Catalog.lt_size_of_decl? hd
    | named d _ _ hd => exact Catalog.lt_size_of_decl? hd
  · cases hd : u.catalog.decl? ty with
    | none => simp [Catalog.interface?, Catalog.underlying, hd] at hiface
    | some d => exact Catalog.lt_size_of_decl? hd

/-- In a settled universe, the representation of pointers to a represented type is the pointer to
its representation. -/
theorem Settled.ends_pointer (h : Sound u) (hsettled : Settled u) {t : ReprTable}
    (hb : Builds True u.catalog [] u.reprs t) (hr : t.built.find? ty = some r) :
    Ends (pointerTo ty >>= reprOf) { u with reprs := t }
      (fun q u₁ => q = (t.pointerTo r).1 ∧ u₁.reprs.Interned (.pointer r) q)
      (fun _ _ => False) := by
  have hsound := h.builds hb
  have hchange := Catalog.change_pointerTo (hsound.lt_size_of_recorded hr)
  have hptr : (u.catalog.pointerTo ty).2.decl? (u.catalog.pointerTo ty).1 = some (.pointer ty) :=
    u.catalog.decl?_intern _
  have hold : ∀ d, u.catalog.decl? (u.catalog.pointerTo ty).1 = some d → d = .pointer ty := by
    intro d hd
    cases hn : u.catalog.isNamed (u.catalog.pointerTo ty).1 with
    | false =>
      have hd' := hchange.grows.unnamed _ d hd hn
      exact Option.some.inj (hd'.symm.trans hptr)
    | true =>
      obtain ⟨n, hn⟩ := Catalog.isNamed_iff.mp hn
      obtain ⟨n', hn', -⟩ := hchange.grows.named _ n hn
      cases hn'.symm.trans hptr
  refine ends_bind.mpr ((ends_modifyGet _).mpr (ends_onReprs.mpr ?_))
  cases hq : t.built.find? (u.catalog.pointerTo ty).1 with
  | some q =>
    have hinterned := hsettled.interned_pointer h hb hr hold hq
    refine (ReprM.ends_build_recorded hq).mpr ⟨?_, hinterned⟩
    rw [ReprTable.pointerTo, hinterned.intern]
  | none =>
    refine (ReprM.ends_build_pointer (hchange.wellFormed h.catalog) hptr hq hr).mpr ⟨rfl, ?_⟩
    have hinterned := t.interned_intern (.pointer r)
    exact ⟨hinterned.entry, hinterned.first⟩

theorem Settled.consistent (h : Sound u) (hsettled : Settled u) : Consistent u := by
  intro ty r u' run
  obtain ⟨t, hrun, rfl⟩ := exists_run_of_reprOf run
  obtain ⟨hb, hr⟩ := h.builds_of_ok hrun
  refine ⟨fun r' hreach => hsettled.kind_ne h hb hr hreach, ?_⟩
  obtain ⟨q, u₁, hptr, rfl, hinterned⟩ := (hsettled.ends_pointer h hb hr).exists_ok
  refine ⟨_, u₁, _, hptr, rfl, ?_⟩
  show (Except.ok (u₁.reprs.pointerTo r).1, { u₁ with reprs := (u₁.reprs.pointerTo r).2 }) = _
  rw [show u₁.reprs.pointerTo r = _ from hinterned.intern]

/-- A consistent universe is settled: what is recorded is the representation of its type. -/
theorem Consistent.settled (hconsistent : Consistent u) : Settled u := by
  intro ty r hr
  exact (hconsistent ty r u (run_reprOf_recorded hr)).1

/-- Without placeholders, no recorded representation reaches one. -/
theorem Finished.settled (h : Sound u) (hfinished : Finished u) : Settled u := by
  intro ty r hr r' hreach
  refine hfinished r' ?_
  induction hreach with
  | refl => exact ReprTable.lt_size_of_kind (h.reprs.finished ty r hr)
  | tail _ hpart _ => exact h.reprs.bounds _ _ hpart

/-- **A reachable universe is consistent exactly if no recorded representation reaches a
placeholder**, and always if no operation failed for want of an underlying type. -/
theorem consistent_iff_settled {u : Universe} (h : u.Reachable) :
    (u.Consistent ↔ u.Settled) ∧ (u.Unbroken → u.Consistent) :=
  ⟨⟨Consistent.settled, Settled.consistent h.sound⟩, fun hunbroken =>
    Settled.consistent h.sound (hunbroken.finished.settled h.sound)⟩

/-- A name that stands for a struct with a pointer to itself, asked for before another field is
complete: `type N struct { next *N; m M }` with `type M int` declared too late. -/
def interrupted : Universe := after [
  .declareNamed "N" none,
  .declareNamed "M" none,
  .pointerTo ⟨0⟩,
  .structOf [⟨"next", ⟨2⟩, false⟩, ⟨"m", ⟨1⟩, false⟩],
  .setUnderlying ⟨0⟩ ⟨3⟩,
  .reprOf ⟨0⟩,
  .basic .int,
  .setUnderlying ⟨1⟩ ⟨4⟩]

/-- The same declarations, and the representation asked for at the end. -/
def uninterrupted : Universe := after [
  .declareNamed "N" none,
  .declareNamed "M" none,
  .pointerTo ⟨0⟩,
  .structOf [⟨"next", ⟨2⟩, false⟩, ⟨"m", ⟨1⟩, false⟩],
  .setUnderlying ⟨0⟩ ⟨3⟩,
  .basic .int,
  .setUnderlying ⟨1⟩ ⟨4⟩,
  .reprOf ⟨0⟩]

/-- The interrupted request leaves a placeholder recorded for pointers to the name. -/
theorem consistent_uninterrupted : interrupted.Reachable ∧ ¬ interrupted.Consistent ∧
    uninterrupted.Unbroken ∧ uninterrupted.Consistent := by
  have hbroken : interrupted.Reachable := reachable_after (by cbv)
  have hwhole : uninterrupted.Unbroken := reachableBy_after (by cbv)
  refine ⟨hbroken, fun hconsistent => ?_, hwhole, ?_⟩
  · have hsettled := (consistent_iff_settled hbroken).1.mp hconsistent
    have hrecorded : interrupted.reprs.built.find? ⟨2⟩ = some ⟨1⟩ := by cbv
    have hpart : ReprId.mk 0 ∈ (interrupted.reprs.kind ⟨1⟩).parts := by
      rw [show interrupted.reprs.kind ⟨1⟩ = .pointer ⟨0⟩ by cbv]
      exact List.mem_singleton_self _
    have hkind : interrupted.reprs.kind ⟨0⟩ = .invalid := by cbv
    exact hsettled ⟨2⟩ ⟨1⟩ hrecorded ⟨0⟩ (.single hpart) hkind
  · exact (consistent_iff_settled hwhole.reachable).2 hwhole

end Universe

end ScriptEngine
