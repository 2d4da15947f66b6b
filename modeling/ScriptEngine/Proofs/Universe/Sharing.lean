import Mathlib
import ScriptEngine.Proofs.Universe.History

/-!
Clients that share a universe.

A client that asks for a method looks at the cache first and, on a miss, resolves the method later;
in between, other clients may do the same (`Section`). `Caches` compares what is cached before and
after: nothing is lost, and the counters rise by exactly what is new. Main statement: whatever the
order of the clients' sections, answers to the same question agree unless one of them is that the
type is incomplete, and each slot and each descriptor is made once (`clients_agree`).
-/

namespace ScriptEngine

/-! ### Counting what is new -/

/-- Between `had` and `has` the counter rose from `n` to `n'`, once for each that is new. -/
def Counts {α : Type} (had has : α → Prop) (n n' : Nat) : Prop :=
  ∃ new : Finset α, (∀ x, x ∈ new ↔ ¬ had x ∧ has x) ∧ n' = n + new.card

section Counts

variable {α : Type} {p q r : α → Prop} {n n' n'' : Nat}

theorem Counts.of_iff (h : ∀ x, q x ↔ p x) : Counts p q n n :=
  ⟨∅, fun x => by simp [h], by simp⟩

theorem Counts.one {x : α} (hnew : ¬ p x) (h : ∀ y, q y ↔ y = x ∨ p y) : Counts p q n (n + 1) := by
  refine ⟨{x}, fun y => ?_, by simp⟩
  rw [Finset.mem_singleton, h]
  constructor
  · rintro rfl
    exact ⟨hnew, .inl rfl⟩
  · rintro ⟨hy, heq | hp⟩
    · exact heq
    · exact absurd hp hy

theorem Counts.trans (hpq : ∀ x, p x → q x) (hqr : ∀ x, q x → r x) (h : Counts p q n n')
    (h' : Counts q r n' n'') : Counts p r n n'' := by
  classical
  obtain ⟨new, hnew, rfl⟩ := h
  obtain ⟨new', hnew', rfl⟩ := h'
  have hdisjoint : Disjoint new new' := by
    rw [Finset.disjoint_left]
    intro x hx hx'
    exact ((hnew' x).mp hx').1 ((hnew x).mp hx).2
  refine ⟨new ∪ new', fun x => ?_, by rw [Finset.card_union_of_disjoint hdisjoint, Nat.add_assoc]⟩
  rw [Finset.mem_union, hnew, hnew']
  constructor
  · rintro (⟨hp, hq⟩ | ⟨hq, hr⟩)
    · exact ⟨hp, hqr x hq⟩
    · exact ⟨fun hp => hq (hpq x hp), hr⟩
  · rintro ⟨hp, hr⟩
    by_cases hq : q x
    · exact .inl ⟨hp, hq⟩
    · exact .inr ⟨hq, hr⟩

end Counts

namespace Universe

/-- The slot of a method is filled. -/
def Filled (u : Universe) (method : TypeId × Nat) : Prop :=
  (u.slot? method.1 method.2).isSome = true

/-- The type has a descriptor. -/
def Described (u : Universe) (ty : TypeId) : Prop :=
  (u.descriptors.find? ty).isSome = true

/-- What is cached in `u` is cached in `u'`, and the counters rose by what is new. -/
structure Caches (u u' : Universe) : Prop where
  slot : ∀ ty index slot, u.slot? ty index = some slot → u'.slot? ty index = some slot
  descriptor : ∀ ty d, u.descriptors.find? ty = some d →
    ∃ d', u'.descriptors.find? ty = some d' ∧ d'.repr = d.repr
  filled : Counts u.Filled u'.Filled u.synthesized u'.synthesized
  described : Counts u.Described u'.Described u.descriptors.size u'.descriptors.size

section Caches

variable {u u' u'' : Universe} {ty : TypeId} {index : Nat} {a : Act} {A : Set Act}

theorem Caches.of_eq (hdescriptors : u'.descriptors = u.descriptors)
    (hsynthesized : u'.synthesized = u.synthesized) : Caches u u' := by
  have hslot : ∀ ty index, u'.slot? ty index = u.slot? ty index := fun ty index => by
    rw [slot?, slot?, hdescriptors]
  refine ⟨fun ty index slot h => by rw [hslot, h], fun ty d hd => ?_, ?_, ?_⟩
  · exact ⟨d, by rw [hdescriptors, hd], rfl⟩
  · rw [hsynthesized]
    exact .of_iff fun x => by rw [Filled, Filled, hslot]
  · rw [hdescriptors]
    exact .of_iff fun ty => by rw [Described, Described, hdescriptors]

theorem Caches.refl (u : Universe) : Caches u u :=
  .of_eq rfl rfl

theorem Caches.filled_mono (h : Caches u u') {method : TypeId × Nat} (hm : u.Filled method) :
    u'.Filled method := by
  obtain ⟨slot, hslot⟩ := Option.isSome_iff_exists.mp hm
  rw [Filled, h.slot _ _ slot hslot]
  rfl

theorem Caches.described_mono (h : Caches u u') (hd : u.Described ty) : u'.Described ty := by
  obtain ⟨d, hd⟩ := Option.isSome_iff_exists.mp hd
  obtain ⟨d', hd', -⟩ := h.descriptor ty d hd
  rw [Described, hd']
  rfl

theorem Caches.trans (h : Caches u u') (h' : Caches u' u'') : Caches u u'' where
  slot ty index slot hslot := h'.slot ty index slot (h.slot ty index slot hslot)
  descriptor ty d hd := by
    obtain ⟨d', hd', hrepr⟩ := h.descriptor ty d hd
    obtain ⟨d'', hd'', hrepr'⟩ := h'.descriptor ty d' hd'
    exact ⟨d'', hd'', hrepr'.trans hrepr⟩
  filled := h.filled.trans (fun _ => h.filled_mono) (fun _ => h'.filled_mono) h'.filled
  described :=
    h.described.trans (fun _ => h.described_mono) (fun _ => h'.described_mono) h'.described

/-- Writing a descriptor of the same representation back. -/
theorem Caches.setDescriptor {d : Descriptor} (d' : Descriptor) {synthesized : Nat}
    (hd : u.descriptors.find? ty = some d) (hrepr : d'.repr = d.repr)
    (hslot : ∀ n i slot, u.slot? n i = some slot →
      slot? { u with descriptors := u.descriptors.set ty d', synthesized } n i = some slot)
    (hfilled : Counts u.Filled
      (Filled { u with descriptors := u.descriptors.set ty d', synthesized })
      u.synthesized synthesized) :
    Caches u { u with descriptors := u.descriptors.set ty d', synthesized } := by
  have hfind : ∀ n e, u.descriptors.find? n = some e →
      ∃ e', (u.descriptors.set ty d').find? n = some e' ∧ e'.repr = e.repr := by
    intro n e he
    by_cases hn : n = ty
    · subst hn
      obtain rfl := Option.some.inj (hd.symm.trans he)
      exact ⟨d', Assoc.find?_set_self .., hrepr⟩
    · exact ⟨e, by rw [Assoc.find?_set_of_ne _ hn, he], rfl⟩
  refine ⟨hslot, hfind, hfilled, ?_⟩
  rw [Assoc.size_set, hd, Option.isSome_some, if_pos rfl]
  refine .of_iff fun n => ?_
  unfold Described
  constructor
  · intro hn
    by_cases heq : n = ty
    · rw [heq, hd]
      rfl
    · rwa [Assoc.find?_set_of_ne _ heq] at hn
  · intro hn
    obtain ⟨e, he⟩ := Option.isSome_iff_exists.mp hn
    obtain ⟨e', he', -⟩ := hfind n e he
    rw [he']
    rfl

/-- **Steps without declarations and bindings lose nothing that is cached.** -/
theorem Step.caches (s : Step u a u') (ha : a ∈ Act.quiet) (h : Sound u) : Caches u u' := by
  have hslot : ∀ n i, a ≠ .fill n i → u'.slot? n i = u.slot? n i := fun n i hne =>
    s.slot?_eq ha.2 hne h
  cases s with
  | declare => exact absurd rfl ha.1
  | bind => exact absurd rfl ha.2
  | build | breakOff | intern | native | allocate => exact .of_eq rfl rfl
  | describe ty r fresh built =>
    refine ⟨fun n i slot hs => by rw [hslot n i nofun, hs], fun n d hd => ⟨d, ?_, rfl⟩,
      .of_iff fun x => by rw [Filled, Filled, hslot _ _ nofun], ?_⟩
    · rw [Assoc.find?_set_of_ne _ ?_, hd]
      rintro rfl
      cases fresh.symm.trans hd
    · rw [Assoc.size_set, fresh]
      refine .one (x := ty) (by simp [Described, fresh]) fun n => ?_
      unfold Described
      by_cases hn : n = ty
      · simp [hn]
      · simp [hn, Assoc.find?_set_of_ne _ hn]
  | resize ty d hd =>
    exact .setDescriptor _ hd rfl (fun n i slot hs => by rw [hslot n i nofun, hs])
      (.of_iff fun x => by rw [Filled, Filled, hslot _ _ nofun])
  | fill ty index m d slot hd hempty hlt =>
    have hself : slot? { u with
        descriptors := u.descriptors.set ty (d.fill index slot)
        synthesized := u.synthesized + 1 } ty index = some slot := by
      rw [slot?_set_self, Descriptor.slot?_fill_self hlt]
    have hnone : u.slot? ty index = none := by rw [slot?, hd, Option.bind_some, hempty]
    have hother : ∀ n i, (n, i) ≠ (ty, index) → slot? { u with
        descriptors := u.descriptors.set ty (d.fill index slot)
        synthesized := u.synthesized + 1 } n i = u.slot? n i := by
      intro n i hne
      refine hslot n i fun heq => hne ?_
      cases heq
      rfl
    refine .setDescriptor _ hd rfl (fun n i slot' hs => ?_) (.one (x := (ty, index)) ?_ fun x => ?_)
    · rw [hother n i, hs]
      rintro ⟨⟩
      cases hnone.symm.trans hs
    · simp [Filled, hnone]
    · unfold Filled
      by_cases hx : x = (ty, index)
      · simp [hx, hself]
      · simp [hx, hother x.1 x.2 hx]

theorem Steps.caches (hA : A ⊆ Act.quiet) (s : Steps A u u') (h : Sound u) : Caches u u' :=
  (s.keeps (P := fun v => Caches u v)
    (fun ha step hv hc => hc.trans (step.caches (hA ha) hv)) h (.refl u)).2

end Caches

/-! ### Clients -/

/-- The question for the method at an index of a type. -/
structure Query where
  ty : TypeId
  index : Nat
  deriving DecidableEq

/-- A universe with its clients: the method that each waits to resolve, if any, and the answers that
were given. -/
structure Shared (Client : Type) where
  types : Universe
  waiting : Client → Option Query
  answered : List (Query × Except TypeError Method)

/-- All clients are at rest, and nothing was asked. -/
def Shared.start (Client : Type) (u : Universe) : Shared Client :=
  ⟨u, fun _ => none, []⟩

section Clients

variable {Client : Type} [DecidableEq Client]

/-- What a client does under a lock. -/
inductive Section (s : Shared Client) : Shared Client → Prop where
  /-- The cache tells the answer. -/
  | hit (client : Client) (q : Query) (answer : Except TypeError Method) :
      s.waiting client = none → s.types.cached? q.ty q.index = some answer →
      Section s { s with answered := (q, answer) :: s.answered }
  /-- The cache does not tell, so the method is left to be resolved. -/
  | miss (client : Client) (q : Query) :
      s.waiting client = none → s.types.cached? q.ty q.index = none →
      Section s { s with waiting := Function.update s.waiting client (some q) }
  /-- The method is resolved. -/
  | resolve (client : Client) (q : Query) : s.waiting client = some q →
      Section s {
        types := ((resolve q.ty q.index).run.run s.types).2
        waiting := Function.update s.waiting client none
        answered := (q, ((resolve q.ty q.index).run.run s.types).1) :: s.answered }

/-- Any number of sections of any clients. -/
abbrev Sections : Shared Client → Shared Client → Prop :=
  Relation.ReflTransGen Section

/-- A hit is answered as it stands. -/
theorem run_method_of_hit {u : Universe} {ty : TypeId} {index : Nat}
    {answer : Except TypeError Method} (h : u.cached? ty index = some answer) :
    (method ty index).run.run u = (answer, u) := by
  apply Ends.run_eq
  unfold method
  rw [ends_bind, ends_get, h]
  exact ends_ofExcept.mpr ⟨fun a ha => by rw [ha], fun e he => by rw [he]⟩

/-- A miss is resolved. -/
theorem run_method_of_miss {u : Universe} {ty : TypeId} {index : Nat}
    (h : u.cached? ty index = none) :
    (method ty index).run.run u = (resolve ty index).run.run u := by
  apply Ends.run_eq
  unfold method
  rw [ends_bind, ends_get, h]
  exact ends_self (resolve ty index) u

/-- A client whom nobody interrupts is answered as `method` says. -/
theorem sections_method (s : Shared Client) (client : Client) (q : Query)
    (hrest : s.waiting client = none) :
    Sections s { s with
      types := ((method q.ty q.index).run.run s.types).2
      answered := (q, ((method q.ty q.index).run.run s.types).1) :: s.answered } := by
  cases hcached : s.types.cached? q.ty q.index with
  | some answer =>
    rw [run_method_of_hit hcached]
    exact .single (.hit client q answer hrest hcached)
  | none =>
    rw [run_method_of_miss hcached]
    let missed := { s with waiting := Function.update s.waiting client (some q) }
    have hwait := Section.resolve (s := missed) client q (Function.update_self ..)
    have hsame : Function.update missed.waiting client none = s.waiting := by
      rw [Function.update_idem, ← hrest, Function.update_eq_self]
    rw [hsame] at hwait
    exact .tail (.single (.miss client q hrest hcached)) hwait

variable {u : Universe} {s s' : Shared Client}

/-- What is resolved is resolved later as well. -/
theorem Resolves.later {u' u'' : Universe} {ty : TypeId} {index : Nat}
    {answered : Except TypeError Method} {A : Set Act} (hresolves : Resolves u ty index answered u')
    (hA : A ⊆ Act.quiet) (s : Steps A u' u'') (h : Sound u') :
    Resolves u ty index answered u'' where
  answer := hresolves.answer
  decided hcomplete := by
    obtain ⟨hdecided, hanswer⟩ := hresolves.decided hcomplete
    obtain ⟨hdecided', hsame⟩ := Steps.answer_eq hA s h hdecided
    exact ⟨hdecided', hsame.trans hanswer⟩
  kept method hmethod hcacheable := by
    have hfilled : u'.Filled (ty, index) := hresolves.kept method hmethod hcacheable
    exact (Steps.caches hA s h).filled_mono hfilled

/-- Since the universe was `u`, it took steps without declarations and bindings, and what was
answered was resolved on the way. -/
structure Serves (u : Universe) (s : Shared Client) : Prop where
  steps : Steps Act.quiet u s.types
  answered : ∀ e ∈ s.answered, ∃ v, v.catalog = u.catalog ∧ Resolves v e.1.ty e.1.index e.2 s.types

theorem Serves.section (h : Sound u) (hs : Serves u s) (step : Section s s') : Serves u s' := by
  have hsound := Steps.sound hs.steps h
  have hcatalog : s.types.catalog = u.catalog := Steps.catalog_eq (by simp [Act.quiet]) hs.steps h
  cases step with
  | hit client q answer _ hcached =>
    refine ⟨hs.steps, List.forall_mem_cons.mpr ⟨⟨_, hcatalog, ?_⟩, hs.answered⟩⟩
    exact resolves_of_cached? hsound hcached
  | miss => exact ⟨hs.steps, hs.answered⟩
  | resolve client q _ =>
    obtain ⟨s', hresolves⟩ := resolves_resolve hsound q.ty q.index
    refine ⟨hs.steps.trans s', List.forall_mem_cons.mpr ⟨⟨_, hcatalog, hresolves⟩, fun e he => ?_⟩⟩
    obtain ⟨v, hv, hresolves'⟩ := hs.answered e he
    exact ⟨v, hv, hresolves'.later subset_rfl s' hsound⟩

theorem Serves.sections (h : Sound u) (run : Sections (.start Client u) s) : Serves u s := by
  induction run with
  | refl => exact ⟨.refl, nofun⟩
  | tail _ step ih => exact ih.section h step

/-- **Clients that share a universe agree**: answers to the same question are the same, unless one
of them is that the type is incomplete. Whatever the order of their sections, each slot and each
descriptor is made and counted once, and what can be kept is kept. -/
theorem clients_agree (h : u.Reachable) (run : Sections (.start Client u) s) :
    (∀ q answer answer', (q, answer) ∈ s.answered → (q, answer') ∈ s.answered →
      (∀ e, answer = .error e ∨ answer' = .error e → e.isIncomplete = false) → answer = answer') ∧
    Caches u s.types ∧
    (∀ q method, (q, .ok method) ∈ s.answered → Cacheable u.catalog method →
      s.types.Filled (q.ty, q.index)) := by
  have hs := Serves.sections h.sound run
  refine ⟨fun q answer answer' hq hq' hcomplete => ?_, Steps.caches subset_rfl hs.steps h.sound,
    fun q method hq hcacheable => ?_⟩
  · obtain ⟨v, -, hresolves⟩ := hs.answered _ hq
    obtain ⟨v', -, hresolves'⟩ := hs.answered _ hq'
    have hanswer := (hresolves.decided fun e he => hcomplete e (.inl he)).2
    have hanswer' := (hresolves'.decided fun e he => hcomplete e (.inr he)).2
    exact hanswer.symm.trans hanswer'
  · obtain ⟨v, hv, hresolves⟩ := hs.answered _ hq
    exact hresolves.kept method rfl (hv ▸ hcacheable)

end Clients

/-- `type N struct { next *N; m M }` before `M` is complete, and `interface { Get(n *N) }`. -/
def unfinishedInterface : Universe := after [
  .declareNamed "N" none,
  .declareNamed "M" none,
  .pointerTo ⟨0⟩,
  .structOf [⟨"next", ⟨2⟩, false⟩, ⟨"m", ⟨1⟩, false⟩],
  .setUnderlying ⟨0⟩ ⟨3⟩,
  .interfaceOf [⟨"Get", none, ⟨none, [⟨2⟩], [], false⟩⟩] []]

/-- Two clients miss the method, and each resolves it. The first is told that `M` is incomplete;
what that attempt left behind lets the second one succeed, and then the first one too. -/
theorem clients_agree_unfinishedInterface : unfinishedInterface.Reachable ∧
    ∃ (s : Shared Bool) (method : Method), Sections (.start Bool unfinishedInterface) s ∧
      s.answered = [(⟨⟨4⟩, 0⟩, .ok method), (⟨⟨4⟩, 0⟩, .ok method),
        (⟨⟨4⟩, 0⟩, .error (.incompleteType "M"))] ∧
      Caches unfinishedInterface s.types ∧ s.types.Filled (⟨4⟩, 0) := by
  have hreach : unfinishedInterface.Reachable := reachable_after (by cbv)
  let method : Method := ⟨⟨4⟩, 0, ⟨"Get", none, ⟨some ⟨4⟩, [⟨2⟩], [], false⟩⟩,
    some ⟨⟨some ⟨4⟩, [⟨2⟩], [], false⟩, ⟨[⟨7⟩, ⟨4⟩], [], false⟩⟩, none⟩
  have hmiss : unfinishedInterface.cached? ⟨4⟩ 0 = none := by cbv
  have hfirst : ((resolve ⟨4⟩ 0).run.run unfinishedInterface).1 = .error (.incompleteType "M") := by
    cbv
  have hsecond : ((resolve ⟨4⟩ 0).run.run ((resolve ⟨4⟩ 0).run.run unfinishedInterface).2).1 =
      .ok method := by cbv
  have hhit : ((resolve ⟨4⟩ 0).run.run ((resolve ⟨4⟩ 0).run.run unfinishedInterface).2).2.cached?
      ⟨4⟩ 0 = some (.ok method) := by cbv
  have missed : Sections (.start Bool unfinishedInterface) _ :=
    .tail (.single (.miss false ⟨⟨4⟩, 0⟩ rfl hmiss)) (.miss true ⟨⟨4⟩, 0⟩ rfl hmiss)
  have resolved := (missed.tail (.resolve false ⟨⟨4⟩, 0⟩ rfl)).tail (.resolve true ⟨⟨4⟩, 0⟩ rfl)
  have run := resolved.tail (.hit false ⟨⟨4⟩, 0⟩ (.ok method) rfl hhit)
  obtain ⟨-, hcaches, hkept⟩ := clients_agree hreach run
  refine ⟨hreach, _, method, run, ?_, hcaches, ?_⟩
  · simp only [Shared.start, hfirst, hsecond]
  · exact hkept ⟨⟨4⟩, 0⟩ method (List.mem_cons_self ..) (.inl (by cbv))

end Universe

end ScriptEngine
