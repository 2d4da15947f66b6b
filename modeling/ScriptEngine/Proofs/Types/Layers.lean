import ScriptEngine.Proofs.Types.WellFormed

/-!
What declarations mention, receivers included.

The parts of a type are declared before it (`Catalog.WellFormed`). `Layered` says so of what else
declarations mention: an interface's own methods have the interface as their receiver and mention
older types, each method of its complete set is written in an interface that is no younger, and
what functions and the methods of names mention is declared. Main statements: every declaration
keeps this (`Change.layered`); everything a declaration mentions is declared (`mentions_lt`), what
an unnamed type is composed of is older (`components_lt`), and indexed methods have receivers
(`isSome_recv_of_mem_methods`).
-/

namespace ScriptEngine.Catalog

/-- Every type that a declaration mentions. -/
def mentions : TypeDecl → List TypeId
  | .func sig => sig.types
  | .interface d =>
    d.embedded ++ (d.explicit.flatMap (·.sig.types) ++ d.complete.flatMap (·.sig.types))
  | .named d => d.underlying.toList ++ d.methods.flatMap (·.sig.types)
  | d => parts d

/-- The types that a declaration is composed of as it is written. An interface is written with its
own methods only, and without their receivers; a name is composed of nothing. -/
def components : TypeDecl → List TypeId
  | .interface d => d.embedded ++ d.explicit.flatMap fun m => m.sig.params ++ m.sig.results
  | d => parts d

/-- What is known of the types that declarations mention besides their parts. -/
structure Layered (c : Catalog) : Prop where
  own : ∀ ty d, c.decl? ty = some (.interface d) → ∀ m ∈ d.explicit,
    m.sig.recv = some ty ∧ ∀ p ∈ m.sig.params ++ m.sig.results, p.index < ty.index
  complete : ∀ ty d, c.decl? ty = some (.interface d) → ∀ m ∈ d.complete,
    ∃ recv i, recv.index ≤ ty.index ∧ m.sig.recv = some recv ∧
      c.decl? recv = some (.interface i) ∧ m ∈ i.explicit
  func : ∀ ty sig, c.decl? ty = some (.func sig) → ∀ p ∈ sig.types, p.index < c.size
  methods : ∀ ty d, c.decl? ty = some (.named d) → ∀ m ∈ d.methods, ∀ p ∈ m.sig.types,
    p.index < c.size

theorem layered_empty : Layered empty where
  own _ _ h := by simp [empty, decl?] at h
  complete _ _ h := by simp [empty, decl?] at h
  func _ _ h := by simp [empty, decl?] at h
  methods _ _ h := by simp [empty, decl?] at h

/-! ### Changes -/

section Changes

variable {c c' : Catalog} {ty : TypeId}

/-- **A change keeps a catalog layered.** -/
theorem Change.layered (h : Change c c') (hl : Layered c) : Layered c' := by
  have hgrow : ∀ {p : TypeId}, p.index < c.size → p.index < c'.size := fun hp =>
    Nat.lt_of_lt_of_le hp h.grows.size_le
  have hsame : ∀ {t : TypeId} {i : InterfaceDecl}, c.decl? t = some (.interface i) →
      c'.decl? t = some (.interface i) := fun hi =>
    h.grows.unnamed _ _ hi (isNamed_eq_false hi (by simp))
  refine ⟨fun ty d hd => ?_, fun ty d hd m hm => ?_, fun ty sig hd p hp => ?_,
    fun ty d hn m hm p hp => ?_⟩
  · rcases h.of_unnamed hd (by simp) with hold | ⟨rfl, -, hcollects⟩
    · exact hl.own ty d hold
    · exact hcollects.own
  · rcases h.of_unnamed hd (by simp) with hold | ⟨rfl, -, hcollects⟩
    · obtain ⟨recv, i, hle, hrecv, hi, hmem⟩ := hl.complete ty d hold m hm
      exact ⟨recv, i, hle, hrecv, hsame hi, hmem⟩
    · rcases hcollects.complete m hm with hown | ⟨e, -, i, he, hmem⟩
      · exact ⟨c.next, d, Nat.le_refl _, (hcollects.own m hown).1, hd, hown⟩
      · -- An embedded interface is declared already, and so are those its methods are written in.
        obtain ⟨recv, j, hle, hrecv, hj, hwritten⟩ :=
          hl.complete _ i (decl?_of_interface? he) m hmem
        exact ⟨recv, j, Nat.le_of_lt (lt_size_of_decl? hj), hrecv, hsame hj, hwritten⟩
  · rcases h.of_unnamed hd (by simp) with hold | ⟨-, -, hadmits⟩
    · exact hgrow (hl.func ty sig hold p hp)
    · exact hgrow (hadmits p hp)
  · cases h.of_named hn with
    | new _ _ hnil =>
      rw [hnil] at hm
      cases hm
    | kept _ hd => exact hgrow (hl.methods ty d hd m hm p hp)
    | underlying n₀ _ hd => exact hgrow (hl.methods ty n₀ hd m hm p hp)
    | method n₀ m₀ _ hd _ _ _ htypes =>
      rcases List.mem_append.mp hm with hm | hm
      · exact hgrow (hl.methods ty n₀ hd m hm p hp)
      · rw [List.mem_singleton.mp hm] at hp
        exact hgrow (htypes p hp)

end Changes

/-! ### Layered catalogs -/

section Layered

variable {c : Catalog} {ty p : TypeId} {d : TypeDecl}

/-- Where the methods of a complete set are written, they mention older types. -/
theorem Layered.lt_size_of_complete (hl : Layered c) {d : InterfaceDecl}
    (hd : c.decl? ty = some (.interface d)) {m : MethodDecl} (hm : m ∈ d.complete)
    (hp : p ∈ m.sig.types) : p.index < c.size := by
  obtain ⟨recv, i, -, hrecv, hi, hwritten⟩ := hl.complete ty d hd m hm
  have hlt := lt_size_of_decl? hi
  rw [Signature.types, List.append_assoc, hrecv] at hp
  rcases List.mem_cons.mp hp with rfl | hp
  · exact hlt
  · exact Nat.lt_trans ((hl.own recv i hi m hwritten).2 p hp) hlt

/-- **What a declaration mentions is declared.** -/
theorem WellFormed.mentions_lt (wf : WellFormed c) (hl : Layered c) (hd : c.decl? ty = some d)
    (hp : p ∈ mentions d) : p.index < c.size := by
  have hpart : ∀ {q}, q ∈ parts d → q.index < c.size := fun hq =>
    Nat.lt_trans (wf.parts_lt ty d hd _ hq) (lt_size_of_decl? hd)
  cases d with
  | basic | pointer | slice | struct => exact hpart hp
  | func sig => exact hl.func ty sig hd p hp
  | interface d =>
    rcases List.mem_append.mp hp with hp | hp
    · exact hpart (List.mem_append_left _ hp)
    rcases List.mem_append.mp hp with hp | hp
    · obtain ⟨m, hm, hp⟩ := List.mem_flatMap.mp hp
      obtain ⟨hrecv, hlt⟩ := hl.own ty d hd m hm
      rw [Signature.types, List.append_assoc, hrecv] at hp
      rcases List.mem_cons.mp hp with rfl | hp
      · exact lt_size_of_decl? hd
      · exact Nat.lt_trans (hlt p hp) (lt_size_of_decl? hd)
    · obtain ⟨m, hm, hp⟩ := List.mem_flatMap.mp hp
      exact hl.lt_size_of_complete hd hm hp
  | named n =>
    rcases List.mem_append.mp hp with hp | hp
    · exact (wf.underlying_unnamed ty n hd p (Option.mem_toList.mp hp)).1
    · obtain ⟨m, hm, hp⟩ := List.mem_flatMap.mp hp
      exact hl.methods ty n hd m hm p hp

/-- **What a type is composed of is declared before it.** -/
theorem WellFormed.components_lt (wf : WellFormed c) (hl : Layered c) (hd : c.decl? ty = some d)
    (hp : p ∈ components d) : p.index < ty.index := by
  cases d with
  | interface d =>
    rcases List.mem_append.mp hp with hp | hp
    · exact wf.parts_lt ty _ hd p (List.mem_append_left _ hp)
    · obtain ⟨m, hm, hp⟩ := List.mem_flatMap.mp hp
      exact (hl.own ty d hd m hm).2 p hp
  | _ => exact wf.parts_lt ty _ hd p hp

/-- **Methods that have an index have a receiver.** -/
theorem Layered.isSome_recv_of_mem_methods (hl : Layered c) (howned : MethodsOwned c)
    {m : MethodDecl} (hm : m ∈ c.methods ty) : m.sig.recv.isSome = true := by
  unfold Catalog.methods at hm
  split at hm
  · next i hi =>
    obtain ⟨recv, -, -, hrecv, -⟩ := hl.complete _ i (decl?_of_interface? hi) m hm
    rw [hrecv]
    rfl
  · split at hm
    · next n hn =>
      obtain ⟨recv, hrecv, -⟩ := howned.receiver ty n (named?_eq_some.mp hn) m hm
      rw [hrecv]
      rfl
    · cases hm

end Layered

end ScriptEngine.Catalog
