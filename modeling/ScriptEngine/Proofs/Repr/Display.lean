import Mathlib.Data.List.Forall2
import ScriptEngine.Proofs.Repr.Represents
import ScriptEngine.Proofs.Types.Traversals
import ScriptEngine.Repr.Display

/-!
Display names of representations: when there is one, and what it is in a table that is extended.

The trail of `innerName` is not what the text is about. `Writes` says what the plain recursion
writes, `nameStep` calling itself without a trail: some depth of nested calls gives the text,
whatever deeper calls would give. A kind has a display name exactly if writing it ends, and then it
is that text (`kindName_eq_some_iff`, `kindName_eq_none_iff`).

Messages quote representations by name, so an error says the same at two times only if the names it
quotes do. A name is written from what a representation is built from. In a table whose parts all
exist, nothing that is made later is among them: `Extends.reprName` and `Extends.funcName`.
-/

namespace ScriptEngine

namespace ReprTable

/-! ### What a text depends on -/

/-- The texts of a list stay when the missing ones are filled in. -/
theorem mem_mapM_of_forall₂ {as bs : List (Option String)}
    (h : List.Forall₂ (fun a b => ∀ s ∈ a, s ∈ b) as bs) {texts : List String}
    (htexts : texts ∈ as.mapM id) : texts ∈ bs.mapM id := by
  induction h generalizing texts with
  | nil => exact htexts
  | @cons a b as bs hab _ ih =>
    rw [List.mapM_cons] at htexts ⊢
    obtain ⟨s, hs, hrest⟩ := Option.bind_eq_some_iff.mp htexts
    obtain ⟨rest, hrest, heq⟩ := Option.bind_eq_some_iff.mp hrest
    exact Option.bind_eq_some_iff.mpr ⟨s, hab s hs,
      Option.bind_eq_some_iff.mpr ⟨rest, ih hrest, heq⟩⟩

theorem forall₂_map {α : Type} {f g : α → Option String} {xs : List α}
    (h : ∀ x ∈ xs, ∀ s ∈ f x, s ∈ g x) :
    List.Forall₂ (fun a b => ∀ s ∈ a, s ∈ b) (xs.map f) (xs.map g) := by
  rw [List.forall₂_map_left_iff, List.forall₂_map_right_iff]
  exact List.forall₂_same.mpr h

theorem mem_map_of_mem {a b : Option String} (f : String → String) (h : ∀ s ∈ a, s ∈ b) {s : String}
    (hs : s ∈ f <$> a) : s ∈ f <$> b := by
  obtain ⟨s', hs', rfl⟩ := Option.map_eq_some_iff.mp hs
  exact Option.map_eq_some_iff.mpr ⟨s', h s' hs', rfl⟩

section Parts

variable {part part' rest rest' : ReprId → Option String} {s : String}

theorem forall₂_paramTexts {variadic : Bool} {ps : List ReprId}
    (hpart : ∀ p ∈ ps, ∀ s ∈ part p, s ∈ part' p) (hrest : ∀ p ∈ ps, ∀ s ∈ rest p, s ∈ rest' p) :
    List.Forall₂ (fun a b => ∀ s ∈ a, s ∈ b) (Text.paramTexts variadic part rest ps)
      (Text.paramTexts variadic part' rest' ps) := by
  induction ps with
  | nil => exact .nil
  | cons p ps ih =>
    cases ps with
    | nil =>
      refine .cons ?_ .nil
      cases variadic with
      | false => exact hpart p (List.mem_singleton_self p)
      | true => exact hrest p (List.mem_singleton_self p)
    | cons q ps =>
      refine .cons (hpart p (List.mem_cons_self ..)) (ih (fun x hx => ?_) fun x hx => ?_)
      · exact hpart x (List.mem_cons_of_mem _ hx)
      · exact hrest x (List.mem_cons_of_mem _ hx)

theorem signatureWith_mono {f : FuncRepr} (hpart : ∀ p ∈ f.parts, ∀ s ∈ part p, s ∈ part' p)
    (hrest : ∀ p ∈ f.parts, ∀ s ∈ rest p, s ∈ rest' p) (hs : s ∈ signatureWith part rest f) :
    s ∈ signatureWith part' rest' f := by
  have hparams : ∀ p ∈ f.params, p ∈ f.parts := fun p hp => List.mem_append_left _ hp
  obtain ⟨params, hps, hs⟩ := Option.bind_eq_some_iff.mp hs
  obtain ⟨results, hrs, heq⟩ := Option.bind_eq_some_iff.mp hs
  refine Option.bind_eq_some_iff.mpr ⟨params, mem_mapM_of_forall₂ (forall₂_paramTexts
    (fun p hp => hpart p (hparams p hp)) fun p hp s hs => ?_) hps, ?_⟩
  · exact mem_map_of_mem _ (hrest p (hparams p hp)) hs
  · exact Option.bind_eq_some_iff.mpr ⟨results, mem_mapM_of_forall₂ (forall₂_map fun p hp =>
      hpart p (List.mem_append_right _ hp)) hrs, heq⟩

/-- A text of a kind stays when missing texts of its parts are filled in. -/
theorem kindWith_mono {kind : ReprKind} (hpart : ∀ p ∈ kind.parts, ∀ s ∈ part p, s ∈ part' p)
    (hrest : ∀ p ∈ kind.parts, ∀ s ∈ rest p, s ∈ rest' p) (hs : s ∈ kindWith part rest kind) :
    s ∈ kindWith part' rest' kind := by
  cases kind with
  | invalid | basic _ | header => exact hs
  | pointer elem | slice elem | array _ elem =>
    exact mem_map_of_mem _ (hpart elem (List.mem_singleton_self _)) hs
  | func f => exact mem_map_of_mem _ (fun s => signatureWith_mono hpart hrest) hs
  | struct fields =>
    obtain ⟨texts, htexts, heq⟩ := Option.map_eq_some_iff.mp hs
    refine Option.map_eq_some_iff.mpr ⟨texts, mem_mapM_of_forall₂ (forall₂_map fun f hf s hs => ?_)
      htexts, heq⟩
    have hfield := hpart f.repr (List.mem_map_of_mem hf)
    unfold fieldWith at hs ⊢
    split at hs
    · next hembedded =>
      rw [if_pos hembedded]
      exact hfield s hs
    · next hembedded =>
      rw [if_neg hembedded]
      exact mem_map_of_mem _ hfield hs
  | interface methods =>
    obtain ⟨texts, htexts, heq⟩ := Option.map_eq_some_iff.mp hs
    refine Option.map_eq_some_iff.mpr ⟨texts, mem_mapM_of_forall₂ (forall₂_map fun m hm s hs => ?_)
      htexts, heq⟩
    have hsub : ∀ p ∈ m.ty.parts, p ∈ (ReprKind.interface methods).parts := fun p hp =>
      List.mem_flatMap.mpr ⟨m, hm, hp⟩
    exact mem_map_of_mem _ (fun s => signatureWith_mono (fun p hp => hpart p (hsub p hp))
      fun p hp => hrest p (hsub p hp)) hs

theorem kindWith_congr {kind : ReprKind} (hpart : ∀ p ∈ kind.parts, part p = part' p)
    (hrest : ∀ p ∈ kind.parts, rest p = rest' p) :
    kindWith part rest kind = kindWith part' rest' kind := by
  refine Option.ext fun s => ⟨kindWith_mono (fun p hp s hs => ?_) fun p hp s hs => ?_,
    kindWith_mono (fun p hp s hs => ?_) fun p hp s hs => ?_⟩
  · exact hpart p hp ▸ hs
  · exact hrest p hp ▸ hs
  · exact (hpart p hp).symm ▸ hs
  · exact (hrest p hp).symm ▸ hs

end Parts

/-! ### Names that end -/

section Endless

variable {t : ReprTable} {r : ReprId} {s : String} {n m : Nat} {trail : List Nat}

theorem nameStep_mono {part part' : ReprId → Option String} (h : ∀ p, ∀ s ∈ part p, s ∈ part' p)
    (hs : s ∈ t.nameStep part r) : s ∈ t.nameStep part' r := by
  obtain ⟨d, hd, hs⟩ := Option.bind_eq_some_iff.mp hs
  refine Option.bind_eq_some_iff.mpr ⟨d, hd, ?_⟩
  cases hname : d.name with
  | some name => simpa only [hname] using hs
  | none =>
    simp only [hname] at hs ⊢
    exact kindWith_mono (fun p _ => h p) (fun p _ => h (t.stripSlice p)) hs

/-- What a depth of nested calls writes, where deeper calls write nothing. -/
def within (t : ReprTable) (depth : Nat) : ReprId → Option String :=
  t.nameStep^[depth] fun _ => none

theorem within_succ : t.within (n + 1) r = t.nameStep (t.within n) r := by
  rw [within, Function.iterate_succ_apply']
  rfl

/-- What is written does not depend on what deeper calls would write. -/
theorem answersWithin_of_within (hs : s ∈ t.within n r) :
    AnswersWithin n t.nameStep r (some s) := by
  intro deeper
  induction n generalizing r s with
  | zero => cases hs
  | succ n ih =>
    rw [within_succ] at hs
    rw [Function.iterate_succ_apply']
    exact nameStep_mono (fun p s hs => ih hs) hs

theorem within_mono (hnm : n ≤ m) (hs : s ∈ t.within n r) : s ∈ t.within m r := by
  obtain ⟨k, rfl⟩ := Nat.exists_eq_add_of_le hnm
  rw [within, Function.iterate_add_apply]
  exact answersWithin_of_within hs _

/-- A trail does not get in the way of a text: what is on it cannot be written at that depth, since
the text of what is being written is not there yet. -/
theorem innerName_of_within (hopen : ∀ i ∈ trail, t.within n ⟨i⟩ = none) (hs : s ∈ t.within n r) :
    s ∈ t.innerName trail r := by
  induction n generalizing trail r s with
  | zero => cases hs
  | succ n ih =>
    have hopen' : ∀ i ∈ trail, t.within n ⟨i⟩ = none := fun i hi =>
      Option.eq_none_iff_forall_not_mem.mpr fun s hs =>
        Option.eq_none_iff_forall_not_mem.mp (hopen i hi) s (within_mono n.le_succ hs)
    cases hn : t.within n r with
    | some s' =>
      obtain rfl := Option.mem_unique hs (within_mono n.le_succ hn)
      exact ih hopen' hn
    | none =>
      rw [within_succ] at hs
      have hsize : r.index < t.size := by
        obtain ⟨d, hd, -⟩ := Option.bind_eq_some_iff.mp hs
        exact lt_size_of_get? hd
      have hnew : r.index ∉ trail := fun hmem => by
        have hnone := hopen r.index hmem
        rw [within_succ] at hnone
        cases hnone.symm.trans hs
      rw [innerName, dif_pos ⟨hsize, hnew⟩]
      refine nameStep_mono (fun p s hs => ih (fun i hi => ?_) hs) hs
      rcases List.mem_cons.mp hi with rfl | hi
      · exact hn
      · exact hopen' i hi

/-- A text that is written on a trail is written at a depth of what the trail leaves. -/
theorem within_of_innerName (hs : s ∈ t.innerName trail r) :
    s ∈ t.within (unvisited t.size trail) r := by
  induction trail, r using ReprTable.innerName.induct t generalizing s with
  | case1 trail r entered ih =>
    rw [innerName, dif_pos entered] at hs
    have hless := unvisited_cons_lt entered.1 entered.2
    refine within_mono hless ?_
    rw [within_succ]
    exact nameStep_mono (fun p s hs => ih p hs) hs
  | case2 trail r hout =>
    rw [innerName, dif_neg hout] at hs
    cases hs

/-- As deep as the table is large is deep enough. -/
theorem partName_eq_within : t.partName r = t.within t.size r := by
  refine Option.ext fun s => ⟨fun hs => ?_, innerName_of_within fun i hi => by cases hi⟩
  have hle : unvisited t.size [] ≤ t.size :=
    Nat.le_trans List.countP_le_length (Nat.le_of_eq List.length_range)
  exact within_mono hle (within_of_innerName hs)

/-- **Writing a kind ends**, with the given text: some depth of nested calls gives it, whatever
deeper calls would give. -/
def Writes (t : ReprTable) (kind : ReprKind) (s : String) : Prop :=
  ∃ depth, ∀ deeper : ReprId → Option String,
    kindWith (t.nameStep^[depth] deeper) (fun p => t.nameStep^[depth] deeper (t.stripSlice p))
      kind = some s

/-- **A display name is what is written**, if writing ends. -/
theorem kindName_eq_some_iff {kind : ReprKind} : t.kindName kind = some s ↔ t.Writes kind s := by
  have hwithin : t.partName = t.within t.size := funext fun p => partName_eq_within
  rw [kindName, hwithin]
  constructor
  · intro hs
    refine ⟨t.size, fun deeper => kindWith_mono (fun p _ s hs => ?_) (fun p _ s hs => ?_) hs⟩
    · exact answersWithin_of_within hs deeper
    · exact answersWithin_of_within hs deeper
  · rintro ⟨depth, hs⟩
    have henough : ∀ p, ∀ s ∈ t.within depth p, s ∈ t.within t.size p := fun p s hs => by
      rw [← partName_eq_within]
      exact innerName_of_within (fun i hi => by cases hi) hs
    exact kindWith_mono (fun p _ => henough p) (fun p _ => henough (t.stripSlice p))
      (hs fun _ => none)

/-- **There is no display name exactly where writing never ends.** -/
theorem kindName_eq_none_iff {kind : ReprKind} :
    t.kindName kind = none ↔ ∀ s, ¬ t.Writes kind s := by
  simp only [Option.eq_none_iff_forall_ne_some, ne_eq, kindName_eq_some_iff]

theorem funcName_eq_some_iff {f : FuncRepr} : t.funcName f = some s ↔ t.Writes (.func f) s :=
  kindName_eq_some_iff

theorem funcName_eq_none_iff {f : FuncRepr} : t.funcName f = none ↔ ∀ s, ¬ t.Writes (.func f) s :=
  kindName_eq_none_iff

end Endless

/-! ### Names in an extended table -/

section Extends

variable {t t' : ReprTable}

theorem Extends.stripSlice (h : Extends t t') {r : ReprId} (hr : r.index < t.size) :
    t'.stripSlice r = t.stripSlice r := by
  rw [ReprTable.stripSlice, ReprTable.stripSlice, h.kind_eq hr]

variable (bounds : ∀ r, ∀ p ∈ (t.kind r).parts, p.index < t.size)
include bounds

theorem stripSlice_lt {r : ReprId} (hr : r.index < t.size) : (t.stripSlice r).index < t.size := by
  unfold ReprTable.stripSlice
  split
  · next elem hkind =>
    exact bounds r elem (by rw [hkind]; exact List.mem_singleton_self _)
  · exact hr

/-- A kind is written alike where its parts are. -/
theorem Extends.kindWith (h : Extends t t') {part part' : ReprId → Option String} {kind : ReprKind}
    (hparts : ∀ p ∈ kind.parts, p.index < t.size)
    (hpart : ∀ p, p.index < t.size → part' p = part p) :
    ReprTable.kindWith part' (fun p => part' (t'.stripSlice p)) kind =
      ReprTable.kindWith part (fun p => part (t.stripSlice p)) kind := by
  refine kindWith_congr (fun p hp => hpart p (hparts p hp)) fun p hp => ?_
  rw [h.stripSlice (hparts p hp)]
  exact hpart _ (stripSlice_lt bounds (hparts p hp))

theorem Extends.innerName (h : Extends t t') {trail : List Nat} {r : ReprId}
    (hr : r.index < t.size) : t'.innerName trail r = t.innerName trail r := by
  induction trail, r using ReprTable.innerName.induct t with
  | case1 trail r entered ih =>
    obtain ⟨d, hd⟩ := exists_get? hr
    obtain ⟨d', hd', hname, hkind⟩ := h.kept r d hd
    rw [ReprTable.innerName, ReprTable.innerName, dif_pos entered,
      dif_pos ⟨lt_size_of_get? hd', entered.2⟩]
    unfold nameStep
    rw [hd, hd']
    simp only [Option.bind_eq_bind, Option.bind_some, hname, hkind]
    split
    · rfl
    · refine h.kindWith bounds ?_ fun p hp => ih p hp
      rw [← kind_of_get? hd]
      exact bounds r
  | case2 trail r hout =>
    have hmem : r.index ∈ trail := Decidable.not_not.mp fun hnew => hout ⟨hr, hnew⟩
    rw [ReprTable.innerName, ReprTable.innerName, dif_neg hout,
      dif_neg fun entered => entered.2 hmem]

theorem Extends.kindName (h : Extends t t') {kind : ReprKind}
    (hparts : ∀ p ∈ kind.parts, p.index < t.size) : t'.kindName kind = t.kindName kind :=
  h.kindWith bounds hparts fun _ hp => h.innerName bounds hp

/-- **A representation keeps its display name.** -/
theorem Extends.reprName (h : Extends t t') {r : ReprId} (hr : r.index < t.size) :
    t'.reprName r = t.reprName r := by
  obtain ⟨d, hd⟩ := exists_get? hr
  obtain ⟨d', hd', hname, hkind⟩ := h.kept r d hd
  have hparts : ∀ p ∈ d.kind.parts, p.index < t.size := by
    rw [← kind_of_get? hd]
    exact bounds r
  have htext : t'.kindName d.kind = t.kindName d.kind := h.kindName bounds hparts
  unfold ReprTable.reprName
  rw [hd, hd']
  simp only [Option.bind_eq_bind, Option.bind_some, hname, hkind]
  split
  · next fields _ hfields => rw [← hfields, htext]
  · rfl
  · exact htext

/-- **A runtime function type keeps its display form.** -/
theorem Extends.funcName (h : Extends t t') {f : FuncRepr} (hf : ∀ p ∈ f.parts, p.index < t.size) :
    t'.funcName f = t.funcName f :=
  h.kindName bounds hf

end Extends

end ReprTable

end ScriptEngine
