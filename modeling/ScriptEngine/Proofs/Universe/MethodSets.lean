import Mathlib
import ScriptEngine.Proofs.Universe.MethodOrder

/-!
Complete method sets.

An interface is declared with its own methods and with what the interfaces it embeds contribute, and
the two are gathered differently: an inherited method enters only under a new name, the own methods
enter as they are written. So the complete set is ordered by name, holds for each name either the
own methods or the first inherited one (`filter_inheritAll`), and is strictly ordered exactly if the
own methods have different names.
-/

namespace ScriptEngine

/-! ### The methods of one name -/

/-- Whether a method is called `name`. -/
def MethodDecl.isCalled (name : String) (m : MethodDecl) : Bool :=
  m.name == name

@[simp] theorem MethodDecl.isCalled_iff {name : String} {m : MethodDecl} :
    m.isCalled name = true ↔ m.name = name :=
  beq_iff_eq

/-- A list of names repeats none exactly if each name has at most one method. -/
theorem nodup_names_iff {methods : List MethodDecl} :
    (methods.map (·.name)).Nodup ↔ ∀ name, (methods.filter (·.isCalled name)).length ≤ 1 := by
  rw [List.nodup_iff_count_le_one]
  refine forall_congr' fun name => ?_
  rw [List.count_eq_countP, List.countP_map, ← List.countP_eq_length_filter]
  rfl

theorem mem_names_iff {methods : List MethodDecl} {name : String} :
    name ∈ methods.map (·.name) ↔ methods.filter (·.isCalled name) ≠ [] := by
  simp [List.filter_eq_nil_iff]

/-- Sorting keeps the order of the methods of one name. -/
theorem filter_sortByName (methods : List MethodDecl) (name : String) :
    (sortByName methods).filter (·.isCalled name) = methods.filter (·.isCalled name) :=
  filter_mergeSort_key MethodDecl.name methods name

namespace Catalog

variable {c : Catalog}

/-- An inherited method enters under a new name only. -/
theorem filter_inherit (acc more : List MethodDecl) (name : String) :
    (inherit acc more).filter (·.isCalled name) =
      acc.filter (·.isCalled name) ++
        if name ∈ acc.map (·.name) then [] else (more.find? (·.isCalled name)).toList := by
  induction more generalizing acc with
  | nil => simp [inherit]
  | cons m rest ih =>
    have hstep : inherit acc (m :: rest) =
        inherit (if acc.any (·.name == m.name) then acc else acc ++ [m]) rest := rfl
    rw [hstep, ih]
    by_cases hm : m.isCalled name = true
    · obtain rfl := MethodDecl.isCalled_iff.mp hm
      rw [List.find?_cons_of_pos hm]
      by_cases hacc : ∃ m' ∈ acc, m'.name = m.name
      · simp [hacc]
      · simp [hacc, hm]
    · rw [List.find?_cons_of_neg hm]
      split
      · rfl
      · simp [hm, Ne.symm (mt MethodDecl.isCalled_iff.mpr hm)]

theorem mem_names_inherit {acc more : List MethodDecl} {name : String} :
    name ∈ (inherit acc more).map (·.name) ↔
      name ∈ acc.map (·.name) ∨ ∃ m, more.find? (·.isCalled name) = some m := by
  rw [mem_names_iff, filter_inherit]
  by_cases hacc : name ∈ acc.map (·.name)
  · simpa [hacc] using mem_names_iff.mp hacc
  · rw [if_neg hacc, not_not.mp (mt mem_names_iff.mpr hacc), List.nil_append]
    cases more.find? (·.isCalled name) <;> simp [hacc]

/-- What the first of several interfaces with a method called `name` says of it. -/
def inherited? (c : Catalog) (embedded : List TypeId) (name : String) : Option MethodDecl :=
  embedded.findSome? fun e => (c.interface? e).bind fun d => d.complete.find? (·.isCalled name)

theorem inherited?_cons {e : TypeId} {d : InterfaceDecl} (hd : c.interface? e = some d)
    (rest : List TypeId) (name : String) :
    c.inherited? (e :: rest) name =
      (d.complete.find? (·.isCalled name)).or (c.inherited? rest name) := by
  unfold inherited?
  rw [List.findSome?_cons, hd, Option.bind_some]
  cases d.complete.find? (·.isCalled name) <;> rfl

/-- Of each name the gathered methods hold what was there first. -/
theorem filter_inheritAll {explicit acc complete : List MethodDecl} {embedded : List TypeId}
    (h : c.inheritAll explicit acc embedded = .ok complete) (name : String) :
    complete.filter (·.isCalled name) =
      acc.filter (·.isCalled name) ++
        if name ∈ acc.map (·.name) then [] else (c.inherited? embedded name).toList := by
  induction embedded generalizing acc with
  | nil =>
    cases h
    simp [inherited?]
  | cons e rest ih =>
    rw [inheritAll] at h
    split at h
    · next d hd =>
      rw [ih h, filter_inherit, List.append_assoc, inherited?_cons hd]
      congr 1
      by_cases hacc : name ∈ acc.map (·.name)
      · rw [if_pos hacc, if_pos (mem_names_inherit.mpr (.inl hacc)), if_pos hacc, List.nil_append]
      · rw [if_neg hacc, if_neg hacc]
        cases hfind : d.complete.find? (·.isCalled name) with
        | none =>
          rw [if_neg fun hmem => ?_]
          · rfl
          · rcases mem_names_inherit.mp hmem with hmem | ⟨m, hm⟩
            · exact hacc hmem
            · simp [hfind] at hm
        | some m => rw [if_pos (mem_names_inherit.mpr (.inr ⟨m, hfind⟩))]; rfl
    · cases h

/-- The methods that the interface `ty` is declared with, as it lists them. -/
def ownMethods (ty : TypeId) (methods : List MethodDecl) : List MethodDecl :=
  methods.map fun m => { m with sig := { m.sig with recv := some ty } }

theorem names_ownMethods (ty : TypeId) (methods : List MethodDecl) :
    (ownMethods ty methods).map (·.name) = methods.map (·.name) := by
  simp [ownMethods, Function.comp_def]

theorem filter_ownMethods_eq_nil {ty : TypeId} {methods : List MethodDecl} {name : String} :
    (ownMethods ty methods).filter (·.isCalled name) = [] ↔ name ∉ methods.map (·.name) := by
  rw [← names_ownMethods ty, mem_names_iff, not_not]

/-- The new interface has, of each name, its own methods or the first inherited one. -/
theorem filter_complete_of_interfaceOf {methods : List MethodDecl} {embedded : List TypeId}
    {ty : TypeId} {c' : Catalog} (h : c.interfaceOf methods embedded = .ok (ty, c')) :
    ∃ d, c'.decl? ty = some (.interface d) ∧ ScriptEngine.Ordered d.complete ∧
      ∀ name, d.complete.filter (·.isCalled name) =
        if name ∈ methods.map (·.name) then (ownMethods ty methods).filter (·.isCalled name)
        else (c.inherited? embedded name).toList := by
  unfold interfaceOf at h
  dsimp only at h
  split at h
  · next complete hcomplete =>
    cases h
    refine ⟨_, decl?_push_next _ _, ordered_sortByName complete, fun name => ?_⟩
    have hall := filter_inheritAll hcomplete name
    have hown : (sortByName (ownMethods c.next methods)).filter (·.isCalled name) =
        (ownMethods c.next methods).filter (·.isCalled name) := filter_sortByName _ name
    have hnames : name ∈ (sortByName (ownMethods c.next methods)).map (·.name) ↔
        name ∈ methods.map (·.name) := by
      rw [mem_names_iff, hown, ← mem_names_iff, names_ownMethods]
    change complete.filter _ = (sortByName (ownMethods c.next methods)).filter _ ++
      ite (name ∈ (sortByName (ownMethods c.next methods)).map (·.name)) _ _ at hall
    change (sortByName complete).filter _ = _
    rw [filter_sortByName, hall, hown]
    by_cases hmem : name ∈ methods.map (·.name)
    · rw [if_pos (hnames.mpr hmem), if_pos hmem, List.append_nil]
    · rw [if_neg (mt hnames.mp hmem), if_neg hmem, filter_ownMethods_eq_nil.mpr hmem,
        List.nil_append]
  · cases h

/-- An embedded interface contributes a name exactly if its complete set has it. -/
theorem inherited?_isSome_iff {embedded : List TypeId} {name : String} :
    (c.inherited? embedded name).isSome = true ↔
      ∃ e ∈ embedded, ∃ d, c.interface? e = some d ∧ name ∈ d.complete.map (·.name) := by
  unfold inherited?
  rw [List.findSome?_isSome_iff]
  refine exists_congr fun e => and_congr_right fun _ => ?_
  cases c.interface? e <;> simp

end Catalog

/-- The bytes of a name in UTF-8. -/
def utf8 (name : String) : List UInt8 :=
  name.toByteArray.data.toList

theorem Ordered.utf8_le {methods : List MethodDecl} (h : Ordered methods) :
    methods.Pairwise fun a b => utf8 a.name ≤ utf8 b.name := by
  refine h.imp fun hle => ?_
  rw [← String.not_lt, lt_iff_utf8_lt] at hle
  exact List.not_lt.mp hle

/-- Methods listed by name are strictly ordered exactly if no two have one name. -/
theorem Ordered.utf8_lt_iff {methods : List MethodDecl} (h : Ordered methods) :
    (methods.Pairwise fun a b => utf8 a.name < utf8 b.name) ↔ (methods.map (·.name)).Nodup := by
  rw [List.Nodup, List.pairwise_map]
  constructor
  · intro hstrict
    refine hstrict.imp fun hlt heq => ?_
    rw [heq] at hlt
    exact List.lt_irrefl _ hlt
  · intro hne
    refine (h.and hne).imp fun ⟨hle, hne⟩ => ?_
    exact lt_iff_utf8_lt.mp (lt_of_le_of_ne hle hne)

namespace Catalog

variable {c : Catalog}

/-- **The complete set of a new interface**, for any own methods and any embedded interfaces. It is
ordered by the bytes of the names; strictly, so that it repeats no name, exactly if the own methods
have different names. Its names are those of the own methods and those of the embedded interfaces.
Of each name it lists the own methods, with the new interface as receiver, in the order in which
they were written, and otherwise only what the first embedded interface with that name says. -/
theorem complete_set_of_interfaceOf {methods : List MethodDecl} {embedded : List TypeId}
    {ty : TypeId} {c' : Catalog} (h : c.interfaceOf methods embedded = .ok (ty, c')) :
    ∃ d, c'.decl? ty = some (.interface d) ∧
      (d.complete.Pairwise fun a b => utf8 a.name ≤ utf8 b.name) ∧
      ((d.complete.Pairwise fun a b => utf8 a.name < utf8 b.name) ↔
        (methods.map (·.name)).Nodup) ∧
      (∀ name, name ∈ d.complete.map (·.name) ↔ name ∈ methods.map (·.name) ∨
        ∃ e ∈ embedded, ∃ i, c.interface? e = some i ∧ name ∈ i.complete.map (·.name)) ∧
      ∀ name, d.complete.filter (·.isCalled name) =
        if name ∈ methods.map (·.name) then (ownMethods ty methods).filter (·.isCalled name)
        else (c.inherited? embedded name).toList := by
  obtain ⟨d, hd, hordered, hfilter⟩ := filter_complete_of_interfaceOf h
  refine ⟨d, hd, hordered.utf8_le, hordered.utf8_lt_iff.trans ?_, fun name => ?_, hfilter⟩
  · rw [← names_ownMethods ty methods, nodup_names_iff, nodup_names_iff]
    refine forall_congr' fun name => ?_
    rw [hfilter name]
    by_cases hown : name ∈ methods.map (·.name)
    · rw [if_pos hown]
    · rw [if_neg hown, filter_ownMethods_eq_nil.mpr hown]
      exact iff_of_true Option.length_toList_le (Nat.zero_le 1)
  · rw [mem_names_iff, hfilter, ← inherited?_isSome_iff]
    by_cases hown : name ∈ methods.map (·.name)
    · rw [if_pos hown]
      exact iff_of_true (fun hnil => filter_ownMethods_eq_nil.mp hnil hown) (.inl hown)
    · rw [if_neg hown]
      cases c.inherited? embedded name <;> simp [hown]

/-- The methods of `interface { Write(); Read(int); Write(int); Closer }`, where `int` is the first
type. -/
def twiceWritten : List MethodDecl :=
  [⟨"Write", none, none, [], [], false⟩, ⟨"Read", none, none, [⟨0⟩], [], false⟩,
    ⟨"Write", none, none, [⟨0⟩], [], false⟩]

/-- `int` and `type Closer interface { Read(); Close() }`. -/
def closer : Except TypeError (TypeId × Catalog) :=
  (empty.basic .int).2.interfaceOf
    [⟨"Read", none, none, [], [], false⟩, ⟨"Close", none, none, [], [], false⟩] []

/-- `Close` is inherited, the own `Read` hides that of `Closer`, and both `Write` are listed: the
order is not strict. -/
theorem complete_set_of_interfaceOf_twiceWritten :
    ∃ c ty c' d, closer = .ok (⟨1⟩, c) ∧ c.interfaceOf twiceWritten [⟨1⟩] = .ok (ty, c') ∧
      c'.decl? ty = some (.interface d) ∧
      d.complete.filter (·.isCalled "Close") = [⟨"Close", none, some ⟨1⟩, [], [], false⟩] ∧
      d.complete.filter (·.isCalled "Read") = [⟨"Read", none, some ⟨2⟩, [⟨0⟩], [], false⟩] ∧
      d.complete.filter (·.isCalled "Write") =
        [⟨"Write", none, some ⟨2⟩, [], [], false⟩, ⟨"Write", none, some ⟨2⟩, [⟨0⟩], [], false⟩] ∧
      ¬ d.complete.Pairwise fun a b => utf8 a.name < utf8 b.name := by
  have hcloser : ∃ c, closer = .ok (⟨1⟩, c) ∧
      c.inherited? [⟨1⟩] "Close" = some ⟨"Close", none, some ⟨1⟩, [], [], false⟩ ∧
      ∃ c', c.interfaceOf twiceWritten [⟨1⟩] = .ok (⟨2⟩, c') :=
    ⟨_, by cbv, by cbv, _, by cbv⟩
  obtain ⟨c, hc, hinherited, c', hnew⟩ := hcloser
  obtain ⟨d, hd, -, hstrict, -, hfilter⟩ := complete_set_of_interfaceOf hnew
  refine ⟨c, _, c', d, hc, hnew, hd, ?_, ?_, ?_, fun h => absurd (hstrict.mp h) (by decide)⟩
  · rw [hfilter, if_neg (by decide), hinherited]
    rfl
  · rw [hfilter, if_pos (by decide)]
    rfl
  · rw [hfilter, if_pos (by decide)]
    rfl

end Catalog

end ScriptEngine
