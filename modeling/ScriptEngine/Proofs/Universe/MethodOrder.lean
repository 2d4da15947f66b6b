import Mathlib.Data.String.Basic
import ScriptEngine.Proofs.Universe.History

/-!
The order of methods.

Interfaces list their methods by name. Names are compared by their characters, which is the order of
their bytes in UTF-8 (`lt_iff_utf8_lt`). A list that is in order stays as it is when it is sorted
(`sortByName_of_ordered`), and in every reachable universe the complete set of each interface is in
order (`ReachableBy.ordered`).
-/

namespace ScriptEngine

/-! ### Names as bytes -/

section Bytes

/-- Bytes below 256 compare as numbers do. -/
theorem cons_byte_lt {m n : Nat} (hm : m < 256) (hn : n < 256) {r s : List UInt8} :
    UInt8.ofNat m :: r < UInt8.ofNat n :: s ↔ m < n ∨ m = n ∧ r < s := by
  rw [List.cons_lt_cons_iff, UInt8.lt_iff_toNat_lt, ← UInt8.toNat_inj, UInt8.toNat_ofNat',
    UInt8.toNat_ofNat', Nat.mod_eq_of_lt hm, Nat.mod_eq_of_lt hn]

/-- The bytes of a smaller character come first, whatever follows: no encoding starts another. -/
theorem encode_append_lt {a b : Char} (h : a < b) (r s : List UInt8) :
    String.utf8EncodeChar a ++ r < String.utf8EncodeChar b ++ s := by
  have hlt : a.val.toNat < b.val.toNat := h
  have hbound : b.val.toNat < 1114112 := by
    have hvalid := b.valid
    simp only [UInt32.isValidChar, Nat.isValidChar] at hvalid
    omega
  unfold String.utf8EncodeChar
  dsimp only
  generalize a.val.toNat = m at *
  generalize b.val.toNat = n at *
  -- The bytes hold digits to the base 64.
  have hdigits : ∀ k : Nat, k / 4096 = k / 64 / 64 ∧ k / 262144 = k / 64 / 64 / 64 := by omega
  simp only [hdigits]
  split <;> split <;> (try split) <;> (try split) <;> (try split) <;> (try split) <;>
    simp (disch := omega) only [List.cons_append, List.nil_append, cons_byte_lt] <;> omega

theorem encode_ne_nil (c : Char) : String.utf8EncodeChar c ≠ [] := by
  unfold String.utf8EncodeChar
  dsimp only
  split
  · exact List.cons_ne_nil _ _
  split
  · exact List.cons_ne_nil _ _
  split <;> exact List.cons_ne_nil _ _

theorem flatMap_encode_lt {l m : List Char} (h : l < m) :
    l.flatMap String.utf8EncodeChar < m.flatMap String.utf8EncodeChar := by
  induction h with
  | @nil c m =>
    rw [List.flatMap_nil, List.flatMap_cons]
    cases hc : String.utf8EncodeChar c with
    | nil => exact absurd hc (encode_ne_nil c)
    | cons b bs => exact .nil
  | rel h => exact encode_append_lt h _ _
  | cons _ ih =>
    rw [List.flatMap_cons, List.flatMap_cons]
    exact List.append_left_lt ih

theorem utf8_eq (s : String) :
    s.toByteArray.data.toList = s.toList.flatMap String.utf8EncodeChar := by
  rw [← String.utf8Encode_toList, List.utf8Encode, List.toList_data_toByteArray]

/-- **Names compare as their bytes in UTF-8 do.** -/
theorem lt_iff_utf8_lt {s t : String} :
    s < t ↔ s.toByteArray.data.toList < t.toByteArray.data.toList := by
  rw [utf8_eq, utf8_eq]
  constructor
  · intro h
    exact flatMap_encode_lt (String.lt_iff_toList_lt.mp h)
  · intro h
    rcases lt_trichotomy s t with hlt | rfl | hgt
    · exact hlt
    · exact absurd h (List.lt_irrefl _)
    · have hgt' := flatMap_encode_lt (String.lt_iff_toList_lt.mp hgt)
      exact absurd h (List.lt_asymm hgt')

end Bytes

/-! ### Lists in order -/

/-- The methods are listed by name. -/
def Ordered (methods : List MethodDecl) : Prop :=
  methods.Pairwise fun a b => a.name ≤ b.name

/-- The test that sorting makes. -/
theorem not_decide_lt {a b : String} : (!decide (b < a)) = true ↔ a ≤ b := by
  rw [Bool.not_eq_true', decide_eq_false_iff_not, String.not_lt]

section Sorting

variable {α : Type} (key : α → String)

/-- Sorting by name puts the names in order. -/
theorem pairwise_mergeSort_key (l : List α) :
    (l.mergeSort fun a b => !decide (key b < key a)).Pairwise fun a b => key a ≤ key b := by
  have hsorted : (l.mergeSort fun a b => !decide (key b < key a)).Pairwise
      fun a b => (!decide (key b < key a)) = true := by
    refine List.pairwise_mergeSort (fun a b c hab hbc => ?_) (fun a b => ?_) l
    · exact not_decide_lt.mpr (String.le_trans (not_decide_lt.mp hab) (not_decide_lt.mp hbc))
    · rw [Bool.or_eq_true, not_decide_lt, not_decide_lt]
      exact String.le_total (key a) (key b)
  exact hsorted.imp not_decide_lt.mp

/-- Sorting by name keeps the order of what has one name. -/
theorem filter_mergeSort_key (l : List α) (name : String) :
    (l.mergeSort fun a b => !decide (key b < key a)).filter (key · == name) =
      l.filter (key · == name) := by
  have hequal : (l.filter (key · == name)).Pairwise
      fun a b => (!decide (key b < key a)) = true := by
    refine List.pairwise_of_forall_mem_list fun a ha b hb => ?_
    rw [List.mem_filter, beq_iff_eq] at ha hb
    rw [not_decide_lt, ha.2, hb.2]
  have hsub : (l.filter (key · == name)).Sublist
      (l.mergeSort fun a b => !decide (key b < key a)) := by
    refine List.sublist_mergeSort (fun a b c hab hbc => ?_) (fun a b => ?_) hequal
      List.filter_sublist
    · exact not_decide_lt.mpr (String.le_trans (not_decide_lt.mp hab) (not_decide_lt.mp hbc))
    · rw [Bool.or_eq_true, not_decide_lt, not_decide_lt]
      exact String.le_total (key a) (key b)
  have hfiltered := hsub.filter (key · == name)
  simp only [List.filter_filter, Bool.and_self] at hfiltered
  have hperm := (List.mergeSort_perm l fun a b => !decide (key b < key a)).filter (key · == name)
  exact (hfiltered.eq_of_length hperm.length_eq.symm).symm

end Sorting

theorem ordered_sortByName (methods : List MethodDecl) : Ordered (sortByName methods) :=
  pairwise_mergeSort_key MethodDecl.name methods

namespace Catalog

/-- Every interface lists its complete set by name. -/
def Ordered (c : Catalog) : Prop :=
  ∀ ty d, c.decl? ty = some (.interface d) → ScriptEngine.Ordered d.complete

section Ordered

variable {c : Catalog}

theorem Ordered.interface? (hc : c.Ordered) {ty : TypeId} {d : InterfaceDecl}
    (h : c.interface? ty = some d) : ScriptEngine.Ordered d.complete :=
  hc _ d (decl?_of_interface? h)

theorem Ordered.push (hc : c.Ordered) {d : TypeDecl}
    (hd : ∀ i, d = .interface i → ScriptEngine.Ordered i.complete) : (c.push d).2.Ordered := by
  intro ty i hi
  rcases decl?_push hi with ⟨-, heq⟩ | hold
  · exact hd i heq.symm
  · exact hc ty i hold

theorem Ordered.intern (hc : c.Ordered) {d : TypeDecl} (hd : ∀ i, d ≠ .interface i) :
    (c.intern d).2.Ordered := by
  unfold Catalog.intern
  split
  · exact hc
  · exact hc.push fun i heq => absurd heq (hd i)

theorem Ordered.setNamed (hc : c.Ordered) {ty : TypeId} {n n' : NamedDecl}
    (hn : c.named? ty = some n) : (c.setNamed ty n').Ordered := by
  intro t i hi
  rcases decl?_setNamed (lt_size_of_decl? (named?_eq_some.mp hn)) hi with ⟨-, heq⟩ | ⟨-, hold⟩
  · cases heq
  · exact hc t i hold

theorem Ordered.interfaceOf (hc : c.Ordered) {methods : List MethodDecl} {embedded : List TypeId}
    {ty : TypeId} {c' : Catalog} (h : c.interfaceOf methods embedded = .ok (ty, c')) :
    c'.Ordered := by
  unfold Catalog.interfaceOf at h
  dsimp only at h
  split at h
  · cases h
    refine hc.push fun i heq => ?_
    cases heq
    exact ordered_sortByName _
  · cases h

theorem Ordered.declareNamed (hc : c.Ordered) {name : String} {pkg : Option String}
    {ty : TypeId} {c' : Catalog} (h : c.declareNamed name pkg = .ok (ty, c')) : c'.Ordered := by
  unfold Catalog.declareNamed at h
  split at h
  · cases h
  · cases h
    exact hc.push fun i heq => by cases heq

theorem Ordered.setUnderlying (hc : c.Ordered) {ty underlying : TypeId} {c' : Catalog}
    (h : c.setUnderlying ty underlying = .ok c') : c'.Ordered := by
  unfold Catalog.setUnderlying at h
  split at h
  · cases h
  split at h
  · cases h
  split at h
  · cases h
  next n hn =>
  split at h
  · cases h
  · cases h
    exact hc.setNamed hn

theorem Ordered.addMethod (hc : c.Ordered) {ty : TypeId} {m : MethodDecl} {i : Nat} {c' : Catalog}
    (h : c.addMethod ty m = .ok (i, c')) : c'.Ordered := by
  unfold Catalog.addMethod at h
  split at h
  · cases h
  next n hn =>
  dsimp only at h
  split at h
  · cases h
  split at h
  · cases h
  split at h
  · cases h
    exact hc.setNamed hn
  · cases h

end Ordered

end Catalog

namespace Universe

variable {u : Universe}

/-- A declaration that fails leaves the catalog as it is. -/
theorem ordered_tryDeclare {α : Type} (hc : u.catalog.Ordered)
    {f : Catalog → Except TypeError (α × Catalog)}
    (hf : ∀ a c', f u.catalog = .ok (a, c') → c'.Ordered) :
    ((tryDeclare f).run.run u).2.catalog.Ordered := by
  have hends : Ends (tryDeclare f) u (fun _ v => v.catalog.Ordered) fun _ v => v.catalog.Ordered :=
    ends_tryDeclare.mpr ⟨hf, fun _ _ => hc⟩
  exact hends.state

theorem ordered_perform (h : Sound u) (hc : u.catalog.Ordered) {op : Operation}
    (inRange : op.InRange u) : (u.perform op).2.catalog.Ordered := by
  have hquiet : .declare ∉ op.acts → (u.perform op).2.catalog.Ordered := fun hacts => by
    rw [Steps.catalog_eq (fun ha => hacts ha.1) (perform_steps h inRange) h]
    exact hc
  cases op with
  | basic | pointerTo | sliceOf => exact hc.intern fun i => by simp
  | funcOf | structOf => exact hc.push fun i heq => by cases heq
  | interfaceOf methods embedded =>
    rw [perform, Operation.run, run_discard_snd]
    exact ordered_tryDeclare hc fun _ _ => hc.interfaceOf
  | declareNamed name pkg =>
    rw [perform, Operation.run, run_discard_snd]
    exact ordered_tryDeclare hc fun _ _ => hc.declareNamed
  | addMethod ty m =>
    rw [perform, Operation.run, run_discard_snd]
    exact ordered_tryDeclare hc fun _ _ => hc.addMethod
  | setUnderlying ty underlying =>
    refine ordered_tryDeclare hc fun _ c' hset => ?_
    rcases heq : u.catalog.setUnderlying ty underlying with e | c''
    · rw [heq] at hset
      cases hset
    · rw [heq] at hset
      cases hset
      exact hc.setUnderlying heq
  | _ => exact hquiet (by simp [Operation.acts, Act.building, Act.resolving])

/-- **In every reachable universe, interfaces list their methods by name.** -/
theorem ReachableBy.ordered {allowed : Universe → Operation → Prop} (h : ReachableBy allowed u) :
    u.catalog.Ordered := by
  induction h with
  | empty => exact fun _ _ hd => by cases hd
  | step op before inRange _ ih => exact ordered_perform before.sound ih inRange

end Universe

end ScriptEngine
