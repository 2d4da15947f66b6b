import Mathlib.Data.List.Nodup
import ScriptEngine.Symbol

/-!
What a table of symbols keeps.

In a well-formed table every name stands in the shard of its hash and stands there once, so a name
and its symbol determine each other (`WellFormed.find?_eq_some_iff`), and the size of the table is the
number of its names. Entering a name appends it to its shard: the table stays well formed, and every
symbol keeps its name (`WellFormed.enters`). A symbol fits into one number (`Symbol.unpack_pack`).
-/

namespace ScriptEngine

/-! ### Packed symbols -/

namespace Symbol

/-- A symbol that a table can hand out. -/
structure Valid (s : Symbol) : Prop where
  shard : s.shard < shardCount
  position : s.position ≤ maxPosition

variable {s s' : Symbol}

theorem maxPosition_eq : maxPosition = 268435455 := rfl

/-- The number of a symbol counts all positions of the shards before its own. -/
theorem Valid.toNat_pack (h : s.Valid) :
    s.pack.toNat = s.shard * (maxPosition + 1) + s.position := by
  have hshard : s.shard < 16 := h.shard
  have hposition := h.position
  rw [maxPosition_eq] at hposition ⊢
  have hshift : (s.shard.toUInt32 <<< 28).toNat = s.shard <<< 28 := by
    rw [UInt32.toNat_shiftLeft, show UInt32.toNat 28 % 32 = 28 from rfl, Nat.toUInt32_eq,
      UInt32.toNat_ofNat', Nat.mod_eq_of_lt (a := s.shard) (by omega), Nat.shiftLeft_eq,
      Nat.mod_eq_of_lt (by omega)]
  have hpos : s.position.toUInt32.toNat = s.position := by
    rw [Nat.toUInt32_eq, UInt32.toNat_ofNat', Nat.mod_eq_of_lt (by omega)]
  have hlow : s.position < 2 ^ 28 := by omega
  rw [pack, UInt32.toNat_or, hshift, hpos, ← Nat.shiftLeft_add_eq_or_of_lt hlow, Nat.shiftLeft_eq]

/-- **A symbol is what its number stands for.** -/
theorem Valid.unpack_pack (h : s.Valid) : unpack s.pack = s := by
  have hposition := h.position
  rw [maxPosition_eq] at hposition
  have hshard : (s.pack >>> 28).toNat = s.shard := by
    rw [UInt32.toNat_shiftRight, show UInt32.toNat 28 % 32 = 28 from rfl, h.toNat_pack,
      maxPosition_eq, Nat.shiftRight_eq_div_pow]
    omega
  have hpos : (s.pack &&& maxPosition.toUInt32).toNat = s.position := by
    rw [UInt32.toNat_and, show maxPosition.toUInt32.toNat = 2 ^ 28 - 1 by decide +kernel,
      h.toNat_pack, maxPosition_eq, Nat.and_two_pow_sub_one_eq_mod]
    omega
  rw [unpack, hshard, hpos]

theorem Valid.pack_inj (h : s.Valid) (h' : s'.Valid) : s.pack = s'.pack ↔ s = s' := by
  constructor
  · intro heq
    rw [← h.unpack_pack, heq, h'.unpack_pack]
  · intro heq
    rw [heq]

end Symbol

/-! ### Well-formed tables -/

namespace SymbolTable

/-- All names of a table. -/
def names (t : SymbolTable) : List String :=
  t.shards.flatten

/-- What every table keeps: each name stands once, in the shard of its hash, and the empty name
comes first. -/
structure WellFormed (t : SymbolTable) : Prop where
  shards : t.shards.length = Symbol.shardCount
  nodup : ∀ i, (t.shard i).Nodup
  home : ∀ i, ∀ name ∈ t.shard i, shardOf name = i
  bound : ∀ i, (t.shard i).length ≤ Symbol.maxPosition + 1
  empty : t.name? .empty = some ""

section Table

variable {t t' : SymbolTable} {name : String} {s : Symbol}

theorem shardOf_lt (name : String) : shardOf name < Symbol.shardCount :=
  Nat.mod_lt _ (by decide)

theorem shard_eq_nil {i : Nat} (h : t.shards.length ≤ i) : t.shard i = [] := by
  rw [shard, List.getElem?_eq_none h, Option.getD_none]

/-- **A name and its symbol determine each other.** -/
theorem WellFormed.find?_eq_some_iff (h : t.WellFormed) :
    t.find? name = some s ↔ t.name? s = some name := by
  unfold find? name?
  constructor
  · intro hfind
    obtain ⟨i, hi, rfl⟩ := Option.map_eq_some_iff.mp hfind
    obtain ⟨hlt, hname, -⟩ := List.findIdx?_eq_some_iff_getElem.mp hi
    rw [List.getElem?_eq_getElem hlt, beq_iff_eq.mp hname]
  · intro hname
    obtain ⟨hlt, hget⟩ := List.getElem?_eq_some_iff.mp hname
    have hhome : shardOf name = s.shard := h.home s.shard name (hget ▸ List.getElem_mem hlt)
    have hfirst : (t.shard s.shard).idxOf? name = some s.position := by
      refine List.findIdx?_eq_some_iff_getElem.mpr ⟨hlt, beq_iff_eq.mpr hget, fun j hj heq => ?_⟩
      have hj' := Nat.lt_trans hj hlt
      have hsame : (t.shard s.shard)[j] = (t.shard s.shard)[s.position] :=
        (beq_iff_eq.mp heq).trans hget.symm
      exact Nat.ne_of_lt hj ((h.nodup s.shard).getElem_inj_iff.mp hsame)
    rw [hhome, hfirst]
    rfl

theorem mem_names_iff_shard : name ∈ t.names ↔ ∃ i, name ∈ t.shard i := by
  unfold names
  rw [List.mem_flatten]
  constructor
  · rintro ⟨names, hnames, hname⟩
    obtain ⟨i, hi, rfl⟩ := List.getElem_of_mem hnames
    refine ⟨i, ?_⟩
    rwa [shard, List.getElem?_eq_getElem hi, Option.getD_some]
  · rintro ⟨i, hi⟩
    have hlt : i < t.shards.length := by
      by_contra hge
      rw [shard_eq_nil (Nat.le_of_not_lt hge)] at hi
      cases hi
    rw [shard, List.getElem?_eq_getElem hlt, Option.getD_some] at hi
    exact ⟨_, List.getElem_mem hlt, hi⟩

/-- The names of a table are those that have a symbol. -/
theorem mem_names : name ∈ t.names ↔ ∃ s, t.name? s = some name := by
  rw [mem_names_iff_shard]
  constructor
  · rintro ⟨i, hi⟩
    obtain ⟨j, hj, rfl⟩ := List.getElem_of_mem hi
    exact ⟨⟨i, j⟩, List.getElem?_eq_getElem hj⟩
  · rintro ⟨s, hs⟩
    exact ⟨s.shard, List.mem_of_getElem? hs⟩

theorem WellFormed.find?_eq_none (h : t.WellFormed) : t.find? name = none ↔ name ∉ t.names := by
  rw [mem_names, Option.eq_none_iff_forall_ne_some]
  simp only [ne_eq, h.find?_eq_some_iff, not_exists]

/-- No name stands in two places. -/
theorem WellFormed.nodup_names (h : t.WellFormed) : t.names.Nodup := by
  refine List.nodup_flatten.mpr ⟨fun names hnames => ?_, ?_⟩
  · obtain ⟨i, hi, rfl⟩ := List.getElem_of_mem hnames
    have hnodup := h.nodup i
    rwa [shard, List.getElem?_eq_getElem hi, Option.getD_some] at hnodup
  · refine List.pairwise_iff_getElem.mpr fun i j hi hj hij name hname hname' => ?_
    have hhome : ∀ k (hk : k < t.shards.length), name ∈ t.shards[k] → shardOf name = k := by
      intro k hk hmem
      refine h.home k name ?_
      rwa [shard, List.getElem?_eq_getElem hk, Option.getD_some]
    exact Nat.ne_of_lt hij ((hhome i hi hname).symm.trans (hhome j hj hname'))

theorem size_eq (t : SymbolTable) : t.size = t.names.length := by
  rw [size, names, List.length_flatten]
  rfl

/-- The symbols that a table hands out are valid. -/
theorem WellFormed.valid (h : t.WellFormed) (hs : t.name? s = some name) : s.Valid := by
  have hfind := h.find?_eq_some_iff.mpr hs
  obtain ⟨i, hi, rfl⟩ := Option.map_eq_some_iff.mp hfind
  obtain ⟨hlt, -⟩ := List.findIdx?_eq_some_iff_getElem.mp hi
  exact ⟨shardOf_lt name, Nat.le_of_lt_succ (Nat.lt_of_lt_of_le hlt (h.bound _))⟩

/-! ### Entering names -/

/-- `name` was appended to the names of its shard. -/
structure Appends (t : SymbolTable) (name : String) (t' : SymbolTable) : Prop where
  shards : t'.shards.length = t.shards.length
  shard : ∀ i, t'.shard i = if i = shardOf name then t.shard i ++ [name] else t.shard i

/-- What `insert` does with a new name, which gets the next position of its shard. -/
theorem appends_of_insert (h : t.WellFormed) (hnew : t.find? name = none)
    (hinsert : t.insert name = .ok (s, t')) :
    s = ⟨shardOf name, (t.shard (shardOf name)).length⟩ ∧ t.Appends name t' ∧
      (t.shard (shardOf name)).length ≤ Symbol.maxPosition := by
  unfold insert at hinsert
  rw [hnew] at hinsert
  dsimp only at hinsert
  split at hinsert
  · next hle =>
    cases hinsert
    have hlt : shardOf name < t.shards.length := by
      rw [h.shards]
      exact shardOf_lt name
    refine ⟨rfl, ⟨List.length_set, fun i => ?_⟩, hle⟩
    rw [SymbolTable.shard, SymbolTable.shard, List.getElem?_set]
    by_cases hi : shardOf name = i
    · subst hi
      simp [hlt, SymbolTable.shard]
    · simp [hi, Ne.symm hi, SymbolTable.shard]
  · cases hinsert

/-- Symbols keep their names. -/
theorem Appends.keeps (ha : t.Appends name t') {name' : String} (hs : t.name? s = some name') :
    t'.name? s = some name' := by
  rw [name?] at hs ⊢
  rw [ha.shard]
  split
  · rw [List.getElem?_append_left (List.getElem?_eq_some_iff.mp hs).1, hs]
  · exact hs

theorem Appends.mem_names (ha : t.Appends name t') {name' : String} :
    name' ∈ t'.names ↔ name' = name ∨ name' ∈ t.names := by
  simp only [mem_names_iff_shard, ha.shard]
  constructor
  · rintro ⟨i, hi⟩
    split at hi
    · rcases List.mem_append.mp hi with hold | hnew
      · exact .inr ⟨i, hold⟩
      · exact .inl (List.mem_singleton.mp hnew)
    · exact .inr ⟨i, hi⟩
  · rintro (rfl | ⟨i, hi⟩)
    · refine ⟨shardOf name', ?_⟩
      rw [if_pos rfl]
      exact List.mem_append_right _ (List.mem_singleton_self _)
    · refine ⟨i, ?_⟩
      split
      · exact List.mem_append_left _ hi
      · exact hi

theorem Appends.wellFormed (ha : t.Appends name t') (h : t.WellFormed) (hnew : name ∉ t.names)
    (hroom : (t.shard (shardOf name)).length ≤ Symbol.maxPosition) : t'.WellFormed where
  shards := ha.shards.trans h.shards
  nodup i := by
    rw [ha.shard]
    split
    · refine List.nodup_append.mpr ⟨h.nodup i, List.nodup_singleton _, fun a hold b hb => ?_⟩
      rintro rfl
      rw [List.mem_singleton.mp hb] at hold
      exact hnew (mem_names_iff_shard.mpr ⟨i, hold⟩)
    · exact h.nodup i
  home i name' hname' := by
    rw [ha.shard] at hname'
    split at hname'
    · next heq =>
      rcases List.mem_append.mp hname' with hold | hlast
      · exact h.home i name' hold
      · rw [List.mem_singleton.mp hlast, heq]
    · exact h.home i name' hname'
  bound i := by
    rw [ha.shard]
    split
    · next heq =>
      rw [List.length_append, List.length_singleton, heq]
      exact Nat.succ_le_succ hroom
    · exact h.bound i
  empty := ha.keeps h.empty

/-- `name` was entered as `s`: the table has one name more, and the others keep their symbols. -/
structure Enters (t : SymbolTable) (name : String) (s : Symbol) (t' : SymbolTable) : Prop where
  wellFormed : t'.WellFormed
  keeps : ∀ {s' name'}, t.name? s' = some name' → t'.name? s' = some name'
  entered : t'.name? s = some name
  mem_names : ∀ {name'}, name' ∈ t'.names ↔ name' = name ∨ name' ∈ t.names
  size : t'.size = t.size + 1

/-- **A new name gets a new symbol**, and nothing else changes. -/
theorem WellFormed.enters (h : t.WellFormed) (hnew : t.find? name = none)
    (hinsert : t.insert name = .ok (s, t')) : t.Enters name s t' := by
  obtain ⟨rfl, ha, hroom⟩ := appends_of_insert h hnew hinsert
  have habsent : name ∉ t.names := h.find?_eq_none.mp hnew
  have hwell := ha.wellFormed h habsent hroom
  refine ⟨hwell, ha.keeps, ?_, ha.mem_names, ?_⟩
  · rw [name?, ha.shard, if_pos rfl, List.getElem?_concat_length]
  · have hperm : t'.names.Perm (name :: t.names) := by
      refine (List.perm_ext_iff_of_nodup hwell.nodup_names
        (List.nodup_cons.mpr ⟨habsent, h.nodup_names⟩)).mpr fun name' => ?_
      rw [ha.mem_names, List.mem_cons]
    rw [size_eq, size_eq, hperm.length_eq, List.length_cons]

/-- Only a full shard refuses a name. -/
theorem full_of_insert {e : ShardOverflow} (h : t.insert name = .error e) :
    e.shard = shardOf name ∧ e.count = (t.shard e.shard).length ∧ Symbol.maxPosition < e.count := by
  unfold insert at h
  split at h
  · cases h
  · dsimp only at h
    split at h
    · cases h
    · next hfull =>
      cases h
      exact ⟨rfl, rfl, Nat.lt_of_not_le hfull⟩

/-! ### The initial table -/

theorem wellFormed_blank : WellFormed blank := by
  have hshard : ∀ i, i ≠ 0 → blank.shard i = [] := by
    intro i hi
    obtain ⟨i, rfl⟩ := Nat.exists_eq_succ_of_ne_zero hi
    rw [shard, blank, List.getElem?_cons_succ, List.getElem?_replicate]
    split <;> rfl
  have hfirst : blank.shard 0 = [""] := rfl
  refine ⟨rfl, fun i => ?_, fun i name hname => ?_, fun i => ?_, rfl⟩ <;>
    rcases Nat.eq_zero_or_pos i with rfl | hi
  · rw [hfirst]
    exact List.nodup_singleton _
  · rw [hshard i (Nat.ne_of_gt hi)]
    exact List.nodup_nil
  · rw [hfirst] at hname
    rw [List.mem_singleton.mp hname]
    decide +kernel
  · rw [hshard i (Nat.ne_of_gt hi)] at hname
    cases hname
  · rw [hfirst]
    exact Nat.succ_le_succ (Nat.zero_le _)
  · rw [hshard i (Nat.ne_of_gt hi)]
    exact Nat.zero_le _

/-- Interning finds a name or enters it. -/
theorem intern_cases (h : t.WellFormed) (hintern : t.intern name = .ok (s, t')) :
    t.name? s = some name ∧ t' = t ∨ t.Enters name s t' := by
  unfold intern at hintern
  split at hintern
  · next hs =>
    cases hintern
    exact .inl ⟨h.find?_eq_some_iff.mp hs, rfl⟩
  · next hnew => exact .inr (h.enters hnew hintern)

/-- Interning names in turn keeps a table well formed and enters no others. -/
theorem WellFormed.internAll (h : t.WellFormed) (names : List String) :
    (t.internAll names).WellFormed ∧
      ∀ name ∈ (t.internAll names).names, name ∈ names ∨ name ∈ t.names := by
  induction names generalizing t with
  | nil => exact ⟨h, fun _ hname => .inr hname⟩
  | cons first rest ih =>
    rw [SymbolTable.internAll, List.foldl_cons]
    cases hintern : t.intern first with
    | error e =>
      obtain ⟨hwell, hnames⟩ := ih h
      exact ⟨hwell, fun name hname => (hnames name hname).imp_left (List.mem_cons_of_mem _)⟩
    | ok answer =>
      obtain ⟨s, t'⟩ := answer
      rcases intern_cases h hintern with ⟨-, rfl⟩ | henters
      · obtain ⟨hwell, hnames⟩ := ih h
        exact ⟨hwell, fun name hname => (hnames name hname).imp_left (List.mem_cons_of_mem _)⟩
      · obtain ⟨hwell, hnames⟩ := ih henters.wellFormed
        refine ⟨hwell, fun name hname => ?_⟩
        rcases hnames name hname with hrest | hold
        · exact .inl (List.mem_cons_of_mem _ hrest)
        · rcases henters.mem_names.mp hold with rfl | hold
          · exact .inl (List.mem_cons_self ..)
          · exact .inr hold

theorem wellFormed_initial : WellFormed initial :=
  (wellFormed_blank.internAll predeclared).1

/-- The names that every table starts with. -/
theorem mem_names_initial : name ∈ initial.names ↔ name = "" ∨ name ∈ predeclared := by
  constructor
  · intro hname
    rcases (wellFormed_blank.internAll predeclared).2 name hname with hlisted | hblank
    · exact .inr hlisted
    · exact .inl (List.mem_singleton.mp hblank)
  · rintro (rfl | hlisted)
    · exact mem_names.mpr ⟨_, wellFormed_initial.empty⟩
    · have hall : ∀ name ∈ predeclared, (initial.find? name).isSome = true := by decide +kernel
      obtain ⟨s, hs⟩ := Option.isSome_iff_exists.mp (hall name hlisted)
      exact mem_names.mpr ⟨s, wellFormed_initial.find?_eq_some_iff.mp hs⟩

end Table

end SymbolTable

end ScriptEngine
