import Mathlib.Data.List.Nodup
import Mathlib.Logic.ExistsUnique
import ScriptEngine.Proofs.Types.WellFormed
import ScriptEngine.Types.Embedding

/-!
Embedding paths, and what the search for a method finds among them.

An embedding path is a list of field positions: each is the position of an embedded field of the
struct that the type reached so far is or stands for, behind at most one pointer. There can be
infinitely many paths, through names that embed themselves, and more than one to a type. `pathEnd?`
follows a path, and `IsShallowest` says that it ends in a type that declares the method and that no
shorter path does.

The search keeps one candidate for several paths to a name and none for paths to names that it has
met on a shallower level. `Level` says what its candidates know of the paths of their length;
merging repeats, dropping what was seen and going one level down keep it (`Level.merge`,
`Level.fresh`, `Level.next`). Main statement: the search finds a method exactly if one path is the
shallowest, and that path is the one it finds (`WellFormed.findMethod_finds`).
-/

namespace ScriptEngine

namespace Catalog

/-- The type of the embedded field at a position of the struct that a type is or stands for. -/
def embedded? (c : Catalog) (ty : TypeId) (i : Nat) : Option TypeId :=
  (c.structFields? ty).bind fun fields => (fields[i]?.filter (·.embedded)).map (·.ty)

/-- The type of the last field on a path from `ty`, which for the empty path is `ty` itself. -/
def pathEnd? (c : Catalog) (ty : TypeId) : List Nat → Option TypeId
  | [] => some ty
  | i :: rest => (c.embedded? (c.stripPointer ty) i).bind fun field => c.pathEnd? field rest

/-- The type that a path ends in, behind a pointer. -/
def target? (c : Catalog) (ty : TypeId) (path : List Nat) : Option TypeId :=
  (c.pathEnd? ty path).map c.stripPointer

/-- The path ends in a type that declares the method. -/
def Declares (c : Catalog) (ty : TypeId) (name : String) (path : List Nat) : Prop :=
  ∃ t, c.target? ty path = some t ∧ (c.methodIndex? t name).isSome

/-- The path ends in a type that declares the method, and no shorter one does. -/
def IsShallowest (c : Catalog) (ty : TypeId) (name : String) (path : List Nat) : Prop :=
  c.Declares ty name path ∧ ∀ path', c.Declares ty name path' → path.length ≤ path'.length

/-- A found method is the one at the end of its path. -/
def Describes (c : Catalog) (ty : TypeId) (name : String) (p : MethodPath) : Prop :=
  ∃ last, c.pathEnd? ty p.fields = some last ∧ p.owner = c.stripPointer last ∧
    c.methodIndex? p.owner name = some p.index ∧ p.viaPointer = c.isPointer last

variable {c : Catalog} {ty : TypeId} {name : String}

/-! ### Embedded fields -/

theorem mem_embeddedFrom {fields : List FieldDecl} {i j : Nat} {f : FieldDecl} :
    (j, f) ∈ embeddedFrom i fields ↔ ∃ n, j = i + n ∧ fields[n]? = some f ∧ f.embedded = true := by
  induction fields generalizing i with
  | nil => simp [embeddedFrom]
  | cons g rest ih =>
    have hrest : (j, f) ∈ embeddedFrom (i + 1) rest ↔
        ∃ n, j = i + (n + 1) ∧ (g :: rest)[n + 1]? = some f ∧ f.embedded = true := by
      rw [ih]
      exact exists_congr fun n => by rw [List.getElem?_cons_succ, Nat.add_right_comm, Nat.add_assoc]
    constructor
    · intro h
      unfold embeddedFrom at h
      split at h
      · next hg =>
        rcases List.mem_cons.mp h with heq | h
        · cases heq
          exact ⟨0, rfl, rfl, hg⟩
        · obtain ⟨n, hn⟩ := hrest.mp h
          exact ⟨n + 1, hn⟩
      · obtain ⟨n, hn⟩ := hrest.mp h
        exact ⟨n + 1, hn⟩
    · rintro ⟨_ | n, hj, hf, hemb⟩
      · cases hj
        cases hf
        simp [embeddedFrom, hemb]
      · have h := hrest.mpr ⟨n, hj, hf, hemb⟩
        unfold embeddedFrom
        split
        · exact List.mem_cons_of_mem _ h
        · exact h

/-- The positions of embedded fields rise. -/
theorem embeddedFrom_pairwise (fields : List FieldDecl) (i : Nat) :
    (embeddedFrom i fields).Pairwise fun a b => a.1 < b.1 := by
  induction fields generalizing i with
  | nil => exact .nil
  | cons f rest ih =>
    unfold embeddedFrom
    split
    · refine List.pairwise_cons.mpr ⟨fun b hb => ?_, ih (i + 1)⟩
      obtain ⟨n, hn, -⟩ := mem_embeddedFrom.mp hb
      show i < b.1
      omega
    · exact ih (i + 1)

theorem nodup_embeddedFields (c : Catalog) (ty : TypeId) :
    ((c.embeddedFields ty).map Prod.fst).Nodup := by
  unfold embeddedFields
  split
  · exact List.pairwise_map.mpr ((embeddedFrom_pairwise _ 0).imp Nat.ne_of_lt)
  · exact .nil

/-- The embedded fields of a type are what it embeds. -/
theorem embedded?_eq_some {i : Nat} {field : TypeId} :
    c.embedded? ty i = some field ↔ ∃ f, (i, f) ∈ c.embeddedFields ty ∧ f.ty = field := by
  unfold embedded? embeddedFields
  cases c.structFields? ty with
  | none => simp
  | some fields =>
    simp only [Option.bind_some, Option.map_eq_some_iff, Option.filter_eq_some_iff]
    refine exists_congr fun f => and_congr_left fun _ => ?_
    rw [mem_embeddedFrom]
    constructor
    · rintro ⟨hf, hemb⟩
      exact ⟨i, (Nat.zero_add i).symm, hf, hemb⟩
    · rintro ⟨n, hn, hf, hemb⟩
      rw [Nat.zero_add] at hn
      exact ⟨hn ▸ hf, hemb⟩

/-! ### Paths -/

theorem pathEnd?_concat (path : List Nat) (i : Nat) :
    c.pathEnd? ty (path ++ [i]) =
      (c.pathEnd? ty path).bind fun last => c.embedded? (c.stripPointer last) i := by
  induction path generalizing ty with
  | nil =>
    show (c.embedded? (c.stripPointer ty) i).bind some = c.embedded? (c.stripPointer ty) i
    exact Option.bind_fun_some _
  | cons j rest ih =>
    show (c.embedded? (c.stripPointer ty) j).bind (fun field => c.pathEnd? field (rest ++ [i])) = _
    simp only [ih, pathEnd?, Option.bind_assoc]

/-- A name is no pointer type. -/
theorem stripPointer_of_isNamed (h : c.isNamed ty = true) : c.stripPointer ty = ty := by
  obtain ⟨d, hd⟩ := isNamed_iff.mp h
  rw [stripPointer, hd]

/-- Where a path leads to depends on the type behind the pointer only. -/
theorem target?_congr {ty' : TypeId} (h : c.stripPointer ty' = c.stripPointer ty)
    (path : List Nat) : c.target? ty' path = c.target? ty path := by
  cases path with
  | nil => rw [target?, target?, pathEnd?, pathEnd?, Option.map_some, Option.map_some, h]
  | cons i rest => rw [target?, target?, pathEnd?, pathEnd?, h]

theorem declares_congr {ty' : TypeId} (h : c.stripPointer ty' = c.stripPointer ty)
    {path : List Nat} : c.Declares ty' name path ↔ c.Declares ty name path := by
  rw [Declares, target?_congr h, Declares]

/-- A type declares a method exactly if one that its indices count has the name. -/
theorem isSome_methodIndex? : (c.methodIndex? ty name).isSome = true ↔
    ∃ m ∈ c.methods ty, m.name = name := by
  rw [methodIndex?, methodPosition?, List.findIdx?_isSome, List.any_eq_true]
  simp only [beq_iff_eq]

/-- A path with one more field ends where the field of its target does. -/
theorem target?_concat_eq_some {path : List Nat} {i : Nat} {t : TypeId} :
    c.target? ty (path ++ [i]) = some t ↔
      ∃ s field, c.target? ty path = some s ∧ c.embedded? s i = some field ∧
        c.stripPointer field = t := by
  unfold target?
  rw [pathEnd?_concat]
  cases c.pathEnd? ty path <;> simp

/-- A path of some length is a shorter path and one more field. -/
theorem exists_concat {d : Nat} {path : List Nat} (h : path.length = d + 1) :
    ∃ front i, path = front ++ [i] ∧ front.length = d := by
  have hne : path ≠ [] := by
    rintro rfl
    cases h
  refine ⟨path.dropLast, path.getLast hne, (List.dropLast_append_getLast hne).symm, ?_⟩
  rw [List.length_dropLast, h, Nat.add_sub_cancel]

/-- Stripping a pointer leads down, so it changes pointer types and no others. -/
theorem WellFormed.stripPointer_bne (wf : c.WellFormed) (ty : TypeId) :
    (c.stripPointer ty != ty) = c.isPointer ty := by
  unfold stripPointer isPointer
  split
  · next elem h =>
    have hlt := wf.parts_lt _ _ h elem (List.mem_singleton_self elem)
    rw [bne_iff_ne]
    rintro rfl
    exact Nat.lt_irrefl _ hlt
  · exact bne_self_eq_false ty

/-! ### Levels of the search -/

/-- A path with fewer than `d` fields ends in `t`. -/
def Nearer (c : Catalog) (ty : TypeId) (d : Nat) (t : TypeId) : Prop :=
  ∃ path, path.length < d ∧ c.target? ty path = some t

theorem Nearer.mono {d d' : Nat} {t : TypeId} (hd : d ≤ d') (h : c.Nearer ty d t) :
    c.Nearer ty d' t := by
  obtain ⟨path, hlt, ht⟩ := h
  exact ⟨path, Nat.lt_of_lt_of_le hlt hd, ht⟩

/-- What the candidates of a level know of the paths with `d` fields. -/
structure Level (c : Catalog) (ty : TypeId) (d : Nat) (seen : List TypeId)
    (level : List Candidate) : Prop where
  /-- A candidate is at the end of its path. -/
  sound : ∀ k ∈ level, k.fields.length = d ∧ ∃ last, c.pathEnd? ty k.fields = some last ∧
    k.ty = c.stripPointer last ∧ k.viaPointer = (c.stripPointer last != last)
  /-- No path has two candidates. -/
  distinct : (level.map (·.fields)).Nodup
  /-- Behind a mark stands a second path to the same type. -/
  multiple : ∀ k ∈ level, k.multiple = true →
    ∃ path, path.length = d ∧ path ≠ k.fields ∧ c.target? ty path = some k.ty
  /-- A path without a candidate is behind a mark, or a shorter one ends in the same type. -/
  complete : ∀ path t, path.length = d → c.target? ty path = some t →
    (∃ k ∈ level, k.ty = t ∧ (k.fields = path ∨ k.multiple = true)) ∨ c.Nearer ty d t
  /-- What was seen is nearer. -/
  seen : ∀ t ∈ seen, c.Nearer ty d t

namespace Level

variable {d : Nat} {seen : List TypeId} {level merged rest : List Candidate} {k : Candidate}

theorem target (h : Level c ty d seen level) (hk : k ∈ level) :
    c.target? ty k.fields = some k.ty := by
  obtain ⟨-, last, hlast, hty, -⟩ := h.sound k hk
  rw [target?, hlast, hty]
  rfl

/-- The search starts with the empty path. -/
theorem start (c : Catalog) (ty : TypeId) :
    Level c ty 0 [] [⟨c.stripPointer ty, [], c.stripPointer ty != ty, false⟩] where
  sound := by
    intro k hk
    rw [List.mem_singleton.mp hk]
    exact ⟨rfl, ty, rfl, rfl, rfl⟩
  distinct := List.nodup_singleton _
  multiple := by
    intro k hk hmult
    rw [List.mem_singleton.mp hk] at hmult
    cases hmult
  complete := by
    intro path t hlen ht
    rw [List.eq_nil_of_length_eq_zero hlen] at ht ⊢
    exact .inl ⟨_, List.mem_singleton_self _, Option.some.inj ht, .inl rfl⟩
  seen := by
    intro t ht
    cases ht

/-- Marking a candidate that another one of the level repeats makes the other one needless. -/
theorem mark (h : Level c ty d seen (merged ++ k :: rest))
    (hrepeat : ∃ k' ∈ merged, k'.ty = k.ty) :
    Level c ty d seen ((merged.map fun k' =>
      if k'.ty == k.ty then { k' with multiple := true } else k') ++ rest) := by
  set marked := fun k' : Candidate => if k'.ty == k.ty then { k' with multiple := true } else k'
  -- A mark changes nothing else.
  have hfields : ∀ k', (marked k').fields = k'.fields := fun k' => by
    dsimp only [marked]
    split <;> rfl
  have hty : ∀ k', (marked k').ty = k'.ty := fun k' => by
    dsimp only [marked]
    split <;> rfl
  have hvia : ∀ k', (marked k').viaPointer = k'.viaPointer := fun k' => by
    dsimp only [marked]
    split <;> rfl
  have hk : k ∈ merged ++ k :: rest := List.mem_append_right _ (List.mem_cons_self ..)
  have hleft : ∀ {k'}, k' ∈ merged → k' ∈ merged ++ k :: rest := List.mem_append_left _
  have hright : ∀ {k'}, k' ∈ rest → k' ∈ merged ++ k :: rest := fun h =>
    List.mem_append_right _ (List.mem_cons_of_mem _ h)
  have hmap : merged.map ((·.fields) ∘ marked) = merged.map (·.fields) :=
    List.map_congr_left fun k' _ => hfields k'
  have hdistinct := h.distinct
  rw [List.map_append, List.map_cons] at hdistinct
  constructor
  case sound =>
    intro k' hk'
    rcases List.mem_append.mp hk' with hk' | hk'
    · obtain ⟨k₀, hk₀, rfl⟩ := List.mem_map.mp hk'
      rw [hfields, hty, hvia]
      exact h.sound k₀ (hleft hk₀)
    · exact h.sound k' (hright hk')
  case distinct =>
    rw [List.map_append, List.map_map, hmap]
    exact hdistinct.sublist (List.Sublist.append_left (List.sublist_cons_self ..) _)
  case multiple =>
    intro k' hk' hmult
    rcases List.mem_append.mp hk' with hk' | hk'
    · obtain ⟨k₀, hk₀, rfl⟩ := List.mem_map.mp hk'
      rw [hfields, hty]
      by_cases heq : k₀.ty = k.ty
      · refine ⟨k.fields, (h.sound k hk).1, ?_, by rw [heq]; exact h.target hk⟩
        exact Ne.symm ((List.nodup_append.mp hdistinct).2.2 _ (List.mem_map_of_mem hk₀) _
          (List.mem_cons_self ..))
      · refine h.multiple k₀ (hleft hk₀) ?_
        simpa [marked, heq] using hmult
    · exact h.multiple k' (hright hk') hmult
  case complete =>
    intro path t hlen ht
    rcases h.complete path t hlen ht with ⟨k₀, hk₀, rfl, hrep⟩ | hnear
    · left
      rcases List.mem_append.mp hk₀ with hk₀ | hk₀
      · refine ⟨marked k₀, List.mem_append_left _ (List.mem_map_of_mem hk₀), hty k₀, ?_⟩
        rw [hfields]
        refine hrep.imp_right fun hmult => ?_
        dsimp only [marked]
        split
        · rfl
        · exact hmult
      · rcases List.mem_cons.mp hk₀ with rfl | hk₀
        · obtain ⟨k', hk', heq⟩ := hrepeat
          refine ⟨marked k', List.mem_append_left _ (List.mem_map_of_mem hk'), ?_, .inr ?_⟩
          · rw [hty, heq]
          · simp [marked, heq]
        · exact ⟨k₀, List.mem_append_right _ hk₀, rfl, hrep⟩
    · exact .inr hnear
  case seen => exact h.seen

/-- Merging repeats keeps what the level knows. -/
theorem merge (h : Level c ty d seen level) : Level c ty d seen (c.mergeRepeats level) := by
  -- The candidates merged so far and those still to come form a level together.
  have hfold : ∀ rest merged, Level c ty d seen (merged ++ rest) →
      Level c ty d seen (rest.foldl c.addToLevel merged) := by
    intro rest
    induction rest with
    | nil =>
      intro merged h
      rw [List.append_nil] at h
      exact h
    | cons k rest ih =>
      intro merged h
      refine ih _ ?_
      unfold addToLevel
      split
      · next hrepeat =>
        refine h.mark ?_
        simp only [Bool.and_eq_true, List.any_eq_true, beq_iff_eq] at hrepeat
        exact hrepeat.2
      · rw [List.append_assoc]
        exact h
  exact hfold level [] h

/-- Dropping what was seen keeps what the level knows. -/
theorem fresh (h : Level c ty d seen level) :
    Level c ty d seen (level.filter fun k => !seen.contains k.ty) where
  sound k hk := h.sound k (List.mem_of_mem_filter hk)
  distinct := h.distinct.sublist (List.filter_sublist.map _)
  multiple k hk := h.multiple k (List.mem_of_mem_filter hk)
  complete path t hlen ht := by
    rcases h.complete path t hlen ht with ⟨k, hk, rfl, hrep⟩ | hnear
    · by_cases hseen : k.ty ∈ seen
      · exact .inr (h.seen _ hseen)
      · exact .inl ⟨k, List.mem_filter.mpr ⟨hk, by simpa using hseen⟩, rfl, hrep⟩
    · exact .inr hnear
  seen := h.seen

theorem mem_below {k' : Candidate} : k' ∈ c.below k ↔ ∃ i field, c.embedded? k.ty i = some field ∧
    k' = ⟨c.stripPointer field, k.fields ++ [i], c.stripPointer field != field, k.multiple⟩ := by
  unfold below
  rw [List.mem_map]
  constructor
  · rintro ⟨⟨i, f⟩, hmem, rfl⟩
    exact ⟨i, f.ty, embedded?_eq_some.mpr ⟨f, hmem, rfl⟩, rfl⟩
  · rintro ⟨i, field, hfield, rfl⟩
    obtain ⟨f, hmem, rfl⟩ := embedded?_eq_some.mp hfield
    exact ⟨(i, f), hmem, rfl⟩

/-- The candidates below a level know of the paths with one more field. -/
theorem next (h : Level c ty d seen level) {names : List TypeId}
    (hnames : ∀ t ∈ names, ∃ k ∈ level, k.ty = t) :
    Level c ty (d + 1) (names ++ seen) (level.flatMap c.below) where
  sound k' hk' := by
    obtain ⟨k, hk, hbelow⟩ := List.mem_flatMap.mp hk'
    obtain ⟨i, field, hfield, rfl⟩ := mem_below.mp hbelow
    obtain ⟨hlen, last, hlast, hty, -⟩ := h.sound k hk
    refine ⟨by simp [hlen], field, ?_, rfl, rfl⟩
    rw [pathEnd?_concat, hlast, Option.bind_some, ← hty]
    exact hfield
  distinct := by
    rw [List.map_flatMap, List.nodup_flatMap]
    constructor
    · intro k _
      have hmap : (c.below k).map (·.fields) =
          ((c.embeddedFields k.ty).map Prod.fst).map fun i => k.fields ++ [i] := by
        simp [below, Function.comp_def]
      rw [hmap]
      exact (nodup_embeddedFields c k.ty).map fun i j hij => by simpa using hij
    · refine (List.pairwise_map.mp h.distinct).imp fun {k k'} hne fields hmem hmem' => ?_
      obtain ⟨j, hj, rfl⟩ := List.mem_map.mp hmem
      obtain ⟨i, _, -, rfl⟩ := mem_below.mp hj
      obtain ⟨j', hj', heq⟩ := List.mem_map.mp hmem'
      obtain ⟨i', _, -, rfl⟩ := mem_below.mp hj'
      exact hne (List.append_inj_left' heq rfl).symm
  multiple k' hk' hmult := by
    obtain ⟨k, hk, hbelow⟩ := List.mem_flatMap.mp hk'
    obtain ⟨i, field, hfield, rfl⟩ := mem_below.mp hbelow
    obtain ⟨path, hlen, hne, ht⟩ := h.multiple k hk hmult
    refine ⟨path ++ [i], by simp [hlen], fun heq => hne (List.append_inj_left' heq rfl), ?_⟩
    exact target?_concat_eq_some.mpr ⟨k.ty, field, ht, hfield, rfl⟩
  complete path t hlen ht := by
    obtain ⟨front, i, rfl, hfront⟩ := exists_concat hlen
    obtain ⟨s, field, hs, hfield, rfl⟩ := target?_concat_eq_some.mp ht
    rcases h.complete front s hfront hs with ⟨k, hk, rfl, hrep⟩ | ⟨path', hlt, ht'⟩
    · refine .inl ⟨_, List.mem_flatMap.mpr ⟨k, hk, mem_below.mpr ⟨i, field, hfield, rfl⟩⟩, rfl, ?_⟩
      exact hrep.imp_left fun heq => by rw [heq]
    · refine .inr ⟨path' ++ [i], by simpa using hlt, ?_⟩
      exact target?_concat_eq_some.mpr ⟨s, field, ht', hfield, rfl⟩
  seen t ht := by
    rcases List.mem_append.mp ht with ht | ht
    · obtain ⟨k, hk, rfl⟩ := hnames t ht
      exact ⟨k.fields, by rw [(h.sound k hk).1]; exact Nat.lt_succ_self d, h.target hk⟩
    · exact (h.seen t ht).mono (Nat.le_succ d)

end Level

/-! ### One level -/

/-- The answer is the method at the end of the one shallowest path, if there is one. -/
def Finds (c : Catalog) (ty : TypeId) (name : String) (answer : Option MethodPath) : Prop :=
  ∀ p, answer = some p ↔ c.Describes ty name p ∧ c.IsShallowest ty name p.fields ∧
    ∀ path, c.IsShallowest ty name path → path = p.fields

/-- A found method is known by its path. -/
theorem Describes.eq {p q : MethodPath} (hp : c.Describes ty name p) (hq : c.Describes ty name q)
    (h : p.fields = q.fields) : p = q := by
  obtain ⟨fields, owner, index, viaPointer⟩ := p
  obtain ⟨last, hlast, howner, hindex, hvia⟩ := hp
  obtain ⟨last', hlast', howner', hindex', hvia'⟩ := hq
  dsimp only at h hlast howner hindex hvia
  have heq : last = last' := by
    rw [h, hlast'] at hlast
    exact (Option.some.inj hlast).symm
  subst heq
  have hown : owner = q.owner := howner.trans howner'.symm
  rw [hown, hindex'] at hindex
  rw [h, hown, ← Option.some.inj hindex, hvia, ← hvia']

/-- No path with fewer than `d` fields ends in a type that declares the method. -/
def NoneWithin (c : Catalog) (ty : TypeId) (name : String) (d : Nat) : Prop :=
  ∀ path, c.Declares ty name path → d ≤ path.length

namespace Level

variable {d : Nat} {seen : List TypeId} {level : List Candidate} {k : Candidate} {i : Nat}

theorem mem_hits : (k, i) ∈ level.filterMap (c.hit? name) ↔
    k ∈ level ∧ c.methodIndex? k.ty name = some i := by
  rw [List.mem_filterMap]
  constructor
  · rintro ⟨k', hk', hhit⟩
    obtain ⟨j, hj, heq⟩ := Option.map_eq_some_iff.mp hhit
    cases heq
    exact ⟨hk', hj⟩
  · rintro ⟨hk, hi⟩
    exact ⟨k, hk, by rw [hit?, hi]; rfl⟩

/-- A hit describes the method at the end of its path. -/
theorem describes (h : Level c ty d seen level) (wf : c.WellFormed) (hk : k ∈ level)
    (hi : c.methodIndex? k.ty name = some i) :
    c.Describes ty name ⟨k.fields, k.ty, i, k.viaPointer⟩ := by
  obtain ⟨-, last, hlast, hty, hvia⟩ := h.sound k hk
  exact ⟨last, hlast, hty, hi, hvia.trans (wf.stripPointer_bne last)⟩

/-- With nothing above, a path to a hit is shallowest. -/
theorem isShallowest (none : c.NoneWithin ty name d) {path : List Nat} (hlen : path.length = d)
    {t : TypeId} (ht : c.target? ty path = some t) (hi : c.methodIndex? t name = some i) :
    c.IsShallowest ty name path :=
  ⟨⟨t, ht, by rw [hi]; rfl⟩, fun path' hpath' => hlen ▸ none path' hpath'⟩

/-- With nothing above, a path that ends in a declaring type has a hit for it. -/
theorem exists_hit (h : Level c ty d seen level) (none : c.NoneWithin ty name d) {path : List Nat}
    (hlen : path.length = d) (hpath : c.Declares ty name path) :
    ∃ k i, (k, i) ∈ level.filterMap (c.hit? name) ∧ (k.fields = path ∨ k.multiple = true) := by
  obtain ⟨t, ht, hsome⟩ := hpath
  rcases h.complete path t hlen ht with ⟨k, hk, rfl, hrep⟩ | ⟨path', hlt, ht'⟩
  · obtain ⟨i, hi⟩ := Option.isSome_iff_exists.mp hsome
    exact ⟨k, i, mem_hits.mpr ⟨hk, hi⟩, hrep⟩
  · exact absurd (none path' ⟨t, ht', hsome⟩) (Nat.not_le_of_lt hlt)

/-- One hit that is not marked is the answer. -/
theorem finds_of_one (h : Level c ty d seen level) (wf : c.WellFormed)
    (none : c.NoneWithin ty name d) (hhits : level.filterMap (c.hit? name) = [(k, i)])
    (hmult : k.multiple = false) :
    c.Finds ty name (some ⟨k.fields, k.ty, i, k.viaPointer⟩) := by
  obtain ⟨hk, hi⟩ := mem_hits.mp (hhits ▸ List.mem_singleton_self (k, i))
  have hshallow := isShallowest none (h.sound k hk).1 (h.target hk) hi
  have honly : ∀ path, c.IsShallowest ty name path → path = k.fields := by
    intro path hpath
    have hlen : path.length = d := by
      refine Nat.le_antisymm ?_ (none path hpath.1)
      exact Nat.le_trans (hpath.2 k.fields hshallow.1) (Nat.le_of_eq (h.sound k hk).1)
    obtain ⟨k', i', hmem, hrep⟩ := h.exists_hit none hlen hpath.1
    rw [hhits, List.mem_singleton] at hmem
    cases hmem
    rcases hrep with heq | hmult'
    · exact heq.symm
    · rw [hmult] at hmult'
      cases hmult'
  intro p
  constructor
  · rintro ⟨⟩
    exact ⟨h.describes wf hk hi, hshallow, honly⟩
  · rintro ⟨hp, hpshallow, -⟩
    rw [(h.describes wf hk hi).eq hp (honly p.fields hpshallow).symm]

/-- Two shallowest paths leave no answer. -/
theorem finds_of_two {path path' : List Nat} (hne : path ≠ path')
    (hpath : c.IsShallowest ty name path) (hpath' : c.IsShallowest ty name path') :
    c.Finds ty name none := by
  refine fun p => ⟨nofun, fun ⟨_, _, honly⟩ => ?_⟩
  exact absurd ((honly path hpath).trans (honly path' hpath').symm) hne

/-- Two hits are at the end of different paths. -/
theorem hits_distinct (h : Level c ty d seen level) (name : String) :
    (level.filterMap (c.hit? name)).Pairwise fun a b => a.1.fields ≠ b.1.fields := by
  refine (List.pairwise_map.mp h.distinct).filterMap (c.hit? name) fun k k' hne a ha b hb => ?_
  obtain ⟨i, -, rfl⟩ := Option.map_eq_some_iff.mp ha
  obtain ⟨j, -, rfl⟩ := Option.map_eq_some_iff.mp hb
  exact hne

/-- A level without hits settles the paths of its length. -/
theorem noneWithin_succ (h : Level c ty d seen level) (none : c.NoneWithin ty name d)
    (hhits : level.filterMap (c.hit? name) = []) : c.NoneWithin ty name (d + 1) := by
  intro path hpath
  refine Nat.lt_of_le_of_ne (none path hpath) fun hlen => ?_
  obtain ⟨k, i, hmem, -⟩ := h.exists_hit none hlen.symm hpath
  rw [hhits] at hmem
  cases hmem

/-- Below an empty level there is nothing. -/
theorem noneWithin_of_nil (h : Level c ty d seen []) (none : c.NoneWithin ty name d) (n : Nat) :
    c.NoneWithin ty name (d + n) := by
  induction n generalizing d with
  | zero => exact none
  | succ n ih =>
    have hnext : Level c ty (d + 1) ([] ++ seen) [] := h.next fun t ht => by cases ht
    rw [← Nat.succ_add_eq_add_succ]
    exact ih hnext (h.noneWithin_succ none rfl)

/-- Without hits and without embedded fields on a level, no path declares the method. -/
theorem finds_of_end (h : Level c ty d seen level) (none : c.NoneWithin ty name d)
    (hhits : level.filterMap (c.hit? name) = []) (hend : level.flatMap c.below = []) :
    c.Finds ty name Option.none := by
  have hnext : Level c ty (d + 1) ([] ++ seen) (level.flatMap c.below) :=
    h.next fun t ht => by cases ht
  rw [hend] at hnext
  refine fun p => ⟨nofun, fun ⟨_, hp, _⟩ => ?_⟩
  have hlen := hnext.noneWithin_of_nil (h.noneWithin_succ none hhits) p.fields.length p.fields hp.1
  omega

end Level

/-! ### The bound on the depth -/

theorem unvisited_le (c : Catalog) (trail : List TypeId) : c.unvisited trail ≤ c.size :=
  Nat.le_trans List.countP_le_length (Nat.le_of_eq List.length_range)

theorem unvisited_anti {trail trail' : List TypeId} (h : trail ⊆ trail') :
    c.unvisited trail' ≤ c.unvisited trail := by
  refine List.countP_mono_left fun i _ hi => ?_
  simp only [List.contains_eq_mem, Bool.not_eq_true', decide_eq_false_iff_not] at hi ⊢
  exact fun hmem => hi (List.map_subset _ h hmem)

/-- What embeds a field is declared. -/
theorem lt_size_of_embedded? {t field : TypeId} {i : Nat} (h : c.embedded? t i = some field) :
    t.index < c.size := by
  cases hd : c.decl? t with
  | some d => exact lt_size_of_decl? hd
  | none => simp [embedded?, structFields?, underlying, hd] at h

/-- A field that an unnamed type embeds leads down in the catalog. -/
theorem WellFormed.embedded?_lt (wf : c.WellFormed) {t field : TypeId} {i : Nat}
    (hunnamed : c.isNamed t = false) (h : c.embedded? t i = some field) :
    (c.stripPointer field).index < t.index := by
  have hself : c.underlying t = t := by
    unfold underlying
    split
    · next d hd => rw [isNamed_iff.mpr ⟨d, hd⟩] at hunnamed; cases hunnamed
    · rfl
  have hfield : field.index < t.index := by
    unfold embedded? structFields? at h
    rw [hself] at h
    split at h
    · next fields hd =>
      obtain ⟨f, hf, rfl⟩ := Option.map_eq_some_iff.mp h
      refine wf.parts_lt t _ hd f.ty (List.mem_map_of_mem ?_)
      exact List.mem_of_getElem? (Option.filter_eq_some_iff.mp hf).1
    · cases h
  exact Nat.lt_of_le_of_lt (wf.stripPointer_le field) hfield

/-- Every candidate of the level that embeds something is below `b` in the catalog. -/
def Below (c : Catalog) (b : Nat) (level : List Candidate) : Prop :=
  ∀ k ∈ level, ∀ i field, c.embedded? k.ty i = some field → k.ty.index < b

theorem below_size (c : Catalog) (level : List Candidate) : c.Below c.size level :=
  fun _ _ _ _ h => lt_size_of_embedded? h

/-- Merging repeats adds no types. -/
theorem exists_of_mem_mergeRepeats {level : List Candidate} {k : Candidate}
    (hk : k ∈ c.mergeRepeats level) : ∃ k₀ ∈ level, k₀.ty = k.ty := by
  have hfold : ∀ rest merged : List Candidate, k ∈ rest.foldl c.addToLevel merged →
      ∃ k₀ ∈ merged ++ rest, k₀.ty = k.ty := by
    intro rest
    induction rest with
    | nil => exact fun merged hk => ⟨k, List.mem_append_left _ hk, rfl⟩
    | cons k' rest ih =>
      intro merged hk
      obtain ⟨k₀, hk₀, heq⟩ := ih _ hk
      rcases List.mem_append.mp hk₀ with hk₀ | hk₀
      · unfold addToLevel at hk₀
        split at hk₀
        · obtain ⟨k₁, hk₁, rfl⟩ := List.mem_map.mp hk₀
          refine ⟨k₁, List.mem_append_left _ hk₁, ?_⟩
          rw [← heq]
          split <;> rfl
        · refine ⟨k₀, ?_, heq⟩
          rw [← List.singleton_append, ← List.append_assoc]
          exact List.mem_append_left _ hk₀
      · exact ⟨k₀, List.mem_append_right _ (List.mem_cons_of_mem _ hk₀), heq⟩
  exact hfold level [] hk

theorem Below.merge {b : Nat} {level : List Candidate} (h : c.Below b level) :
    c.Below b (c.mergeRepeats level) := by
  intro k hk
  obtain ⟨k₀, hk₀, heq⟩ := exists_of_mem_mergeRepeats hk
  rw [← heq]
  exact h k₀ hk₀

/-- A level without names is above the next one. -/
theorem WellFormed.below_next (wf : c.WellFormed) {b : Nat} {level : List Candidate}
    (h : c.Below (b + 1) level) (hunnamed : ∀ k ∈ level, c.isNamed k.ty = false) :
    c.Below b (level.flatMap c.below) := by
  intro k' hk' i' field' _
  obtain ⟨k, hk, hbelow⟩ := List.mem_flatMap.mp hk'
  obtain ⟨i, field, hfield, rfl⟩ := Level.mem_below.mp hbelow
  have hup := h k hk i field hfield
  have hdown := wf.embedded?_lt (hunnamed k hk) hfield
  show (c.stripPointer field).index < b
  omega

/-- Searching a level that holds names leaves fewer to be seen. -/
theorem unvisited_names_lt {seen : List TypeId} {level : List Candidate} {k : Candidate}
    (hk : k ∈ level) (hseen : k.ty ∉ seen) (hnamed : c.isNamed k.ty = true) :
    c.unvisited ((level.map (·.ty)).filter c.isNamed ++ seen) < c.unvisited seen := by
  obtain ⟨d, hd⟩ := isNamed_iff.mp hnamed
  refine Nat.lt_of_le_of_lt (unvisited_anti ?_) (unvisited_cons_lt (lt_size_of_decl? hd) hseen)
  refine List.cons_subset.mpr ⟨?_, List.subset_append_right _ _⟩
  exact List.mem_append_left _ (List.mem_filter.mpr ⟨List.mem_map_of_mem hk, hnamed⟩)

/-- Each level leaves less to the next one: either it holds a name, which is not searched again, or
the next one is further down in the catalog. -/
theorem WellFormed.exists_below_next (wf : c.WellFormed) {b : Nat} {seen : List TypeId}
    {level fresh : List Candidate} (hb : c.Below b level)
    (hne : fresh.flatMap c.below ≠ [])
    (hfresh : fresh = (c.mergeRepeats level).filter fun k => !seen.contains k.ty) :
    ∃ b', c.Below b' (fresh.flatMap c.below) ∧
      c.unvisited ((fresh.map (·.ty)).filter c.isNamed ++ seen) * (c.size + 1) + b' <
        c.unvisited seen * (c.size + 1) + b := by
  subst hfresh
  set fresh := (c.mergeRepeats level).filter fun k => !seen.contains k.ty
  by_cases hnames : ∃ k ∈ fresh, c.isNamed k.ty = true
  · obtain ⟨k, hk, hnamed⟩ := hnames
    have hseen : k.ty ∉ seen := by simpa using (List.mem_filter.mp hk).2
    refine ⟨c.size, below_size c _, ?_⟩
    have hmul := Nat.mul_le_mul_right (c.size + 1) (unvisited_names_lt hk hseen hnamed)
    rw [Nat.succ_mul] at hmul
    omega
  · have hunnamed : ∀ k ∈ fresh, c.isNamed k.ty = false := fun k hk =>
      Bool.eq_false_iff.mpr fun hk' => hnames ⟨k, hk, hk'⟩
    have hbfresh : c.Below b fresh := fun k hk => hb.merge k (List.mem_of_mem_filter hk)
    obtain ⟨k', hk'⟩ := List.exists_mem_of_ne_nil _ hne
    obtain ⟨k, hk, hbelow⟩ := List.mem_flatMap.mp hk'
    obtain ⟨i, field, hfield, -⟩ := Level.mem_below.mp hbelow
    have hpos := Nat.ne_zero_of_lt (hbfresh k hk i field hfield)
    obtain ⟨b, rfl⟩ := Nat.exists_eq_add_one_of_ne_zero hpos
    refine ⟨b, wf.below_next hbfresh hunnamed, ?_⟩
    have hle := unvisited_anti (c := c)
      (List.subset_append_right ((fresh.map (·.ty)).filter c.isNamed) seen)
    have hmul := Nat.mul_le_mul_right (c.size + 1) hle
    omega

/-! ### The search -/

/-- **The search from a level gives the answer**, if the depth bounds what is left: names not seen
yet and, between two of them, the way down in the catalog. -/
theorem WellFormed.searchLevels_finds (wf : c.WellFormed) (depth : Nat) {d b : Nat}
    {seen : List TypeId} {level : List Candidate} (h : Level c ty d seen level)
    (none : c.NoneWithin ty name d) (hb : c.Below b level)
    (hdepth : c.unvisited seen * (c.size + 1) + b < depth) :
    c.Finds ty name (c.searchLevels name depth seen level) := by
  induction depth generalizing d b seen level with
  | zero => exact absurd hdepth (Nat.not_lt_zero _)
  | succ depth ih =>
    have hfresh := h.merge.fresh
    rw [searchLevels]
    dsimp only
    set fresh := (c.mergeRepeats level).filter fun k => !seen.contains k.ty
    split
    · next k i hhits =>
      cases hmult : k.multiple with
      | false => exact hfresh.finds_of_one wf none hhits hmult
      | true =>
        obtain ⟨hk, hi⟩ := Level.mem_hits.mp (hhits ▸ List.mem_singleton_self (k, i))
        obtain ⟨path, hlen, hne, ht⟩ := hfresh.multiple k hk hmult
        exact Level.finds_of_two hne (Level.isShallowest none hlen ht hi)
          (Level.isShallowest none (hfresh.sound k hk).1 (hfresh.target hk) hi)
    · next a b hits hhits =>
      have hmem : ∀ k i, (k, i) ∈ a :: b :: hits → c.IsShallowest ty name k.fields := by
        intro k i hki
        obtain ⟨hk, hi⟩ := Level.mem_hits.mp (hhits ▸ hki)
        exact Level.isShallowest none (hfresh.sound k hk).1 (hfresh.target hk) hi
      have hpair := hhits ▸ hfresh.hits_distinct name
      refine Level.finds_of_two ((List.pairwise_cons.mp hpair).1 b (List.mem_cons_self ..))
        (hmem a.1 a.2 ?_) (hmem b.1 b.2 ?_)
      · exact List.mem_cons_self ..
      · exact List.mem_cons_of_mem _ (List.mem_cons_self ..)
    · next hhits =>
      split
      · next hend => exact hfresh.finds_of_end none hhits hend
      · next hne =>
        have hnext := hfresh.next fun t ht =>
          List.mem_map.mp (List.mem_of_mem_filter (p := c.isNamed) ht)
        have hnone := hfresh.noneWithin_succ none hhits
        obtain ⟨b', hb', hlt⟩ := wf.exists_below_next hb hne rfl
        exact ih hnext hnone hb' (by omega)

/-- **The search finds the method at the end of the one shallowest path, and nothing else.** -/
theorem WellFormed.findMethod_finds (wf : c.WellFormed) (ty : TypeId) (name : String) :
    c.Finds ty name (c.findMethod ty name) := by
  refine wf.searchLevels_finds c.searchDepth (Level.start c ty) (fun _ _ => Nat.zero_le _)
    (below_size c _) ?_
  have hmul := Nat.mul_le_mul_right (c.size + 1) (unvisited_le c [])
  rw [searchDepth, Nat.succ_mul]
  omega

/-- A found method is on the one shallowest path, and where there is one such path, a method is
found. -/
theorem Finds.isSome_iff {answer : Option MethodPath} (h : c.Finds ty name answer) :
    answer.isSome = true ↔ ∃! path, c.IsShallowest ty name path := by
  constructor
  · intro hsome
    obtain ⟨p, hp⟩ := Option.isSome_iff_exists.mp hsome
    obtain ⟨-, hshallow, honly⟩ := (h p).mp hp
    exact ⟨p.fields, hshallow, honly⟩
  · rintro ⟨path, hshallow, honly⟩
    obtain ⟨⟨t, ht, hsome⟩, -⟩ := id hshallow
    obtain ⟨last, hlast, rfl⟩ := Option.map_eq_some_iff.mp ht
    obtain ⟨i, hi⟩ := Option.isSome_iff_exists.mp hsome
    have hp := (h ⟨path, c.stripPointer last, i, c.isPointer last⟩).mpr
      ⟨⟨last, hlast, rfl, hi, rfl⟩, hshallow, honly⟩
    rw [hp]
    rfl

end Catalog

end ScriptEngine
