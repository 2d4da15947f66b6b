import Mathlib.Logic.Function.Iterate
import ScriptEngine.Proofs.Types.EmbeddingPath
import ScriptEngine.Proofs.Types.Layers

/-!
Traversals of declared types end.

A traversal calls itself on the types that a declaration mentions. Its definition here takes a step
down in the catalog, or enters a name that the path has not entered before, and would break off
anywhere else; `nameStep`, `countStep` and `searchStep` are one round of the same traversals without
such a guard. `AnswersWithin` says that a bounded number of rounds gives the answer, whatever deeper
calls would give: the recursion ends, and no guard was in its way. Main statements:
`WellFormed.typeName_answers`, `WellFormed.numAllMethod_answers`, `WellFormed.findMethod_answers`.
-/

namespace ScriptEngine

/-! ### Recursions that end -/

section Rounds

variable {α β : Type} {step : (α → β) → α → β} {f : α → β} {R : Nat → α → Prop} {n : Nat} {x : α}

/-- The recursion with the given step answers `b` at `x` within `depth` nested calls: what calls
below them would answer makes no difference. -/
def AnswersWithin (depth : Nat) (step : (α → β) → α → β) (x : α) (b : β) : Prop :=
  ∀ deeper : α → β, step^[depth] deeper x = b

/-- A recursion ends where each step needs only answers that end one call earlier. -/
theorem answersWithin (hzero : ∀ x, ¬ R 0 x)
    (hstep : ∀ n x call, R (n + 1) x → (∀ y, R n y → call y = f y) → step call x = f x)
    (h : R n x) : AnswersWithin n step x (f x) := by
  intro deeper
  induction n generalizing x with
  | zero => exact absurd h (hzero x)
  | succ n ih =>
    rw [Function.iterate_succ_apply']
    exact hstep n x _ h fun y hy => ih hy

end Rounds

namespace Catalog

variable {c : Catalog} {ty p u : TypeId} {trail : List TypeId}

/-! ### The way that is left -/

/-- How far a traversal can still go from a type: names that it has not entered and, between two of
them, the way down in the catalog. -/
def rank (c : Catalog) (trail : List TypeId) (ty : TypeId) : Nat :=
  c.unvisited trail * (c.size + 1) + min ty.index c.size

theorem rank_lt_searchDepth (c : Catalog) (trail : List TypeId) (ty : TypeId) :
    c.rank trail ty < c.searchDepth := by
  have hmul := Nat.mul_le_mul_right (c.size + 1) (unvisited_le c trail)
  have hmin := Nat.min_le_right ty.index c.size
  rw [rank, searchDepth, Nat.succ_mul]
  omega

/-- A step down in the catalog. -/
theorem rank_lt_of_older (hty : ty.index < c.size) (h : p.index < ty.index) :
    c.rank trail p < c.rank trail ty := by
  unfold rank
  omega

/-- A step through a name. -/
theorem rank_lt_of_entered (hty : ty.index < c.size) (h : ty ∉ trail) :
    c.rank (ty :: trail) u < c.rank trail ty := by
  have hmul := Nat.mul_le_mul_right (c.size + 1) (unvisited_cons_lt hty h)
  rw [Nat.succ_mul] at hmul
  have hmin := Nat.min_le_right u.index c.size
  unfold rank
  omega

/-! ### Names -/

/-- One round of writing a type; `part` writes the types it is composed of. -/
def nameStep (c : Catalog) (part : TypeId → String) (ty : TypeId) : String :=
  match c.decl? ty with
  | none => ""
  | some d => c.declWith part d

theorem WellFormed.signatureWith_congr (wf : c.WellFormed) {part part' : TypeId → String}
    {sig : Signature} {bound : Nat} (hsig : ∀ p ∈ sig.params ++ sig.results, p.index < bound)
    (hpart : ∀ p, p.index < bound → part p = part' p) :
    c.signatureWith part sig = c.signatureWith part' sig := by
  have hparams : ∀ p ∈ sig.params, p.index < bound := fun p hp =>
    hsig p (List.mem_append_left _ hp)
  unfold signatureWith
  rw [Text.paramTexts_congr (fun p hp => hpart p (hparams p hp)) fun p hp =>
      congrArg Text.restText (hpart _ (Nat.lt_of_le_of_lt (wf.stripSlice_le p) (hparams p hp))),
    List.map_congr_left fun p hp => hpart p (hsig p (List.mem_append_right _ hp))]

/-- Writing a declaration asks for older types only. -/
theorem WellFormed.declWith_congr (wf : c.WellFormed) (hl : c.Layered)
    {part part' : TypeId → String} {d : TypeDecl} (hd : c.decl? ty = some d)
    (hpart : ∀ p, p.index < ty.index → part p = part' p) :
    c.declWith part d = c.declWith part' d := by
  have hlt : ∀ p ∈ components d, p.index < ty.index := fun p hp => wf.components_lt hl hd hp
  cases d with
  | basic | named => rfl
  | pointer elem | slice elem =>
    rw [declWith, declWith, hpart elem (hlt elem (List.mem_singleton_self elem))]
  | func sig => rw [declWith, declWith, wf.signatureWith_congr hlt hpart]
  | struct fields =>
    have hfields : ∀ f ∈ fields, part f.ty = part' f.ty := fun f hf =>
      hpart f.ty (hlt f.ty (List.mem_map_of_mem hf))
    rw [declWith, declWith]
    congr 1
    exact List.map_congr_left fun f hf => by rw [hfields f hf]
  | interface d =>
    have hembedded : ∀ e ∈ d.embedded, part e = part' e := fun e he =>
      hpart e (hlt e (List.mem_append_left _ he))
    have hsig : ∀ m ∈ d.explicit, ∀ p ∈ m.sig.params ++ m.sig.results, p.index < ty.index :=
      fun m hm p hp => hlt p (List.mem_append_right _ (List.mem_flatMap.mpr ⟨m, hm, hp⟩))
    rw [declWith, declWith, List.map_congr_left hembedded]
    congr 2
    exact List.map_congr_left fun m hm => by rw [wf.signatureWith_congr (hsig m hm) hpart]

/-- **Writing a type ends.** -/
theorem WellFormed.typeName_answers (wf : c.WellFormed) (hl : c.Layered) (ty : TypeId) :
    AnswersWithin c.searchDepth c.nameStep ty (c.typeName ty) := by
  refine answersWithin (R := fun n ty => c.rank [] ty < n) (fun _ => Nat.not_lt_zero _)
    (fun n ty part hn hpart => ?_) (c.rank_lt_searchDepth [] ty)
  rw [nameStep, typeName]
  cases hd : c.decl? ty with
  | none => rfl
  | some d =>
    refine wf.declWith_congr hl hd fun p hp => ?_
    rw [dif_pos hp]
    exact hpart p (Nat.lt_of_lt_of_le (rank_lt_of_older (lt_size_of_decl? hd) hp)
      (Nat.le_of_lt_succ hn))

/-! ### Counting -/

/-- One round of counting methods along embedding paths; `count` counts from a type onwards. -/
def countStep (c : Catalog) (count : List TypeId × TypeId → Nat) (x : List TypeId × TypeId) : Nat :=
  match c.decl? x.2 with
  | some (.named d) =>
    if x.2 ∈ x.1 then 0
    else d.methods.length + match d.underlying with
      | some u => count (x.2 :: x.1, u)
      | none => 0
  | some (.interface d) => d.complete.length
  | some (.struct fields) => (fields.map fun f =>
      if f.embedded then count (x.1, c.stripPointer f.ty) else 0).foldr (· + ·) 0
  | _ => 0

/-- **Counting methods ends**, though names embed each other. -/
theorem WellFormed.numAllMethod_answers (wf : c.WellFormed) (ty : TypeId) :
    AnswersWithin c.searchDepth c.countStep ([], ty) (c.numAllMethod ty) := by
  refine answersWithin (f := fun x : List TypeId × TypeId => c.countMethods x.1 x.2)
    (R := fun n x => c.rank x.1 x.2 < n) (fun _ => Nat.not_lt_zero _)
    (fun n ⟨trail, ty⟩ count hn hcount => ?_) (c.rank_lt_searchDepth [] ty)
  have hn : c.rank trail ty ≤ n := Nat.le_of_lt_succ hn
  symm
  dsimp only
  rw [countMethods]
  split
  · next d hd =>
    simp only [countStep, hd]
    split
    · rfl
    · next hseen =>
      cases d.underlying with
      | none => rfl
      | some u =>
        have hentered : c.rank (ty :: trail) u < c.rank trail ty :=
          rank_lt_of_entered (lt_size_of_decl? hd) hseen
        simp only [hcount (ty :: trail, u) (Nat.lt_of_lt_of_le hentered hn)]
  · next d hd => simp only [countStep, hd]
  · next fields hd =>
    simp only [countStep, hd]
    congr 1
    refine List.map_congr_left fun f hf => ?_
    have hfield := wf.parts_lt ty _ hd f.ty (List.mem_map_of_mem hf)
    have hbase := Nat.lt_of_le_of_lt (wf.stripPointer_le f.ty) hfield
    cases hemb : f.embedded with
    | false => simp
    | true =>
      have holder : c.rank trail (c.stripPointer f.ty) < c.rank trail ty :=
        rank_lt_of_older (lt_size_of_decl? hd) hbase
      rw [if_pos rfl, dif_pos ⟨rfl, hbase⟩, hcount _ (Nat.lt_of_lt_of_le holder hn)]
  · next d hnamed hiface hstruct =>
    rw [countStep]
    split
    · next d hd => exact absurd hd (hnamed d)
    · next d hd => exact absurd hd (hiface d)
    · next fields hd => exact absurd hd (hstruct fields)
    · rfl

/-! ### Searching -/

/-- One round of the search for a method: a level is searched, and `search` goes on below it. -/
def searchStep (c : Catalog) (name : String)
    (search : List TypeId × List Candidate → Option MethodPath)
    (x : List TypeId × List Candidate) : Option MethodPath :=
  let fresh := (c.mergeRepeats x.2).filter fun k => !x.1.contains k.ty
  match fresh.filterMap (c.hit? name) with
  | [(k, i)] => if k.multiple then none else some ⟨k.fields, k.ty, i, k.viaPointer⟩
  | _ :: _ :: _ => none
  | [] => match fresh.flatMap c.below with
    | [] => none
    | next => search ((fresh.map (·.ty)).filter c.isNamed ++ x.1, next)

/-- What the search for a method starts with: nothing seen, and the type itself. -/
def searchStart (c : Catalog) (ty : TypeId) : List TypeId × List Candidate :=
  ([], [⟨c.stripPointer ty, [], c.stripPointer ty != ty, false⟩])

/-- What is left of the search from a level is less than `n`. -/
def Remaining (c : Catalog) (n : Nat) (x : List TypeId × List Candidate) : Prop :=
  ∃ b, c.Below b x.2 ∧ c.unvisited x.1 * (c.size + 1) + b < n

/-- A bound on the depth that is large enough makes no difference to the search. -/
theorem WellFormed.searchLevels_answers (wf : c.WellFormed) (name : String) {n depth : Nat}
    {x : List TypeId × List Candidate} (hn : c.Remaining n x) (hdepth : c.Remaining depth x) :
    AnswersWithin n (c.searchStep name) x (c.searchLevels name depth x.1 x.2) := by
  intro deeper
  induction n generalizing depth x with
  | zero =>
    obtain ⟨b, -, hlt⟩ := hn
    exact absurd hlt (Nat.not_lt_zero _)
  | succ n ih =>
    obtain ⟨b, hb, hlt⟩ := hn
    obtain ⟨b₀, hb₀, hlt₀⟩ := hdepth
    obtain ⟨depth, rfl⟩ := Nat.exists_eq_add_one_of_ne_zero (Nat.ne_zero_of_lt hlt₀)
    rw [Function.iterate_succ_apply', searchStep, searchLevels]
    dsimp only
    set fresh := (c.mergeRepeats x.2).filter fun k => !x.1.contains k.ty with hfresh
    cases fresh.filterMap (c.hit? name) with
    | cons k hits => cases hits <;> rfl
    | nil =>
      cases hnext : fresh.flatMap c.below with
      | nil => rfl
      | cons k next =>
        have hne : fresh.flatMap c.below ≠ [] := by simp [hnext]
        obtain ⟨b', hb', hless⟩ := wf.exists_below_next hb hne hfresh
        obtain ⟨b₀', hb₀', hless₀⟩ := wf.exists_below_next hb₀ hne hfresh
        rw [hnext] at hb' hb₀'
        exact ih (x := (_, k :: next)) ⟨b', hb', Nat.lt_of_lt_of_le hless (Nat.le_of_lt_succ hlt)⟩
          ⟨b₀', hb₀', Nat.lt_of_lt_of_le hless₀ (Nat.le_of_lt_succ hlt₀)⟩

/-- **The search for a method ends**, though unnamed types are searched as often as they are met. -/
theorem WellFormed.findMethod_answers (wf : c.WellFormed) (ty : TypeId) (name : String) :
    AnswersWithin c.searchDepth (c.searchStep name) (c.searchStart ty) (c.findMethod ty name) := by
  have hremaining : c.Remaining c.searchDepth (c.searchStart ty) := by
    refine ⟨c.size, below_size c _, ?_⟩
    have hmul := Nat.mul_le_mul_right (c.size + 1) (unvisited_le c [])
    show c.unvisited [] * (c.size + 1) + c.size < c.searchDepth
    rw [searchDepth, Nat.succ_mul]
    omega
  exact wf.searchLevels_answers name hremaining hremaining

/-! ### Satisfaction -/

/-- Whether the methods of `ty` cover those of an interface, where `find` finds methods. -/
def implementsWith (c : Catalog) (find : TypeId → String → Option MethodPath) (ty iface : TypeId) :
    Except TypeError Bool :=
  match c.interface? iface with
  | none => .error (.notInterface (c.typeName iface))
  | some d => .ok (d.complete.all fun wanted => match find ty wanted.name with
    | none => false
    | some path => match (c.methods path.owner)[path.index]? with
      | none => false
      | some found => c.fits path.viaPointer found wanted)

/-- **Satisfaction is decided by searches that end**, one for each wanted method. -/
theorem WellFormed.implements_answers (wf : c.WellFormed)
    (deeper : String → List TypeId × List Candidate → Option MethodPath) (ty iface : TypeId) :
    c.implementsWith (fun ty name =>
      (c.searchStep name)^[c.searchDepth] (deeper name) (c.searchStart ty)) ty iface =
        c.implements ty iface := by
  have hfind : (fun ty name =>
      (c.searchStep name)^[c.searchDepth] (deeper name) (c.searchStart ty)) = c.findMethod :=
    funext fun ty => funext fun name => wf.findMethod_answers ty name (deeper name)
  rw [hfind]
  rfl

end Catalog

end ScriptEngine
