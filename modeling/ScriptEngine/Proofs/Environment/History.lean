import ScriptEngine.Proofs.Environment.Store

/-!
Frames against their history. Frames are shared and outlive the stacks that opened them, so what a
name stands for depends on everything that was done before, through whichever handle. Here this is
said without the store: a `FrameHistory` is the list of what happened to frames, and `chain`,
`written?`, `defined?` and `innermost?` read off it which frames are around another one, which value
was written last, which definition was made last and which frame a name belongs to.

Main statements: `Records` says that a history accounts for a store, and each event keeps it;
`Records.resolve` finds the frame of a name in the history; `Records.reads` and `Records.assigns`
say what reading and assigning come to.
-/

namespace ScriptEngine

/-- What happened to a frame. -/
inductive FrameEvent where
  | opened (frame : FrameId) (parent : Option FrameId)
  /-- A definition in the frame itself. -/
  | defined (frame : FrameId) (name : String) (b : Binding)
  /-- An assignment, which was made anywhere and belongs to this frame. -/
  | assigned (frame : FrameId) (name : String) (value : Value)

/-- What happened to all frames, newest first. -/
abbrev FrameHistory := List FrameEvent

namespace FrameHistory

/-- A frame and those around it, innermost first. What encloses a frame was opened before it. -/
def chain : FrameHistory → FrameId → List FrameId
  | [], _ => []
  | .opened frame parent :: h, id =>
    if frame = id then
      id :: match parent with
        | some p => chain h p
        | none => []
    else chain h id
  | .defined .. :: h, id => chain h id
  | .assigned .. :: h, id => chain h id

/-- The value that was last written to a name of a frame. -/
def written? : FrameHistory → FrameId → String → Option Value
  | [], _, _ => none
  | .opened .. :: h, id, name => written? h id name
  | .defined frame key b :: h, id, name =>
    if frame = id ∧ key = name then some b.value else written? h id name
  | .assigned frame key value :: h, id, name =>
    if frame = id ∧ key = name then some value else written? h id name

/-- Whether the last definition of a name in a frame made it a variable or a constant. -/
def defined? : FrameHistory → FrameId → String → Option Mutability
  | [], _, _ => none
  | .opened .. :: h, id, name => defined? h id name
  | .defined frame key b :: h, id, name =>
    if frame = id ∧ key = name then some b.mutability else defined? h id name
  | .assigned .. :: h, id, name => defined? h id name

/-- Whether a frame itself binds a name. -/
def binds (h : FrameHistory) (id : FrameId) (name : String) : Bool :=
  (h.defined? id name).isSome

/-- The innermost of the frames around `id` that binds a name. -/
def innermost? (h : FrameHistory) (id : FrameId) (name : String) : Option FrameId :=
  (h.chain id).find? (h.binds · name)

/-- What assigning to a name as seen from a frame does: nothing where no frame binds it, and where
the innermost binding is a constant. -/
def assignment (h : FrameHistory) (id : FrameId) (name : String) (value : Value) :
    List FrameEvent :=
  match h.innermost? id name with
  | none => []
  | some owner =>
    if h.defined? owner name = some .mutable then [.assigned owner name value] else []

end FrameHistory

/-! ### The history accounts for the store -/

/-- A history accounts for every frame of a store: for what is around it, and for each entry. -/
structure Records (h : FrameHistory) (fs : Frames) : Prop where
  chain : ∀ id, h.chain id = (fs.parent? id).elim [] fun parent => id :: parent.elim [] h.chain
  written : ∀ id name, h.written? id name = (fs.binding? id name).map (·.value)
  defined : ∀ id name, h.defined? id name = (fs.binding? id name).map (·.mutability)

theorem records_empty : Records [] .empty where
  chain _ := rfl
  written _ _ := rfl
  defined _ _ := rfl

namespace FrameHistory

variable {h : FrameHistory} {id frame : FrameId}

theorem chain_opened_self (parent : Option FrameId) :
    chain (.opened frame parent :: h) frame = frame :: parent.elim [] h.chain := by
  cases parent with
  | none => rw [chain, if_pos rfl, Option.elim_none]
  | some p => rw [chain, if_pos rfl, Option.elim_some]

theorem chain_opened_of_ne (hne : frame ≠ id) (parent : Option FrameId) :
    chain (.opened frame parent :: h) id = h.chain id := by
  cases parent with
  | none => rw [chain, if_neg hne]
  | some p => rw [chain, if_neg hne]

/-- A name belongs to the frame itself if that binds it, and else to a frame around it. -/
theorem innermost?_of_chain {rest : List FrameId} {name : String}
    (hchain : h.chain id = id :: rest) :
    h.innermost? id name = if h.binds id name then some id else rest.find? (h.binds · name) := by
  rw [innermost?, hchain, List.find?_cons]
  cases h.binds id name with
  | true => rfl
  | false => rfl

end FrameHistory

namespace Records

variable {h : FrameHistory} {fs : Frames} {id owner : FrameId} {name : String} {b : Binding}
  {value : Value}

/-! What each event does to a history and a store. -/

theorem grow {parent : Option FrameId} (hr : Records h fs)
    (hparent : ∀ p, parent = some p → p.index < fs.size) :
    Records (.opened fs.next parent :: h) (fs.grow parent) where
  chain id := by
    -- What was there before is not the new frame, so its chain is what it was.
    have hold : ∀ p : FrameId, p.index < fs.size →
        FrameHistory.chain (.opened fs.next parent :: h) p = h.chain p := by
      intro p hp
      refine FrameHistory.chain_opened_of_ne (fun heq => ?_) parent
      rw [← heq] at hp
      exact Nat.lt_irrefl _ hp
    by_cases hid : fs.next = id
    · rw [← hid, FrameHistory.chain_opened_self, Frames.parent?_grow_next hparent]
      cases parent with
      | none => rfl
      | some p => exact congrArg (fs.next :: ·) (hold p (hparent p rfl)).symm
    · rw [FrameHistory.chain_opened_of_ne hid, Frames.parent?_grow_of_ne (Ne.symm hid), hr.chain]
      rcases hp : fs.parent? id with _ | _ | p
      · rfl
      · rfl
      · have hbelow := Frames.Below.lt hp
        exact congrArg (id :: ·) (hold p (Nat.lt_trans hbelow.1 hbelow.2)).symm
  written id name := by
    rw [Frames.binding?_grow]
    exact hr.written id name
  defined id name := by
    rw [Frames.binding?_grow]
    exact hr.defined id name

theorem define (hr : Records h fs) (hid : id.index < fs.size) :
    Records (.defined id name b :: h) (fs.define id name b) where
  chain id' := by
    rw [Frames.parent?_define]
    exact hr.chain id'
  written id' name' := by
    rw [FrameHistory.written?]
    split
    · next heq => rw [← heq.1, ← heq.2, Frames.binding?_define_self hid, Option.map_some]
    · next hne => rw [Frames.binding?_define_of_ne hne, hr.written]
  defined id' name' := by
    rw [FrameHistory.defined?]
    split
    · next heq => rw [← heq.1, ← heq.2, Frames.binding?_define_self hid, Option.map_some]
    · next hne => rw [Frames.binding?_define_of_ne hne, hr.defined]

/-- An assignment leaves the definition that it writes to in force. -/
theorem assign (hr : Records h fs) (hb : fs.binding? id name = some b)
    (hmut : b.mutability = .mutable) :
    Records (.assigned id name value :: h) (fs.define id name ⟨value, .mutable⟩) where
  chain id' := by
    rw [Frames.parent?_define]
    exact hr.chain id'
  written id' name' := by
    rw [FrameHistory.written?]
    split
    · next heq =>
      rw [← heq.1, ← heq.2, Frames.binding?_define_self (Frames.lt_size_of_binding? hb),
        Option.map_some]
    · next hne => rw [Frames.binding?_define_of_ne hne, hr.written]
  defined id' name' := by
    rw [FrameHistory.defined?, hr.defined]
    by_cases heq : id = id' ∧ name = name'
    · rw [← heq.1, ← heq.2, Frames.binding?_define_self (Frames.lt_size_of_binding? hb), hb,
        Option.map_some, Option.map_some, hmut]
    · rw [Frames.binding?_define_of_ne heq]

/-! What can be read off the history. -/

theorem binds (hr : Records h fs) : h.binds id name = fs.binds id name := by
  rw [FrameHistory.binds, hr.defined, Option.isSome_map, Frames.binds_eq_isSome]

theorem lt_size_of_chain (hr : Records h fs) (hid : h.chain id ≠ []) : id.index < fs.size := by
  refine Nat.lt_of_not_le fun hge => hid ?_
  rw [hr.chain, Frames.parent?, Frames.get?_eq_none_iff.mpr hge]
  rfl

/-- The frame that the history names binds the name. -/
theorem exists_of_innermost? (hr : Records h fs) (hi : h.innermost? id name = some owner) :
    ∃ b, fs.binding? owner name = some b := by
  have hbinds := List.find?_some hi
  rw [hr.binds, Frames.binds_eq_isSome] at hbinds
  exact Option.isSome_iff_exists.mp hbinds

/-- **A name is resolved in the frame that the history names.** -/
theorem resolve (hr : Records h fs) (id : FrameId) (name : String) :
    fs.resolve id name =
      (h.innermost? id name).bind fun owner => (fs.binding? owner name).map (owner, ·) := by
  -- What the frame at hand binds, and what is around it.
  have hhere : ∀ {id f}, fs.get? id = some f →
      h.chain id = id :: f.parent.elim [] h.chain ∧
        fs.binding? id name = f.bindings.find? name := by
    intro id f hf
    rw [hr.chain, Frames.parent?, Frames.binding?, hf]
    exact ⟨rfl, rfl⟩
  fun_induction fs.resolve id name with
  | case1 id hf =>
    rw [FrameHistory.innermost?, hr.chain, Frames.parent?, hf]
    rfl
  | case2 id f hf b hb =>
    obtain ⟨hchain, hbinding⟩ := hhere hf
    rw [FrameHistory.innermost?_of_chain hchain, hr.binds, Frames.binds_eq_isSome, hbinding, hb,
      Option.isSome_some, if_pos rfl, Option.bind_some, hbinding, hb, Option.map_some]
  | case3 id f hf hb hp =>
    obtain ⟨hchain, hbinding⟩ := hhere hf
    rw [FrameHistory.innermost?_of_chain hchain, hr.binds, Frames.binds_eq_isSome, hbinding, hb,
      Option.isSome_none, if_neg Bool.false_ne_true, hp]
    rfl
  | case4 id f hf hb p hp ih =>
    obtain ⟨hchain, hbinding⟩ := hhere hf
    rw [FrameHistory.innermost?_of_chain hchain, hr.binds, Frames.binds_eq_isSome, hbinding, hb,
      Option.isSome_none, if_neg Bool.false_ne_true, hp, Option.elim_some, ih,
      FrameHistory.innermost?]

theorem resolve_eq_none (hr : Records h fs) :
    fs.resolve id name = none ↔ h.innermost? id name = none := by
  rw [hr.resolve]
  cases hi : h.innermost? id name with
  | none => simp
  | some owner =>
    obtain ⟨b, hb⟩ := hr.exists_of_innermost? hi
    simp [hb]

theorem resolve_eq_some (hr : Records h fs) :
    fs.resolve id name = some (owner, b) ↔
      h.innermost? id name = some owner ∧ fs.binding? owner name = some b := by
  rw [hr.resolve, Option.bind_eq_some_iff]
  constructor
  · rintro ⟨o, hi, hb⟩
    obtain ⟨b', hb', heq⟩ := Option.map_eq_some_iff.mp hb
    cases heq
    exact ⟨hi, hb'⟩
  · rintro ⟨hi, hb⟩
    exact ⟨owner, hi, by rw [hb, Option.map_some]⟩

end Records

/-! ### What a name means -/

/-- The value that a name has as seen from a frame: none if no frame around binds the name, and else
what was last written to it in the innermost frame that does. -/
structure Reads (h : FrameHistory) (id : FrameId) (name : String) (answer : Option Value) :
    Prop where
  unbound : answer = none ↔ ∀ frame ∈ h.chain id, h.binds frame name = false
  value : ∀ v, answer = some v ↔
    ∃ owner, h.innermost? id name = some owner ∧ h.written? owner name = some v

/-- `fs'` is `fs` with one entry written. -/
structure Frames.Writes (fs : Frames) (owner : FrameId) (name : String) (b : Binding)
    (fs' : Frames) : Prop where
  entry : fs'.binding? owner name = some b
  entries : ∀ id key, ¬ (owner = id ∧ name = key) → fs'.binding? id key = fs.binding? id key
  parents : ∀ id, fs'.parent? id = fs.parent? id

/-- How an assignment of `value` to `name` ends that is made as seen from a frame: it fails where
the name has no value and where its last definition made it a constant, and else writes to that one
entry. -/
structure Assigns (h : FrameHistory) (fs : Frames) (id : FrameId) (name : String) (value : Value)
    (answer : Except BindError Frames) : Prop where
  undefined : answer = .error .undefined ↔ fs.lookup id name = none
  immutable : answer = .error .immutable ↔
    ∃ owner, h.innermost? id name = some owner ∧ h.defined? owner name = some .immutable
  otherwise : fs.lookup id name ≠ none → answer ≠ .error .immutable →
    ∃ owner fs', h.innermost? id name = some owner ∧ answer = .ok fs' ∧
      fs.Writes owner name ⟨value, .mutable⟩ fs'

theorem Frames.writes_define {fs : Frames} {id : FrameId} (name : String) (b : Binding)
    (h : id.index < fs.size) : fs.Writes id name b (fs.define id name b) where
  entry := binding?_define_self h
  entries _ _ hne := binding?_define_of_ne hne
  parents _ := parent?_define

namespace Records

variable {h : FrameHistory} {fs : Frames}

/-- **A name reads as the history says.** -/
theorem reads (hr : Records h fs) (id : FrameId) (name : String) :
    Reads h id name (fs.lookup id name) where
  unbound := by
    rw [Frames.lookup, Option.map_eq_none_iff, hr.resolve_eq_none, FrameHistory.innermost?,
      List.find?_eq_none]
    simp only [Bool.not_eq_true]
  value v := by
    rw [Frames.lookup, Option.map_eq_some_iff]
    constructor
    · rintro ⟨⟨owner, b⟩, hresolve, rfl⟩
      obtain ⟨hi, hb⟩ := hr.resolve_eq_some.mp hresolve
      exact ⟨owner, hi, by rw [hr.written, hb, Option.map_some]⟩
    · rintro ⟨owner, hi, hwritten⟩
      rw [hr.written] at hwritten
      obtain ⟨b, hb, rfl⟩ := Option.map_eq_some_iff.mp hwritten
      exact ⟨(owner, b), hr.resolve_eq_some.mpr ⟨hi, hb⟩, rfl⟩

/-- The ways in which an assignment ends, with what the history knows about each. -/
theorem assign_cases (hr : Records h fs) (id : FrameId) (name : String) (value : Value) :
    (h.innermost? id name = none ∧ fs.assign id name value = .error .undefined) ∨
    (∃ owner, h.innermost? id name = some owner ∧ h.defined? owner name = some .immutable ∧
      fs.assign id name value = .error .immutable) ∨
    (∃ owner b, h.innermost? id name = some owner ∧ h.defined? owner name = some .mutable ∧
      fs.binding? owner name = some b ∧ b.mutability = .mutable ∧
      fs.assign id name value = .ok (fs.define owner name ⟨value, .mutable⟩)) := by
  unfold Frames.assign
  cases hi : h.innermost? id name with
  | none => exact .inl ⟨rfl, by rw [hr.resolve_eq_none.mpr hi]⟩
  | some owner =>
    obtain ⟨b, hb⟩ := hr.exists_of_innermost? hi
    have hdefined : h.defined? owner name = some b.mutability := by
      rw [hr.defined, hb, Option.map_some]
    rw [hr.resolve_eq_some.mpr ⟨hi, hb⟩]
    cases hmut : b.mutability with
    | immutable => exact .inr (.inl ⟨owner, rfl, hmut ▸ hdefined, by simp only [hmut]⟩)
    | mutable => exact .inr (.inr ⟨owner, b, rfl, hmut ▸ hdefined, hb, hmut, by simp only [hmut]⟩)

/-- **An assignment ends as the history says.** -/
theorem assigns (hr : Records h fs) (id : FrameId) (name : String) (value : Value) :
    Assigns h fs id name value (fs.assign id name value) := by
  have hlookup : fs.lookup id name = none ↔ h.innermost? id name = none := by
    rw [Frames.lookup, Option.map_eq_none_iff, hr.resolve_eq_none]
  rcases hr.assign_cases id name value with ⟨hi, ha⟩ | ⟨owner, hi, hdefined, ha⟩ |
    ⟨owner, b, hi, hdefined, hb, -, ha⟩ <;> rw [ha]
  · refine ⟨⟨fun _ => hlookup.mpr hi, fun _ => rfl⟩, ⟨nofun, ?_⟩,
      fun hne => absurd (hlookup.mpr hi) hne⟩
    rintro ⟨owner, hi', -⟩
    cases hi.symm.trans hi'
  · refine ⟨⟨nofun, fun hnone => ?_⟩, ⟨fun _ => ⟨owner, hi, hdefined⟩, fun _ => rfl⟩,
      fun _ hne => absurd rfl hne⟩
    cases hi.symm.trans (hlookup.mp hnone)
  · refine ⟨⟨nofun, fun hnone => ?_⟩, ⟨nofun, ?_⟩, fun _ _ => ⟨owner, _, hi, rfl,
      Frames.writes_define _ _ (Frames.lt_size_of_binding? hb)⟩⟩
    · cases hi.symm.trans (hlookup.mp hnone)
    · rintro ⟨owner', hi', hdefined'⟩
      obtain rfl := Option.some.inj (hi.symm.trans hi')
      cases hdefined.symm.trans hdefined'

end Records

end ScriptEngine
