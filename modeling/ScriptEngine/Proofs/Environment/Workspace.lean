import Mathlib
import ScriptEngine.Proofs.Environment.History

/-!
Environments and scopes that share frames, under all that a host can do with them. A `Workspace`
holds any number of both on one store; an action is performed on it, and `events` records the action
in the history of the frames as the specification has it.

Main statements: `Valid.attempt` says that an action fails unrecorded or leads to a workspace that
its record accounts for; `environments_follow_history` is the specification of environments and
scopes after any sequence of actions.
-/

namespace ScriptEngine

/-- What a host does with environments and scopes, each of which is named by the number of those
made before it. -/
inductive FrameAction where
  -- environments
  | create
  | push (env : Nat)
  | pop (env : Nat)
  | define (env : Nat) (name : String) (b : Binding)
  | assign (env : Nat) (name : String) (value : Value)
  | defineGlobal (env : Nat) (name : String) (value : Value)
  /-- The environment of a call to what captured a scope. -/
  | forCall (env scope : Nat)
  -- scopes
  /-- Keeps the current frame of an environment as a scope. -/
  | capture (env : Nat)
  /-- A scope of its own, below another one if there is a parent. -/
  | openScope (parent : Option Nat)
  | defineIn (scope : Nat) (name : String) (b : Binding)
  | assignIn (scope : Nat) (name : String) (value : Value)

/-- The environments and scopes that a host holds on one store of frames, oldest first. -/
structure Workspace where
  frames : Frames
  envs : List Environment
  scopes : List FrameId

namespace Workspace

/-- The workspace after a write to its frames. Nothing is written through a handle that does not
exist. -/
def write (w : Workspace) : Option (Except BindError Frames) → Except BindError Workspace
  | none => .ok w
  | some r => r.map fun fs => { w with frames := fs }

/-- The workspace with one more scope, on a frame of its own. -/
def openBelow (w : Workspace) (parent : Option FrameId) : Workspace :=
  let (frame, fs) := w.frames.openFrame parent
  { w with frames := fs, scopes := w.scopes ++ [frame] }

/-- What an action leads to, if it does not fail. -/
def attempt (w : Workspace) : FrameAction → Except BindError Workspace
  | .create =>
    let (env, fs) := Environment.create w.frames
    .ok { w with frames := fs, envs := w.envs ++ [env] }
  | .push i =>
    match w.envs[i]? with
    | none => .ok w
    | some env =>
      let (env, fs) := env.push w.frames
      .ok { w with frames := fs, envs := w.envs.set i env }
  | .pop i =>
    match w.envs[i]? with
    | none => .ok w
    | some env => .ok { w with envs := w.envs.set i env.pop }
  | .define i name b => w.write (w.envs[i]?.map (·.define w.frames name b))
  | .assign i name value => w.write (w.envs[i]?.map (·.assign w.frames name value))
  | .defineGlobal i name value => w.write (w.envs[i]?.map (·.defineGlobal w.frames name value))
  | .forCall i j =>
    match w.envs[i]?, w.scopes[j]? with
    | some env, some scope =>
      let (frame, fs) := w.frames.openFrame (some scope)
      .ok { w with frames := fs, envs := w.envs ++ [env.forCall frame] }
    | _, _ => .ok w
  | .capture i => .ok { w with scopes := w.scopes ++ (w.envs[i]?.map (·.current)).toList }
  | .openScope none => .ok (w.openBelow none)
  | .openScope (some j) =>
    match w.scopes[j]? with
    | none => .ok w
    | some scope => .ok (w.openBelow (some scope))
  | .defineIn j name b => w.write (w.scopes[j]?.map fun scope => .ok (w.frames.define scope name b))
  | .assignIn j name value => w.write (w.scopes[j]?.map (w.frames.assign · name value))

/-- What an action answers, and the workspace after it. -/
def perform (w : Workspace) (a : FrameAction) : Except BindError Unit × Workspace :=
  match w.attempt a with
  | .ok w' => (.ok (), w')
  | .error e => (.error e, w)

/-- What an action does to frames, as the specification has it. -/
def events (w : Workspace) (h : FrameHistory) : FrameAction → List FrameEvent
  | .create => [.opened w.frames.next none]
  | .push i => (w.envs[i]?.map fun env => .opened w.frames.next (some env.current)).toList
  | .pop _ | .capture _ => []
  | .define i name b =>
    if isReserved name then []
    else (w.envs[i]?.map fun env => .defined env.current name b).toList
  | .assign i name value =>
    if isReserved name then []
    else match w.envs[i]? with
      | none => []
      | some env => h.assignment env.current name value
  | .defineGlobal i name value =>
    if isReserved name then []
    else (w.envs[i]?.map fun env => .defined env.global name ⟨value, .immutable⟩).toList
  | .forCall i j =>
    match w.envs[i]?, w.scopes[j]? with
    | some _, some scope => [.opened w.frames.next (some scope)]
    | _, _ => []
  | .openScope none => [.opened w.frames.next none]
  | .openScope (some j) =>
    (w.scopes[j]?.map fun scope => .opened w.frames.next (some scope)).toList
  | .defineIn j name b => (w.scopes[j]?.map fun scope => .defined scope name b).toList
  | .assignIn j name value =>
    match w.scopes[j]? with
    | none => []
    | some scope => h.assignment scope name value

/-- The workspace and the history after an action. -/
def step (s : Workspace × FrameHistory) (a : FrameAction) : Workspace × FrameHistory :=
  ((s.1.perform a).2, s.1.events s.2 a ++ s.2)

/-- The workspace and the history after a sequence of actions. -/
def after (actions : List FrameAction) : Workspace × FrameHistory :=
  actions.foldl step (⟨.empty, [], []⟩, [])

/-! ### Workspaces and their histories -/

variable {w : Workspace} {h : FrameHistory}

/-- The history accounts for the store of a workspace, and its handles are handles of frames. The
stack of an environment is the inner part of the chain of its current frame. -/
structure Valid (w : Workspace) (h : FrameHistory) : Prop where
  records : Records h w.frames
  stacked : ∀ env ∈ w.envs, env.current :: env.outer <+: h.chain env.current
  globals : ∀ env ∈ w.envs, env.global.index < w.frames.size
  scopes : ∀ scope ∈ w.scopes, scope.index < w.frames.size

namespace Valid

theorem current_lt (hv : Valid w h) {env : Environment} (henv : env ∈ w.envs) :
    env.current.index < w.frames.size := by
  refine hv.records.lt_size_of_chain fun hnil => ?_
  have hstack := hv.stacked env henv
  rw [hnil] at hstack
  cases List.prefix_nil.mp hstack

/-! What the parts of an action keep. -/

/-- The workspace is valid on a store that is written to at one entry. -/
theorem defined (hv : Valid w h) {id : FrameId} (hid : id.index < w.frames.size) (name : String)
    (b : Binding) :
    Valid { w with frames := w.frames.define id name b } (.defined id name b :: h) where
  records := hv.records.define hid
  stacked := hv.stacked
  globals env henv := by
    rw [Frames.size_define]
    exact hv.globals env henv
  scopes scope hscope := by
    rw [Frames.size_define]
    exact hv.scopes scope hscope

theorem assigned (hv : Valid w h) {id : FrameId} {name : String} {b : Binding}
    (hb : w.frames.binding? id name = some b) (hmut : b.mutability = .mutable) (value : Value) :
    Valid { w with frames := w.frames.define id name ⟨value, .mutable⟩ }
      (.assigned id name value :: h) where
  records := hv.records.assign hb hmut
  stacked := hv.stacked
  globals env henv := by
    rw [Frames.size_define]
    exact hv.globals env henv
  scopes scope hscope := by
    rw [Frames.size_define]
    exact hv.scopes scope hscope

/-- An assignment is recorded where it is made, and nowhere if it fails. -/
theorem assign (hv : Valid w h) (id : FrameId) (name : String) (value : Value) :
    (∃ e, w.frames.assign id name value = .error e ∧ h.assignment id name value = []) ∨
    ∃ fs, w.frames.assign id name value = .ok fs ∧
      Valid { w with frames := fs } (h.assignment id name value ++ h) := by
  unfold FrameHistory.assignment
  rcases hv.records.assign_cases id name value with ⟨hi, ha⟩ | ⟨owner, hi, hdefined, ha⟩ |
    ⟨owner, b, hi, hdefined, hb, hmut, ha⟩ <;> rw [ha, hi]
  · exact .inl ⟨_, rfl, rfl⟩
  · refine .inl ⟨_, rfl, if_neg ?_⟩
    rw [hdefined]
    decide
  · refine .inr ⟨_, rfl, ?_⟩
    simp only [if_pos hdefined]
    exact hv.assigned hb hmut value

/-- The workspace is valid with one more frame. -/
theorem opened (hv : Valid w h) (parent : Option FrameId)
    (hparent : ∀ p, parent = some p → p.index < w.frames.size) :
    Valid { w with frames := w.frames.grow parent } (.opened w.frames.next parent :: h) where
  records := hv.records.grow hparent
  stacked env henv := by
    rw [FrameHistory.chain_opened_of_ne]
    · exact hv.stacked env henv
    · intro heq
      have hlt := hv.current_lt henv
      rw [← heq] at hlt
      exact Nat.lt_irrefl _ hlt
  globals env henv := by
    rw [Frames.size_grow]
    exact Nat.lt_succ_of_lt (hv.globals env henv)
  scopes scope hscope := by
    rw [Frames.size_grow]
    exact Nat.lt_succ_of_lt (hv.scopes scope hscope)

theorem addEnv (hv : Valid w h) {env : Environment}
    (hstack : env.current :: env.outer <+: h.chain env.current)
    (hglobal : env.global.index < w.frames.size) :
    Valid { w with envs := w.envs ++ [env] } h := by
  refine ⟨hv.records, fun env' henv => ?_, fun env' henv => ?_, hv.scopes⟩ <;>
    rcases List.mem_append.mp henv with hold | hnew
  · exact hv.stacked env' hold
  · exact List.mem_singleton.mp hnew ▸ hstack
  · exact hv.globals env' hold
  · exact List.mem_singleton.mp hnew ▸ hglobal

theorem setEnv (hv : Valid w h) (i : Nat) {env : Environment}
    (hstack : env.current :: env.outer <+: h.chain env.current)
    (hglobal : env.global.index < w.frames.size) :
    Valid { w with envs := w.envs.set i env } h := by
  refine ⟨hv.records, fun env' henv => ?_, fun env' henv => ?_, hv.scopes⟩ <;>
    rcases List.mem_or_eq_of_mem_set henv with hold | hnew
  · exact hv.stacked env' hold
  · exact hnew ▸ hstack
  · exact hv.globals env' hold
  · exact hnew ▸ hglobal

theorem addScope (hv : Valid w h) {scope : FrameId} (hscope : scope.index < w.frames.size) :
    Valid { w with scopes := w.scopes ++ [scope] } h := by
  refine ⟨hv.records, hv.stacked, hv.globals, fun scope' h => ?_⟩
  rcases List.mem_append.mp h with hold | hnew
  · exact hv.scopes scope' hold
  · exact List.mem_singleton.mp hnew ▸ hscope

/-- Leaving a frame leaves a stack that is the inner part of a chain. -/
theorem pop_stack (hv : Valid w h) {env : Environment} (henv : env ∈ w.envs) :
    env.pop.current :: env.pop.outer <+: h.chain env.pop.current := by
  have hstack := hv.stacked env henv
  obtain ⟨current, outer, global⟩ := env
  cases outer with
  | nil => exact hstack
  | cons frame rest =>
    -- The next frame of the stack is the parent of the current one.
    rw [hv.records.chain] at hstack
    cases hparent : w.frames.parent? current with
    | none =>
      rw [hparent] at hstack
      cases List.prefix_nil.mp hstack
    | some parent =>
      rw [hparent, Option.elim_some, List.prefix_cons_inj] at hstack
      cases parent with
      | none => cases List.prefix_nil.mp hstack
      | some p =>
        have hp := hstack
        rw [Option.elim_some, hv.records.chain] at hp
        cases hpp : w.frames.parent? p with
        | none =>
          rw [hpp] at hp
          cases List.prefix_nil.mp hp
        | some q =>
          rw [hpp, Option.elim_some, List.cons_prefix_cons] at hp
          obtain rfl := hp.1
          exact hstack

/-! What an action keeps. -/

theorem openBelow (hv : Valid w h) {parent : Option FrameId}
    (hparent : ∀ p, parent = some p → p.index < w.frames.size) :
    Valid (w.openBelow parent) (.opened w.frames.next parent :: h) := by
  refine (hv.opened parent hparent).addScope ?_
  rw [Frames.size_grow]
  exact Nat.lt_succ_self _

/-- An action fails and is not recorded, or leads to a workspace that its record accounts for. -/
theorem attempt (hv : Valid w h) (a : FrameAction) :
    (∃ e, w.attempt a = .error e ∧ w.events h a = []) ∨
    ∃ w', w.attempt a = .ok w' ∧ Valid w' (w.events h a ++ h) := by
  have hnext : ∀ parent, w.frames.next.index < (w.frames.grow parent).size := fun parent => by
    rw [Frames.size_grow]
    exact Nat.lt_succ_self _
  cases a with
  | create =>
    have hopened := hv.opened none nofun
    refine .inr ⟨_, rfl, hopened.addEnv ?_ (hnext none)⟩
    change [w.frames.next] <+: FrameHistory.chain _ w.frames.next
    rw [FrameHistory.chain_opened_self]
    exact List.prefix_rfl
  | push i =>
    rcases henv : w.envs[i]? with _ | env <;> simp only [Workspace.attempt, events, henv]
    · exact .inr ⟨w, rfl, hv⟩
    · have hmem := List.mem_of_getElem? henv
      have hopened := hv.opened (some env.current) fun p hp => by
        cases hp
        exact hv.current_lt hmem
      refine .inr ⟨_, rfl, hopened.setEnv i ?_ (hopened.globals env hmem)⟩
      change w.frames.next :: env.current :: env.outer <+: FrameHistory.chain _ w.frames.next
      rw [FrameHistory.chain_opened_self, List.prefix_cons_inj]
      exact hv.stacked env hmem
  | pop i =>
    rcases henv : w.envs[i]? with _ | env <;> simp only [Workspace.attempt, events, henv]
    · exact .inr ⟨w, rfl, hv⟩
    · have hmem := List.mem_of_getElem? henv
      have hglobal : env.pop.global = env.global := by
        unfold Environment.pop
        split <;> rfl
      exact .inr ⟨_, rfl, hv.setEnv i (hv.pop_stack hmem) (hglobal ▸ hv.globals env hmem)⟩
  | define i name b =>
    rcases henv : w.envs[i]? with _ | env <;>
      simp only [Workspace.attempt, write, events, henv, Option.map_none, Option.map_some,
        Option.toList_none, ite_self]
    · exact .inr ⟨w, rfl, hv⟩
    · unfold Environment.define
      cases isReserved name with
      | true => exact .inl ⟨_, rfl, rfl⟩
      | false =>
        exact .inr ⟨_, rfl, hv.defined (hv.current_lt (List.mem_of_getElem? henv)) name b⟩
  | assign i name value =>
    rcases henv : w.envs[i]? with _ | env <;>
      simp only [Workspace.attempt, write, events, henv, Option.map_none, Option.map_some,
        ite_self]
    · exact .inr ⟨w, rfl, hv⟩
    · unfold Environment.assign
      cases isReserved name with
      | true => exact .inl ⟨_, rfl, rfl⟩
      | false =>
        rw [if_neg Bool.false_ne_true, if_neg Bool.false_ne_true]
        rcases hv.assign env.current name value with ⟨e, ha, hnone⟩ | ⟨fs, ha, hassigned⟩
        · exact .inl ⟨e, by rw [ha]; rfl, hnone⟩
        · exact .inr ⟨_, by rw [ha]; rfl, hassigned⟩
  | defineGlobal i name value =>
    rcases henv : w.envs[i]? with _ | env <;>
      simp only [Workspace.attempt, write, events, henv, Option.map_none, Option.map_some,
        Option.toList_none, ite_self]
    · exact .inr ⟨w, rfl, hv⟩
    · unfold Environment.defineGlobal
      cases isReserved name with
      | true => exact .inl ⟨_, rfl, rfl⟩
      | false => exact .inr ⟨_, rfl, hv.defined (hv.globals env (List.mem_of_getElem? henv)) name _⟩
  | forCall i j =>
    rcases henv : w.envs[i]? with _ | env <;> rcases hscope : w.scopes[j]? with _ | scope <;>
      simp only [Workspace.attempt, events, henv, hscope]
    · exact .inr ⟨w, rfl, hv⟩
    · exact .inr ⟨w, rfl, hv⟩
    · exact .inr ⟨w, rfl, hv⟩
    · have hopened := hv.opened (some scope) fun p hp => by
        cases hp
        exact hv.scopes scope (List.mem_of_getElem? hscope)
      refine .inr ⟨_, rfl, hopened.addEnv ?_ (hopened.globals env (List.mem_of_getElem? henv))⟩
      change [w.frames.next] <+: FrameHistory.chain _ w.frames.next
      rw [FrameHistory.chain_opened_self, List.prefix_cons_inj]
      exact List.nil_prefix
  | capture i =>
    rcases henv : w.envs[i]? with _ | env <;>
      simp only [Workspace.attempt, events, henv, Option.map_none, Option.toList_none,
        List.append_nil]
    · exact .inr ⟨w, rfl, hv⟩
    · exact .inr ⟨_, rfl, hv.addScope (hv.current_lt (List.mem_of_getElem? henv))⟩
  | openScope parent =>
    cases parent with
    | none => exact .inr ⟨_, rfl, hv.openBelow nofun⟩
    | some j =>
      rcases hscope : w.scopes[j]? with _ | scope <;>
        simp only [Workspace.attempt, events, hscope]
      · exact .inr ⟨w, rfl, hv⟩
      · refine .inr ⟨_, rfl, hv.openBelow fun p hp => ?_⟩
        cases hp
        exact hv.scopes scope (List.mem_of_getElem? hscope)
  | defineIn j name b =>
    rcases hscope : w.scopes[j]? with _ | scope <;>
      simp only [Workspace.attempt, write, events, hscope]
    · exact .inr ⟨w, rfl, hv⟩
    · exact .inr ⟨_, rfl, hv.defined (hv.scopes scope (List.mem_of_getElem? hscope)) name b⟩
  | assignIn j name value =>
    rcases hscope : w.scopes[j]? with _ | scope <;>
      simp only [Workspace.attempt, write, events, hscope, Option.map_some]
    · exact .inr ⟨w, rfl, hv⟩
    · rcases hv.assign scope name value with ⟨e, ha, hnone⟩ | ⟨fs, ha, hassigned⟩
      · exact .inl ⟨e, by rw [ha]; rfl, hnone⟩
      · exact .inr ⟨_, by rw [ha]; rfl, hassigned⟩

/-- Every action keeps the history in step with the workspace. -/
theorem step (hv : Valid w h) (a : FrameAction) :
    Valid (Workspace.step (w, h) a).1 (Workspace.step (w, h) a).2 := by
  unfold Workspace.step perform
  rcases hv.attempt a with ⟨e, hfail, hnone⟩ | ⟨w', hok, hv'⟩
  · rw [hfail, hnone]
    exact hv
  · rw [hok]
    exact hv'

/-- What fails changes nothing. -/
theorem step_of_error (hv : Valid w h) {a : FrameAction} {e : BindError}
    (ha : (w.perform a).1 = .error e) : Workspace.step (w, h) a = (w, h) := by
  unfold Workspace.step
  unfold perform at ha ⊢
  rcases hv.attempt a with ⟨e', hfail, hnone⟩ | ⟨w', hok, -⟩
  · rw [hfail, hnone, List.nil_append]
  · rw [hok] at ha
    cases ha

end Valid

theorem valid_empty : Valid ⟨.empty, [], []⟩ [] :=
  ⟨records_empty, nofun, nofun, nofun⟩

theorem valid_after (actions : List FrameAction) : Valid (after actions).1 (after actions).2 := by
  have hfold : ∀ (actions : List FrameAction) w h, Valid w h →
      Valid (actions.foldl step (w, h)).1 (actions.foldl step (w, h)).2 := by
    intro actions
    induction actions with
    | nil => exact fun _ _ hv => hv
    | cons a actions ih => exact fun _ _ hv => ih _ _ (hv.step a)
  exact hfold actions _ _ valid_empty

/-- **Environments and scopes follow the history of their frames.** After any sequence of actions
over any number of environments and scopes, no frame is around itself, the history accounts for
every entry, names read and are assigned to as the history says, and whatever fails leaves the
workspace and its history as they were. -/
theorem environments_follow_history (actions : List FrameAction) :
    let w := (after actions).1
    let h := (after actions).2
    (∀ id, ¬ Relation.TransGen w.frames.Below id id) ∧ Records h w.frames ∧
    (∀ env ∈ w.envs, env.current :: env.outer <+: h.chain env.current ∧ ∀ name,
      Reads h env.current name (env.lookup w.frames name) ∧
      ∀ value, if isReserved name then env.assign w.frames name value = .error .reserved
        else Assigns h w.frames env.current name value (env.assign w.frames name value)) ∧
    (∀ scope ∈ w.scopes, ∀ name, Reads h scope name (w.frames.lookup scope name) ∧
      ∀ value, Assigns h w.frames scope name value (w.frames.assign scope name value)) ∧
    ∀ a e, (w.perform a).1 = .error e → step (w, h) a = (w, h) := by
  have hv := valid_after actions
  refine ⟨fun _ => Frames.not_transGen_below, hv.records, fun env henv => ⟨hv.stacked env henv,
    fun name => ⟨hv.records.reads _ _, fun value => ?_⟩⟩, fun scope _ name =>
      ⟨hv.records.reads _ _, hv.records.assigns _ _⟩, fun a e => hv.step_of_error⟩
  unfold Environment.assign
  split
  · rfl
  · exact hv.records.assigns _ _ _

/-- A block defines `x`, a closure captures its frame, the block is left, and the closure is called
and its `x` written to through the captured scope. -/
def capturing : List FrameAction := [
  .create,
  .push 0,
  .define 0 "x" ⟨.int 5, .mutable⟩,
  .capture 0,
  .pop 0,
  .forCall 0 0,
  .assignIn 0 "x" (.int 6)]

/-- A frame that was left lives on in the scope that captured it. -/
theorem environments_follow_history_capturing :
    (after capturing).1.envs = [⟨⟨0⟩, [], ⟨0⟩⟩, ⟨⟨2⟩, [], ⟨0⟩⟩] ∧
      Environment.lookup ⟨⟨0⟩, [], ⟨0⟩⟩ (after capturing).1.frames "x" = none ∧
      Environment.lookup ⟨⟨2⟩, [], ⟨0⟩⟩ (after capturing).1.frames "x" = some (.int 6) := by
  have henvs : (after capturing).1.envs = [⟨⟨0⟩, [], ⟨0⟩⟩, ⟨⟨2⟩, [], ⟨0⟩⟩] := by cbv
  obtain ⟨-, -, hread, -, -⟩ := environments_follow_history capturing
  refine ⟨henvs, ?_, ?_⟩
  · exact ((hread _ (henvs ▸ .head _)).2 "x").1.unbound.mpr (by decide)
  · exact ((hread _ (henvs ▸ .tail _ (.head _))).2 "x").1.value (.int 6) |>.mpr ⟨⟨1⟩, rfl, rfl⟩

end Workspace

end ScriptEngine
