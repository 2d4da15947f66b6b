import Mathlib.Data.Finset.Card
import Mathlib.Logic.Function.Basic
import Mathlib.Logic.Relation
import ScriptEngine.Proofs.Symbol.Table

/-!
Clients that share a table of symbols.

A client looks a name up and, on a miss, enters it later under a lock, after a second look; the
counter beside the table rises after that, in a step of its own (`Section`). Main statement: whatever
the order of the clients' sections, a name and its symbol determine each other for all clients and
for good, and when all clients are at rest the counter tells the number of different names
(`clients_share_symbols`).
-/

namespace ScriptEngine.Interning

open SymbolTable (shardOf initial predeclared)

/-- What a client is at. -/
inductive Phase where
  | rest
  /-- It missed a name. -/
  | missed (name : String)
  /-- It entered a name that is not counted yet. -/
  | entered (name : String) (s : Symbol)
  deriving DecidableEq

/-- A table with its counter and its clients, and the answers that were given, as numbers. -/
structure Shared (Client : Type) where
  table : SymbolTable
  count : Nat
  phase : Client → Phase
  answered : List (String × Except ShardOverflow UInt32)

/-- All clients are at rest, and nothing was asked. -/
def Shared.start (Client : Type) : Shared Client :=
  ⟨initial, initial.size, fun _ => .rest, []⟩

section Clients

variable {Client : Type}

/-- What a client does under a lock or to the counter. -/
inductive Section [DecidableEq Client] (s : Shared Client) : Shared Client → Prop where
  /-- The name is there. -/
  | hit (client : Client) (name : String) (symbol : Symbol) : s.phase client = .rest →
      s.table.find? name = some symbol →
      Section s { s with answered := (name, .ok symbol.pack) :: s.answered }
  /-- The name is not there, and is left to be entered. -/
  | miss (client : Client) (name : String) : s.phase client = .rest → s.table.find? name = none →
      Section s { s with phase := Function.update s.phase client (.missed name) }
  /-- Someone else entered the name in between. -/
  | late (client : Client) (name : String) (symbol : Symbol) : s.phase client = .missed name →
      s.table.find? name = some symbol →
      Section s { s with
        phase := Function.update s.phase client .rest
        answered := (name, .ok symbol.pack) :: s.answered }
  /-- The name is entered. -/
  | enter (client : Client) (name : String) (symbol : Symbol) (table : SymbolTable) :
      s.phase client = .missed name → s.table.find? name = none →
      s.table.insert name = .ok (symbol, table) →
      Section s { s with
        table
        phase := Function.update s.phase client (.entered name symbol) }
  /-- There is no room for the name. -/
  | overflow (client : Client) (name : String) (e : ShardOverflow) :
      s.phase client = .missed name → s.table.insert name = .error e →
      Section s { s with
        phase := Function.update s.phase client .rest
        answered := (name, .error e) :: s.answered }
  /-- The name is counted. -/
  | count (client : Client) (name : String) (symbol : Symbol) :
      s.phase client = .entered name symbol →
      Section s { s with
        count := s.count + 1
        phase := Function.update s.phase client .rest
        answered := (name, .ok symbol.pack) :: s.answered }

/-- Any number of sections of any clients. -/
abbrev Sections [DecidableEq Client] : Shared Client → Shared Client → Prop :=
  Relation.ReflTransGen Section

variable {s s' : Shared Client}

/-- A client whom nobody interrupts is answered as `intern` says. -/
theorem sections_intern [DecidableEq Client] (s : Shared Client) (client : Client) (name : String)
    (hrest : s.phase client = .rest) :
    (∀ symbol table, s.table.intern name = .ok (symbol, table) → ∃ count,
      Sections s { s with table, count, answered := (name, .ok symbol.pack) :: s.answered }) ∧
    ∀ e, s.table.intern name = .error e →
      Sections s { s with answered := (name, .error e) :: s.answered } := by
  unfold SymbolTable.intern
  cases hfind : s.table.find? name with
  | some found =>
    refine ⟨fun symbol table hintern => ⟨s.count, ?_⟩, nofun⟩
    cases hintern
    exact .single (.hit client name found hrest hfind)
  | none =>
    let missed := { s with phase := Function.update s.phase client (.missed name) }
    have hmiss : Sections s missed := .single (.miss client name hrest hfind)
    have hmissed : missed.phase client = .missed name := Function.update_self ..
    have hback : ∀ p, Function.update (Function.update missed.phase client p) client .rest =
        s.phase := fun p => by
      rw [Function.update_idem, Function.update_idem, ← hrest, Function.update_eq_self]
    refine ⟨fun symbol table hinsert => ⟨s.count + 1, ?_⟩, fun e hfull => ?_⟩
    · have hcount := (hmiss.tail (.enter client name symbol table hmissed hfind hinsert)).tail
        (.count client name symbol (Function.update_self ..))
      rwa [hback] at hcount
    · have hrefused := hmiss.tail (.overflow client name e hmissed hfull)
      rwa [Function.update_idem, ← hrest, Function.update_eq_self] at hrefused

/-! ### What sections keep -/

/-- What is known of a shared table: the names that were answered or are being entered have their
symbols, all others are names of the initial table, only full shards refused a name, and the counter
lags behind by one for each client whose name is not counted yet. -/
structure Keeps (s : Shared Client) : Prop where
  table : s.table.WellFormed
  answered : ∀ name n, (name, .ok n) ∈ s.answered →
    ∃ symbol, symbol.pack = n ∧ s.table.name? symbol = some name
  refused : ∀ name e, (name, .error e) ∈ s.answered →
    ∃ last, s.table.name? ⟨shardOf name, Symbol.maxPosition⟩ = some last
  entered : ∀ client name symbol, s.phase client = .entered name symbol →
    s.table.name? symbol = some name
  origin : ∀ name ∈ s.table.names, name ∈ initial.names ∨ (∃ n, (name, .ok n) ∈ s.answered) ∨
    ∃ client symbol, s.phase client = .entered name symbol
  counted : ∃ uncounted : Finset Client,
    (∀ client, client ∈ uncounted ↔ ∃ name symbol, s.phase client = .entered name symbol) ∧
    s.count + uncounted.card = s.table.size

/-- Clients at rest, in front of a table that was counted. -/
theorem keeps_of_rest {t : SymbolTable} (h : t.WellFormed)
    (hinitial : ∀ name ∈ t.names, name ∈ initial.names) :
    Keeps (⟨t, t.size, fun _ => .rest, []⟩ : Shared Client) := by
  refine ⟨h, nofun, nofun, nofun, fun name hname => .inl (hinitial name hname), ∅, ?_, ?_⟩
  · intro client
    exact iff_of_false (Finset.notMem_empty client) nofun
  · rw [Finset.card_empty, Nat.add_zero]

/-- Sections that enter nothing and count nothing. -/
theorem Keeps.quiet (h : Keeps s) {phase : Client → Phase}
    {answered : List (String × Except ShardOverflow UInt32)}
    (hphase : ∀ client name symbol,
      phase client = .entered name symbol ↔ s.phase client = .entered name symbol)
    (hmore : s.answered ⊆ answered)
    (hok : ∀ name n, (name, .ok n) ∈ answered →
      ∃ symbol, symbol.pack = n ∧ s.table.name? symbol = some name)
    (herror : ∀ name e, (name, .error e) ∈ answered →
      ∃ last, s.table.name? ⟨shardOf name, Symbol.maxPosition⟩ = some last) :
    Keeps { s with phase, answered } where
  table := h.table
  answered := hok
  refused := herror
  entered client name symbol hclient := h.entered client name symbol ((hphase ..).mp hclient)
  origin name hname := by
    simp only [hphase]
    exact (h.origin name hname).imp_right fun horigin => horigin.imp_left fun ⟨n, hn⟩ =>
      ⟨n, hmore hn⟩
  counted := by
    simp only [hphase]
    exact h.counted

/-- A name that is found is answered. -/
theorem Keeps.answer (h : Keeps s) {name : String} {symbol : Symbol}
    (hfound : s.table.name? symbol = some name) (name' : String) (n : UInt32)
    (hn : (name', .ok n) ∈ (name, .ok symbol.pack) :: s.answered) :
    ∃ symbol', symbol'.pack = n ∧ s.table.name? symbol' = some name' := by
  rcases List.mem_cons.mp hn with heq | hold
  · cases heq
    exact ⟨symbol, rfl, hfound⟩
  · exact h.answered name' n hold

/-- A full shard has given away its last position. -/
theorem exists_last_of_insert {t : SymbolTable} {name : String} {e : ShardOverflow}
    (hfull : t.insert name = .error e) :
    ∃ last, t.name? ⟨shardOf name, Symbol.maxPosition⟩ = some last := by
  obtain ⟨hshard, hcount, hlt⟩ := SymbolTable.full_of_insert hfull
  rw [hcount, hshard] at hlt
  exact ⟨_, List.getElem?_eq_getElem hlt⟩

section Update

variable [DecidableEq Client] {phase : Client → Phase} {client : Client} {p : Phase}

/-- A client comes from a phase in which it is not entering a name to another such phase. -/
theorem update_eq_entered (hbefore : ∀ name symbol, phase client ≠ .entered name symbol)
    (hafter : ∀ name symbol, p ≠ .entered name symbol) (other : Client) (name : String)
    (symbol : Symbol) : Function.update phase client p other = .entered name symbol ↔
      phase other = .entered name symbol := by
  by_cases hother : other = client
  · subst hother
    rw [Function.update_self]
    exact iff_of_false (hafter name symbol) (hbefore name symbol)
  · rw [Function.update_of_ne hother]

/-- A client begins or ends to enter a name, beside those that do. -/
theorem mem_insert_update {entering : Finset Client} {name : String} {symbol : Symbol}
    (h : ∀ c, c ∈ entering ↔ ∃ name symbol, phase c = .entered name symbol) (c : Client) :
    c ∈ insert client entering ↔ ∃ name' symbol',
      Function.update phase client (.entered name symbol) c = .entered name' symbol' := by
  rw [Finset.mem_insert, h]
  by_cases hc : c = client
  · subst hc
    rw [Function.update_self]
    exact iff_of_true (.inl rfl) ⟨name, symbol, rfl⟩
  · rw [Function.update_of_ne hc, or_iff_right hc]

theorem mem_erase_update {entering : Finset Client}
    (h : ∀ c, c ∈ entering ↔ ∃ name symbol, phase c = .entered name symbol) (c : Client) :
    c ∈ entering.erase client ↔ ∃ name symbol,
      Function.update phase client .rest c = .entered name symbol := by
  rw [Finset.mem_erase, h]
  by_cases hc : c = client
  · subst hc
    rw [Function.update_self]
    exact iff_of_false (fun hne => hne.1 rfl) nofun
  · rw [Function.update_of_ne hc, and_iff_right hc]

end Update

variable [DecidableEq Client]

theorem Keeps.enter (h : Keeps s) {client : Client} {name : String} {symbol : Symbol}
    {table : SymbolTable} (hmissed : s.phase client = .missed name)
    (henters : s.table.Enters name symbol table) :
    Keeps { s with
      table
      phase := Function.update s.phase client (.entered name symbol) } where
  table := henters.wellFormed
  answered name' n hn := by
    obtain ⟨symbol', hpack, hname⟩ := h.answered name' n hn
    exact ⟨symbol', hpack, henters.keeps hname⟩
  refused name' e he := by
    obtain ⟨last, hlast⟩ := h.refused name' e he
    exact ⟨last, henters.keeps hlast⟩
  entered other name' symbol' hother := by
    dsimp only at hother
    by_cases hc : other = client
    · subst hc
      rw [Function.update_self] at hother
      cases hother
      exact henters.entered
    · rw [Function.update_of_ne hc] at hother
      exact henters.keeps (h.entered other name' symbol' hother)
  origin name' hname := by
    rcases henters.mem_names.mp hname with rfl | hold
    · exact .inr (.inr ⟨client, symbol, Function.update_self ..⟩)
    · refine (h.origin name' hold).imp_right fun horigin => horigin.imp_right ?_
      rintro ⟨other, symbol', hother⟩
      refine ⟨other, symbol', (Function.update_of_ne ?_ ..).trans hother⟩
      rintro rfl
      cases hmissed.symm.trans hother
  counted := by
    obtain ⟨uncounted, hmem, hcount⟩ := h.counted
    refine ⟨insert client uncounted, mem_insert_update hmem, ?_⟩
    have hnew : client ∉ uncounted := by
      rw [hmem, hmissed]
      nofun
    rw [Finset.card_insert_of_notMem hnew, henters.size, ← hcount, Nat.add_assoc]

theorem Keeps.count (h : Keeps s) {client : Client} {name : String} {symbol : Symbol}
    (hentered : s.phase client = .entered name symbol) :
    Keeps { s with
      count := s.count + 1
      phase := Function.update s.phase client .rest
      answered := (name, .ok symbol.pack) :: s.answered } where
  table := h.table
  answered := h.answer (h.entered client name symbol hentered)
  refused name' e he := h.refused name' e (List.mem_of_ne_of_mem (by simp) he)
  entered other name' symbol' hother := by
    dsimp only at hother
    by_cases hc : other = client
    · subst hc
      rw [Function.update_self] at hother
      cases hother
    · rw [Function.update_of_ne hc] at hother
      exact h.entered other name' symbol' hother
  origin name' hname := by
    rcases h.origin name' hname with hinitial | ⟨n, hn⟩ | ⟨other, symbol', hother⟩
    · exact .inl hinitial
    · exact .inr (.inl ⟨n, List.mem_cons_of_mem _ hn⟩)
    · by_cases hc : other = client
      · subst hc
        cases hentered.symm.trans hother
        exact .inr (.inl ⟨_, List.mem_cons_self ..⟩)
      · exact .inr (.inr ⟨other, symbol', (Function.update_of_ne hc ..).trans hother⟩)
  counted := by
    obtain ⟨uncounted, hmem, hcount⟩ := h.counted
    refine ⟨uncounted.erase client, mem_erase_update hmem, ?_⟩
    have hin : client ∈ uncounted := (hmem client).mpr ⟨name, symbol, hentered⟩
    rw [← hcount, ← Finset.card_erase_add_one hin, Nat.add_right_comm, Nat.add_assoc]

/-- **Every section keeps what is known.** -/
theorem Keeps.section (h : Keeps s) (step : Section s s') : Keeps s' := by
  have hnot : ∀ {client : Client} {p : Phase}, s.phase client = p →
      (∀ name symbol, p ≠ .entered name symbol) →
      ∀ name symbol, s.phase client ≠ .entered name symbol := fun hp hne => by rwa [hp]
  cases step with
  | hit client name symbol _ hfound =>
    have hfound := h.table.find?_eq_some_iff.mp hfound
    refine h.quiet (fun _ _ _ => .rfl) (List.subset_cons_self ..) (h.answer hfound) ?_
    exact fun name' e he => h.refused name' e (List.mem_of_ne_of_mem (by simp) he)
  | miss client name hrest _ =>
    exact h.quiet (update_eq_entered (hnot hrest nofun) nofun) (List.Subset.refl _) h.answered
      h.refused
  | late client name symbol hmissed hfound =>
    have hfound := h.table.find?_eq_some_iff.mp hfound
    refine h.quiet (update_eq_entered (hnot hmissed nofun) nofun) (List.subset_cons_self ..)
      (h.answer hfound) ?_
    exact fun name' e he => h.refused name' e (List.mem_of_ne_of_mem (by simp) he)
  | overflow client name e hmissed hfull =>
    refine h.quiet (update_eq_entered (hnot hmissed nofun) nofun) (List.subset_cons_self ..) ?_ ?_
    · exact fun name' n hn => h.answered name' n (List.mem_of_ne_of_mem (by simp) hn)
    · intro name' e' he
      rcases List.mem_cons.mp he with heq | hold
      · cases heq
        exact exists_last_of_insert hfull
      · exact h.refused name' e' hold
  | enter client name symbol table hmissed hnew hinsert =>
    exact h.enter hmissed (h.table.enters hnew hinsert)
  | count client name symbol hentered => exact h.count hentered

/-- What later sections do not take back: symbols keep their names, and answers stand. -/
theorem Keeps.later (h : Keeps s) (run : Sections s s') : Keeps s' ∧
    (∀ symbol name, s.table.name? symbol = some name → s'.table.name? symbol = some name) ∧
    s.answered ⊆ s'.answered := by
  induction run with
  | refl => exact ⟨h, fun _ _ hname => hname, List.Subset.refl _⟩
  | tail _ step ih =>
    obtain ⟨hk, hnames, hanswers⟩ := ih
    refine ⟨hk.section step, fun symbol name hname => ?_, List.Subset.trans hanswers ?_⟩
    · have hname := hnames symbol name hname
      cases step with
      | enter client new symbol' table _ hnew hinsert =>
        exact (hk.table.enters hnew hinsert).keeps hname
      | _ => exact hname
    · cases step with
      | miss | enter => exact List.Subset.refl _
      | _ => exact List.subset_cons_self ..

theorem keeps_of_sections {t : SymbolTable} (h : t.WellFormed)
    (hinitial : ∀ name ∈ t.names, name ∈ initial.names)
    (run : Sections ⟨t, t.size, fun _ => .rest, []⟩ s) :
    Keeps s ∧ ∀ symbol name, t.name? symbol = some name → s.table.name? symbol = some name := by
  obtain ⟨hk, hnames, -⟩ := (keeps_of_rest h hinitial).later run
  exact ⟨hk, hnames⟩

/-- **Clients that share a table agree on its symbols**, whatever the order of their sections. The
answers to two names are the same number exactly if the names are the same; a number leads back to
its name from then on; the empty name has the number 0; and only a full shard refuses a name. When
all clients are at rest, the counter tells how many names there are: the empty name, the predeclared
ones and those that were asked for. -/
theorem clients_share_symbols (run : Sections (.start Client) s) (later : Sections s s') :
    (∀ name name' n n', (name, .ok n) ∈ s.answered → (name', .ok n') ∈ s'.answered →
      (n = n' ↔ name = name')) ∧
    (∀ name n, (name, .ok n) ∈ s.answered →
      (name, .ok n) ∈ s'.answered ∧ s'.table.lookup (.unpack n) = name) ∧
    (∀ n, ("", .ok n) ∈ s.answered → n = Symbol.empty.pack) ∧
    (∀ name e, (name, .error e) ∈ s.answered →
      (s.table.shard (shardOf name)).length = Symbol.maxPosition + 1) ∧
    ((∀ client, s.phase client = .rest) → ∃ names : Finset String,
      (∀ name, name ∈ names ↔ name = "" ∨ name ∈ predeclared ∨ ∃ n, (name, .ok n) ∈ s.answered) ∧
      s.count = names.card) := by
  obtain ⟨h, hstart⟩ := keeps_of_sections SymbolTable.wellFormed_initial (fun _ hname => hname) run
  obtain ⟨h', hnames, hanswers⟩ := h.later later
  refine ⟨fun name name' n n' hn hn' => ?_, fun name n hn => ⟨hanswers hn, ?_⟩, fun n hn => ?_,
    fun name e he => ?_, fun hrest => ?_⟩
  · obtain ⟨symbol, rfl, hsymbol⟩ := h.answered name n hn
    obtain ⟨symbol', rfl, hsymbol'⟩ := h'.answered name' n' hn'
    have hsymbol := hnames symbol name hsymbol
    rw [(h'.table.valid hsymbol).pack_inj (h'.table.valid hsymbol')]
    constructor
    · rintro rfl
      exact Option.some.inj (hsymbol.symm.trans hsymbol')
    · rintro rfl
      have hfind := h'.table.find?_eq_some_iff.mpr hsymbol
      have hfind' := h'.table.find?_eq_some_iff.mpr hsymbol'
      exact Option.some.inj (hfind.symm.trans hfind')
  · obtain ⟨symbol, rfl, hsymbol⟩ := h.answered name n hn
    have hsymbol := hnames symbol name hsymbol
    rw [(h'.table.valid hsymbol).unpack_pack, SymbolTable.lookup, hsymbol, Option.getD_some]
  · obtain ⟨symbol, rfl, hsymbol⟩ := h.answered "" n hn
    have hfind := h.table.find?_eq_some_iff.mpr hsymbol
    have hempty := h.table.find?_eq_some_iff.mpr h.table.empty
    rw [Option.some.inj (hfind.symm.trans hempty)]
  · obtain ⟨last, hlast⟩ := h.refused name e he
    have hlt := (List.getElem?_eq_some_iff.mp hlast).1
    exact Nat.le_antisymm (h.table.bound _) hlt
  · obtain ⟨uncounted, hmem, hcount⟩ := h.counted
    have hnone : uncounted = ∅ := by
      refine Finset.eq_empty_of_forall_notMem fun client hclient => ?_
      obtain ⟨name, symbol, hentered⟩ := (hmem client).mp hclient
      cases (hrest client).symm.trans hentered
    refine ⟨s.table.names.toFinset, fun name => ?_, ?_⟩
    · rw [List.mem_toFinset, ← or_assoc, ← SymbolTable.mem_names_initial]
      constructor
      · intro hname
        refine (h.origin name hname).imp_right fun horigin => horigin.resolve_right ?_
        rintro ⟨client, symbol, hentered⟩
        cases (hrest client).symm.trans hentered
      · rintro (hinitial | ⟨n, hn⟩)
        · obtain ⟨symbol, hsymbol⟩ := SymbolTable.mem_names.mp hinitial
          exact SymbolTable.mem_names.mpr ⟨symbol, hstart symbol name hsymbol⟩
        · obtain ⟨symbol, -, hsymbol⟩ := h.answered name n hn
          exact SymbolTable.mem_names.mpr ⟨symbol, hsymbol⟩
    · rw [List.toFinset_card_of_nodup h.table.nodup_names, ← SymbolTable.size_eq, ← hcount, hnone,
        Finset.card_empty, Nat.add_zero]

end Clients

/-- Two clients miss a name. The second finds it when the first has entered but not yet counted
it. -/
theorem sections_race {t t' : SymbolTable} {name : String} {symbol : Symbol}
    (hnew : t.find? name = none) (hinsert : t.insert name = .ok (symbol, t'))
    (hfound : t'.find? name = some symbol) :
    ∃ s, Sections (⟨t, t.size, fun _ => .rest, []⟩ : Shared Bool) s ∧
      s.answered = [(name, .ok symbol.pack), (name, .ok symbol.pack)] ∧
      ∀ client, s.phase client = .rest := by
  have missed : Sections (⟨t, t.size, fun _ => .rest, []⟩ : Shared Bool) _ :=
    .tail (.single (.miss false name rfl hnew)) (.miss true name rfl hnew)
  have entered := missed.tail (.enter false name symbol t' rfl hnew hinsert)
  have run := (entered.tail (.late true name symbol rfl hfound)).tail (.count false name symbol rfl)
  refine ⟨_, run, rfl, fun client => ?_⟩
  cases client <;> rfl

/-- Both clients get the same number for `x`, which is counted once. -/
theorem clients_share_symbols_race : ∃ (s : Shared Bool) (n : UInt32),
    Sections (.start Bool) s ∧ s.answered = [("x", .ok n), ("x", .ok n)] ∧
      s.table.lookup (.unpack n) = "x" ∧
      ∃ names : Finset String, (∀ name, name ∈ names ↔
        name = "" ∨ name ∈ predeclared ∨ ∃ n, (name, .ok n) ∈ s.answered) ∧
        s.count = names.card := by
  have hnew : initial.find? "x" = none := by decide +kernel
  obtain ⟨symbol, t, hinsert⟩ : ∃ symbol t, initial.insert "x" = .ok (symbol, t) := by
    have hok : (initial.insert "x").isOk = true := by decide +kernel
    cases hinsert : initial.insert "x" with
    | ok answer => exact ⟨answer.1, answer.2, rfl⟩
    | error e => rw [hinsert] at hok; cases hok
  have henters := SymbolTable.wellFormed_initial.enters hnew hinsert
  have hfound := henters.wellFormed.find?_eq_some_iff.mpr henters.entered
  obtain ⟨s, run, hanswered, hrest⟩ := sections_race hnew hinsert hfound
  have run : Sections (.start Bool) s := run
  obtain ⟨-, hlookup, -, -, hcount⟩ := clients_share_symbols run .refl
  refine ⟨s, symbol.pack, run, hanswered, (hlookup "x" symbol.pack ?_).2, hcount hrest⟩
  rw [hanswered]
  exact List.mem_cons_self ..

end ScriptEngine.Interning
