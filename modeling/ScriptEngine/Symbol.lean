import ScriptEngine.Assoc

/-!
Symbols: compact handles for names. A table spreads names over sixteen shards by a hash of their
first eight bytes and numbers them within a shard in order of arrival, so a symbol is a shard and a
position there.

`find?` and `insert` are the two steps of interning: a look that changes nothing and, on a miss, a
second look followed by the insertion. `intern` is one after the other.
-/

namespace ScriptEngine

/-- The handle of a name: its shard and its position there. -/
structure Symbol where
  shard : Nat
  position : Nat
  deriving DecidableEq, Repr, Inhabited

namespace Symbol

/-- How many shards a table has. -/
def shardCount : Nat := 16

/-- The largest position a shard hands out: positions are written in twenty-eight bits. -/
def maxPosition : Nat := Nat.pow 2 28 - 1

/-- The handle of the empty name, which every table holds first. -/
def empty : Symbol := ⟨0, 0⟩

/-- The handle as one number: the shard above the twenty-eight bits of the position. -/
def pack (s : Symbol) : UInt32 :=
  (s.shard.toUInt32 <<< 28) ||| s.position.toUInt32

/-- The handle that a number stands for. -/
def unpack (n : UInt32) : Symbol :=
  ⟨(n >>> 28).toNat, (n &&& maxPosition.toUInt32).toNat⟩

/-- The written form, as in `Name(3:42)`. -/
def text (s : Symbol) : String :=
  s!"Name({s.shard}:{s.position})"

end Symbol

/-- A shard has no position left for a new name. -/
structure ShardOverflow where
  shard : Nat
  count : Nat
  deriving DecidableEq, Repr

namespace ShardOverflow

/-- The text shown to a user. -/
def message (e : ShardOverflow) : String :=
  s!"interner shard {e.shard} exceeded capacity: {e.count} strings, max is {Symbol.maxPosition}"

end ShardOverflow

/-- The names of each shard in order of arrival. -/
structure SymbolTable where
  shards : List (List String)
  deriving Repr

namespace SymbolTable

/-- The text shown for a symbol that the table did not hand out. -/
def unknown : String := "<unknown>"

/-- The polynomial hash, to base 31 in 32 bits, of the first eight bytes of a name. -/
def hash (name : String) : UInt32 :=
  (name.toUTF8.toList.take 8).foldl (fun h b => h * 31 + b.toUInt32) 0

/-- The shard that holds `name`. -/
def shardOf (name : String) : Nat :=
  (hash name).toNat % Symbol.shardCount

/-- The names held by a shard. -/
def shard (t : SymbolTable) (i : Nat) : List String :=
  t.shards[i]?.getD []

/-- The name of a symbol, if the table handed it out. -/
def name? (t : SymbolTable) (s : Symbol) : Option String :=
  (t.shard s.shard)[s.position]?

/-- The name of a symbol, or a fixed text if the table did not hand it out. -/
def lookup (t : SymbolTable) (s : Symbol) : String :=
  (t.name? s).getD unknown

/-- The symbol of a name that is already in the table. -/
def find? (t : SymbolTable) (name : String) : Option Symbol :=
  ((t.shard (shardOf name)).idxOf? name).map fun i => ⟨shardOf name, i⟩

/-- Looks again and, if the name is still missing, appends it to its shard. -/
def insert (t : SymbolTable) (name : String) : Except ShardOverflow (Symbol × SymbolTable) :=
  match t.find? name with
  | some s => .ok (s, t)
  | none =>
    let i := shardOf name
    let names := t.shard i
    if names.length ≤ Symbol.maxPosition then
      .ok (⟨i, names.length⟩, ⟨t.shards.set i (names ++ [name])⟩)
    else
      .error ⟨i, names.length⟩

/-- The symbol of a name, entering it if it is new. -/
def intern (t : SymbolTable) (name : String) : Except ShardOverflow (Symbol × SymbolTable) :=
  match t.find? name with
  | some s => .ok (s, t)
  | none => t.insert name

/-- The number of names in the table. -/
def size (t : SymbolTable) : Nat :=
  (t.shards.map List.length).foldr (· + ·) 0

/-- A table that holds at most the empty name counts as empty. -/
def isEmpty (t : SymbolTable) : Bool :=
  t.size ≤ 1

/-- The table that holds the empty name only. -/
def blank : SymbolTable :=
  ⟨[""] :: List.replicate (Symbol.shardCount - 1) []⟩

/-- The keywords and predeclared names, in the order in which every table enters them. -/
def predeclared : List String :=
  ["break", "case", "const", "continue", "default", "else", "fallthrough", "for", "func", "goto",
    "if", "interface", "return", "struct", "switch", "type", "var",
    "true", "false", "iota", "nil", "bool", "int", "float64", "string", "error", "Error"]

/-- Interns each name in turn; one that does not fit is left out. -/
def internAll (t : SymbolTable) (names : List String) : SymbolTable :=
  names.foldl (fun t name => match t.intern name with
    | .ok (_, t') => t'
    | .error _ => t) t

/-- The table every session starts from. -/
def initial : SymbolTable :=
  blank.internAll predeclared

end SymbolTable

end ScriptEngine
