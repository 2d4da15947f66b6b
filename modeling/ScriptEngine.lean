import ScriptEngine.Proofs.Environment.History
import ScriptEngine.Proofs.Environment.Workspace
import ScriptEngine.Proofs.Eval.Assignment
import ScriptEngine.Proofs.Eval.Compound
import ScriptEngine.Proofs.Eval.Context
import ScriptEngine.Proofs.Eval.Counting
import ScriptEngine.Proofs.Eval.Diagnostics
import ScriptEngine.Proofs.Eval.Leaving
import ScriptEngine.Proofs.Eval.Literals
import ScriptEngine.Proofs.Eval.Ordinals
import ScriptEngine.Proofs.Eval.Reassignment
import ScriptEngine.Proofs.Eval.Results
import ScriptEngine.Proofs.Eval.Switches
import ScriptEngine.Proofs.Fallible
import ScriptEngine.Proofs.Lockstep.CallLimit
import ScriptEngine.Proofs.Lockstep.Encapsulation
import ScriptEngine.Proofs.Operator.Division
import ScriptEngine.Proofs.Session.Dispatch
import ScriptEngine.Proofs.Session.FailedDeclarations
import ScriptEngine.Proofs.Session.Jumps
import ScriptEngine.Proofs.Session.Receivers
import ScriptEngine.Proofs.Session.Satisfaction
import ScriptEngine.Proofs.Session.Shapes
import ScriptEngine.Proofs.Symbol.Sharing
import ScriptEngine.Proofs.Symbol.Table
import ScriptEngine.Proofs.Types.Counting
import ScriptEngine.Proofs.Types.EmbeddingPath
import ScriptEngine.Proofs.Types.WellFormed
import ScriptEngine.Proofs.Universe.Atomicity
import ScriptEngine.Proofs.Universe.Consistency
import ScriptEngine.Proofs.Universe.Counters
import ScriptEngine.Proofs.Universe.Coverage
import ScriptEngine.Proofs.Universe.Descriptors
import ScriptEngine.Proofs.Universe.EmulatedInterfaces
import ScriptEngine.Proofs.Universe.History
import ScriptEngine.Proofs.Universe.Identity
import ScriptEngine.Proofs.Universe.LatestBinding
import ScriptEngine.Proofs.Universe.MethodIndices
import ScriptEngine.Proofs.Universe.MethodOrder
import ScriptEngine.Proofs.Universe.MethodSets
import ScriptEngine.Proofs.Universe.NativeInterfaces
import ScriptEngine.Proofs.Universe.NativeRegistration
import ScriptEngine.Proofs.Universe.Promotion
import ScriptEngine.Proofs.Universe.Satisfaction
import ScriptEngine.Proofs.Universe.Sharing
import ScriptEngine.Proofs.Universe.Transparency
import ScriptEngine.Proofs.Universe.Traversals
import ScriptEngine.Session
import ScriptEngine.Symbol
import ScriptEngine.Proofs.Value.Equality
