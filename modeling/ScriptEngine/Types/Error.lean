import ScriptEngine.Types.Decl
import ScriptEngine.Text.Quoted

/-!
Structural errors: a type was declared, represented or bound inconsistently. They carry display
names, since the types they speak of may belong to a universe that the reader does not have.
-/

namespace ScriptEngine

/-- Why an operation on types gives no result. -/
inductive TypeError where
  | methodOnPointer (ty : String) (kind : Kind) (index : Nat)
  | cannotHaveMethods (ty : String) (kind : Kind) (index : Nat)
  | methodIndexOutOfRange (ty : String) (index count : Nat)
  | inconsistentInterface (ty found : String)
  | interfaceMethodNotFound (ty method : String)
  | interfaceIndexMismatch (ty method : String) (declared runtime : Nat)
  | methodNotFound (ty method : String)
  | signatureArityMismatch (ty : String) (index : Nat) (receiver : String) (declared : Nat)
      (declaredSig : String) (runtime : Nat) (runtimeSig : String)
  | incompleteType (ty : String)
  | notNamed (ty : String)
  | notInterface (ty : String)
  | duplicateType (name : String)
  | underlyingAlreadySet (ty : String)
  | selfUnderlying (ty : String)
  | invalidMethodOwner (ty : String) (kind : Kind)
  | duplicateMethod (ty method : String)
  | undeclaredMethod (ty method : String)
  | invalidReceiver (ty method receiver : String)
  | embeddedNotInterface (ty embedded : String)
  | reprAlreadyBuilt (ty : String)
  /-- No failure, and nothing that anyone is shown: the operation never answers, as a text that it
  has to write does not end. -/
  | endless
  deriving DecidableEq, Repr, Inhabited

/-- The error that quotes a text, if that text ends. -/
def TypeError.quoting (e : String → TypeError) : Option String → TypeError
  | some text => e text
  | none => .endless

/-- The code by which tools know the error. -/
def TypeError.code : TypeError → String
  | .methodOnPointer .. => "MethodOnPointer"
  | .cannotHaveMethods .. => "CannotHaveMethods"
  | .methodIndexOutOfRange .. => "MethodIndexOutOfRange"
  | .inconsistentInterface .. => "InconsistentInterface"
  | .interfaceMethodNotFound .. => "InterfaceMethodNotFound"
  | .interfaceIndexMismatch .. => "InterfaceIndexMismatch"
  | .methodNotFound .. => "MethodNotFound"
  | .signatureArityMismatch .. => "SignatureArityMismatch"
  | .incompleteType .. => "IncompleteType"
  | .notNamed .. => "NotNamed"
  | .notInterface .. => "NotInterface"
  | .duplicateType .. => "DuplicateType"
  | .underlyingAlreadySet .. => "UnderlyingAlreadySet"
  | .selfUnderlying .. => "SelfUnderlying"
  | .invalidMethodOwner .. => "InvalidMethodOwner"
  | .duplicateMethod .. => "DuplicateMethod"
  | .undeclaredMethod .. => "UndeclaredMethod"
  | .invalidReceiver .. => "InvalidReceiver"
  | .embeddedNotInterface .. => "EmbeddedNotInterface"
  | .reprAlreadyBuilt .. => "ReprAlreadyBuilt"
  | .endless => ""

open Text (quoted)

/-- The text shown to a user. Types stand in angle brackets and methods in quotes. -/
def TypeError.message : TypeError → String
  | methodOnPointer ty kind index =>
    s!"Method({index}) of {kind.name} type <{ty}>: invoke Method() on the pointed-to type instead"
  | cannotHaveMethods ty kind index =>
    s!"Method({index}) of {kind.name} type <{ty}> that cannot have methods"
  | methodIndexOutOfRange ty index count =>
    s!"type <{ty}>: method index {index} out of range, type has {count} methods"
  | inconsistentInterface ty found =>
    s!"inconsistent interface type <{ty}>: expecting interface representation, found <{found}>"
  | interfaceMethodNotFound ty method =>
    s!"interface type <{ty}>: runtime method {quoted method} not found"
  | interfaceIndexMismatch ty method declared runtime =>
    s!"inconsistent interface type <{ty}>: method {quoted method} has declared index={declared}" ++
      s!" but runtime index={runtime}"
  | methodNotFound ty method =>
    s!"type <{ty}>: runtime method {quoted method} not found"
  | signatureArityMismatch ty index receiver declared declaredSig runtime runtimeSig =>
    s!"type <{ty}>: inconsistent {index}-th method signature:\n\t" ++
      s!"declared {receiver} and {declared} parameters: {declaredSig}\n\t" ++
      s!"runtime has {runtime} parameters: {runtimeSig}"
  | incompleteType ty => s!"type <{ty}> is incomplete: underlying type not set"
  | notNamed ty => s!"type <{ty}> is not a named type"
  | notInterface ty => s!"type <{ty}> is not an interface"
  | duplicateType name => s!"a type named {quoted name} is already declared"
  | underlyingAlreadySet ty => s!"underlying type of <{ty}> is already set"
  | selfUnderlying ty => s!"<{ty}> cannot be its own underlying type"
  | invalidMethodOwner ty kind =>
    s!"cannot declare methods on <{ty}>: underlying type is {kind.name}"
  | duplicateMethod ty method => s!"type <{ty}> already has a method named {quoted method}"
  | undeclaredMethod ty method => s!"type <{ty}> has no declared method named {quoted method}"
  | invalidReceiver ty method receiver =>
    s!"method {quoted method} has receiver <{receiver}>, expecting <{ty}> or <*{ty}>"
  | embeddedNotInterface ty embedded =>
    s!"interface <{ty}> embeds non-interface type <{embedded}>"
  | reprAlreadyBuilt ty => s!"runtime representation of <{ty}> is already built"
  | endless => ""

end ScriptEngine
