import TraceContract.Exception.Report
import TraceContract.Roles
import TraceContract.Text.Numeral

/-!
# Failures

Everything that this library refuses to do, with the cause of the refusal.

- `DeclarationError` is a fault of a contract's declaration, found when it is compiled.
- `FormatError` is an argument that does not fit its parameter or cannot be rendered.
- `DispatchError` is a call that names no operation, or the wrong form of call for it.
- `Failure` is any of these, a misuse of the library, or something that code outside of it threw.
- `Failure.said?` words a failure, and `Failure.causes` are what lies behind it.
- `Failure.isFatal` tells the failures that no program survives.
-/

namespace TraceContract

/-- What is wrong with a declared operation as a whole. -/
inductive OperationFault where
  | declaredTwice
  | withoutLevel
  /-- The operation hands back something of the named type. -/
  | unsupportedHandback (typeName : Text)
  deriving DecidableEq

inductive DeclarationError where
  | operation (contract operation : Text) (fault : OperationFault)
  | template (contract operation token template : Text)
  | role (contract operation parameter : Text) (fault : RoleFault)
  deriving DecidableEq

/-- What is wrong with the arguments of a call. -/
inductive FormatFault where
  | count (expected got : Nat)
  | kind (expected got : Kind)
  | unrenderable (typeName : Text)
  /-- Rendering an object ended in an exception, which gives a message. -/
  | threw (e : Exception) (spoken : e.what.isSome)
  deriving DecidableEq

/-- A call whose arguments cannot be made into a record. -/
structure FormatError where
  operation : Text
  parameter : Text
  fault : FormatFault
  deriving DecidableEq

/-- What is wrong with the form of a call. -/
inductive DispatchFault where
  | unknownOperation
  | handsBackNothing
  | handsBackSpan
  deriving DecidableEq

/-- A call that its contract does not offer. -/
structure DispatchError where
  contract : Text
  operation : Text
  fault : DispatchFault
  deriving DecidableEq

/-- Why something was not done. -/
inductive Failure where
  | declaration (e : DeclarationError)
  | format (e : FormatError)
  | dispatch (e : DispatchError)
  /-- A level's code stands for no level. -/
  | unknownLevel (code : Int)
  | factoryRequired
  | noSink (logger : Text)
  | sinkRequired
  | builtTwice
  | contractRequired
  /-- A trace of the named owner has no sink. -/
  | traceSinkRequired (owner : Text)
  /-- Code outside the library spoke of a thing that there is not. -/
  | absent
  /-- Code outside the library threw. -/
  | outside (t : Thrown)
  /-- A record goes from adapter to adapter in a ring and never comes to an end. -/
  | endless
  /-- The wording needs the message of an exception that gives none.  What happens then is not
  defined. -/
  | undefined
  deriving DecidableEq

namespace DeclarationError

def contract : DeclarationError → Text
  | operation c _ _ | template c _ _ _ | role c _ _ _ => c

def operationName : DeclarationError → Text
  | operation _ o _ | template _ o _ _ | role _ o _ _ => o

/-- The operation at fault with the contract in front. -/
def place (e : DeclarationError) : Text := e.contract ++ ascii "." ++ e.operationName

def message (e : DeclarationError) : Text :=
  match e with
  | operation _ _ .declaredTwice =>
    ascii "Operation " ++ e.place ++ ascii " is declared more than once"
  | operation _ _ .withoutLevel =>
    ascii "Operation " ++ e.place ++ ascii " must declare a log level"
  | operation _ _ (.unsupportedHandback typeName) =>
    ascii "Return type " ++ typeName ++ ascii " of operation " ++ e.place ++
      ascii " not supported, expected void or Activity"
  | template _ _ token source =>
    ascii "Invalid format argument '" ++ token ++ ascii "' in template " ++ source.quoted ++
      ascii " for operation " ++ e.place
  | role _ _ parameter fault =>
    ascii "Parameter '" ++ parameter ++ ascii "' of operation " ++ e.place ++ ascii ": " ++
      match fault with
      | .exceptionInSpan => ascii "an operation returning an Activity cannot take an exception"
      | .secondException first =>
        ascii "second exception parameter, '" ++ first ++ ascii "' already carries the exception"

end DeclarationError

namespace FormatError

def reason : FormatFault → Text
  | .count expected got =>
    ascii "expected " ++ Text.decimal expected ++ ascii " arguments, got " ++ Text.decimal got
  | .kind expected got => ascii "expected " ++ expected.name ++ ascii ", got " ++ got.name
  | .unrenderable typeName => ascii "type " ++ typeName ++ ascii " has no operator<<"
  | .threw e spoken => ascii "rendering threw: " ++ (e.what.get spoken).terminated

def message (e : FormatError) : Text :=
  ascii "Cannot format argument '" ++ e.parameter ++ ascii "' of operation " ++ e.operation ++
    ascii ": " ++ reason e.fault

/-- The error as an exception.  What a renderer threw is its cause, and its type then says that
it has one. -/
def asException (e : FormatError) : Exception :=
  match e.fault with
  | .threw cause _ =>
    .causedBy (ascii "std::_Nested_exception<lunar_trace::FormatError>") (some e.message) cause
  | _ => .root (ascii "lunar_trace::FormatError") (some e.message)

end FormatError

namespace DispatchError

def message (e : DispatchError) : Text :=
  e.contract ++ ascii "." ++ e.operation ++ ascii ": " ++
    match e.fault with
    | .unknownOperation => ascii "no such operation"
    | .handsBackNothing => ascii "operation does not return an Activity, use log()"
    | .handsBackSpan => ascii "operation returns an Activity, use start()"

end DispatchError

namespace Failure

/-- Whether the failure is the end of the program, whoever might catch it. -/
def isFatal : Failure → Bool
  | endless | undefined => true
  | _ => false

/-- The wording of a failure.  What is no exception has none, nor has one that gives no message. -/
def said? : Failure → Option Text
  | declaration e => some e.message
  | format e => some e.message
  | dispatch e => some e.message
  | unknownLevel code => some (ascii "Unknown log level: " ++ Text.signed code)
  | factoryRequired => some (ascii "lunar_trace::Tracing::init requires a sink factory")
  | noSink logger =>
    some (ascii "lunar_trace::Tracing sink factory returned no sink for " ++ logger.quoted)
  | sinkRequired => some (ascii "lunar_trace::TracingConfiguration::writeTo requires a sink")
  | builtTwice => some (ascii "TracingConfiguration::build() called twice")
  | contractRequired => some (ascii "lunar_trace::Trace requires a compiled contract")
  | traceSinkRequired owner =>
    some (ascii "lunar_trace::Trace requires a sink for " ++ owner.quoted)
  | outside (.exception e) => e.what
  | absent | outside .foreign | endless | undefined => none

/-- The wording as a reader of zero-terminated text sees it. -/
def shown? (f : Failure) : Option Text := f.said?.map Text.terminated

/-- The causes of a failure as far as a report keeps them. -/
def causes : Failure → List Cause
  | format e => e.asException.report.causes
  | outside (.exception e) => e.report.causes
  | _ => []

end Failure

end TraceContract
