import TraceContract.Binding
import TraceContract.Fields
import TraceContract.Template

/-!
# Records

A record is what one call of an operation has to say: its message, its fields, its level, and
the exception that was logged, if one was.

- `Record.compose` puts the arguments into the segments of a template.
- `Record.gather` collects the fields; the first argument of a name is kept.
- `Record.ofBound` makes the record of a call whose arguments are bound.

The text of an object comes from its renderer, which is code of the caller.  So it is noted which
arguments were asked for their texts: `Record.composeNoting` and `Record.ofBoundNoting` give the
note and the result, and the functions without it are their second halves.
-/

namespace TraceContract

/-- The outcome of one logging call. -/
structure Record where
  message : Text
  fields : Fields := []
  level : Level := .none
  exception : Option Exception := none

namespace Record

/-- What is at fault where the number of arguments is wrong. -/
def wholeCall : Text := ascii "<arguments>"

/-- What a call fails with where the renderer of an argument throws.  An exception is quoted, which
is defined only where it gives a message. -/
def rendererThrew (operation : Text) (p : Parameter) : Thrown → Failure
  | .foreign => .outside .foreign
  | .exception e =>
    if spoken : e.what.isSome then .format ⟨operation, p.name, .threw e spoken⟩ else .undefined

theorem rendererThrew_of_spoken (operation : Text) (p : Parameter) {e : Exception}
    (spoken : e.what.isSome) :
    rendererThrew operation p (.exception e) = .format ⟨operation, p.name, .threw e spoken⟩ :=
  dif_pos spoken

theorem rendererThrew_of_mute (operation : Text) (p : Parameter) {e : Exception}
    (unsaid : e.what = none) : rendererThrew operation p (.exception e) = .undefined :=
  dif_neg (by simp [unsaid])

/-- The text of an argument in the place of a parameter. -/
def renderArgument (operation : Text) (p : Parameter) (v : Value) : Except Failure Text :=
  match v with
  | .object typeName none => .error (.format ⟨operation, p.name, .unrenderable typeName⟩)
  | v => v.render.mapError (rendererThrew operation p)

/-- The text of the argument at a place; there is none where the place is beyond the last. -/
def renderAt (operation : Text) (parameters : List Parameter) (values : List Value) (i : Nat) :
    Except Failure Text :=
  match parameters[i]?, values[i]? with
  | some p, some v => renderArgument operation p v
  | _, _ => .ok []

/-- The places of the arguments that are asked for their texts, in order; then the message, every
segment's literal text and the argument that follows it. -/
def composeNoting (operation : Text) (parameters : List Parameter) (values : List Value) :
    List Segment → List Nat × Except Failure Text
  | [] => ([], .ok [])
  | ⟨literal, none⟩ :: rest =>
    let (noted, message) := composeNoting operation parameters values rest
    (noted, message.map (literal ++ ·))
  | ⟨literal, some i⟩ :: rest =>
    match renderAt operation parameters values i with
    | .error e => ([i], .error e)
    | .ok text =>
      let (noted, message) := composeNoting operation parameters values rest
      (i :: noted, message.map (literal ++ text ++ ·))

def compose (operation : Text) (parameters : List Parameter) (values : List Value)
    (segments : List Segment) : Except Failure Text :=
  (composeNoting operation parameters values segments).2

section

variable (operation : Text) (parameters : List Parameter) (values : List Value)

@[simp] theorem compose_nil : compose operation parameters values [] = .ok [] := rfl

theorem compose_none (literal : Text) (rest : List Segment) :
    compose operation parameters values (⟨literal, none⟩ :: rest) =
      (compose operation parameters values rest).map (literal ++ ·) := rfl

theorem compose_some (literal : Text) (i : Nat) (rest : List Segment) :
    compose operation parameters values (⟨literal, some i⟩ :: rest) =
      match renderAt operation parameters values i with
      | .error e => .error e
      | .ok text => (compose operation parameters values rest).map (literal ++ text ++ ·) := by
  rw [compose, composeNoting]
  cases renderAt operation parameters values i with
  | error e => rfl
  | ok text => rfl

end

/-- The fields made of the arguments at some places. -/
def gather (parameters : List Parameter) (values : List Value) (places : List Nat) : Fields :=
  places.foldl
    (fun fields i =>
      match parameters[i]?, values[i]? with
      | some p, some v => (Fields.insert fields p.name v).1
      | _, _ => fields)
    []

/-- The note of a call and its record; the arguments are bound, as many as there are
parameters. -/
def ofBoundNoting (operation : Text) (level : Level) (template : Template) (roles : Roles)
    (parameters : List Parameter) (values : List Value) : List Nat × Except Failure Record :=
  if values.length = parameters.length then
    let (noted, message) := composeNoting operation parameters values template.segments
    (noted, message.map fun text =>
      { message := text
        fields := gather parameters values roles.fields
        level := level
        exception := (roles.exception.bind (values[·]?)).bind Value.exception? })
  else
    ([], .error (.format ⟨operation, wholeCall, .count parameters.length values.length⟩))

def ofBound (operation : Text) (level : Level) (template : Template) (roles : Roles)
    (parameters : List Parameter) (values : List Value) : Except Failure Record :=
  (ofBoundNoting operation level template roles parameters values).2

section

variable {operation : Text} {level : Level} {template : Template} {roles : Roles}
  {parameters : List Parameter} {values : List Value}

theorem ofBound_of_length (h : values.length = parameters.length) :
    ofBound operation level template roles parameters values =
      (compose operation parameters values template.segments).map fun text =>
        { message := text
          fields := gather parameters values roles.fields
          level := level
          exception := (roles.exception.bind (values[·]?)).bind Value.exception? } := by
  rw [ofBound, ofBoundNoting, if_pos h]
  rfl

theorem ofBound_of_length_ne (h : values.length ≠ parameters.length) :
    ofBound operation level template roles parameters values =
      .error (.format ⟨operation, wholeCall, .count parameters.length values.length⟩) := by
  rw [ofBound, ofBoundNoting, if_neg h]

end

end Record

end TraceContract
