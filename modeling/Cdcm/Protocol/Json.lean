import Cdcm.Lib.Bytes

/-!
# JSON values

The part of the taocpp JSON interface that the program uses.  The parser and the
printer are outside the repository and are parameters; the accessors throw where
the value has another type or lacks a key.
-/

namespace Cdcm.Json

/-- A JSON value. Members of an object are in the order of their keys. -/
inductive Value where
  | null
  | boolean (value : Bool)
  | signed (value : Int)
  | unsigned (value : Nat)
  | double (bits : Nat)
  | string (value : ByteString)
  | array (elements : List Value)
  | object (members : List (ByteString × Value))

/-- The members of an object. -/
abbrev Object := List (ByteString × Value)

/-- How a computation over JSON values can fail: by a `std::exception`, or by
behaviour that the language leaves undefined. -/
inductive Fault where
  | exception
  | undefined
  deriving DecidableEq, Repr

/-- A sequence of computations ends well when both do. -/
theorem bind_eq_ok {α β : Type} {first : Except Fault α} {rest : α → Except Fault β}
    {result : β} :
    first >>= rest = .ok result ↔ ∃ value, first = .ok value ∧ rest value = .ok result := by
  cases first with
  | error fault => exact ⟨nofun, fun ⟨_, impossible, _⟩ => nomatch impossible⟩
  | ok value =>
      refine ⟨fun ended => ⟨value, rfl, ended⟩, ?_⟩
      rintro ⟨_, ⟨⟩, ended⟩
      exact ended

/-- A sequence of computations is defined when both are. -/
theorem bind_ne_undefined {α β : Type} {first : Except Fault α} {rest : α → Except Fault β}
    (firstDefined : first ≠ .error .undefined)
    (restDefined : ∀ value, rest value ≠ .error .undefined) :
    first >>= rest ≠ .error .undefined := by
  cases first with
  | error fault =>
      intro undefined
      exact firstDefined (congrArg Except.error (Except.error.inj undefined))
  | ok value => exact restDefined value

/-- The library functions: `from_string` throws on malformed text, `to_string`
takes an optional indentation. An integer that was never assigned prints as
some number. -/
structure Library where
  fromString : ByteString → Option Value
  toString : Option Nat → Value → ByteString
  indeterminate : Nat

/-- What `to_string` documents: NUL-free JSON text, which starts with neither an
`@` nor nothing. -/
structure Library.Prints (library : Library) : Prop where
  nulFree : ∀ indent value, 0 ∉ library.toString indent value
  nonempty : ∀ indent value, library.toString indent value ≠ []
  noMark : ∀ indent value, (library.toString indent value).head? ≠ some 64

namespace Value

/-- `get_object`. -/
def getObject : Value → Except Fault Object
  | .object members => .ok members
  | _ => .error .exception

/-- `get_array`. -/
def getArray : Value → Except Fault (List Value)
  | .array elements => .ok elements
  | _ => .error .exception

theorem getObject_eq_ok {value : Value} {members : Object} :
    value.getObject = .ok members ↔ value = .object members := by
  cases value <;> simp [getObject]

theorem getArray_eq_ok {value : Value} {elements : List Value} :
    value.getArray = .ok elements ↔ value = .array elements := by
  cases value <;> simp [getArray]

theorem getObject_ne_undefined (value : Value) : value.getObject ≠ .error .undefined := by
  cases value <;> nofun

theorem getArray_ne_undefined (value : Value) : value.getArray ≠ .error .undefined := by
  cases value <;> nofun

/-- `as<std::string>`. -/
def asString : Value → Except Fault ByteString
  | .string value => .ok value
  | _ => .error .exception

end Value

/-- `std::map::at`. -/
def Object.at (members : Object) (key : ByteString) : Except Fault Value :=
  match members.lookup key with
  | some value => .ok value
  | none => .error .exception

theorem Object.at_eq_ok {members : Object} {key : ByteString} {value : Value} :
    Object.at members key = .ok value ↔ members.lookup key = some value := by
  rw [Object.at]
  cases members.lookup key <;> simp

theorem Object.at_ne_undefined (members : Object) (key : ByteString) :
    Object.at members key ≠ .error .undefined := by
  rw [Object.at]
  cases members.lookup key <;> nofun

/-- `at` on a value that must be an object. -/
def Value.at (value : Value) (key : ByteString) : Except Fault Value := do
  let members ← value.getObject
  Object.at members key

theorem Value.asString_ne_undefined (value : Value) :
    value.asString ≠ .error .undefined := by
  cases value <;> nofun

theorem Value.at_ne_undefined (value : Value) (key : ByteString) :
    value.at key ≠ .error .undefined :=
  bind_ne_undefined value.getObject_ne_undefined fun members =>
    Object.at_ne_undefined members key

/-- `cbegin()->first`, which is undefined on the empty object. -/
def Object.firstKey : Object → Except Fault ByteString
  | [] => .error .undefined
  | (key, _) :: _ => .ok key

/-- The string under `id` in the body of an action, if there is one. -/
def actionId : Value → Option ByteString
  | .object ((_, body) :: _) => ((body.at (text "id")).bind Value.asString).toOption
  | _ => none

/-- Who finds an action by its first key reads this id in its body. -/
theorem actionId_eq_some {action body : Value} {members : Object} {key id : ByteString}
    (isObject : action = .object members) (isFirst : Object.firstKey members = .ok key)
    (isBody : action.at key = .ok body)
    (isId : (body.at (text "id")).bind Value.asString = .ok id) : actionId action = some id := by
  subst isObject
  cases members with
  | nil => contradiction
  | cons first rest =>
      obtain rfl := Except.ok.inj isFirst
      have found : Object.at (first :: rest) first.1 = .ok body := isBody
      rw [Object.at_eq_ok, List.lookup_cons_self] at found
      obtain rfl := Option.some.inj found
      rw [actionId, isId]
      rfl

end Cdcm.Json
