import OmkVerified.Lib.JsNumber
import OmkVerified.Lib.JsonText

/-!
# Validation of tool arguments

`packages/ai/src/utils/validation.ts`. Arrays and objects are changed in place, so a container has an
identity and the memory records which identities have been written. Each container stands in one place
only: what is written to it is replaced there.

The keywords that only the compiled validator reads are kept as they are. `compile` and `Value.Convert`
belong to a library and are parameters. The accessor `__proto__` is left out, and the numbers are those
of `Lib.Json`.
-/

open Lib

namespace Ai.Validation

/-! ## Schemas -/

inductive TypeKeyword
  | absent
  | one (type : String)
  | several (types : List String)

inductive Items (σ : Type)
  | absent
  | each (schema : σ)
  | tuple (schemas : List σ)

/-- A JSON schema. The lists of `allOf`, `anyOf` and `oneOf` must not be empty in a schema, so the empty
list is an absent keyword. -/
inductive Schema
  | bool (value : Bool)
  | object (typeBoxKind : Bool) (type : TypeKeyword) (properties : List (String × Schema))
      (items : Items Schema) (additionalProperties : Option Schema) (allOf anyOf oneOf : List Schema)
      (other : List (String × Json))

/-- `isJsonSchemaObject(schema)`. -/
def Schema.isJsonSchemaObject : Schema → Bool
  | .bool _ => false
  | .object .. => true

/-- `Boolean(schema)`. -/
def Schema.truthy : Schema → Bool
  | .bool value => value
  | .object .. => true

def Schema.hasTypeBoxMetadata : Schema → Bool
  | .bool _ => false
  | .object typeBoxKind .. => typeBoxKind

def getSchemaTypes : TypeKeyword → List String
  | .absent => []
  | .one type => [type]
  | .several types => types

/-! ## Values -/

/-- A value of the running program. -/
inductive Value
  | null
  | bool (b : Bool)
  | num (n : Decimal)
  | str (s : String)
  | arr (id : Nat) (items : List Value)
  | obj (id : Nat) (fields : List (String × Value))
  /-- A method that every object inherits. -/
  | method (name : String)
deriving Inhabited

namespace Value

/-- The JSON value with the same contents. -/
def json? : Value → Option Json
  | .null => some .null
  | .bool b => some (.bool b)
  | .num n => some (.num n)
  | .str s => some (.str s)
  | .arr _ items => (itemsJson? items).map .arr
  | .obj _ fields => (fieldsJson? fields).map .obj
  | .method _ => none
where
  itemsJson? : List Value → Option (List Json)
    | [] => some []
    | value :: items => do return (← json? value) :: (← itemsJson? items)
  fieldsJson? : List (String × Value) → Option (List (String × Json))
    | [] => some []
    | (key, value) :: fields => do return (key, ← json? value) :: (← fieldsJson? fields)

/-- The identities of the containers in a value. -/
def identities : Value → List Nat
  | .arr id items => id :: itemsIdentities items
  | .obj id fields => id :: fieldsIdentities fields
  | _ => []
where
  itemsIdentities : List Value → List Nat
    | [] => []
    | value :: items => identities value ++ itemsIdentities items
  fieldsIdentities : List (String × Value) → List Nat
    | [] => []
    | (_, value) :: fields => identities value ++ fieldsIdentities fields

/-- `typeof value === "object" && value !== null`. -/
def isRecord : Value → Bool
  | .arr .. => true
  | .obj .. => true
  | _ => false

/-- `left === right`: containers are compared by identity. -/
def same : Value → Value → Bool
  | .null, .null => true
  | .bool a, .bool b => a == b
  | .num a, .num b => decide (a = b)
  | .str a, .str b => decide (a = b)
  | .arr a _, .arr b _ => a == b
  | .obj a _, .obj b _ => a == b
  | .method a, .method b => decide (a = b)
  | _, _ => false

end Value

/-- The methods of `Object.prototype`. -/
def inheritedNames : List String :=
  ["constructor", "__defineGetter__", "__defineSetter__", "hasOwnProperty", "__lookupGetter__",
    "__lookupSetter__", "isPrototypeOf", "propertyIsEnumerable", "toString", "valueOf",
    "toLocaleString"]

/-- `value[key]` if `key in value`. -/
def readProperty (fields : List (String × Value)) (key : String) : Option Value :=
  match fields.lookup key with
  | some value => some value
  | none => if key ∈ inheritedNames then some (.method key) else none

/-- The fields after `value[key] = field`. -/
def setProperty : List (String × Value) → String → Value → List (String × Value)
  | [], key, field => [(key, field)]
  | (k, v) :: fields, key, field =>
    if k = key then (k, field) :: fields else (k, v) :: setProperty fields key field

/-! ## Primitive values -/

/-- `Number.isInteger(value)`. -/
def isInteger (n : Decimal) : Bool := decide (0 ≤ n.exponent)

def matchesJsonType (value : Value) (type : String) : Bool :=
  match type with
  | "number" => match value with | .num _ => true | _ => false
  | "integer" => match value with | .num n => isInteger n | _ => false
  | "boolean" => match value with | .bool _ => true | _ => false
  | "string" => match value with | .str _ => true | _ => false
  | "null" => match value with | .null => true | _ => false
  | "array" => match value with | .arr .. => true | _ => false
  | "object" => match value with | .obj .. => true | _ => false
  | _ => false

/-- The digits of a literal with a radix, at least one. -/
def readRadix (radix : Nat) (digits : List Char) : Option Decimal :=
  if digits.isEmpty then none
  else do
    let values ← digits.mapM fun c => (Json.hexValue c).filter (· < radix)
    return Decimal.ofNat (values.foldl (fun n digit => n * radix + digit) 0)

/-- A decimal literal without its sign: digits on one side of the point at least. -/
def readUnsignedDecimal (negative : Bool) (text : List Char) : Option Decimal := do
  let integer := text.takeWhile Char.isDigit
  let (fraction, rest) :=
    match text.dropWhile Char.isDigit with
    | '.' :: rest => (rest.takeWhile Char.isDigit, rest.dropWhile Char.isDigit)
    | rest => ([], rest)
  if integer ++ fraction = [] then failure
  let exponent ← Json.readExponent rest
  return Decimal.ofDigits negative (Nat.ofDigitChars 10 (integer ++ fraction) 0)
    (exponent - fraction.length)

/-- Smaller than the least number that is rounded to infinity, `2 ^ 1024 - 2 ^ 970`. -/
def inRange (n : Decimal) : Bool :=
  if 310 ≤ n.exponent then n.mantissa = 0
  else n.mantissa.natAbs * 10 ^ n.exponent.toNat < (2 ^ 1024 - 2 ^ 970) * 10 ^ (-n.exponent).toNat

/-- `Number(text)` if it is finite. -/
def toNumber (text : String) : Option Decimal :=
  Option.filter inRange <|
    match trim text.toList with
    | '0' :: 'x' :: digits | '0' :: 'X' :: digits => readRadix 16 digits
    | '0' :: 'o' :: digits | '0' :: 'O' :: digits => readRadix 8 digits
    | '0' :: 'b' :: digits | '0' :: 'B' :: digits => readRadix 2 digits
    | '+' :: text => readUnsignedDecimal false text
    | '-' :: text => readUnsignedDecimal true text
    | text => readUnsignedDecimal false text

/-- `String(value)` of a number. -/
def numberText (n : Decimal) : String := String.ofList (Json.formatNumber n)

def coercePrimitiveByType (value : Value) (type : String) : Value :=
  match type with
  | "number" =>
    match value with
    | .null => .num Decimal.zero
    | .str s => if trim s.toList = [] then value else ((toNumber s).map .num).getD value
    | .bool b => .num (if b then Decimal.ofNat 1 else Decimal.zero)
    | _ => value
  | "integer" =>
    match value with
    | .null => .num Decimal.zero
    | .str s =>
      if trim s.toList = [] then value else (((toNumber s).filter isInteger).map .num).getD value
    | .bool b => .num (if b then Decimal.ofNat 1 else Decimal.zero)
    | _ => value
  | "boolean" =>
    match value with
    | .null => .bool false
    | .str s => if s = "true" then .bool true else if s = "false" then .bool false else value
    | .num n =>
      if n = Decimal.ofNat 1 then .bool true else if n = Decimal.zero then .bool false else value
    | _ => value
  | "string" =>
    match value with
    | .null => .str ""
    | .num n => .str (numberText n)
    | .bool b => .str (if b then "true" else "false")
    | _ => value
  | "null" =>
    match value with
    | .str s => if s = "" then .null else value
    | .num n => if n = Decimal.zero then .null else value
    | .bool false => .null
    | _ => value
  | _ => value

/-- The loop over the types: the first one that changes the value. -/
def coerceFirst (value : Value) : List String → Value
  | [] => value
  | type :: types =>
    let candidate := coercePrimitiveByType value type
    if candidate.same value then coerceFirst value types else candidate

/-- The value after the step for `type`: a value of one of several types stays as it is. -/
def coerceByTypes (value : Value) (types : List String) : Value :=
  let matchesUnionMember := decide (1 < types.length) && types.any (matchesJsonType value)
  if matchesUnionMember then value else coerceFirst value types

/-! ## Effects -/

/-- The next identity to be used, and the containers that have been written to. -/
structure Memory where
  next : Nat
  written : List Nat

/-- What is thrown. -/
inductive Failure
  /-- `structuredClone` was given a function. -/
  | dataClone
  /-- `Compile` refuses the schema. -/
  | compile
  /-- The text of the validation error: the tool, a line for each error, and the arguments. -/
  | validation (toolName : String) (errors : List String) (received : Value)

abbrev Run := EStateM Failure Memory

def allocate : Run Nat := fun m => .ok m.next { m with next := m.next + 1 }

def write (id : Nat) : Run Unit := fun m => .ok () { m with written := id :: m.written }

def writeTo : Value → Run Unit
  | .arr id _ => write id
  | .obj id _ => write id
  | _ => return ()

def structuredClone : Value → Run Value
  | .arr _ items => do
    let id ← allocate
    let items ← cloneItems items
    return .arr id items
  | .obj _ fields => do
    let id ← allocate
    let fields ← cloneFields fields
    return .obj id fields
  | .method _ => throw .dataClone
  | value => return value
where
  cloneItems : List Value → Run (List Value)
    | [] => return []
    | value :: items => do
      let value ← structuredClone value
      let items ← cloneItems items
      return value :: items
  cloneFields : List (String × Value) → Run (List (String × Value))
    | [] => return []
    | (key, value) :: fields => do
      let value ← structuredClone value
      let fields ← cloneFields fields
      return (key, value) :: fields

/-! ## Coercion -/

/-- `validator.Check`. -/
abbrev Validator := Value → Bool

/-- `value[index] = f(value[index])` unless there is no schema for the element. -/
def forItem (f : Value → Run Value) (id : Nat) (itemSchema : Bool) (value : Value) : Run Value :=
  if itemSchema then do
    let value ← f value
    write id
    return value
  else return value

/-- `value[index] = f(value[index])` for each element, if `items` is a schema object. -/
def forEachItem (f : Value → Run Value) (id : Nat) (items : Bool) : List Value → Run (List Value)
  | [] => return []
  | value :: elements => do
    let value ← forItem f id items value
    let elements ← forEachItem f id items elements
    return value :: elements

/-- `value[key] = f(propertyValue)` for each entry whose key is not one of `definedKeys`, if
`additionalProperties` is a schema object. -/
def forOtherEntries (f : Value → Run Value) (id : Nat) (additionalProperties : Bool)
    (definedKeys : List String) :
    List (String × Value) → List (String × Value) → Run (List (String × Value))
  | [], fields => return fields
  | (key, value) :: entries, fields =>
    if additionalProperties = false ∨ key ∈ definedKeys then
      forOtherEntries f id additionalProperties definedKeys entries fields
    else do
      let value ← f value
      write id
      forOtherEntries f id additionalProperties definedKeys entries (setProperty fields key value)

variable (compile : Schema → Option Validator)

/-- `getSubSchemaValidator(schema)?.Check(value)`. -/
def subSchemaAccepts (schema : Schema) (value : Value) : Bool :=
  schema.isJsonSchemaObject && (compile schema).any fun validator => validator value

mutual

def coerceWithJsonSchema : Schema → Value → Run Value
  | .bool _, value => return value
  | .object _ type properties items additionalProperties allOf anyOf oneOf _, value => do
    let nextValue ← coerceAllOf allOf value
    let nextValue ← coerceWithUnionSchema anyOf nextValue
    let nextValue ← coerceWithUnionSchema oneOf nextValue
    let schemaTypes := getSchemaTypes type
    match coerceByTypes nextValue schemaTypes with
    | .obj id fields =>
      if "object" ∈ schemaTypes then do
        -- `applySchemaObjectCoercion`
        let fields ← coerceProperties properties id fields
        match additionalProperties with
        | some schema =>
          let definedKeys := properties.map Prod.fst
          .obj id <$> forOtherEntries (coerceWithJsonSchema schema) id schema.isJsonSchemaObject
            definedKeys fields fields
        | none => return .obj id fields
      else return .obj id fields
    | .arr id elements =>
      -- `applySchemaArrayCoercion`
      if "array" ∈ schemaTypes then
        match items with
        | .tuple schemas => .arr id <$> coerceTuple schemas id elements
        | .each schema =>
          .arr id <$> forEachItem (coerceWithJsonSchema schema) id schema.isJsonSchemaObject elements
        | .absent => return .arr id elements
      else return .arr id elements
    | nextValue => return nextValue

def coerceAllOf : List Schema → Value → Run Value
  | [], value => return value
  | nested :: schemas, value => do
    let value ← coerceWithJsonSchema nested value
    coerceAllOf schemas value

def coerceWithUnionSchema : List Schema → Value → Run Value
  | [], value => return value
  | schema :: schemas, value => do
    let candidate ← structuredClone value
    let coerced ← coerceWithJsonSchema schema candidate
    if subSchemaAccepts compile schema coerced then return coerced
    else coerceWithUnionSchema schemas value

def coerceProperties : List (String × Schema) → Nat → List (String × Value) →
    Run (List (String × Value))
  | [], _, fields => return fields
  | (key, propertySchema) :: properties, id, fields =>
    match readProperty fields key with
    | none => coerceProperties properties id fields
    | some value => do
      let value ← coerceWithJsonSchema propertySchema value
      write id
      coerceProperties properties id (setProperty fields key value)

def coerceTuple : List Schema → Nat → List Value → Run (List Value)
  | itemSchema :: schemas, id, value :: elements => do
    let value ← forItem (coerceWithJsonSchema itemSchema) id itemSchema.truthy value
    let elements ← coerceTuple schemas id elements
    return value :: elements
  | _, _, elements => return elements

end

/-! ## The meaning of a schema -/

section Meaning

-- what the keywords demand that coercion does not read
variable (meaning : List (String × Json) → Json → Bool)

def hasType (value : Json) (type : String) : Bool :=
  match type with
  | "number" => match value with | .num _ => true | _ => false
  | "integer" => match value with | .num n => isInteger n | _ => false
  | "boolean" => match value with | .bool _ => true | _ => false
  | "string" => match value with | .str _ => true | _ => false
  | "null" => match value with | .null => true | _ => false
  | "array" => match value with | .arr _ => true | _ => false
  | "object" => match value with | .obj _ => true | _ => false
  | _ => false

def typeValid (type : TypeKeyword) (value : Json) : Bool :=
  match type with
  | .absent => true
  | .one type => hasType value type
  | .several types => types.any (hasType value)

mutual

/-- Whether a value satisfies a schema. -/
def valid : Schema → Json → Bool
  | .bool b, _ => b
  | .object _ type properties items additionalProperties allOf anyOf oneOf other, value =>
    typeValid type value &&
    (match value with
      | .obj fields =>
        validProperties properties fields &&
        (match additionalProperties with
          | some schema =>
            fields.all fun field => field.1 ∈ properties.map Prod.fst || valid schema field.2
          | none => true)
      | .arr elements =>
        match items with
        | .each schema => elements.all fun element => valid schema element
        | .tuple schemas => validTuple schemas elements
        | .absent => true
      | _ => true) &&
    decide (validCount allOf value = allOf.length) &&
    (anyOf.isEmpty || decide (1 ≤ validCount anyOf value)) &&
    (oneOf.isEmpty || decide (validCount oneOf value = 1)) &&
    meaning other value

/-- How many of the schemas the value satisfies. -/
def validCount : List Schema → Json → Nat
  | [], _ => 0
  | schema :: schemas, value => (if valid schema value then 1 else 0) + validCount schemas value

def validProperties : List (String × Schema) → List (String × Json) → Bool
  | [], _ => true
  | (key, schema) :: properties, fields =>
    (match fields.lookup key with
      | some field => valid schema field
      | none => true) && validProperties properties fields

def validTuple : List Schema → List Json → Bool
  | schema :: schemas, element :: elements => valid schema element && validTuple schemas elements
  | _, _ => true

end

/-- The compiled validator of every schema accepts the values that satisfy it. -/
def DecidesMeaning (compile : Schema → Option Validator) : Prop :=
  ∀ schema, schema.isJsonSchemaObject = true → ∃ validator, compile schema = some validator ∧
    ∀ value json, value.json? = some json → validator value = valid meaning schema json

/-- Every copy of the value, coerced by the schema, is rejected by it. -/
def Refuses (compile : Schema → Option Validator) (schema : Schema) (json : Json) : Prop :=
  ∀ value memory, value.json? = some json → ∃ coerced memory',
    coerceWithJsonSchema compile schema value memory = .ok coerced memory' ∧
    subSchemaAccepts compile schema coerced = false

mutual

/-- At every union that is reached, the members before the first one that the value satisfies refuse
it. No property that an object lacks has the name of an inherited method. -/
def Untempted (compile : Schema → Option Validator) : Schema → Json → Prop
  | .bool _, _ => True
  | .object _ type properties items additionalProperties allOf anyOf oneOf _, value =>
    AllUntempted compile allOf value ∧ UnionUntempted compile anyOf value ∧
    UnionUntempted compile oneOf value ∧
    match value with
    | .obj fields =>
      "object" ∈ getSchemaTypes type → PropertiesUntempted compile properties fields ∧
        match additionalProperties with
        | some schema => ∀ field ∈ fields, field.1 ∉ properties.map Prod.fst →
            Untempted compile schema field.2
        | none => True
    | .arr elements =>
      "array" ∈ getSchemaTypes type →
        match items with
        | .each schema => ∀ element ∈ elements, Untempted compile schema element
        | .tuple schemas => TupleUntempted compile schemas elements
        | .absent => True
    | _ => True

def AllUntempted (compile : Schema → Option Validator) : List Schema → Json → Prop
  | [], _ => True
  | schema :: schemas, value => Untempted compile schema value ∧ AllUntempted compile schemas value

def UnionUntempted (compile : Schema → Option Validator) : List Schema → Json → Prop
  | [], _ => True
  | schema :: schemas, value =>
    if schema.isJsonSchemaObject && valid meaning schema value then Untempted compile schema value
    else Refuses compile schema value ∧ UnionUntempted compile schemas value

def PropertiesUntempted (compile : Schema → Option Validator) :
    List (String × Schema) → List (String × Json) → Prop
  | [], _ => True
  | (key, schema) :: properties, fields =>
    (match fields.lookup key with
      | some field => Untempted compile schema field
      | none => key ∉ inheritedNames) ∧ PropertiesUntempted compile properties fields

def TupleUntempted (compile : Schema → Option Validator) : List Schema → List Json → Prop
  | schema :: schemas, element :: elements =>
    Untempted compile schema element ∧ TupleUntempted compile schemas elements
  | _, _ => True

end

end Meaning

/-! ## Validation -/

/-- An error of `validator.Errors`. -/
structure ValidationError where
  keyword : String
  instancePath : String
  requiredProperties : List String
  message : String

/-- The libraries: `Compile`, `Errors` of the compiled validator, and `Value.Convert` with the value
that its argument has become. -/
structure Environment where
  compile : Schema → Option Validator
  errors : Schema → Value → List ValidationError
  convert : Schema → Value → Run Value

structure Tool where
  name : String
  parameters : Schema

structure ToolCall where
  name : String
  arguments : Value

/-- `path.replace(/^\//, "").replace(/\//g, ".")`. -/
def dotted (path : String) : String :=
  let chars :=
    match path.toList with
    | '/' :: rest => rest
    | chars => chars
  String.ofList (chars.map fun c => if c = '/' then '.' else c)

def formatValidationPath (error : ValidationError) : String :=
  let path := dotted error.instancePath
  match error.keyword, error.requiredProperties with
  | "required", requiredProperty :: _ =>
    if requiredProperty = "" then (if path = "" then "root" else path)
    else if path = "" then requiredProperty else path ++ "." ++ requiredProperty
  | _, _ => if path = "" then "root" else path

def formatError (error : ValidationError) : String :=
  "  - " ++ formatValidationPath error ++ ": " ++ error.message

/-- `Object.assign(args, coerced)` after the keys of `args` have been deleted. Coercion keeps the length
of an array, and turns no container into one of the other kind. -/
def assign : Value → Value → Value
  | .arr id _, .arr _ items => .arr id items
  | .obj id _, .obj _ fields => .obj id fields
  | args, _ => args

/-- The end of the function: the last check. -/
def checkArguments (env : Environment) (validator : Validator) (tool : Tool) (toolCall : ToolCall)
    (args : Value) : Run Value :=
  if validator args then return args
  else
    let errors := (env.errors tool.parameters args).map formatError
    throw <| .validation toolCall.name (if errors = [] then ["Unknown validation error"] else errors)
      toolCall.arguments

def validateToolArguments (env : Environment) (tool : Tool) (toolCall : ToolCall) : Run Value := do
  let args ← structuredClone toolCall.arguments
  let args ← env.convert tool.parameters args
  match env.compile tool.parameters with
  | none => throw .compile
  | some validator =>
    if !tool.parameters.hasTypeBoxMetadata && tool.parameters.isJsonSchemaObject then
      let coerced ← coerceWithJsonSchema env.compile tool.parameters args
      -- the same object: `args` is what it has become
      if coerced.same args then checkArguments env validator tool toolCall coerced
      else if args.isRecord && coerced.isRecord then do
        writeTo args
        checkArguments env validator tool toolCall (assign args coerced)
      else return if validator coerced then coerced else args
    else checkArguments env validator tool toolCall args

/-! ## What validation promises -/

/-- All containers of the value were allocated from `n` on. -/
def Value.From (n : Nat) (value : Value) : Prop := ∀ id ∈ value.identities, n ≤ id

/-- From `m` to `m'` only containers from `n` on have been written. -/
structure Memory.Grows (n : Nat) (m m' : Memory) : Prop where
  next_le : m.next ≤ m'.next
  written : ∃ new, m'.written = new ++ m.written ∧ ∀ id ∈ new, n ≤ id

/-- The run writes only containers from `n` on, and what it returns satisfies `Q`. -/
def Confined {α : Type} (n : Nat) (run : Run α) (Q : α → Prop) : Prop :=
  ∀ m, n ≤ m.next → match run m with
    | .ok a m' => m.Grows n m' ∧ Q a
    | .error _ m' => m.Grows n m'

/-- `Value.Convert` works on its argument in place: it leaves a value that is no container, and it
reaches no other containers. -/
structure Environment.ConvertsInPlace (env : Environment) : Prop where
  primitive : ∀ schema value memory, value.isRecord = false →
    env.convert schema value memory = .ok value memory
  confined : ∀ schema value n, value.From n →
    Confined n (env.convert schema value) fun value' =>
      value'.From n ∧ value'.isRecord = value.isRecord

/-- What is returned is accepted by the validator of the tool. -/
def ReturnsAccepted (env : Environment) (tool : Tool) (result : EStateM.Result Failure Memory Value) :
    Prop :=
  ∀ value memory, result = .ok value memory →
    ∃ validator, env.compile tool.parameters = some validator ∧ validator value = true

/-- No container of the arguments has been written. -/
def KeepsArguments (toolCall : ToolCall) (memory : Memory)
    (result : EStateM.Result Failure Memory Value) : Prop :=
  ∀ id ∈ toolCall.arguments.identities, id ∉ memory.written →
    match result with
    | .ok _ memory' => id ∉ memory'.written
    | .error _ memory' => id ∉ memory'.written

/-- The exit without a check is taken: coercion by a plain schema changes arguments that are no
container, and the validator accepts neither the arguments nor what they have become. -/
def TakesUncheckedExit (env : Environment) (tool : Tool) (args : Value) (memory : Memory) : Prop :=
  tool.parameters.hasTypeBoxMetadata = false ∧ tool.parameters.isJsonSchemaObject = true ∧
  args.isRecord = false ∧
  ∃ validator coerced memory', env.compile tool.parameters = some validator ∧
    coerceWithJsonSchema env.compile tool.parameters args memory = .ok coerced memory' ∧
    coerced.same args = false ∧ validator coerced = false ∧ validator args = false

end Ai.Validation
