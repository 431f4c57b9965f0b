import SignalMap.Declaration.Basic

/-!
The rules that declarations make, kind by kind, and the entries of a mapping
document, which is an array of declarations.
-/

namespace SignalMap

namespace Declaration

/-- A value is given, or found among the globals, but not both. -/
def valueRule (parameters : Fields) : Except DeclarationFault Rule := do
  let dtype ← dtype? parameters
  let global ← text? parameters "global"
  let source ← match parameters.get? "value", global with
    | some value, none => pure (.literal value)
    | none, some path => pure (.global path)
    | some _, some _ => throw .valueAndGlobal
    | none, none => throw .noSource
  refuseOthers parameters ["dtype", "value", "global"]
  return .value source dtype

def pluginRecord : List (String × (Json → Except FormFault Unit)) :=
  [("plugin", FormFault.checks Json.asString),
   ("function", FormFault.checks (Json.asOptional Json.asString)),
   ("args", FormFault.checks (Json.asFields "a map"))]

def pluginRule (parameters : Fields) : Except DeclarationFault Rule := do
  ofForm (parameters.check pluginRecord)
  let plugin ← ofForm (parameters.required "plugin" Json.asString)
  let function ← ofForm (parameters.optional "function" (Json.asOptional Json.asString) none)
  let args ← ofForm (parameters.optional "args" (Json.asFields "a map") [])
  if Text.isBlankText plugin then throw (.blank "plugin")
  return .plugin plugin function args

/-- The first of a probe, a list of points and a count decides the axis. -/
def dimRule (schema : String) (parameters : Fields) : Except DeclarationFault Rule := do
  let dtype ← dtype? parameters
  match ← text? parameters "probe" with
  | some probe =>
    refuseOthers parameters ["dtype", "probe"]
    return .dim (.probe (DataPath.normalizeKey schema probe)) dtype
  | none =>
    match parameters.get? "values", parameters.get? "count" with
    | some values, _ =>
      let points ← (values.asItems >>= fun items => items.mapM Json.asFloat).mapError .notPoints
      refuseOthers parameters ["dtype", "values"]
      return .dim (.values points) dtype
    | none, some (.number (.unsigned count)) =>
      if maxCount < count.toNat then throw (.countTooLarge count.toNat)
      let start ← number parameters "start" 0
      let step ← number parameters "step" 1
      refuseOthers parameters ["dtype", "count", "start", "step"]
      return .dim (.range count.toNat start step) dtype
    | none, some _ => throw .notCount
    | none, none => throw .noAxis

def selectorText : Json → Except DeclarationFault String
  | .string text => .ok text
  | .number n => .ok (JsonWriter.numberText n)
  | _ => .error .notSelector

def sliceRule (schema : String) (parameters : Fields) : Except DeclarationFault Rule := do
  let base ← text parameters "variable"
  match parameters.get? "slice" with
  | none => throw (.missing "slice")
  | some slice =>
    let selector ← (Selector.parse (← selectorText slice)).mapError .selector
    refuseOthers parameters ["variable", "slice"]
    return .slice (DataPath.normalizeKey schema base) selector

def parameterOfJson (schema : String) : Json → Except FormFault Parameter
  | .number n => .ok (.number n.toFloat)
  | .string key => .ok (.entry (DataPath.normalizeKey schema key))
  | _ => .error (.noVariant "ExprOperand")

def parametersOfJson (schema : String) (document : Json) :
    Except FormFault (List (String × Parameter)) := do
  let fields ← document.asFields "a map"
  fields.mapM fun (name, value) => do
    let parameter ← parameterOfJson schema value
    return (name, parameter)

/-- Every variable of the expression has to be among the parameters. -/
def exprRule (schema : String) (parameters : Fields) : Except DeclarationFault Rule := do
  let source ← text parameters "expression"
  let formula ← (Formula.parse source).mapError (.formula source)
  let operands ← match parameters.get? "parameters" with
    | some document => (parametersOfJson schema document).mapError .notParameters
    | none => pure []
  refuseOthers parameters ["expression", "parameters"]
  match formula.root.freeNames.filter fun name => !(operands.map Prod.fst).contains name with
  | [] => return .expr formula operands
  | missing => throw (.undeclared missing)

def customRecord : List (String × (Json → Except FormFault Unit)) :=
  [("name", FormFault.checks Json.asString),
   ("variable", FormFault.checks (Json.asOptional Json.asString)),
   ("parameters", FormFault.checks (Json.asFields "a map"))]

def customRule (schema : String) (parameters : Fields) : Except DeclarationFault Rule := do
  ofForm (parameters.check customRecord)
  let name ← ofForm (parameters.required "name" Json.asString)
  let base ← ofForm (parameters.optional "variable" (Json.asOptional Json.asString) none)
  let inner ← ofForm (parameters.optional "parameters" (Json.asFields "a map") [])
  if Text.isBlankText name then throw (.blank "name")
  return .custom name (base.map (DataPath.normalizeKey schema)) inner

def offsetRecord : List (String × (Json → Except FormFault Unit)) :=
  [("variable", FormFault.checks Json.asString),
   ("offset", FormFault.checks Json.asFloat)]

def offsetRule (schema : String) (parameters : Fields) : Except DeclarationFault Rule := do
  ofForm (parameters.check offsetRecord)
  let base ← ofForm (parameters.required "variable" Json.asString)
  let amount ← ofForm (parameters.required "offset" Json.asFloat)
  let key := DataPath.normalizeKey schema base
  if key.isEmpty then throw (.blank "variable")
  return .offset key amount

def rule (schema : String) (kind : RuleKind) (parameters : Fields) :
    Except DeclarationFault Rule :=
  match kind with
  | .value => valueRule parameters
  | .plugin => pluginRule parameters
  | .dim => dimRule schema parameters
  | .slice => sliceRule schema parameters
  | .expr => exprRule schema parameters
  | .custom => customRule schema parameters
  | .offset => offsetRule schema parameters

def entry (schema : String) (d : Declaration) : Except DeclarationFault Entry := do
  let key := DataPath.normalizeKey schema d.key
  if key.isEmpty then throw .emptyKey
  match RuleKind.ofName? d.kind with
  | none => throw (.unknownKind (RuleKind.foldName d.kind))
  | some kind =>
    let rule ← rule schema kind d.parameters
    return { key, rule }

def entryAt (schema : String) (position : Nat) (document : Json) : Except DocumentFault Entry :=
  match ofJson document with
  | .error fault => .error (.form position fault)
  | .ok d => (d.entry schema).mapError (.declaration position d.key)

def entriesFrom (schema : String) (position : Nat) : List Json → Except DocumentFault (List Entry)
  | [] => .ok []
  | document :: rest => do
    let e ← entryAt schema position document
    let others ← entriesFrom schema (position + 1) rest
    return e :: others

end Declaration

def Entry.ofDocument (schema : String) : Json → Except DocumentFault (List Entry)
  | .array declarations => Declaration.entriesFrom schema 0 declarations
  | _ => .error .notArray

end SignalMap