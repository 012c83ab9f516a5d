import Interchain.Abi
import Interchain.Precompile.Call
import Interchain.Precompile.Gas

/-!
# Dispatch by selector

A contract is a table of functions by their selectors. A call goes from the choice of the function over its price to
its result: the base cost is charged before anything else is looked at, a function that may change the state is
refused in a read-only call, and the handler gets the arguments and the gas that is left.

A table has each selector once (`DispatchTable.ofFunctions`). It may have a fallback, which receives the whole
input.
-/

namespace Interchain

inductive Mutability where
  | view
  | nonPayable
deriving DecidableEq, Repr

def Mutability.name : Mutability → String
  | .view => "View"
  | .nonPayable => "NonPayable"

/-! ### Functions -/

structure ContractFunction where
  selector : Selector
  signature : String
  baseGas : UInt64
  mutability : Mutability
  /-- Receives the arguments behind the selector and the gas behind the base cost. -/
  handler : Environment → Call → CallM CallOutput

namespace ContractFunction

/-- The function of a signature. -/
def ofSignature (signature : String) (baseGas : UInt64) (mutability : Mutability)
    (handler : Environment → Call → CallM CallOutput) : ContractFunction where
  selector := Selector.ofSignature signature
  signature := signature
  baseGas := baseGas
  mutability := mutability
  handler := handler

/-- A function for calls that select no other. -/
def fallback (baseGas : UInt64) (mutability : Mutability)
    (handler : Environment → Call → CallM CallOutput) : ContractFunction where
  selector := .zero
  signature := ""
  baseGas := baseGas
  mutability := mutability
  handler := handler

/-- Charges the base cost, protects the state in a read-only call, and runs the handler on the arguments. -/
def call (f : ContractFunction) (env : Environment) (c : Call) (args : Bytes) : CallM CallOutput := do
  let gas ← CallM.ofOption .outOfGas (Gas.charge c.gas f.baseGas)
  if c.readOnly && f.mutability = .nonPayable then CallM.fail .writeProtection gas
  else f.handler env { c with input := args, gas }

/-- A text of the function, without its handler. -/
def describe (f : ContractFunction) : String :=
  s!"PrecompileFunction \x7b selector: {Selector.describe f.selector}, signature: {Quoted.text f.signature}, " ++
    s!"base_gas: {f.baseGas}, mutability: {f.mutability.name} \x7d"

end ContractFunction

/-! ### Tables -/

structure DispatchTable where
  functions : List ContractFunction
  fallback : Option ContractFunction := none

namespace DispatchTable

/-- The first selector that is in `seen` or stands earlier in the list. -/
def firstRepeat (seen : List Selector) : List Selector → Option Selector
  | [] => none
  | s :: ss => if s ∈ seen then some s else firstRepeat (s :: seen) ss

def ofFunctions (functions : List ContractFunction) : Except PrecompileError DispatchTable :=
  match firstRepeat [] (functions.map (·.selector)) with
  | some s => .error (.duplicateSelector s)
  | none => .ok { functions }

def find? (t : DispatchTable) (s : Selector) : Option ContractFunction :=
  t.functions.find? fun f => f.selector = s

/-- The function that an input selects, and its arguments: the bytes behind the selector, or the whole input for the
fallback, which also takes the empty input. -/
def route (t : DispatchTable) (input : Bytes) : Except PrecompileError (ContractFunction × Bytes) :=
  match input, t.fallback with
  | [], some f => .ok (f, [])
  | _, _ =>
    match Abi.selector? input with
    | none => .error (.inputTooShort input.length)
    | some s =>
      match t.find? s, t.fallback with
      | some f, _ => .ok (f, input.drop 4)
      | none, some f => .ok (f, input)
      | none, none => .error (.unknownSelector s)

/-- A call that selects no function keeps its gas. -/
def dispatch (t : DispatchTable) (env : Environment) (c : Call) : CallM CallOutput := do
  let (f, args) ← CallM.ofExcept c.gas id (t.route c.input)
  f.call env c args

end DispatchTable

end Interchain
