import Mathlib.Data.List.Infix
import Netd.Model.Core.Parse

/-! # Actions

The action language of the vendored `pnp_core/action.rs`: `NAME` or `NAME(arg, …)`, whitespace ignored
everywhere, names case-insensitive, a `PROMPT` fallback an action of its own. Texts are read as lists
of characters; the separators are ASCII, so cutting at characters and at octets is the same.
Allocation does not fail.
-/

namespace Netd.Model.Policy

/-- The story a REJECT tells the sender. -/
inductive RejectKind where
  | refused
  | prohibited
deriving DecidableEq, Repr

/-- A disposition. `join` holds an index of the forest's profile table. -/
inductive Verdict where
  | pass
  | reject (kind : RejectKind)
  | drop
  | join (index : ℕ)
  | ignore
  | down
deriving DecidableEq, Repr

namespace Verdict

/-- Higher wins a tie at equal priority. The packet layers and the interface layer have scales of
their own, which never meet in one forest. -/
def strictness : Verdict → ℕ
  | pass => 0
  | reject .prohibited => 1
  | reject .refused => 2
  | drop => 3
  | join _ => 0
  | ignore => 1
  | down => 2

def isInterface : Verdict → Bool
  | join _ | ignore | down => true
  | pass | reject _ | drop => false

def strictest (verdict other : Verdict) : Verdict :=
  if verdict.strictness < other.strictness then other else verdict

end Verdict

inductive TagOp where
  | set (value : U64)
  | clear
  | add (value : U64)
deriving DecidableEq, Repr

inductive CountAmount where
  | literal (value : U64)
  | length
deriving DecidableEq, Repr

/-- One parsed action. -/
inductive Action where
  | null
  | verdict (verdict : Verdict)
  | join (profile : String)
  | prompt (handler : String) (fallback : Option Action)
  | tag (name : String) (op : TagOp)
  | count (name : String) (amount : CountAmount)
  | report (level : ℕ)
deriving Repr

inductive ActionParseError where
  | unknownAction
  | malformed
  | badArity
  | badArgument
  | unknownRejectKind
deriving DecidableEq, Repr

/-- How deep `PROMPT` fallbacks may nest. -/
def maxPromptChain : ℕ := 4

/-! ## Arguments -/

/-- The arguments up to the parenthesis that closes the list, `depth` of them being open. -/
def splitArgsFrom (depth : ℕ) (current : List Char) (args : List (List Char)) :
    List Char → Except ActionParseError (List (List Char) × List Char)
  | [] => .error .malformed
  | c :: rest =>
    if c = '(' then splitArgsFrom (depth + 1) (current ++ [c]) args rest
    else if c = ')' then
      if depth = 1 then
        if !current.isEmpty then .ok (args ++ [current], rest)
        else if !args.isEmpty then .error .malformed
        else .ok (args, rest)
      else splitArgsFrom (depth - 1) (current ++ [c]) args rest
    else if c = ',' ∧ depth = 1 then
      if current.isEmpty then .error .malformed else splitArgsFrom depth [] (args ++ [current]) rest
    else splitArgsFrom depth (current ++ [c]) args rest

/-- A leading argument list, cut at its own commas, and what follows it. Without a leading parenthesis
there are no arguments. -/
def splitArgs : List Char → Except ActionParseError (List (List Char) × List Char)
  | '(' :: rest => splitArgsFrom 1 [] [] rest
  | input => .ok ([], input)

def upperEq (text : List Char) (upper : String) : Bool := text.map Char.toUpper == upper.toList

def RejectKind.fromName (name : List Char) : Option RejectKind :=
  if upperEq name "REFUSED" then some .refused
  else if upperEq name "PROHIBITED" then some .prohibited
  else none

/-- A verdict or abstention without arguments. -/
def bare (action : Action) : List (List Char) → Except ActionParseError Action
  | [] => .ok action
  | _ => .error .badArity

/-- `\` is folded to `/`. -/
def foldSeparators (path : List Char) : List Char := path.map fun c => if c = '\\' then '/' else c

/-- A separator in front, at the end, or next to another. -/
def badSeparators (path : List Char) : Bool :=
  path.isEmpty || path.head? == some '/' || path.getLast? == some '/' || decide (['/', '/'] <:+: path)

def parseJoin : List (List Char) → Except ActionParseError Action
  | [path] =>
    let profile := foldSeparators path
    if badSeparators profile then .error .badArgument else .ok (.join (String.ofList profile))
  | _ => .error .badArity

def parseReject : List (List Char) → Except ActionParseError Action
  | [] => .ok (.verdict (.reject .refused))
  | [kind] =>
    match RejectKind.fromName kind with
    | some kind => .ok (.verdict (.reject kind))
    | none => .error .unknownRejectKind
  | _ => .error .badArity

def parseTagOp (op : List Char) (operand : Option U64) : Except ActionParseError TagOp :=
  if upperEq op "SET" then .ok (.set (operand.getD 1))
  else if upperEq op "CLEAR" then if operand.isSome then .error .badArity else .ok .clear
  else if upperEq op "ADD" then .ok (.add (operand.getD 1))
  else .error .badArgument

/-- Arguments are never empty, so a tag and a counter always have a name. -/
def parseTag : List (List Char) → Except ActionParseError Action
  | [name, op] => (parseTagOp op none).map (.tag (String.ofList name))
  | [name, op, operand] =>
    match parseUnsigned 64 (String.ofList operand) with
    | some operand => (parseTagOp op (some operand)).map (.tag (String.ofList name))
    | none => .error .badArgument
  | _ => .error .badArity

def parseCount : List (List Char) → Except ActionParseError Action
  | [name] => .ok (.count (String.ofList name) (.literal 1))
  | [name, amount] =>
    if upperEq amount "LENGTH" then .ok (.count (String.ofList name) .length)
    else
      match parseUnsigned 64 (String.ofList amount) with
      | some amount => .ok (.count (String.ofList name) (.literal amount))
      | none => .error .badArgument
  | _ => .error .badArity

def parseReport : List (List Char) → Except ActionParseError Action
  | [level] =>
    match parseSigned 64 (String.ofList level) with
    | some level => if 1 ≤ level ∧ level ≤ 5 then .ok (.report level.toNat) else .error .badArgument
    | none => .error .badArgument
  | _ => .error .badArity

/-- A handler, and an action for when it has no answer. -/
def parsePrompt (parseFallback : List Char → Except ActionParseError (Action × List Char)) :
    List (List Char) → Except ActionParseError Action
  | [handler] => .ok (.prompt (String.ofList handler) none)
  | [handler, text] => do
    let (inner, left) ← parseFallback text
    if !left.isEmpty then throw .malformed
    match inner with
    | .null => return .prompt (String.ofList handler) none
    | other => return .prompt (String.ofList handler) (some other)
  | _ => .error .badArity

/-! ## Expressions -/

def isDelimiter (c : Char) : Bool := c == '(' || c == ',' || c == ')'

/-- An action by its upper-cased name. -/
def parseNamed (prompt : List (List Char) → Except ActionParseError Action) (name : String)
    (args : List (List Char)) : Except ActionParseError Action :=
  match name with
  | "NULL" => bare .null args
  | "PASS" => bare (.verdict .pass) args
  | "DROP" => bare (.verdict .drop) args
  | "IGNORE" => bare (.verdict .ignore) args
  | "DOWN" => bare (.verdict .down) args
  | "JOIN" => parseJoin args
  | "REJECT" => parseReject args
  | "PROMPT" => prompt args
  | "TAG" => parseTag args
  | "COUNT" => parseCount args
  | "REPORT" => parseReport args
  | _ => .error .unknownAction

/-- The action at the front, and what follows it. -/
def parseFront (prompt : List (List Char) → Except ActionParseError Action) (input : List Char) :
    Except ActionParseError (Action × List Char) := do
  let name := input.takeWhile fun c => !isDelimiter c
  if name.isEmpty || 8 < (String.ofList name).utf8ByteSize then throw .unknownAction
  let (args, rest) ← splitArgs (input.dropWhile fun c => !isDelimiter c)
  let action ← parseNamed prompt (toAsciiUppercase (String.ofList name)) args
  return (action, rest)

/-- `parse_one`, when fallbacks may still nest `chain` deep. -/
def parseOne : (chain : ℕ) → List Char → Except ActionParseError (Action × List Char)
  | 0 => parseFront fun _ => .error .malformed
  | chain + 1 => parseFront (parsePrompt (parseOne chain))

/-- One whole expression. -/
def parseAction (expr : String) : Except ActionParseError Action := do
  let (action, rest) ← parseOne maxPromptChain (expr.toList.filter fun c => !isAsciiWhitespace c)
  if !rest.isEmpty then throw .malformed
  return action

end Netd.Model.Policy
