import Mathlib
import WebSSH.Lib.Python

/-!
# Redacting the details of an audit event

`sanitize_audit_details` and `log_security_event` of `audit_logger.py`. What stands under a sensitive
key is replaced before anything looks at it. Only the four built-in containers are entered: any other
sequence is turned into a text, with whatever it holds.
-/

namespace WebSSH.Audit
open Lib

/-- What Python knows of characters, and `repr` of a text. -/
structure Unicode where
  isalnum : Char → Bool
  lower : Char → List Char
  upper : List Char → List Char
  reprStr : String → String

/-! ## Values -/

/-- A key: what `str` and `repr` make of it. -/
structure Key where
  text : String
  repr : String
  deriving DecidableEq

inductive SequenceKind
  | list
  | tuple
  | set
  | frozenset
  /-- `collections.deque`, a sequence of another type. -/
  | deque
  deriving DecidableEq

/-- `isinstance(value, (list, tuple, set, frozenset))` -/
def SequenceKind.isBuiltin (kind : SequenceKind) : Bool := kind ≠ .deque

inductive Value
  | none
  | bool (b : Bool)
  | int (n : Int)
  | float (text : String)
  | str (s : String)
  | mapping (items : List (Key × Value))
  | sequence (kind : SequenceKind) (items : List Value)
  /-- Any other object: what `str` and `repr` make of it. -/
  | object (text repr : String)

variable (u : Unicode)

def strKey (s : String) : Key := ⟨s, u.reprStr s⟩

/-- `repr` of a container, of the texts of its items. -/
def SequenceKind.render (kind : SequenceKind) (items : List String) : String :=
  let inner := ", ".intercalate items
  match kind, items with
  | .list, _ => "[" ++ inner ++ "]"
  | .tuple, [item] => "(" ++ item ++ ",)"
  | .tuple, _ => "(" ++ inner ++ ")"
  | .set, [] => "set()"
  | .set, _ => "\x7b" ++ inner ++ "\x7d"
  | .frozenset, [] => "frozenset()"
  | .frozenset, _ => "frozenset(\x7b" ++ inner ++ "\x7d)"
  | .deque, _ => "deque([" ++ inner ++ "])"

mutual

/-- `repr(value)` -/
def reprValue : Value → String
  | .none => "None"
  | .bool b => if b then "True" else "False"
  | .int n => toString n
  | .float text => text
  | .str s => u.reprStr s
  | .mapping items => "\x7b" ++ ", ".intercalate (reprEntries items) ++ "\x7d"
  | .sequence kind items => kind.render (reprItems items)
  | .object _ repr => repr

def reprEntries : List (Key × Value) → List String
  | [] => []
  | (key, value) :: rest => (key.repr ++ ": " ++ reprValue value) :: reprEntries rest

def reprItems : List Value → List String
  | [] => []
  | value :: rest => reprValue value :: reprItems rest

end

/-- `str(value)` -/
def strValue : Value → String
  | .str s => s
  | .object text _ => text
  | value => reprValue u value

/-! ## Sensitive keys -/

def sensitiveAuditDetailKeys : List String :=
  ["assertion", "authorization", "cookie", "credential", "password", "passphrase", "private_key",
    "recovery_code", "secret", "token", "totp_code"]

def sensitiveAuditDetailParts : List String :=
  ["assertion", "assertions", "authorization", "cookie", "cookies", "credential", "credentials",
    "passphrase", "passphrases", "password", "passwords", "secret", "secrets", "token", "tokens"]

/-- `.strip('_')` -/
def stripUnderscores (text : List Char) : List Char :=
  ((text.dropWhile (· = '_')).reverse.dropWhile (· = '_')).reverse

/-- `_audit_detail_key_is_sensitive` -/
def auditDetailKeyIsSensitive (key : String) : Bool :=
  let normalized := stripUnderscores <|
    key.toList.flatMap fun c => if u.isalnum c then u.lower c else ['_']
  sensitiveAuditDetailKeys.any (fun k => k.toList = normalized) ||
    sensitiveAuditDetailKeys.any (fun k => ('_' :: k.toList) <:+ normalized) ||
    (normalized.splitOn '_').any fun part => sensitiveAuditDetailParts.any fun p => p.toList = part

/-! ## Redaction -/

/-- `text.replace(c, by)` -/
def replaceChar (c : Char) (by_ : List Char) (text : List Char) : List Char :=
  text.flatMap fun d => if d = c then by_ else [d]

/-- `_sanitize_log_value`, of `str(value)`. -/
def sanitizeLogText (text : String) : String :=
  let s := replaceChar '\n' ['\\', 'n'] text.toList
  let s := replaceChar '\r' ['\\', 'r'] s
  let s := replaceChar '\x00' ['\\', 'x', '0', '0'] s
  String.ofList (s.take 512)

def sanitizeLogValue (value : Value) : String := sanitizeLogText (strValue u value)

/-- `d[key] = value` -/
def setItem (key : Key) (value : Value) : List (Key × Value) → List (Key × Value)
  | [] => [(key, value)]
  | (k, v) :: rest =>
    if k.text = key.text then (k, value) :: rest else (k, v) :: setItem key value rest

/-- A dictionary comprehension. -/
def dictOf (items : List (Key × Value)) : List (Key × Value) :=
  items.foldl (fun d item => setItem item.1 item.2 d) []

/-- `_redact_audit_detail`, where `remaining` is `4 - depth`. -/
def redactAuditDetail : Nat → String → Value → Value
  | remaining, key, value =>
    if auditDetailKeyIsSensitive u key then .str "[REDACTED]"
    else
      match remaining, value with
      | 0, _ => .str "[TRUNCATED]"
      | n + 1, .mapping items =>
        .mapping <| dictOf <| (items.take 64).map fun item =>
          (strKey u (sanitizeLogText item.1.text), redactAuditDetail n item.1.text item.2)
      | n + 1, .sequence kind items =>
        if kind.isBuiltin then .sequence .list ((items.take 64).map (redactAuditDetail n ""))
        else .str (sanitizeLogValue u (.sequence kind items))
      | _ + 1, .none => .none
      | _ + 1, .bool b => .bool b
      | _ + 1, .int n => .int n
      | _ + 1, .float text => .float text
      | _ + 1, value => .str (sanitizeLogValue u value)

/-- `sanitize_audit_details` -/
def sanitizeAuditDetails (details : List (Key × Value)) : List (Key × Value) :=
  dictOf <| (details.take 64).map fun item =>
    (strKey u (sanitizeLogText item.1.text), redactAuditDetail u 4 item.1.text item.2)

/-- The line of `log_security_event`. -/
def logSecurityEvent (event : String) (details : List (Key × Value)) : String :=
  let name := (stripUnderscores <| (u.upper event.toList).map fun c =>
    if u.isalnum c then c else '_').take 96
  let safeDetails := (sanitizeAuditDetails u details).insertionSort fun a b => a.1.text ≤ b.1.text
  let texts := safeDetails.map fun item =>
    match item.2 with
    | .none => ""
    | value => " | " ++ item.1.text ++ "=" ++ sanitizeLogValue u value
  String.ofList name ++ String.join texts

end WebSSH.Audit
