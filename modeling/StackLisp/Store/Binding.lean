import StackLisp.Store

/-!
Finding, making and changing bindings. A symbol is looked for in the scopes of the running call,
then in the scopes that its function was closed over, going outward along the enclosing functions,
and at last in the global scope. Scopes that a caller opened are never looked into.
-/

namespace StackLisp.Store

/-- What the first of some scopes that binds a number binds it to, and that scope. -/
def findAmong (store : Store) (id : Nat) (refs : List ScopeRef) : Option (Value × ScopeRef) :=
  refs.findSome? fun ref => ((store.scope ref).lookup id).map fun value => (value, ref)

/-- The scopes from the innermost one out to that of the nearest call. -/
def runningScopes (store : Store) : List ScopeRef → List ScopeRef
  | [] => []
  | ref :: outer =>
    if (store.scope ref).isCall then [ref] else ref :: runningScopes store outer

/-- The same among captured scopes, going outward. -/
def findCaptured (store : Store) (id : Nat) (captures : List Capture) :
    Option (Value × ScopeRef) :=
  captures.findSome? fun capture => store.findAmong id capture.scopes

def findBinding (store : Store) (scopes : List ScopeRef) (captures : List Capture) (id : Nat) :
    Option (Value × ScopeRef) :=
  store.findAmong id (store.runningScopes scopes) <|> store.findCaptured id captures <|>
    store.findAmong id [global]

/-- The scopes that a closure made here keeps: those of the running call, but never `last`. -/
def capturable (store : Store) (last : ScopeRef) (scopes : List ScopeRef) : List ScopeRef :=
  (store.runningScopes scopes).takeWhile (· != last)

def checkRebind (store : Store) (symbol : Symbol) (old new : Value) : Except Error Unit :=
  match store.lastingKind old, store.lastingKind new with
  | some oldKind, some newKind =>
    if newKind.assignableTo oldKind then .ok ()
    else .error (.type (.notAssignable newKind symbol.name oldKind))
  | _, _ => .ok ()

def checkBind (store : Store) (ref : ScopeRef) (symbol : Symbol) (value : Value) :
    Except Error Unit :=
  match (store.scope ref).lookup symbol.id with
  | some old => store.checkRebind symbol old value
  | none => .ok ()

def checkUpdate (store : Store) (ref : ScopeRef) (symbol : Symbol) (value : Value) :
    Except Error Unit :=
  match (store.scope ref).lookup symbol.id with
  | some old => store.checkRebind symbol old value
  | none => .error (.undefined symbol.name)

def bind (store : Store) (ref : ScopeRef) (symbol : Symbol) (value : Value) :
    Except Error Unit × Store :=
  match store.checkBind ref symbol value with
  | .ok _ => (.ok (), store.define ref symbol value)
  | .error error => (.error error, store)

def update (store : Store) (ref : ScopeRef) (symbol : Symbol) (value : Value) :
    Except Error Unit × Store :=
  match store.checkUpdate ref symbol value with
  | .ok _ => (.ok (), store.define ref symbol value)
  | .error error => (.error error, store)

def lookupPlain (store : Store) (scopes : List ScopeRef) (captures : List Capture)
    (symbol : Symbol) : Except Error Value :=
  match store.findBinding scopes captures symbol.id with
  | some (value, _) => .ok value
  | none => .error (.undefined symbol.name)

def assignPlain (store : Store) (scopes : List ScopeRef) (captures : List Capture)
    (symbol : Symbol) (value : Value) : Except Error Unit × Store :=
  match store.findBinding scopes captures symbol.id with
  | some (_, ref) => store.update ref symbol value
  | none => (.error (.undefined symbol.name), store)

/-- The field of a value on the way along a path; the name of the field enters the symbol table if
the value is a record. -/
def stepInto (store : Store) (path field : String) (value : Value) : Except Error Value × Store :=
  match value with
  | .record ref =>
    let (key, store) := store.intern field
    match store.getField ref (.symbol key) with
    | .ok (some found) => (.ok found, store)
    | .ok none => (.error (.noField path field), store)
    | .error error => (.error error, store)
  | other => (.error (.type (.fieldGet path field (store.kindOf other))), store)

def follow (store : Store) (path : String) (value : Value) : List String → Except Error Value × Store
  | [] => (.ok value, store)
  | field :: later =>
    match store.stepInto path field value with
    | (.ok found, store) => follow store path found later
    | (.error error, store) => (.error error, store)

/-- The value at a path: its first part is a variable, the others are fields. A name that starts
with a dot would again be a path, but no part of a path starts so. -/
def lookupPath (store : Store) (scopes : List ScopeRef) (captures : List Capture)
    (path : String) (parts : List String) : Except Error Value × Store :=
  match parts with
  | [] => (.error (.undefined path), store)
  | first :: fields =>
    let (root, store) := store.intern first
    match store.lookupPlain scopes captures root with
    | .ok value => store.follow path value fields
    | .error error => (.error error, store)

def lookup (store : Store) (scopes : List ScopeRef) (captures : List Capture)
    (symbol : Symbol) : Except Error Value × Store :=
  if symbol.isPath then
    store.lookupPath scopes captures symbol.name (pathParts symbol.name)
  else (store.lookupPlain scopes captures symbol, store)

def assignPath (store : Store) (scopes : List ScopeRef) (captures : List Capture)
    (path : String) (parts : List String) (value : Value) : Except Error Unit × Store :=
  match parts.reverse with
  | [] => (.error (.undefined path), store)
  | [only] =>
    let (root, store) := store.intern only
    store.assignPlain scopes captures root value
  | last :: before =>
    match store.lookupPath scopes captures path before.reverse with
    | (.error error, store) => (.error error, store)
    | (.ok (.record ref), store) =>
      let (key, store) := store.intern last
      store.setField ref (.symbol key) value
    | (.ok other, store) =>
      (.error (.type (.fieldSet path last (store.kindOf other))), store)

def assign (store : Store) (scopes : List ScopeRef) (captures : List Capture)
    (symbol : Symbol) (value : Value) : Except Error Unit × Store :=
  if symbol.isPath then
    store.assignPath scopes captures symbol.name (pathParts symbol.name) value
  else store.assignPlain scopes captures symbol value

end StackLisp.Store
