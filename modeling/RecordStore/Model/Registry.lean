import RecordStore.Model.Basic

/-!
# Registries

The models of one application. A registry takes in a valid model whose name and table are new. It
finds its models by name and keeps the order in which they came; the two parts are filled one after
the other.
-/

namespace RecordStore

/-- The models of an application under their names, and the names in the order of acceptance. -/
structure Registry where
  app : String
  /-- The accepted models, each under its name. Of two entries of one name the first counts. -/
  named : List (String × Model)
  order : List String
deriving DecidableEq

namespace Registry

def empty (app : String) : Registry := ⟨app, [], []⟩

/-- A registry that holds the given models, in their order. -/
def of (app : String) (models : List Model) : Registry :=
  ⟨app, models.reverse.map fun m => (m.name, m), models.map Model.name⟩

def find? (r : Registry) (name : String) : Option Model := (r.named.find? (·.1 = name)).map (·.2)

/-- The models in the order of their acceptance. -/
def models (r : Registry) : List Model := r.order.filterMap r.find?

def length (r : Registry) : Nat := r.order.length

/-- Checks that a model is valid and that neither its name nor its table is taken. -/
def check (r : Registry) (m : Model) : Except ValidationError Unit := do
  m.validate
  if (r.find? m.name).isSome then .error (.modelRegistered m.name r.app)
  else if r.models.any (·.tableName = m.tableName) then .error (.tableUsed m.tableName r.app)
  else .ok ()

def pushName (name : String) (r : Registry) : Registry := { r with order := r.order ++ [name] }

def putModel (m : Model) (r : Registry) : Registry := { r with named := (m.name, m) :: r.named }

/-- Offers a model to the registry, which takes it in if it passes the checks. -/
def offer (m : Model) : EStateM ValidationError Registry Unit := do
  MonadExcept.ofExcept ((← get).check m)
  modify (pushName m.name)
  modify (putModel m)

def register (r : Registry) (m : Model) : Except ValidationError Registry :=
  match offer m r with
  | .ok () r => .ok r
  | .error e _ => .error e

def ofModels (app : String) (models : List Model) : Except ValidationError Registry :=
  models.foldlM register (empty app)

def get (r : Registry) (name : String) : Except QueryError Model :=
  if ¬ isIdentifier name then .error (.invalidModelName name)
  else match r.find? name with
    | some m => .ok m
    | none => .error (.noSuchModel name r.app)

end Registry

end RecordStore
