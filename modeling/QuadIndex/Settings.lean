import QuadIndex.Error

/-!
# Settings of a store

Where a store lives, how it is kept, how its tables are called and whether their rows begin with
fingerprints. Settings are read from a document that names any of them or lists the first few.
-/

namespace QuadIndex

/-- The settings of a store. -/
structure Settings where
  path : String := "./tristore_data"
  cacheCapacity : Nat := 256 * 1024 * 1024
  flushEveryMillis : Option Nat := some 1000
  compression : Bool := true
  temporary : Bool := false
  tablePrefix : String := "tristore_"
  hashed : Bool := false
  deriving DecidableEq, Repr

/-- A value in a settings document. A number is known only where it is whole and not negative. -/
inductive Setting where
  | null
  | boolean (b : Bool)
  | number (n : Option Nat)
  | text (s : String)
  | list (items : List Setting)
  | object (fields : List (String × Setting))
  deriving Inhabited

namespace Settings

/-- The settings of a temporary store, which has no path. -/
def ofTemporary : Settings := { path := "", temporary := true }

/-- The settings of a store at a path. -/
def atPath (path : String) : Settings := { path }

/-- The names of the settings in their order. -/
def names : List String :=
  ["path", "cache_capacity", "flush_every_ms", "compression", "temporary", "table_prefix",
    "hashed_layouts"]

/-- The settings with one of them changed, unless the value is of the wrong kind. Names that are no
settings are passed over. -/
def set? (s : Settings) (name : String) (value : Setting) : Option Settings :=
  match name, value with
  | "path", .text path => some { s with path }
  | "cache_capacity", .number (some n) =>
    if n < 2 ^ 64 then some { s with cacheCapacity := n } else none
  | "flush_every_ms", .null => some { s with flushEveryMillis := none }
  | "flush_every_ms", .number (some n) =>
    if n < 2 ^ 64 then some { s with flushEveryMillis := some n } else none
  | "compression", .boolean compression => some { s with compression }
  | "temporary", .boolean temporary => some { s with temporary }
  | "table_prefix", .text tablePrefix => some { s with tablePrefix }
  | "hashed_layouts", .boolean hashed => some { s with hashed }
  | name, _ => if name ∈ names then none else some s

/-- The settings that a document changes from the default ones. -/
def ofDocument? : Setting → Option Settings
  | .object fields => fields.foldlM (fun s (name, value) => s.set? name value) {}
  | .list items =>
    if items.length ≤ names.length then
      (names.zip items).foldlM (fun s (name, value) => s.set? name value) {}
    else none
  | _ => none

/-- Refuses settings that cannot be used. -/
def validate (s : Settings) : Except Error Unit :=
  if s.tablePrefix = "" then .error (.config .emptyTablePrefix)
  else if !s.temporary && s.path = "" then .error (.config .missingPath)
  else .ok ()

/-- The name of the table of a layout. -/
def table (s : Settings) (l : Layout) : String := s.tablePrefix ++ l.name

/-- The name of the table of the statistics. -/
def statisticsTable (s : Settings) : String := s.tablePrefix ++ "stats"

end Settings

end QuadIndex
