import DBusLog.Server.Interface

/-!
# The log client

The category part of `dbuslog_client.c`: the snapshot of `GetAll` or `GetAll2`, and the signals
about categories. A category is an object that the table by ids and the public array point to.
-/

namespace DBusLog

/-- The signals of a client about what it mirrors; a category is given by its pointer and its
index. -/
inductive ClientSignal
  | connectedChanged
  | backlogChanged
  | categoryAdded (category : Nat) (index : Option Nat)
  | categoryRemoved (category : Nat) (index : Nat)
  | categoryFlags (category : Nat) (index : Nat)
  deriving DecidableEq

/-- `DBusLogClient` and its private part, without the receiver. -/
structure DBusLogClient where
  /-- All category objects that have been created; a pointer is a place in the list. -/
  memory : List DBusLogCategory
  /-- The table from ids to pointers. -/
  table : KeyedTable (Prod.fst : UInt32 × Nat → UInt32)
  /-- The public array. -/
  categories : List Nat
  connected : Bool
  /-- The handlers are connected to the signals of the proxy. -/
  handling : Bool
  defaultLevel : Level
  backlog : Int32
  emitted : List ClientSignal
  /-- An array has been read beyond its end. -/
  overread : Bool
  deriving DecidableEq

namespace DBusLogClient

/-- `dbus_log_client_new`; connecting has begun. -/
def new : DBusLogClient where
  memory := []
  table := .empty
  categories := []
  connected := false
  handling := false
  defaultLevel := Level.undefined
  backlog := 0
  emitted := []
  overread := false

/-- `dbus_log_client_emit` -/
def emit (c : DBusLogClient) (signal : ClientSignal) : DBusLogClient :=
  { c with emitted := c.emitted ++ [signal] }

/-- The name of the category behind a pointer. -/
def nameAt (memory : List DBusLogCategory) (category : Nat) : String :=
  ((memory[category]?).map (·.name)).getD ""

/-- `dbus_log_category_values`, sorted with `dbus_log_category_sort_name` -/
def sortedValues (memory : List DBusLogCategory)
    (table : KeyedTable (Prod.fst : UInt32 × Nat → UInt32)) : List Nat :=
  (table.values.map Prod.snd).insertionSort fun p q => nameAt memory p ≤ nameAt memory q

/-- `dbus_log_client_category` -/
def category (c : DBusLogClient) (id : UInt32) : Option Nat :=
  if id ≠ 0 then (c.table.lookup id).map Prod.snd else none

/-- `dbus_log_client_category_index` -/
def categoryIndex (c : DBusLogClient) (category : Option Nat) : Option Nat :=
  category.bind fun p => c.categories.idxOf? p

/-! ## Signals of the proxy -/

/-- `dbus_log_client_category_remove` -/
def categoryRemove (c : DBusLogClient) (id : UInt32) : Bool × DBusLogClient :=
  match c.category id, c.categoryIndex (c.category id) with
  | some p, some index =>
    (true, { c with
      categories := c.categories.take index ++ c.categories.drop (index + 1)
      table := c.table.erase id }.emit (.categoryRemoved p index))
  | _, _ => (false, c)

/-- `dbus_log_client_category_removed` -/
def categoryRemoved (c : DBusLogClient) (id : UInt32) : DBusLogClient := (c.categoryRemove id).2

/-- The search for the new category: the first place at which the arrays differ, and whether the
old array has been read beyond its end. What is there does not count as the same pointer. -/
def findAdded : List Nat → List Nat → Nat → Option Nat × Bool
  | [], _, _ => (none, false)
  | _ :: _, [], i => (some i, true)
  | p :: new, q :: old, i => if p ≠ q then (some i, false) else findAdded new old (i + 1)

/-- `dbus_log_client_category_added` -/
def categoryAdded (c : DBusLogClient) (name : String) (id flags : UInt32) : DBusLogClient :=
  let p := c.memory.length
  let c := { c with memory := c.memory ++ [DBusLogCategory.new name id] }
  -- a category with that id makes room, with a signal of its own
  let c := (c.categoryRemove id).2
  let c := { c with
    memory := c.memory.modify p fun cat => { cat with flags := flags.toUInt64 }
    table := c.table.insert (id, p) }
  let old := c.categories
  let c := { c with categories := sortedValues c.memory c.table }
  let (index, overread) := findAdded c.categories old 0
  { c with overread := c.overread || overread }.emit (.categoryAdded p index)

/-- `dbus_log_client_category_flags_changed` -/
def categoryFlagsChanged (c : DBusLogClient) (id flags : UInt32) : DBusLogClient :=
  match c.category id, c.categoryIndex (c.category id) with
  | some p, some index =>
    { c with memory := c.memory.modify p fun cat => { cat with flags := flags.toUInt64 } }.emit
      (.categoryFlags p index)
  | _, _ => c

/-- A signal of the server reaches the proxy. The client has no handlers for the other signals. -/
def handle (c : DBusLogClient) (signal : BusSignal) : DBusLogClient :=
  if c.handling then
    match signal with
    | .categoryAdded name id flags => c.categoryAdded name id flags
    | .categoryRemoved id => c.categoryRemoved id
    | .categoryFlagsChanged id flags => c.categoryFlagsChanged id flags
    | _ => c
  else c

/-! ## The snapshot -/

/-- The loop of `dbus_log_client_decode_categories`, into the table of the init context. -/
def decodeCategories (entries : List (String × UInt32 × UInt32 × Int32)) :
    List DBusLogCategory × KeyedTable (Prod.fst : UInt32 × Nat → UInt32) →
    List DBusLogCategory × KeyedTable (Prod.fst : UInt32 × Nat → UInt32) := fun start =>
  entries.foldl (fun (memory, table) (name, id, flags, level) =>
    (memory ++ [{ DBusLogCategory.new name id with
      flags := flags.toUInt64
      level := level.toUInt32 }], table.insert (id, memory.length))) start

/-- `dbus_log_client_connected` -/
def becomeConnected (c : DBusLogClient) : DBusLogClient :=
  let wasConnected := c.connected
  let c := { c with handling := true, connected := true }
  if c.connected ≠ wasConnected then c.emit .connectedChanged else c

/-- `dbus_log_client_init_free` without an error: the table of the init context takes the place of
the old one. -/
def initFree (c : DBusLogClient)
    (categories : KeyedTable (Prod.fst : UInt32 × Nat → UInt32)) : DBusLogClient :=
  { c with
    categories := sortedValues c.memory categories
    table := categories }.becomeConnected

/-- `dbus_log_client_init_get_all_finished` and `dbus_log_client_init_get_all2_finished`, which
takes the backlog as well. Any other reply is an error, after which nothing happens. -/
def getAllFinished (c : DBusLogClient) : Reply → DBusLogClient
  | .methodReturn [.int32 _, .int32 level, .categories entries] =>
    let (memory, table) := decodeCategories entries (c.memory, .empty)
    { c with memory := memory, defaultLevel := level.toUInt32 }.initFree table
  | .methodReturn [.int32 _, .int32 level, .categories entries, .int32 backlog] =>
    let (memory, table) := decodeCategories entries (c.memory, .empty)
    { c with memory := memory, defaultLevel := level.toUInt32, backlog := backlog }.initFree table
  | _ => c

/-- What the table says about an id: the name and the flags of the category. -/
def entryAt (c : DBusLogClient) (id : UInt32) : Option (String × UInt64) :=
  (c.table.lookup id).bind fun e => (c.memory[e.2]?).map fun cat => (cat.name, cat.flags)

end DBusLogClient

end DBusLog
