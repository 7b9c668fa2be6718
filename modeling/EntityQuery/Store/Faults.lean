import EntityQuery.Store.Memory

/-!
# A store with faults

Over a store in memory, single indexes can be replaced by given entries, which need be neither sorted
nor readable; opening an index or counting its entities can be made to fail; link names can be made
unreadable; and every access can be refused at once.
-/

namespace EntityQuery

structure EntityIndexFault where
  typeId : TypeId
  entries : List Entry
  /-- The failure of opening the index, if it fails. -/
  openError : Option QueryError
  count : Except QueryError Nat

structure LinkIndexFault where
  typeId : TypeId
  linkId : LinkId
  entries : List Entry
  /-- The failure of opening the index, if it fails. -/
  openError : Option QueryError

/-- A store in memory with the faults that are put over it. -/
structure FaultyStore where
  memory : MemoryStore
  /-- Whether every access to an index is refused. -/
  refusing : Bool
  /-- The newest replacement of an index comes first. -/
  entityFaults : List EntityIndexFault
  /-- The newest replacement of an index comes first. -/
  linkFaults : List LinkIndexFault
  /-- The failure of looking a link name up, if it fails. -/
  resolveError : Option QueryError

namespace FaultyStore

def ofMemory (memory : MemoryStore) : FaultyStore := ⟨memory, false, [], [], none⟩

def refusal : QueryError := .reported (.storeIo "index access while fail_on_access is set")

/-- The store with all replacements of indexes removed. -/
def clearIndexes (store : FaultyStore) : FaultyStore :=
  { store with entityFaults := [], linkFaults := [] }

def entityFault? (store : FaultyStore) (typeId : TypeId) : Option EntityIndexFault :=
  store.entityFaults.find? fun fault => fault.typeId = typeId

/-- The replacement of the index of a link of a type. -/
def linkFault? (store : FaultyStore) (typeId : TypeId) (linkId : LinkId) :
    Option LinkIndexFault :=
  store.linkFaults.find? fun fault => fault.typeId = typeId && fault.linkId = linkId

def opened (openError : Option QueryError) (entries : List Entry) :
    Except QueryError (List Entry) :=
  match openError with
  | some error => .error error
  | none => .ok entries

/-- A transaction of the store at a snapshot version. -/
def view (store : FaultyStore) (version : Nat) : StoreView where
  version
  entities number typeId :=
    if store.refusing then .error refusal
    else
      match store.entityFault? typeId with
      | some fault => opened fault.openError fault.entries
      | none => store.memory.view.entities number typeId
  links number typeId linkId :=
    if store.refusing then .error refusal
    else
      match store.linkFault? typeId linkId with
      | some fault => opened fault.openError fault.entries
      | none => store.memory.view.links number typeId linkId
  count typeId :=
    if store.refusing then .refused refusal
    else
      match store.entityFault? typeId with
      | some fault => .called fault.count
      | none => store.memory.view.count typeId
  resolve name :=
    match store.resolveError with
    | some error => .error error
    | none => store.memory.view.resolve name

end FaultyStore

end EntityQuery
