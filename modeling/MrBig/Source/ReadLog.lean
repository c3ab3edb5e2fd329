import MrBig.Source.Msgs

/-!
# The event log: `get_event_data`, `read_log` and `free_log`

readlog.c. What Windows answers comes with each event handle. Blocks of the heap are
numbered in the order of their allocation. A field that is never assigned after
`big_malloc` has no value; what the memory held there decides only how the comparisons
with NULL at `CLEANUP` come out.
-/

set_option autoImplicit false

namespace MrBig.Source.ReadLog
open Library

def maxProviderNameLength : Nat := 255
def maxEventMessageSize : Nat := 0x2000
def eventBatchSize : Nat := 255

/-- How a call of `EvtFormatMessage` ends: in success or with the last error. -/
inductive FormatStatus where
  | success
  | unresolvedValueInsert
  | unresolvedParameterInsert
  | insufficientBuffer
  | otherError
  deriving DecidableEq, Repr

/-- The first call asks for the size. -/
def FormatStatus.Sized (s : FormatStatus) : Prop := s ≠ .otherError

/-- The second call fetches the text. -/
def FormatStatus.Formatted (s : FormatStatus) : Prop :=
  s = .success ∨ s = .unresolvedValueInsert ∨ s = .unresolvedParameterInsert

instance (s : FormatStatus) : Decidable s.Sized := inferInstanceAs (Decidable (_ ≠ _))
instance (s : FormatStatus) : Decidable s.Formatted := inferInstanceAs (Decidable (_ ∨ _))

/-- What `get_event_data` meets at one event. A property is `none` where its variant has
the type EvtVarTypeNull; texts are as `wcstombs` leaves them in the buffers. -/
structure EventOutcome where
  /-- The first `EvtRender` fails with ERROR_INSUFFICIENT_BUFFER. -/
  measured : Bool
  rendered : Bool
  timeCreated : Option Nat
  providerName : Option Text
  eventId : Option Nat
  recordId : Option Nat
  level : Option Nat
  sizing : FormatStatus
  formatting : FormatStatus
  message : Text
  /-- The memory of the new block holds NULL where `source` lies, and where `message` does. -/
  sourceHeldNull : Bool
  messageHeldNull : Bool
  deriving DecidableEq, Repr

/-- A char pointer: into a block of the heap, or to a string literal. -/
inductive StrPtr where
  | heap (block : Nat) (text : Text)
  | literal (text : Text)
  deriving DecidableEq, Repr

def StrPtr.text : StrPtr → Text
  | .heap _ text => text
  | .literal text => text

/-- struct event in its block, without the link. -/
structure EventBlock where
  node : Nat
  gtime : Option Int
  wtime : Option Int
  record : Option Int
  id : Option Int
  type : Option Int
  source : Option StrPtr
  message : Option StrPtr
  deriving DecidableEq, Repr

/-- FileTimeVal in seconds since 1970. -/
def unixTime (fileTime : Nat) : Int := (fileTime / 10000000 : Nat) - 11644473600

/-- `big_strdup` takes the next block. -/
def bigStrdup (next : Nat) (text : Text) : Nat × StrPtr := (next + 1, .heap next text)

def eventSource (next : Nat) : Option Text → Nat × Option StrPtr
  | none => (next, none)
  | some providerName =>
    let (next, source) := bigStrdup next (providerName.take (maxProviderNameLength - 1))
    (next, some source)

/-- The message is formatted for events with a provider only. -/
def eventMessage (next : Nat) (o : EventOutcome) : Nat × Option StrPtr :=
  if o.providerName = none ∨ ¬ o.sizing.Sized ∨ ¬ o.formatting.Formatted then (next, none)
  else
    let (next, message) := bigStrdup next (o.message.take (maxEventMessageSize - 1))
    (next, some message)

/-- `result->source != NULL && result->message == NULL` -/
def lacksMessage (o : EventOutcome) (source message : Option StrPtr) : Bool :=
  (source.isSome || !o.sourceHeldNull) && message.isNone && o.messageHeldNull

/-- `get_event_data`: the blocks taken, and the event unless it returns NULL. -/
def getEventData (next : Nat) (o : EventOutcome) : Nat × Option EventBlock :=
  if o.measured = false ∨ o.rendered = false then (next, none)
  else
    let node := next
    let (next, source) := eventSource (next + 1) o.providerName
    let (next, message) := eventMessage next o
    (next, some {
      node := node
      gtime := o.timeCreated.map unixTime
      wtime := o.timeCreated.map unixTime
      record := o.recordId.map fun n : Nat => Word.signed 64 n
      id := o.eventId.map Int.ofNat
      type := o.level.map Int.ofNat
      source := source
      message :=
        if lacksMessage o source message then some (.literal "(No message)".toList)
        else message })

/-- `read_log` on its way: the blocks taken, the list of events, and whether it has stored
through a null pointer. -/
structure Reading where
  next : Nat
  events : List EventBlock
  nullStore : Bool
  deriving DecidableEq, Repr

/-- The body of the loop over the handles of a batch. -/
def readEvent (s : Reading) (o : EventOutcome) : Reading :=
  if s.nullStore then s
  else
    match getEventData s.next o with
    | (next, none) => { s with next := next, nullStore := true }
    | (next, some e) => { s with next := next, events := e :: s.events }

section

variable {H : Type}

/-- The handles of all batches, or of the first one only. -/
def fetched (fast : Bool) : List (List H) → List H
  | [] => []
  | hEvents :: batches => hEvents ++ if fast then [] else fetched fast batches

/-- `read_log`, where `evtQuery` is the query with the bound it is given: it fails, or
`EvtNext` returns batches of handles until there are no more. -/
def readLog (evtQuery : Int → Option (List (List H))) (outcome : H → EventOutcome) (next : Nat)
    (maxage : Int) (fast : Bool) : Reading :=
  match evtQuery maxage with
  | none => ⟨next, [], false⟩
  | some batches => ((fetched fast batches).map outcome).foldl readEvent ⟨next, [], false⟩

end

/-! ### `free_log`, and what `msgs` reads -/

/-- The argument of a call of `big_free`. -/
inductive Freed where
  | heap (block : Nat)
  | literal
  | unassigned
  deriving DecidableEq, Repr

def freed : Option StrPtr → Freed
  | some (.heap block _) => .heap block
  | some (.literal _) => .literal
  | none => .unassigned

/-- The calls of `big_free` that `free_log` makes. -/
def freeLog (events : List EventBlock) : List Freed :=
  events.flatMap fun e => [freed e.source, freed e.message, .heap e.node]

/-- The event that `msgs` reads in a block, where all that it reads was assigned. -/
def EventBlock.event (e : EventBlock) : Option Event := do
  let gtime ← e.gtime
  let id ← e.id
  let type ← e.type
  let source ← e.source
  let message ← e.message
  pure ⟨gtime, id, type, source.text, message.text⟩

/-- A subkey whose log is read by `read_log`; the blocks are numbered from `next` on. -/
def logKey {H : Type} (achKey : Text) (evtQuery : Int → Option (List (List H)))
    (outcome : H → EventOutcome) (next : Nat) : LogKey where
  achKey := achKey
  readLog := fun maxage fast =>
    (readLog evtQuery outcome next maxage fast).events.filterMap EventBlock.event

/-! ### Batches -/

theorem fetched_all {H : Type} (batches : List (List H)) :
    fetched false batches = batches.flatten := by
  induction batches with
  | nil => rfl
  | cons hEvents batches ih => simp [fetched, ih]

theorem fetched_fast {H : Type} (batches : List (List H)) :
    fetched true batches = batches.headD [] := by
  cases batches with
  | nil => rfl
  | cons hEvents batches => simp [fetched]

end MrBig.Source.ReadLog
